import StainedGlass.Firewall.Daemon
import StainedGlass.Lib.Replace

/-! The processes of `bin/sg-firewall` beside each other. -/

namespace StainedGlass.Firewall

open Lib

def cmdReset (ids : List Str) (c : Config) : Config :=
  { Config.default with
    networks := c.networks
    overrides := ids.foldl (fun d rid => d.set rid .removed) .empty }

def pushChecks (rid text : Str) : Bool :=
  regId rid && decide (text.length ≤ 8192) && !text.any (· ∈ str "\t\r\n\x00")

/-- `cmd_registry_push`, after the file of the pushes: a rule that is added again is in force again. -/
def cmdRegistryPush (rid text : Str) (c : Config) : Option Config :=
  if pushChecks rid text ∧ text ≠ [] ∧ c.overrides.get? rid = some .removed then
    some { c with overrides := c.overrides.erase rid }
  else none

structure Arrival where
  connections : List (List Str)
  active : List Str
  listeners : List Listener
  token : Nat → Token

def privateNetwork (active : List Str) (networks : Dict Str (Category × Str)) (fields : List Str) :
    Dict Str (Category × Str) :=
  match fields with
  | uuid :: type :: name :: _ =>
    if type ≠ str "loopback" ∧ (uuid ∈ active ∨ type = str "802-3-ethernet") then networks.set uuid (.priv, name)
    else networks
  | _ => networks

def onePort (port : Nat) : Option Ports := (portRange port port).toOption.map fun r => ⟨r, []⟩

/-- None for port 0, whose range 0-0 makes a line that no reader takes. -/
def upgradeRule (u : Unicode) (token : Token) (l : Listener) : Option Rule :=
  (onePort l.port).map fun ports =>
    match l.named.filter fun _ => l.kind = .system || l.kind = .linuxUser with
    | some p =>
      ⟨token.text, true, .allow, Finset.univ, some l.proto, some ports, some p,
        displayName u p ++ str " (allowed when the firewall arrived)", str "upgrade"⟩
    | none =>
      ⟨token.text, true, .allow, Finset.univ, some l.proto, some ports, none,
        str "Port " ++ dec l.port ++ str " (open when the firewall arrived)", str "upgrade"⟩

def upgradeRules (u : Unicode) (token : Nat → Token) : Nat → List (Proto × Nat) → List Decision → List Rule
  | _, _, [] => []
  | n, seen, d :: ds =>
    if d.allowed = Finset.univ ∨ (d.listener.proto = .udp ∧ ephemeral ≤ d.listener.port) ∨
        (d.listener.proto, d.listener.port) ∈ seen then upgradeRules u token n seen ds
    else
      (upgradeRule u (token n) d.listener).toList ++
        upgradeRules u token (n + 1) ((d.listener.proto, d.listener.port) :: seen) ds

def cmdMigrate (u : Unicode) (a : Arrival) (c : Config) : Config :=
  let c := { c with networks := a.connections.foldl (privateNetwork a.active) c.networks }
  { c with rules := c.rules ++ upgradeRules u a.token 0 [] (evaluate u c c.rules a.listeners).decisions }

/-- What a process does to the file, or with it. -/
inductive Job where
  | command (i : Invocation)
  | reset (ids : List Str)
  | push (rid text : Str)
  | migrate (again : Bool) (a : Arrival)
  | cancel (token : Token) (program name : Str)
  | reload (changed : Bool)
  | look

def Job.edit (u : Unicode) : Job → Option Str → Option Str
  | command i, file => (i.run u file).map Prod.snd
  | reset ids, file => writeConfig u (cmdReset ids (readConfig u file))
  | push rid text, file => (cmdRegistryPush rid text (readConfig u file)).bind (writeConfig u)
  | migrate again a, file =>
    if file.isSome ∧ !again then none else writeConfig u (cmdMigrate u a (readConfig u file))
  | cancel token program name, file =>
    if knownProgram u (readConfig u file).rules program then none
    else writeConfig u { readConfig u file with
      rules := (readConfig u file).rules ++ [blockRule u token program name] }
  | reload changed, file => if file.isSome ∨ !changed then none else writeConfig u .default
  | look, _ => none

def Job.change (u : Unicode) (j : Job) (file : Option Str) : Option Str :=
  match j.edit u file with
  | some text => some text
  | none => file

@[irreducible]
def finish (text : Option Str) (k : Prog Nat) : Prog Nat :=
  match text with
  | some text => .commit text k
  | none => .release k

/-- The file is read before the lock is taken, and what was read is what is written. -/
def reloadConf (u : Unicode) (k : Prog Nat) (there : Bool) : Prog Nat :=
  .read fun file =>
    if there then k
    else .lock ((Job.reload true).change u) (.stat fun there =>
      if there then .release k else finish (writeConfig u (readConfig u file)) k)

/-- A job's calls, and then `k`.  A command that fails before it takes the lock does as little
as one that fails with it. -/
def Job.prog (u : Unicode) (k : Prog Nat) : Job → Prog Nat
  | reload changed => .stat fun there => if changed then reloadConf u k there else k
  | look => .read fun _ => k
  | migrate again a =>
    .lock ((Job.migrate again a).change u) (.stat fun there =>
      if there ∧ !again then .release k
      else .read fun file => finish (writeConfig u (cmdMigrate u a (readConfig u file))) k)
  | command i => .lock ((Job.command i).change u) (.read fun file => finish ((Job.command i).edit u file) k)
  | reset ids => .lock ((Job.reset ids).change u) (.read fun file => finish ((Job.reset ids).edit u file) k)
  | push rid text => .lock ((Job.push rid text).change u) (.read fun file => finish ((Job.push rid text).edit u file) k)
  | cancel token program name =>
    .lock ((Job.cancel token program name).change u)
      (.read fun file => finish ((Job.cancel token program name).edit u file) k)

def program (u : Unicode) (jobs : List Job) : Prog Nat := jobs.foldr (fun j k => j.prog u k) .halt

end StainedGlass.Firewall
