import StainedGlass.Firewall.Commands
import StainedGlass.Firewall.Ruleset

/-! The daemon of `bin/sg-firewall`. -/

namespace StainedGlass.Firewall

open Lib

/-- A process as `/proc` shows it: the link `exe`, empty when it cannot be read, its arguments
and its account. -/
structure Process where
  exe : Str
  argv : List Str
  uid : Int

def removeSuffix (s suffix : Str) : Str :=
  if endsWith s suffix then s.take (s.length - suffix.length) else s

def Process.path (p : Process) : Str := removeSuffix p.exe (str " (deleted)")

def basename (path : Str) : Str := (path.reverse.takeWhile (· ≠ 47)).reverse

def isWine (exe : Str) : Bool :=
  let b := basename exe
  startsWith b (str "wine") && (str "preloader" <:+: b || b ∈ [str "wine", str "wine64"])

def isWineserver (exe : Str) : Bool := basename exe ∈ [str "wineserver", str "wineserver64"]

def interpreters : Str → Bool := dollar fun s =>
  s ∈ ["perl", "ruby", "node", "nodejs", "bash", "sh", "dash", "java", "mono"].map str ||
    (startsWith s (str "python") &&
      (s.drop 6).all fun c => (48 ≤ c && c ≤ 57) || c = 46)

structure Accounts where
  systemUid : Int
  wineGroup : Int → Bool

def Accounts.person (a : Accounts) (uid : Int) : Bool :=
  (1000 ≤ uid && uid < 60000) || a.wineGroup uid

def Process.program (p : Process) : Str :=
  match p.argv with
  | _ :: script :: _ =>
    if interpreters (basename p.path) && startsWith script (str "/") then script else p.path
  | _ => p.path

structure Found where
  kind : Kind
  program : Option Str
  uid : Int
  deriving DecidableEq

/-- The search of `identify` among the processes that hold a socket; `best` is what a
wineserver before them has left. -/
def owner (a : Accounts) (best : Option Found) : List Process → Option Found
  | [] => best
  | p :: procs =>
    if isWineserver p.path then owner a (best.or (some ⟨.unknown, none, p.uid⟩)) procs
    else if isWine p.path then
      match p.argv.head?.filter winPath with
      | some prog => some ⟨.windows, some prog, p.uid⟩
      | none => some ⟨.unknown, none, p.uid⟩
    else
      let kind := if a.person p.uid || p.uid = a.systemUid then Kind.linuxUser else .system
      some ⟨kind, some p.program, p.uid⟩

structure Socket where
  proto : Proto
  port : Nat
  inode : Nat
  uid : Int
  port_le : port ≤ 65535

structure Hint where
  program : Str
  uid : Int
  time : Nat

def noticeProgram (u : Unicode) (msg : Str) (sender : Process) : Option Str :=
  match msg.splitOn 10 with
  | first :: line :: _ =>
    if first ≠ str "SGFW1" then none
    else
      let program := u.strip line
      if !winPath program || program.length > 1024 || !isWine sender.path then none else some program
  | _ => none

def identifyOne (a : Accounts) (hints : List (Nat × Hint)) (procs : Nat → List Process)
    (cache : List (Nat × Found)) (s : Socket) : Listener × List (Nat × Found) :=
  let found (f : Found) : Listener :=
    ⟨s.proto, s.port, s.inode, f.program, f.kind, f.uid, s.port_le⟩
  match hints.lookup s.inode with
  | some h => (found ⟨.windows, some h.program, h.uid⟩, cache)
  | none =>
    match cache.lookup s.inode with
    | some f => (found f, cache)
    | none =>
      match owner a none (procs s.inode) with
      | some f => (found f, (s.inode, f) :: cache)
      | none => (found ⟨.unknown, none, s.uid⟩, cache)

def identify (a : Accounts) (hints : List (Nat × Hint)) (procs : Nat → List Process) :
    List (Nat × Found) → List Socket → List Listener × List (Nat × Found)
  | cache, [] => ([], cache)
  | cache, s :: sockets =>
    let (l, cache) := identifyOne a hints procs cache s
    let (ls, cache) := identify a hints procs cache sockets
    (l :: ls, cache)

inductive Answer where
  | other
  | cancel (text : Option Str)

def answerName (u : Unicode) : Option Str → Str
  | none => []
  | some text =>
    match splitlines (u.strip ((universalNewlines text).take 1024)) with
    | [] => []
    | first :: _ => (clean u first).take 200

def blockRule (u : Unicode) (token : Token) (program name : Str) : Rule :=
  ⟨token.text, true, .block, Finset.univ, none, none, some program,
    if name = [] then displayName u program else name, str "prompt"⟩

def cancel (u : Unicode) (token : Token) (program name : Str) (file : Option Str) :
    Option (Option Str) :=
  let c := readConfig u file
  if knownProgram u c.rules program then some file
  else (writeConfig u { c with rules := c.rules ++ [blockRule u token program name] }).map some

structure Ask where
  key : Int × Str
  uid : Int
  program : Str

/-- The file after the answers and whether one of them wrote it; nothing when a write raises. -/
def answers (u : Unicode) (answer : Ask → Option Answer) (token : Ask → Token) :
    List Ask → Option Str → Option Str × Option Bool
  | [], file => (file, some false)
  | q :: asks, file =>
    match answer q with
    | some (.cancel text) =>
      if q.program = [] then answers u answer token asks file
      else
        match cancel u (token q) q.program (answerName u text) file with
        | some file' =>
          let (after, changed) := answers u answer token asks file'
          (after, changed.map (· || !knownProgram u (readConfig u file).rules q.program))
        | none => (file, none)
    | _ => answers u answer token asks file

/-- Whom to ask about a listener: the program's own account if it is a person's, else whoever
sits at the screen. -/
def target (a : Accounts) (seat : Option Int) (l : Listener) : Option Int :=
  let uid := if l.ownerUid = a.systemUid || !a.person l.ownerUid then seat else some l.ownerUid
  uid.filter a.person

def wanted (u : Unicode) (a : Accounts) (seat : Option Int) (plan : Plan) : List Ask :=
  plan.ask.filterMap fun l =>
    match l.named, target a seat l with
    | some p, some uid => some ⟨(l.ownerUid, programKey u p), uid, p⟩
    | _, _ => none

def addAsks (writable : Int → Bool) : List Ask → List Ask → List Ask
  | [], asks => asks
  | q :: want, asks =>
    if asks.any (·.key = q.key) || !writable q.uid then addAsks writable want asks
    else if q.program.any isSurrogate then asks
    else addAsks writable want (asks ++ [q])

def quiet (conf : Config) (inUse : List Profile) : Bool :=
  (if inUse = [] then [.pub] else inUse).all fun p =>
    (conf.settings p .disableNotifications).any (· ≠ 0)

def updateAsks (u : Unicode) (a : Accounts) (seat : Option Int) (writable : Int → Bool) (silent : Bool)
    (plan : Plan) (rules : List Rule) (asks : List Ask) : List Ask :=
  let want := if silent then [] else wanted u a seat plan
  addAsks writable want (asks.filter fun q => q.program = [] || !knownProgram u rules q.program)

def override (conf : Config) (r : Rule) : Option Rule :=
  match conf.overrides.get? (r.id.drop 4) with
  | none => some r
  | some .removed => none
  | some (.changed enabled action profiles) =>
    some { r with enabled := enabled, action := action, profiles := profiles }

def allRules (conf : Config) (registry : List Rule) : List Rule :=
  conf.rules ++ registry.filterMap (override conf)

structure Daemon where
  hints : List (Nat × Hint)
  owners : List (Nat × Found)
  asks : List Ask
  /-- Whether the last look at the file, `conf_mtime`, found one. -/
  seen : Bool

def Daemon.start : Daemon := ⟨[], [], [], false⟩

structure Scene where
  now : Nat
  sockets : List Socket
  processes : Nat → List Process
  accounts : Accounts
  registry : List Rule
  settings : Profile → Setting → Option Nat
  inUse : List Profile
  seat : Option Int
  writable : Int → Bool
  answer : Ask → Option Answer
  token : Ask → Token

/-- A file that is gone is made anew, but not by a daemon that never saw one. -/
def reloaded (u : Unicode) (seen : Bool) (file : Option Str) : Option Str :=
  if file.isNone && seen then writeConfig u (readConfig u none) else file

def Daemon.tick (u : Unicode) (s : Scene) (d : Daemon) (file : Option Str) : Daemon × Option Str :=
  let seen := file.isSome
  match answers u s.answer s.token d.asks (reloaded u d.seen file) with
  | (file, none) => ({ d with seen }, file)
  | (file, some changed) =>
    -- after a Cancel `reload_conf` makes a new `Config`, which has none of the programs' settings
    let conf := { readConfig u file with settings := if changed then fun _ _ => none else s.settings }
    let rules := allRules conf s.registry
    let (listeners, owners) := identify s.accounts d.hints s.processes d.owners s.sockets
    let live (inode : Nat) : Bool := listeners.any (·.inode = inode)
    let plan := evaluate u conf rules listeners
    (⟨d.hints.filter fun h => live h.1 || s.now ≤ h.2.time + 30, owners.filter fun o => live o.1,
      updateAsks u s.accounts s.seat s.writable (quiet conf s.inUse) plan rules d.asks, seen || changed⟩, file)

def Daemon.notice (u : Unicode) (now inode : Nat) (msg : Str) (sender : Process) (d : Daemon) : Daemon :=
  match noticeProgram u msg sender with
  | some program =>
    { d with hints := (inode, ⟨program, sender.uid, now⟩) :: d.hints.filter (·.1 ≠ inode) }
  | none => d

end StainedGlass.Firewall
