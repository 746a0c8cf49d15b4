import StainedGlass.Firewall.Config

/-! The administrator's commands of `bin/sg-firewall`. -/

namespace StainedGlass.Firewall

open Lib

structure Token where
  text : Str
  length_eq : text.length = 8
  hex : ∀ c ∈ text, (48 ≤ c ∧ c ≤ 57) ∨ (97 ≤ c ∧ c ≤ 102)

def endsWith (s suffix : Str) : Bool := suffix.isSuffixOf s

def displayName (u : Unicode) (program : Str) : Str :=
  let base := (program.reverse.takeWhile fun c => c ≠ 92 && c ≠ 47).reverse
  if endsWith (u.lower base) (str ".exe") then base.take (base.length - 4) else base

def checkText (what : String) (s : Str) : Except Fail Str :=
  if s.length > 1024 ∨ s.any (· ∈ str "\t\r\n\x00") then
    .error ⟨"invalid", what ++ " cannot contain tabs or line breaks."⟩
  else .ok s

def badProgram : Fail :=
  ⟨"invalid",
    "A program is its full path, such as C:\\Program Files\\App\\app.exe or /usr/bin/app."⟩

def checkProgram (p : Str) : Except Fail (Option Str) :=
  if p ∈ [str "", str "*"] then .ok none
  else
    match checkText "A program's path" p with
    | .error e => .error e
    | .ok p => if winPath p || linuxPath p then .ok (some p) else .error badProgram

def regId : Str → Bool := dollar fun s =>
  1 ≤ s.length && s.length ≤ 200 && s.all fun c => 32 ≤ c && c ≠ 124

def networkUuid : Str → Bool := dollar fun s =>
  1 ≤ s.length && s.length ≤ 64 && s.all fun c => (48 ≤ c && c ≤ 57) || isLetter c || c = 45

def invalid (message : String) : Fail := ⟨"invalid", message⟩

def noSuchRule : Fail := ⟨"notfound", "No such rule."⟩

def updateFirst (p : Rule → Bool) (f : Rule → Rule) : List Rule → Option (Rule × List Rule)
  | [] => none
  | r :: rules =>
    if p r then some (f r, f r :: rules)
    else (updateFirst p f rules).map fun (x, rules) => (x, r :: rules)

def orElse (profiles default : Finset Profile) : Finset Profile :=
  if profiles = ∅ then default else profiles

def isAppRule (u : Unicode) (program : Str) (r : Rule) : Bool :=
  (r.program.filter (· ≠ [])).any (fun p => programKey u p = programKey u program) && r.ports = none

def addRule (u : Unicode) (token : Token) (c : Config) (action : Action) (prof : Finset Profile)
    (proto : Option Proto) (ports : Option Ports) (prog : Option Str) (name source : Str) :
    Config × List Str :=
  let set (r : Rule) : Rule :=
    { r with
      enabled := prof ≠ ∅
      action := action
      profiles := orElse prof r.profiles
      name := if name = [] then r.name else name }
  let old := match prog, ports with
    | some prog, none => updateFirst (isAppRule u prog) set c.rules
    | _, _ => none
  match old with
  | some (r, rules) => ({ c with rules := rules }, [r.id])
  | none =>
    let title := match prog with
      | some prog => displayName u prog
      | none => str "Port " ++ portsText ports
    let r : Rule := ⟨token.text, prof ≠ ∅, action, orElse prof Finset.univ, proto, ports, prog,
      if name = [] then title else name, source⟩
    ({ c with rules := c.rules ++ [r] }, [r.id])

def sources : List Str := ["user", "prompt", "upgrade", "netsh"].map str

def cmdRuleAdd (u : Unicode) (token : Token) (c : Config) (a : List Str) :
    Except Fail (Config × List Str) :=
  match a with
  | action :: profiles :: proto :: ports :: program :: name :: rest =>
    if rest.length > 1 then
      .error (invalid "rule-add ACTION PROFILES PROTOCOL PORTS PROGRAM NAME [SOURCE]")
    else
      let source := rest.headD (str "user")
      match actionOf action with
      | none => .error (invalid "A rule allows or blocks.")
      | some action =>
        match protoOf proto with
        | none => .error (invalid "The protocol is tcp, udp or any.")
        | some proto =>
          if source ∉ sources then .error (invalid "Unknown source.")
          else do
            let prof ← parseProfiles u profiles
            let p ← parsePorts u ports
            let prog ← checkProgram program
            if prog = none ∧ p = none then
              .error (invalid "A rule names a program, ports, or both.")
            else
              let name ← checkText "A rule's name" name
              .ok (addRule u token c action prof proto p prog name source)
  | _ => .error (invalid "rule-add ACTION PROFILES PROTOCOL PORTS PROGRAM NAME [SOURCE]")

def registryId (rid : Str) : Option Str :=
  if startsWith rid (str "reg:") then some (rid.drop 4) else none

def setRule (c : Config) (rid : Str) (on : Bool) (action : Action) (prof : Finset Profile) :
    Except Fail (Config × List Str) :=
  match registryId rid with
  | some rid =>
    if regId rid then
      .ok ({ c with
        overrides := c.overrides.set rid (.changed on action (orElse prof Finset.univ)) }, [])
    else .error (invalid "No such rule.")
  | none =>
    let set (r : Rule) : Rule :=
      { r with enabled := on, action := action, profiles := orElse prof r.profiles }
    match updateFirst (·.id = rid) set c.rules with
    | some (_, rules) => .ok ({ c with rules := rules }, [])
    | none => .error noSuchRule

def cmdRuleSet (u : Unicode) (c : Config) (a : List Str) : Except Fail (Config × List Str) :=
  match a with
  | [rid, enabled, action, profiles] =>
    match (actionOf action).filter fun _ => enabled ∈ [str "0", str "1"] with
    | none => .error (invalid "rule-set ID 0|1 allow|block PROFILES")
    | some action => do
      let prof ← parseProfiles u profiles
      setRule c rid (enabled = str "1" ∧ prof ≠ ∅) action prof
  | _ => .error (invalid "rule-set ID ENABLED ACTION PROFILES")

def cmdRuleRemove (c : Config) (a : List Str) : Except Fail (Config × List Str) :=
  match a with
  | [rid] =>
    match registryId rid with
    | some rid =>
      if regId rid then .ok ({ c with overrides := c.overrides.set rid .removed }, [])
      else .error (invalid "No such rule.")
    | none =>
      let rules := c.rules.filter (·.id ≠ rid)
      if rules.length = c.rules.length then .error noSuchRule else .ok ({ c with rules := rules }, [])
  | _ => .error (invalid "rule-remove ID")

def cmdGroup (u : Unicode) (c : Config) (a : List Str) : Except Fail (Config × List Str) :=
  let usage := invalid
    "group ssh|remote-desktop|file-sharing|network-discovery|domain-controller PROFILES"
  match a with
  | [g, profiles] =>
    match groupOf g with
    | none => .error usage
    | some g => do
      let prof ← parseProfiles u profiles
      .ok ({ c with groups := Function.update c.groups g prof }, [])
  | _ => .error usage

def profileArg (s : Str) : Option (List Profile) :=
  if s = str "all" then some profileOrder else (profileOf s).map ([·])

def cmdProfile (c : Config) (a : List Str) : Except Fail (Config × List Str) :=
  let usage := invalid "profile domain|private|public|all on|off"
  match a with
  | [p, state] =>
    match (profileArg p).filter fun _ => state ∈ [str "on", str "off"] with
    | none => .error usage
    | some ps =>
      let profiles := ps.foldl (fun f p => Function.update f p (decide (state = str "on"))) c.profiles
      .ok ({ c with profiles := profiles }, [])
  | _ => .error usage

def cmdNetwork (c : Config) (a : List Str) : Except Fail (Config × List Str) :=
  let usage := invalid "network UUID private|public [NAME]"
  match a with
  | uuid :: category :: rest =>
    match (categoryOf category).filter fun _ => rest.length ≤ 1 with
    | none => .error usage
    | some category =>
      if networkUuid uuid then do
        let name ← checkText "A network's name" (rest.headD [])
        let old := ((c.networks.get? uuid).map (·.2)).getD []
        .ok ({ c with
          networks := c.networks.set uuid (category, if name = [] then old else name) }, [])
      else .error (invalid "A network is its connection's UUID.")
  | _ => .error usage

inductive Command where
  | ruleAdd
  | ruleSet
  | ruleRemove
  | group
  | profile
  | network

def Command.exec (u : Unicode) (token : Token) (c : Config) (a : List Str) :
    Command → Except Fail (Config × List Str)
  | ruleAdd => cmdRuleAdd u token c a
  | ruleSet => cmdRuleSet u c a
  | ruleRemove => cmdRuleRemove c a
  | group => cmdGroup u c a
  | profile => cmdProfile c a
  | network => cmdNetwork c a

structure Invocation where
  command : Command
  args : List Str
  token : Token

/-- A command that succeeds: what it meant to write and the text that is then in the file. -/
def Invocation.run (u : Unicode) (i : Invocation) (file : Option Str) : Option (Config × Str) :=
  match i.command.exec u i.token (readConfig u file) i.args with
  | .error _ => none
  | .ok (c, _) => (writeConfig u c).map (c, ·)

end StainedGlass.Firewall
