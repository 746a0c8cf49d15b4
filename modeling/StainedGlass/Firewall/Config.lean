import Mathlib
import StainedGlass.Lib.Dict
import StainedGlass.Lib.Text

/-! The configuration of `bin/sg-firewall` and its file. -/

namespace StainedGlass.Firewall

open Lib

structure Fail where
  kind : String
  message : String
  deriving DecidableEq

inductive Profile where
  | domain
  | priv
  | pub
  deriving DecidableEq

instance : Fintype Profile where
  elems := {.domain, .priv, .pub}
  complete p := by cases p <;> decide

def Profile.text : Profile → Str
  | domain => str "domain"
  | priv => str "private"
  | pub => str "public"

def profileOrder : List Profile := [.domain, .priv, .pub]

def profileOf (s : Str) : Option Profile := profileOrder.find? (·.text = s)

inductive Proto where
  | tcp
  | udp
  deriving DecidableEq

def Proto.text : Proto → Str
  | tcp => str "tcp"
  | udp => str "udp"

def protoText (proto : Option Proto) : Str := (proto.map Proto.text).getD (str "any")

def protoOf (s : Str) : Option (Option Proto) :=
  [some .tcp, some .udp, none].find? fun p => protoText p = s

inductive Action where
  | allow
  | block
  deriving DecidableEq

def Action.text : Action → Str
  | allow => str "allow"
  | block => str "block"

def actionOf (s : Str) : Option Action := [Action.allow, .block].find? (·.text = s)

def clean (u : Unicode) (s : Str) : Str := s.map fun c => if u.printable c && c ≠ 9 then c else 32

structure PortRange where
  lo : Nat
  hi : Nat
  one_le : 1 ≤ lo
  le : lo ≤ hi
  hi_le : hi ≤ 65535
  deriving DecidableEq

def PortRange.text (r : PortRange) : Str :=
  if r.lo = r.hi then dec r.lo else dec r.lo ++ 45 :: dec r.hi

structure Ports where
  first : PortRange
  rest : List PortRange
  deriving DecidableEq

def Ports.list (p : Ports) : List PortRange := p.first :: p.rest

def portNumber (u : Unicode) (s : Str) : Option Nat :=
  if 1 ≤ s.length ∧ s.length ≤ 5 then digitsValue u.digit s else none

def badPorts : Fail := ⟨"invalid", "Ports are numbers or ranges, such as 80, 443, 8000-8080."⟩

def badPort : Fail := ⟨"invalid", "A port is a number from 1 to 65535."⟩

def portRange (lo hi : Nat) : Except Fail PortRange :=
  if h : 1 ≤ lo ∧ lo ≤ hi ∧ hi ≤ 65535 then .ok ⟨lo, hi, h.1, h.2.1, h.2.2⟩ else .error badPort

def parsePart (u : Unicode) (part : Str) : Except Fail PortRange :=
  match ((u.strip part).splitOn 45).mapM (portNumber u) with
  | some [lo] => portRange lo lo
  | some [lo, hi] => portRange lo hi
  | _ => .error badPorts

def parsePorts (u : Unicode) (text : Str) : Except Fail (Option Ports) :=
  let text := u.strip text
  if text ∈ ["", "*", "any", "Any"].map str then .ok none
  else
    match (text.splitOn 44).mapM (parsePart u) with
    | .ok (first :: rest) => .ok (some ⟨first, rest⟩)
    | .ok [] => .ok none
    | .error e => .error e

def portsText : Option Ports → Str
  | none => str "*"
  | some p => [44].intercalate (p.list.map PortRange.text)

def portIn (ports : Option Ports) (port : Nat) : Bool :=
  ports.all fun p => p.list.any fun r => r.lo ≤ port && port ≤ r.hi

def badProfiles : Fail := ⟨"invalid", "Networks are domain, private, public, all or none."⟩

def addProfile (u : Unicode) (out : Finset Profile) (p : Str) : Except Fail (Finset Profile) :=
  match profileOf (u.strip p) with
  | some p => .ok (insert p out)
  | none => .error badProfiles

def parseProfiles (u : Unicode) (text : Str) : Except Fail (Finset Profile) :=
  let text := u.lower (u.strip text)
  if text ∈ ["all", "any", "*"].map str then .ok Finset.univ
  else if text ∈ ["", "none", "-"].map str then .ok ∅
  else (text.splitOn 44).foldlM (addProfile u) ∅

def profilesText (profiles : Finset Profile) : Str :=
  if profiles = Finset.univ then str "all"
  else
    let text := [44].intercalate ((profileOrder.filter (· ∈ profiles)).map Profile.text)
    if text = [] then str "none" else text

def isLetter (c : Nat) : Bool := (65 ≤ c && c ≤ 90) || (97 ≤ c && c ≤ 122)

def dollar (pattern : Str → Bool) (s : Str) : Bool :=
  pattern s || (s.getLast? = some 10 && pattern s.dropLast)

def noControl (s : Str) : Bool := s.all (32 ≤ ·)

def winPath : Str → Bool := dollar fun
  | 92 :: 92 :: rest => noControl rest
  | d :: 58 :: 92 :: rest => isLetter d && noControl rest
  | _ => false

def linuxPath : Str → Bool := dollar fun
  | 47 :: rest => noControl rest
  | _ => false

def programKey (u : Unicode) (program : Str) : Str :=
  if winPath program then u.lower (program.map fun c => if c = 47 then 92 else c) else program

structure Rule where
  id : Str
  enabled : Bool
  action : Action
  profiles : Finset Profile
  proto : Option Proto
  ports : Option Ports
  program : Option Str
  name : Str
  source : Str
  deriving DecidableEq

def programText (program : Option Str) : Str :=
  match program with
  | some (c :: p) => c :: p
  | _ => str "*"

def Rule.fields (u : Unicode) (r : Rule) : List Str :=
  [str "rule", r.id, if r.enabled then str "1" else str "0", r.action.text, profilesText r.profiles,
    protoText r.proto, portsText r.ports, programText r.program, clean u r.name, r.source]

def Rule.line (u : Unicode) (r : Rule) : Str := [9].intercalate (r.fields u)

inductive Group where
  | ssh
  | remoteDesktop
  | fileSharing
  | networkDiscovery
  | domainController
  deriving DecidableEq

namespace Group

def text : Group → Str
  | ssh => str "ssh"
  | remoteDesktop => str "remote-desktop"
  | fileSharing => str "file-sharing"
  | networkDiscovery => str "network-discovery"
  | domainController => str "domain-controller"

def title : Group → Str
  | ssh => str "Remote access (SSH)"
  | remoteDesktop => str "Remote Desktop"
  | fileSharing => str "File and Printer Sharing"
  | networkDiscovery => str "Network Discovery"
  | domainController => str "Domain Controller"

def profiles : Group → Finset Profile
  | ssh => Finset.univ
  | remoteDesktop => Finset.univ
  | fileSharing => {.domain, .priv}
  | networkDiscovery => {.domain, .priv}
  | domainController => Finset.univ

def ports : Group → List (Proto × Str)
  | ssh => [(.tcp, str "22")]
  | remoteDesktop => [(.tcp, str "3389"), (.udp, str "3389")]
  | fileSharing => [(.tcp, str "139,445,631"), (.udp, str "137,138")]
  | networkDiscovery => [(.udp, str "1900,3702,5353,5355"), (.tcp, str "5357,5358")]
  | domainController =>
    [(.tcp, str "53,88,135,389,445,464,636,3268,3269,49152-65535"), (.udp, str "53,88,123,389,464")]

end Group

def groupOrder : List Group :=
  [.ssh, .remoteDesktop, .fileSharing, .networkDiscovery, .domainController]

def groupOf (s : Str) : Option Group := groupOrder.find? (·.text = s)

inductive Category where
  | priv
  | pub
  deriving DecidableEq

def Category.text : Category → Str
  | priv => str "private"
  | pub => str "public"

def categoryOf (s : Str) : Option Category := [Category.priv, .pub].find? (·.text = s)

inductive Override where
  | removed
  | changed (enabled : Bool) (action : Action) (profiles : Finset Profile)
  deriving DecidableEq

inductive Setting where
  | doNotAllowExceptions
  | defaultInboundAction
  | disableNotifications
  | allowInboundEchoRequest
  deriving DecidableEq

@[ext] structure Config where
  profiles : Profile → Bool
  networks : Dict Str (Category × Str)
  rules : List Rule
  overrides : Dict Str Override
  groups : Group → Finset Profile
  settings : Profile → Setting → Option Nat

def Config.default : Config where
  profiles _ := true
  networks := .empty
  rules := []
  overrides := .empty
  groups := Group.profiles
  settings _ _ := none

def profileLine (c : Config) (p : Profile) : Str :=
  [9].intercalate [str "profile", p.text, if c.profiles p then str "on" else str "off"]

def groupLine (c : Config) (g : Group) : Str :=
  [9].intercalate [str "group", g.text, profilesText (c.groups g)]

def networkLine (u : Unicode) (n : Str × Category × Str) : Str :=
  [9].intercalate [str "network", n.1, n.2.1.text, clean u n.2.2]

def overrideLine : Str × Override → Str
  | (rid, .removed) => [9].intercalate [str "override", rid, str "removed"]
  | (rid, .changed enabled action profiles) =>
    [9].intercalate [str "override", rid, if enabled then str "1" else str "0", action.text,
      profilesText profiles]

def headLines : List Str :=
  [str "# Stained Glass Firewall -- written by sg-firewall (Settings > Network & Internet > Firewall).",
    str "# Change it there, or with sg-firewall as root; a hand edit is read too."]

def Config.lines (u : Unicode) (c : Config) : List Str :=
  headLines ++ profileOrder.map (profileLine c) ++ groupOrder.map (groupLine c) ++
    c.networks.items.map (networkLine u) ++ c.rules.map (Rule.line u) ++
    c.overrides.items.map overrideLine

def writeConfig (u : Unicode) (c : Config) : Option Str :=
  let text := joinLines (c.lines u)
  if text.any isSurrogate then none else some text

def parseRule (u : Unicode) : List Str → Option Rule
  | rid :: enabled :: action :: profiles :: proto :: ports :: program :: name :: rest =>
    match actionOf action, protoOf proto with
    | some action, some proto =>
      match parseProfiles u profiles, parsePorts u ports with
      | .ok profiles, .ok ports =>
        some ⟨rid, enabled = str "1", action, profiles, proto, ports,
          if program ∈ [str "*", []] then none else some program, name,
          rest.headD (str "user")⟩
      | _, _ => none
    | _, _ => none
  | _ => none

inductive Entry where
  | profile (p : Profile) (on : Bool)
  | group (g : Group) (profiles : Finset Profile)
  | network (uuid : Str) (n : Category × Str)
  | rule (r : Rule)
  | override (rid : Str) (o : Override)
  deriving DecidableEq

def parseProfile : List Str → Option Entry
  | p :: state :: _ => (profileOf p).map (.profile · (state ≠ str "off"))
  | _ => none

def parseGroup (u : Unicode) : List Str → Option Entry
  | g :: profiles :: _ =>
    match groupOf g, parseProfiles u profiles with
    | some g, .ok profiles => some (.group g profiles)
    | _, _ => none
  | _ => none

def parseNetwork : List Str → Option Entry
  | uuid :: category :: rest =>
    (categoryOf category).map fun category => .network uuid (category, rest.headD [])
  | _ => none

def parseOverride (u : Unicode) : List Str → Option Entry
  | rid :: enabled :: rest =>
    if enabled = str "removed" then some (.override rid .removed)
    else
      match rest with
      | action :: profiles :: _ =>
        match actionOf action, parseProfiles u profiles with
        | some action, .ok profiles =>
          some (.override rid (.changed (enabled = str "1") action profiles))
        | _, _ => none
      | _ => none
  | _ => none

def parseFields (u : Unicode) : List Str → Option Entry
  | [] => none
  | word :: f =>
    if word = str "profile" then parseProfile f
    else if word = str "group" then parseGroup u f
    else if word = str "network" then parseNetwork f
    else if word = str "rule" then (parseRule u f).map .rule
    else if word = str "override" then parseOverride u f
    else none

def parseLine (u : Unicode) (raw : Str) : Option Entry :=
  if u.strip raw = [] ∨ startsWith (u.lstrip raw) (str "#") then none
  else parseFields u (raw.splitOn 9)

def Config.add (c : Config) : Entry → Config
  | .profile p on => { c with profiles := Function.update c.profiles p on }
  | .group g profiles => { c with groups := Function.update c.groups g profiles }
  | .network uuid n => { c with networks := c.networks.set uuid n }
  | .rule r => { c with rules := c.rules ++ [r] }
  | .override rid o => { c with overrides := c.overrides.set rid o }

def parseConfig (u : Unicode) (text : Str) : Config :=
  ((splitlines text).filterMap (parseLine u)).foldl Config.add .default

def readConfig (u : Unicode) : Option Str → Config
  | some text => parseConfig u (universalNewlines text)
  | none => .default

end StainedGlass.Firewall
