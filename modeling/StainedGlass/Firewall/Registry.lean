import StainedGlass.Firewall.Daemon
import StainedGlass.Lib.RegText

/-! The rules that programs store in the registry, in `bin/sg-firewall`. -/

namespace StainedGlass.Firewall

open Lib RegText

def hexValue (c : Nat) : Nat :=
  if c ≤ 57 then c - 48 else if 97 ≤ c then c - 87 else c - 55

def number (base : Nat) (digits : Str) : Nat :=
  digits.foldl (fun n c => n * base + hexValue c) 0

def digitRun (isDigit : Nat → Bool) (k : Nat) (s : Str) : Str := (s.takeWhile isDigit).take k

def simple : List (Nat × Nat) :=
  [(97, 7), (98, 8), (116, 9), (110, 10), (118, 11), (102, 12), (114, 13), (101, 27)]

def regUnescape : Str → Str
  | [] => []
  | [c] => [c]
  | c :: d :: rest =>
    if c ≠ 92 then c :: regUnescape (d :: rest)
    else if d = 120 then
      if digitRun isHex 4 rest = [] then 120 :: regUnescape rest
      else number 16 (digitRun isHex 4 rest) :: regUnescape (rest.drop (digitRun isHex 4 rest).length)
    else if isOct d then
      number 8 (digitRun isOct 3 (d :: rest)) ::
        regUnescape (rest.drop ((digitRun isOct 3 (d :: rest)).length - 1))
    else (simple.lookup d).getD d :: regUnescape rest
termination_by s => s.length
decreasing_by all_goals (simp only [List.length_cons, List.length_drop]; omega)

def winVars : List (Str × Str) :=
  [(str "%programfiles%", str "C:\\Program Files"),
    (str "%programfiles(x86)%", str "C:\\Program Files (x86)"),
    (str "%programw6432%", str "C:\\Program Files"),
    (str "%systemroot%", str "C:\\windows"),
    (str "%windir%", str "C:\\windows"),
    (str "%systemdrive%", str "C:"),
    (str "%programdata%", str "C:\\ProgramData"),
    (str "%allusersprofile%", str "C:\\ProgramData")]

def expandWin (u : Unicode) (path : Str) : Str :=
  match winVars.find? fun v => startsWith (u.lower path) v.1 with
  | some (var, val) => val ++ path.drop var.length
  | none => path

def registryItem (item : Str) : Option (Str × Str) :=
  match item.span (· ≠ 61) with
  | (k, _ :: v) => some (k, v)
  | (_, []) => none

structure RegistryText where
  profiles : Finset Profile
  lports : List Str
  fields : List (Str × Str)

def RegistryText.add (u : Unicode) (t : RegistryText) (item : Str × Str) : RegistryText :=
  let k := u.lower item.1
  if k = str "profile" then
    match profileOf (u.lower item.2) with
    | some p => { t with profiles := insert p t.profiles }
    | none => t
  else if k = str "lport" then { t with lports := t.lports ++ [item.2] }
  else { t with fields := t.fields ++ [(k, item.2)] }

def RegistryText.get (t : RegistryText) (k : String) : Option Str := t.fields.lookup (str k)

def registryText (u : Unicode) (text : Str) : RegistryText :=
  ((text.splitOn 124).filterMap registryItem).foldl (RegistryText.add u) ⟨∅, [], []⟩

def registryPorts (u : Unicode) : List Str → List PortRange → Option (List PortRange)
  | [], ports => some ports
  | p :: ps, ports =>
    match parsePorts u p with
    | .error _ => registryPorts u ps ports
    | .ok none => none
    | .ok (some got) => registryPorts u ps (ports ++ got.list)

def portsOf : List PortRange → Option Ports
  | [] => none
  | first :: rest => some ⟨first, rest⟩

def lastPart (app : Str) : Str := (app.splitOn 92).getLastD []

def isWord (word : String) (s : Str) : Bool := s.map asciiLower = str word

def ruleFromRegistry (u : Unicode) (rid text : Str) : Option Rule :=
  let t := registryText u text
  let ports := registryPorts u t.lports []
  if u.lower ((t.get "dir").getD (str "In")) ≠ str "in" then none
  else if (t.get "protocol").any (· ∉ ["6", "17", "256"].map str) then none
  else if t.lports ≠ [] ∧ ports = some [] then none
  else
    let proto := if t.get "protocol" = some (str "6") then some .tcp
      else if t.get "protocol" = some (str "17") then some .udp
      else none
    let app := match t.get "app" with
      | none => none
      | some [] => some []
      | some app => if u.lower app ≠ str "system" then some (expandWin u app) else none
    let named := app.filter (· ≠ [])
    let name := match (t.get "name").getD [] with
      | [] => (named.map lastPart).getD (str "Port " ++ portsText (ports.bind portsOf))
      | name => name
    let name := if startsWith name (str "@") then (named.map lastPart).getD rid else name
    some ⟨str "reg:" ++ rid, isWord "true" ((t.get "active").getD (str "TRUE")),
      if u.lower ((t.get "action").getD (str "Allow")) = str "block" then .block else .allow,
      if t.profiles = ∅ then Finset.univ else t.profiles,
      proto, if t.lports ≠ [] then ports.bind portsOf else none, app, name, str "program"⟩

def registryRules (u : Unicode) (registry : List (Str × Str)) : List Rule :=
  registry.filterMap fun v => ruleFromRegistry u v.1 v.2

end StainedGlass.Firewall
