import StainedGlass.Lib.Bytes
import StainedGlass.Lib.Text

/-! A domain member's machine Group Policy, `domain/sg-gpo-machine`. -/

namespace StainedGlass.Domain.GroupPolicy

open Lib

/-- A file that is asked for: the GPO's place in the list, for a script its own place, and where it is. -/
inductive Call where
  | policy (n : Nat) (path : Str)
  | ini (n : Nat) (path : Str)
  | script (n i : Nat) (host : Option Str) (share path : Str)
  deriving DecidableEq

/-- What `smbclient` comes to: a file, none, or the sixty seconds are over, which raises. -/
inductive Smb where
  | file (data : Bytes)
  | nothing
  | timeout
  deriving DecidableEq

def fetch (path dest : Str) (answer : Smb) : Smb :=
  if 34 ∈ path ∨ 34 ∈ dest then .nothing
  else if answer = .file [] then .nothing
  else answer

def slashed (parts : List Str) : Str := [47].intercalate parts

def pathParts (s : Str) : List Str := (s.splitOn 92).filter (· ≠ [])

def pad2 (n : Nat) : Str := if n < 10 then 48 :: dec n else dec n

/-- A GPO's name is the last part of a path in the directory, and of one in the policies. -/
structure Gpo where
  name : Str
  fileSysPath : Option Str
  name_plain : 47 ∉ name

def Gpo.rel (u : Unicode) (g : Gpo) : Option (List Str) :=
  match g.fileSysPath with
  | none => none
  | some path =>
    if str ".." ∈ pathParts path then none
    else ((pathParts path).findIdx? fun p => u.lower p = str "sysvol").map fun i => (pathParts path).drop (i + 1)

def policyName (n : Nat) (name : Str) : Str := str "60-domain-" ++ (pad2 n ++ 45 :: (name ++ str ".pol"))

def isDomainPolicy (file : Str) : Bool :=
  (str "60-domain-").isPrefixOf file && (str ".pol").isSuffixOf (file.drop 10)

abbrev Files := Str → Option Bytes

def Files.put (files : Files) (name : Str) (data : Bytes) : Files := fun f => if f = name then some data else files f

structure Pass where
  policies : Files
  keep : List Str
  rels : List (Nat × Str)

def fetchPolicy (answer : Call → Smb) (n : Nat) (rel : List Str) : Smb :=
  let path := slashed (rel ++ [str "Machine", str "Registry.pol"])
  fetch path (pad2 n ++ str ".pol") (answer (.policy n path))

def fetchPolicies (u : Unicode) (answer : Call → Smb) : Nat → List Gpo → Pass → Pass × Bool
  | _, [], p => (p, true)
  | n, g :: gpos, p =>
    match g.rel u with
    | none => fetchPolicies u answer (n + 1) gpos p
    | some rel =>
      let p := { p with rels := p.rels ++ [(n, slashed rel)] }
      match fetchPolicy answer n rel with
      | .timeout => (p, false)
      | .nothing => fetchPolicies u answer (n + 1) gpos p
      | .file data =>
        let name := policyName n g.name
        fetchPolicies u answer (n + 1) gpos { p with policies := p.policies.put name data, keep := name :: p.keep }

def removeStale (keep : List Str) (policies : Files) : Files :=
  fun f => if isDomainPolicy f ∧ f ∉ keep then none else policies f

abbrev ReadIni := Bytes → Option (List (Str × List (Str × Str)))

def iniValue (u : Unicode) (items : List (Str × Str)) (key : Str) : Option Str :=
  (items.filter fun kv => u.lower kv.1 = key).getLast?.map Prod.snd

def iniEntry (u : Unicode) (items : List (Str × Str)) (n : Nat) : Option (Str × Str) :=
  (iniValue u items (dec n ++ str "cmdline")).map fun cmd =>
    (u.strip cmd, u.strip ((iniValue u items (dec n ++ str "parameters")).getD []))

def startupEntries (u : Unicode) (read : ReadIni) (data : Bytes) : List (Str × Str) :=
  match (read data).bind fun sections => sections.find? fun s => u.lower s.1 = str "startup" with
  | none => []
  | some s =>
    -- a number for each item at most
    ((((List.range s.2.length).map (iniEntry u s.2)).takeWhile Option.isSome).filterMap id).filter (·.1 ≠ [])

def isSafe (c : Nat) : Bool :=
  (65 ≤ c && c ≤ 90) || (97 ≤ c && c ≤ 122) || (48 ≤ c && c ≤ 57) || c ∈ [46, 95, 45]

def safeName (name : Str) : Str :=
  let name := (name.map fun c => if isSafe c then c else 95).dropWhile (· = 46)
  if name = [] then str "script" else name

def backslashed (s : Str) : Str := s.map fun c => if c = 47 then 92 else c

def startupDir : Str := str "/var/lib/stained-glass/gpo-startup"

def scriptDest (n i : Nat) (cmd : Str) : Str :=
  startupDir ++ 47 :: (pad2 n ++ 47 :: (dec i ++ 45 :: safeName (((backslashed cmd).splitOn 92).getLastD [])))

inductive Source where
  | skipped
  | machine
  | share (path : Str) (call : Call)

def isDrive : Str → Bool
  | c :: 58 :: _ => (65 ≤ c && c ≤ 90) || (97 ≤ c && c ≤ 122)
  | _ => false

def uncSource (n i : Nat) (parts : List Str) : Source :=
  match parts with
  | host :: share :: p :: rest =>
    if str ".." ∈ parts then .skipped else .share (slashed (p :: rest)) (.script n i (some host) share (slashed (p :: rest)))
  | _ => .skipped

def gpoSource (n i : Nat) (rel : Str) (parts : List Str) : Source :=
  let path := rel ++ str "/Machine/Scripts/Startup/" ++ slashed parts
  if str ".." ∈ parts then .skipped else .share path (.script n i none (str "sysvol") path)

def source (n i : Nat) (rel cmd : Str) : Source :=
  if [92, 92].isPrefixOf cmd then uncSource n i (pathParts cmd)
  else if isDrive cmd then .machine
  else gpoSource n i rel (pathParts (backslashed cmd))

inductive Entry where
  | nothing
  | listed (line : Str)
  | fetched (path : Str) (data : Bytes) (line : Str)
  | raised

def scriptLine (path params : Str) : Str := path ++ 9 :: params

def fetchEntry (answer : Call → Smb) (n i : Nat) (rel : Str) (entry : Str × Str) : Entry :=
  match source n i rel entry.1 with
  | .skipped => .nothing
  | .machine => .listed (scriptLine entry.1 entry.2)
  | .share path call =>
    match fetch path (scriptDest n i entry.1) (answer call) with
    | .timeout => .raised
    | .nothing => .nothing
    | .file data => .fetched (scriptDest n i entry.1) data (scriptLine (scriptDest n i entry.1) entry.2)

structure Scripts where
  files : Files
  lines : List Str

def fetchEntries (answer : Call → Smb) (n : Nat) (rel : Str) : Nat → List (Str × Str) → Scripts → Scripts × Bool
  | _, [], s => (s, true)
  | i, e :: entries, s =>
    match fetchEntry answer n i rel e with
    | .nothing => fetchEntries answer n rel (i + 1) entries s
    | .listed line => fetchEntries answer n rel (i + 1) entries { s with lines := s.lines ++ [line] }
    | .fetched path data line =>
      fetchEntries answer n rel (i + 1) entries ⟨s.files.put path data, s.lines ++ [line]⟩
    | .raised => (s, false)

def fetchIni (answer : Call → Smb) (n : Nat) (rel : Str) : Smb :=
  let path := rel ++ str "/Machine/Scripts/scripts.ini"
  fetch path (pad2 n ++ str ".ini") (answer (.ini n path))

def fetchStartupScripts (u : Unicode) (read : ReadIni) (answer : Call → Smb) :
    List (Nat × Str) → Scripts → Scripts × Bool
  | [], s => (s, true)
  | (n, rel) :: rels, s =>
    match fetchIni answer n rel with
    | .timeout => (s, false)
    | .nothing => fetchStartupScripts u read answer rels s
    | .file data =>
      let r := fetchEntries answer n rel 0 (startupEntries u read data) s
      if r.2 then fetchStartupScripts u read answer rels r.1 else r

/-- The policies that are installed, the scripts, and the list of them when there is one. -/
structure Machine where
  policies : Files
  scripts : Files
  list : Option (List Str)

def gpoRun (u : Unicode) (read : ReadIni) (answer : Call → Smb) (gpos : List Gpo) (m : Machine) : Machine :=
  let pass := fetchPolicies u answer 0 gpos ⟨m.policies, [], []⟩
  if pass.2 then
    let scripts := fetchStartupScripts u read answer pass.1.rels ⟨fun _ => none, []⟩
    { policies := removeStale pass.1.keep pass.1.policies
      scripts := scripts.1.files
      list := if scripts.2 then some scripts.1.lines else none }
  else { m with policies := pass.1.policies }

end StainedGlass.Domain.GroupPolicy
