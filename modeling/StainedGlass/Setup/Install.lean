import StainedGlass.Setup.Bridge

/-! From the pages of `setup/sg-setup.c` to what `setup/sg-installd` runs. -/

namespace StainedGlass.Setup

open Lib

structure DevicePath where
  bytes : Bytes
  short : bytes.length < 64
  plain : ∀ b ∈ bytes, b ≠ 0 ∧ b ≠ 9 ∧ b ≠ 10 ∧ b ≠ 13 ∧ b ≠ 92
  deriving DecidableEq

inductive Place where
  | part (path : DevicePath)
  | free (disk : DevicePath) (start sectors : UInt64)
  deriving DecidableEq

def inLayoutPart (layout : List Place) (a : Bytes) : Bool :=
  layout.any fun
    | .part path => path.bytes = a
    | .free .. => false

def inLayoutFree (layout : List Place) (a b c : Bytes) : Bool :=
  layout.any fun
    | .part _ => false
    | .free disk start sectors =>
      disk.bytes = a && decimal start.toNat = b && (c = [] || decimal sectors.toNat = c)

structure EditText where
  bytes : Bytes
  single : ∀ b ∈ bytes, b ≠ 0 ∧ b ≠ 10 ∧ b ≠ 13
  deriving DecidableEq

def EditText.get (t : EditText) (size : Nat) : Bytes := t.bytes.take (size - 1)

def layouts : List String :=
  ["us", "gb", "de", "fr", "es", "it", "pt", "br", "nl", "be", "ch", "se", "no", "dk", "fi", "pl", "cz",
    "hu", "jp", "ca"]

structure Keyboard where
  code : String
  known : code ∈ layouts
  deriving DecidableEq

structure Pages where
  name : EditText
  account : EditText
  host : EditText
  pass : EditText
  pass2 : EditText
  keyboard : Keyboard
  drivers : Bool
  place : Place
  deriving DecidableEq

def isLower (c : UInt8) : Bool := 97 ≤ c && c ≤ 122

def isUpper (c : UInt8) : Bool := 65 ≤ c && c ≤ 90

def isNumber (c : UInt8) : Bool := 48 ≤ c && c ≤ 57

def reserved : List String :=
  ["root", "sgsystem", "nobody", "daemon", "sguser", "live", "sggreet", "sgrdp"]

def validAccount : Bytes → Bool
  | [] => false
  | c :: s =>
    (c :: s).length ≤ 32 && (isLower c || c = 95) &&
      s.all (fun c => isLower c || isNumber c || c = 95 || c = 45) &&
      (c :: s) ∉ reserved.map ascii

def validHost (s : Bytes) : Bool :=
  s ≠ [] && s.length ≤ 63 && s.head? ≠ some 45 && s.getLast? ≠ some 45 &&
    s.all fun c => isLower c || isUpper c || isNumber c || c = 45

def deriveAccount (name : Bytes) (len : Nat) : Bytes :=
  let word := (name.dropWhile (· = 32)).takeWhile (· ≠ 32)
  ((word.map fun c => if isUpper c then c + 32 else c).filter fun c => isLower c || isNumber c).take (len - 1)

theorem single_deriveAccount (name : Bytes) (len : Nat) :
    ∀ b ∈ deriveAccount name len, b ≠ 0 ∧ b ≠ 10 ∧ b ≠ 13 := by
  intro b hb
  have hb := (List.mem_filter.mp (List.mem_of_mem_take hb)).2
  refine ⟨?_, ?_, ?_⟩ <;> rintro rfl <;> revert hb <;> decide

def EditText.derived (name : Bytes) (len : Nat) : EditText :=
  ⟨deriveAccount name len, single_deriveAccount name len⟩

/-- What the account page leaves in its controls: an account is derived if none is given. -/
def fillAccount (p : Pages) : Pages :=
  if p.account.get 64 = [] then { p with account := .derived (p.name.get 128) 64 } else p

def accountPageDone (p : Pages) : Bool :=
  9 ∉ p.name.get 128 && 58 ∉ p.name.get 128 && validAccount (p.account.get 64) &&
    validHost (p.host.get 64) && p.pass.get 256 ≠ [] && p.pass.get 256 = p.pass2.get 256

def sendLine (text : Bytes) : Bytes := text.take 1022

def Place.target : Place → Bytes
  | .part path => (ascii "part:" ++ path.bytes).take 127
  | .free disk start sectors =>
    (ascii "free:" ++ disk.bytes ++ 58 :: decimal start.toNat ++ 58 :: decimal sectors.toNat).take 127

def startInstall (p : Pages) : List Bytes :=
  [sendLine (ascii "INSTALL " ++ p.place.target ++ 9 :: p.account.get 64 ++ 9 :: p.host.get 64 ++
      9 :: p.name.get 128 ++ 9 :: ascii p.keyboard.code ++ 9 :: ascii (if p.drivers then "1" else "0")),
    sendLine (ascii "PASSWORD " ++ p.pass.get 256)]

def tabFields (s : Bytes) : List Bytes := (s.splitOn 9).filter (· ≠ [])

structure Daemon where
  target : Bytes
  account : Bytes
  host : Bytes
  full : Bytes
  kbd : Bytes
  drivers : Bytes

structure Run where
  args : List Bytes
  input : Bytes
  deriving DecidableEq

def beforeFirst (c : UInt8) (s : Bytes) : Bytes := s.takeWhile (· ≠ c)

def afterFirst (c : UInt8) (s : Bytes) : Bytes :=
  match cut c s with
  | some r => r.2
  | none => s

def checkTarget (layout : List Place) (target : Bytes) : Option (String × Bytes) :=
  if ascii "part:" <+: target then
    let arg := target.drop 5
    if inLayoutPart layout arg then some ("--target", arg) else none
  else if ascii "free:" <+: target then
    let arg := target.drop 5
    let r := afterFirst 58 arg
    if inLayoutFree layout (beforeFirst 58 arg) (beforeFirst 58 r) (afterFirst 58 r) then
      some ("--free", arg)
    else none
  else none

def optional (option : String) (value : Bytes) : List Bytes :=
  if value = [] then [] else [ascii option, value]

def Daemon.install (d : Daemon) (place : String × Bytes) (pw : Bytes) : Run where
  args := [ascii place.1, place.2, ascii "--user", d.account, ascii "--hostname", d.host] ++
    optional "--full-name" d.full ++ optional "--keyboard" d.kbd ++
    (if d.drivers = ascii "1" then [ascii "--drivers"] else []) ++
    [ascii "--password-stdin", ascii "--yes"]
  input := pw ++ [10]

def operate (args : List Bytes) : Run := ⟨args ++ [ascii "--yes"], []⟩

/-- The variables after a line, and what is run. `LIST`, `LAYOUT`, `DRIVERS`, `REBOOT` and `POWEROFF`
only report or end. -/
def Daemon.handle (layout : List Place) (d : Daemon) (line : Bytes) : Daemon × Option Run :=
  if ascii "NEW " <+: line then
    let f := tabFields (line.drop 4)
    let disk := f.getD 0 []
    let start := f.getD 1 []
    let bytes := f.getD 2 []
    if start ++ bytes ≠ [] ∧ (start ++ bytes).all isNumber ∧ inLayoutFree layout disk start [] then
      (d, some (operate [ascii "--new", disk, ascii "--start", start, ascii "--bytes", bytes]))
    else (d, none)
  else if ascii "DELETE " <+: line then
    let part := line.drop 7
    (d, if inLayoutPart layout part then some (operate [ascii "--delete", part]) else none)
  else if ascii "FORMAT " <+: line then
    let part := line.drop 7
    (d, if inLayoutPart layout part then some (operate [ascii "--format", part]) else none)
  else if ascii "INSTALL " <+: line then
    let f := tabFields (line.drop 8)
    ({ target := f.getD 0 [], account := f.getD 1 [], host := f.getD 2 [], full := f.getD 3 [],
       kbd := f.getD 4 [], drivers := f.getD 5 (ascii "0") }, none)
  else if ascii "PASSWORD " <+: line then
    if d.target = [] ∨ d.account = [] ∨ d.host = [] then (d, none)
    else (d, (checkTarget layout d.target).map fun place => d.install place (line.drop 9))
  else (d, none)

def Daemon.runs (layout : List Place) : Daemon → List Bytes → List Run
  | _, [] => []
  | d, line :: lines =>
    (d.handle layout line).2.toList ++ runs layout (d.handle layout line).1 lines

def relay (l : Links) (lines : List Bytes) : List Bytes :=
  ((lines.map lineString).foldl (fun l line => fromWizard false line l) l).sent.map CString.bytes

end StainedGlass.Setup
