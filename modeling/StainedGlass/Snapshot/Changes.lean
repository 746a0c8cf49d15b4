import StainedGlass.Lib.Text

/-! The package changes that `sg-snapshot` writes down. -/

namespace StainedGlass.Snapshot

open Lib

structure Change where
  name : Str
  old : Str
  new : Str
  deriving DecidableEq

def noVersion : Str := str "-"

def words (u : Unicode) (s : Str) : List Str := (s.splitOnP u.space).filter (· ≠ [])

def hookChange (u : Unicode) (line : Str) : Option Change :=
  match words u line with
  | name :: old :: _ :: _ :: _ :: new :: _ :: _ :: action :: _ =>
    if action = str "**CONFIGURE**" then none
    else
      let new := if action = str "**REMOVE**" then noVersion else new
      if old = new then none else some ⟨name, old, new⟩
  | _ => none

def parseHook (u : Unicode) (text : Str) : Option (List Change) :=
  let lines := text.splitOn 10
  if startsWith (lines.headD []) (str "VERSION 3") then
    some (((lines.tail.dropWhile (· ≠ [])).tail).filterMap (hookChange u))
  else none

def isNameStart (c : Nat) : Bool := (97 ≤ c && c ≤ 122) || (48 ≤ c && c ≤ 57)

def isNameChar (c : Nat) : Bool := isNameStart c || c = 43 || c = 45 || c = 46

def isVersionChar (c : Nat) : Bool :=
  (65 ≤ c && c ≤ 90) || isNameStart c || c = 43 || c = 45 || c = 46 || c = 58 || c = 126

/-- One package id `name;version;arch;data` at the start of `s`, and how long it is. -/
def packageId (u : Unicode) (s : Str) : Option (Str × Str × Nat) :=
  let name := s.takeWhile isNameChar
  match s.head?.map isNameStart, s.dropWhile isNameChar with
  | some true, 59 :: s₁ =>
    let version := s₁.takeWhile isVersionChar
    match version, s₁.dropWhile isVersionChar with
    | _ :: _, 59 :: s₂ =>
      match s₂.dropWhile (fun c => !(c = 59 || c = 44 || u.space c)) with
      | 59 :: s₃ =>
        some (name, version, s.length - (s₃.dropWhile (fun c => !(c = 44 || u.space c))).length)
      | _ => none
    | _, _ => none
  | _, _ => none

def packageIds (u : Unicode) : Nat → Str → List (Str × Str)
  | _, [] => []
  | skip + 1, _ :: s => packageIds u skip s
  | 0, c :: s =>
    match packageId u (c :: s) with
    | some (name, version, len) => (name, version) :: packageIds u (len - 1) s
    | none => packageIds u 0 s

def preparedChanges (u : Unicode) (installed : Str → Option Str) (text : Str) : List Change :=
  (packageIds u 0 text).filterMap fun (name, version) =>
    if installed name = some version then none
    else some ⟨name, (installed name).getD noVersion, version⟩

def commaList (parts : List Str) : Str := (str ", ").intercalate parts

def Change.describe (c : Change) : Str :=
  if c.new = noVersion then c.name ++ str " removed"
  else if c.old = noVersion then c.name ++ str " " ++ c.new ++ str " installed"
  else c.name ++ str " " ++ c.old ++ str " to " ++ c.new

def describe (ours : Str → Bool) (changes : List Change) : Str :=
  let order := changes.mergeSort fun a b =>
    (ours a.name && !ours b.name) || (ours a.name == ours b.name && decide (a.name ≤ b.name))
  commaList ((order.take 4).map Change.describe ++
    if 4 < order.length then [str "and " ++ dec (order.length - 4) ++ str " more"] else [])

def label (ours : Str → Bool) (source : Option String) (changes : List Change) : Str :=
  ((if source = some "store" then str "SG Store: " else str "Updates: ") ++
    describe ours changes).take 300

def mergeChange : List Change → Change → List Change
  | [], c => [c]
  | h :: have_, c =>
    if h.name = c.name then { h with new := c.new } :: have_ else h :: mergeChange have_ c

def mergeChanges (have_ changes : List Change) : List Change := changes.foldl mergeChange have_

def validName : Str → Bool
  | [] => false
  | c :: s => isNameStart c && s.all isNameChar

def validVersion (s : Str) : Bool := !s.isEmpty && s.all isVersionChar

def matchesWhole (p : Str → Bool) (s : Str) : Bool :=
  p s || (s.getLast? = some 10 && p s.dropLast)

def stanzaText (name new : Str) : Str :=
  str "Package: " ++ name ++ 10 :: (str "Pin: version " ++ new ++ 10 :: str "Pin-Priority: -1")

def stanza (c : Change) : Option Str :=
  if c.old = noVersion then none
  else if matchesWhole validName c.name && matchesWhole validVersion c.new then
    some (stanzaText c.name c.new ++ [10])
  else none

def stanzas (changes : List Change) : List Str := changes.filterMap stanza

def prefsHeader (why : Str) : Str :=
  str "# Stained Glass OS (sg-snapshot): " ++ why ++
    str ". These versions are not installed again;" ++
    10 :: str "# later ones are. Delete this file to allow them."

def wentBackPrefs (changes : List Change) (why : Str) : Option Str :=
  if stanzas changes = [] then none
  else some (prefsHeader why ++ 10 :: 10 :: [10].intercalate (stanzas changes))

def paragraphs (lines : List Str) : List (List Str) :=
  (lines.filter (fun l => l.head? ≠ some 35)).splitOn []

def paragraphField (key : Str) (paragraph : List Str) : Option Str :=
  paragraph.findSome? fun l => if startsWith l key then some (l.drop key.length) else none

def pin (paragraph : List Str) : Option (Str × Str) :=
  match paragraphField (str "Package: ") paragraph, paragraphField (str "Pin: version ") paragraph,
    paragraphField (str "Pin-Priority: ") paragraph with
  | some name, some version, some priority =>
    if priority = str "-1" then some (name, version) else none
  | _, _, _ => none

def pinsOf (lines : List Str) : List (Str × Str) := (paragraphs lines).filterMap pin

def pins (text : Str) : List (Str × Str) := pinsOf (text.splitOn 10)

end StainedGlass.Snapshot
