import StainedGlass.Lib.Text

/-! Key files: groups of keys with values, one to a line. -/

namespace StainedGlass.Lib.KeyFile

structure Group where
  name : Str
  entries : List (Str × Str)
  deriving DecidableEq

inductive Line
  | nothing
  | group (name : Str)
  | entry (key value : Str)
  deriving DecidableEq

def isBlank (c : Nat) : Bool := c = 32 || (9 ≤ c && c ≤ 13)

def undo (c : Nat) : Option Nat :=
  if c = 115 then some 32
  else if c = 110 then some 10
  else if c = 116 then some 9
  else if c = 114 then some 13
  else if c = 92 then some 92
  else none

def unescape : Str → Option Str
  | [] => some []
  | [c] => if c = 92 then none else some [c]
  | c :: d :: rest =>
    if c = 92 then (undo d).bind fun c => (unescape rest).map (c :: ·)
    else (unescape (d :: rest)).map (c :: ·)

def groupName : Str → Option Str
  | [] => none
  | c :: rest =>
    if c = 91 then
      match rest.span (· ≠ 93) with
      | (name, _ :: after) => if after.all isBlank then some name else none
      | (_, []) => none
    else none

def entry (line : Str) : Option (Str × Str) :=
  match line.span (· ≠ 61) with
  | (_ :: _, _ :: value) =>
    let key := (line.takeWhile (· ≠ 61)).rdropWhile isBlank
    (unescape (value.dropWhile isBlank)).map (key, ·)
  | _ => none

def readLine (line : Str) : Option Line :=
  let line := line.dropWhile isBlank
  if line.head? ∈ [none, some 35] then some .nothing
  else
    match groupName line with
    | some name => some (.group name)
    | none => (entry line).map fun e => .entry e.1 e.2

def readLines : List Str → Option (List (Str × Str) × List Group)
  | [] => some ([], [])
  | line :: lines =>
    (readLine line).bind fun l => (readLines lines).map fun r =>
      match l with
      | .nothing => r
      | .group name => ([], ⟨name, r.1⟩ :: r.2)
      | .entry key value => ((key, value) :: r.1, r.2)

def read (text : Str) : Option (List Group) :=
  (readLines (text.splitOn 10)).bind fun r => if r.1 = [] then some r.2 else none

theorem read_lines (hne : lines ≠ []) (h : ∀ l ∈ lines, 10 ∉ l) : read ([10].intercalate lines) =
      (readLines lines).bind fun r => if r.1 = [] then some r.2 else none := by
  rw [read, List.splitOn_intercalate 10 h hne]

theorem readLines_nothing (h : readLine line = some .nothing) (lines : List Str) :
    readLines (line :: lines) = readLines lines := by
  rw [readLines, h]
  simp

theorem readLines_group (h : readLine line = some (.group name)) (lines : List Str) :
    readLines (line :: lines) = (readLines lines).map fun r => ([], ⟨name, r.1⟩ :: r.2) := by
  rw [readLines, h]
  rfl

theorem readLines_entry (h : readLine line = some (.entry key value)) (lines : List Str) :
    readLines (line :: lines) = (readLines lines).map fun r => ((key, value) :: r.1, r.2) := by
  rw [readLines, h]
  rfl

def isKey (c : Nat) : Bool := !isBlank c && c ≠ 35 && c ≠ 61 && c ≠ 91

theorem readLine_entry (key : Str) {value v : Str} (hne : key ≠ []) (hkey : key.all isKey = true)
    (hv : unescape (value.dropWhile isBlank) = some v) :
    readLine (key ++ 61 :: value) = some (.entry key v) := by
  rw [List.all_eq_true] at hkey
  have hchar : ∀ c ∈ key, isBlank c = false ∧ c ≠ 35 ∧ c ≠ 61 ∧ c ≠ 91 := by
    intro c hc
    simpa [isKey, and_assoc] using hkey c hc
  have hpos : ∀ c ∈ key, decide (c ≠ 61) = true := fun c hc => decide_eq_true (hchar c hc).2.2.1
  have hspan : (key ++ 61 :: value).span (· ≠ 61) = (key, 61 :: value) := by
    rw [List.span_eq_takeWhile_dropWhile, List.takeWhile_append_of_pos hpos,
      List.dropWhile_append_of_pos hpos]
    simp
  have hkeep : key.rdropWhile isBlank = key := by
    rw [List.rdropWhile_eq_self_iff]
    intro hl
    simp [(hchar _ (List.getLast_mem hl)).1]
  have htake : (key ++ 61 :: value).takeWhile (· ≠ 61) = key := by
    rw [List.takeWhile_append_of_pos hpos]
    simp
  have hentry : entry (key ++ 61 :: value) = some (key, v) := by
    rw [entry, htake, hspan]
    cases key with
    | nil => exact absurd rfl hne
    | cons c key => simp only [hkeep, hv, Option.map_some]
  cases key with
  | nil => exact absurd rfl hne
  | cons c key =>
    obtain ⟨hblank, h35, -, h91⟩ := hchar c (.head _)
    have hdrop : (c :: key ++ 61 :: value).dropWhile isBlank = c :: key ++ 61 :: value :=
      List.dropWhile_cons_of_neg (by simp [hblank])
    have hgroup : groupName (c :: key ++ 61 :: value) = none := if_neg h91
    rw [readLine, hdrop, if_neg (by simp [h35]), hgroup, hentry]
    rfl

theorem unescape_cons (h : c ≠ 92) (s : Str) : unescape (c :: s) = (unescape s).map (c :: ·) := by
  cases s with
  | nil => exact if_neg h
  | cons d s => rw [unescape, if_neg h]

theorem unescape_undo (h : undo d = some c) (s : Str) : unescape (92 :: d :: s) = (unescape s).map (c :: ·) := by
  rw [unescape, if_pos rfl, h]
  rfl

theorem unescape_plain (h : 92 ∉ s) : unescape s = some s := by
  induction s with
  | nil => rfl
  | cons c s ih =>
    rw [List.mem_cons, not_or] at h
    rw [unescape_cons (Ne.symm h.1), ih h.2]
    rfl

theorem unescape_dropWhile_plain {s : Str} (h : ∀ c ∈ s, c ≠ 92 ∧ isBlank c = false) :
    unescape (s.dropWhile isBlank) = some s := by
  rw [unescape_plain fun hc => (h _ (List.dropWhile_subset _ hc)).1 rfl]
  cases s with
  | nil => rfl
  | cons c s => rw [List.dropWhile_cons_of_neg (by simp [(h c (.head _)).2])]

end StainedGlass.Lib.KeyFile
