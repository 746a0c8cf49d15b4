import StainedGlass.Lib.Text

/-! Dictionaries as text, as `sgpdf_sign` cuts and sets them. A position in a text is what is left of it there. -/

namespace StainedGlass.Pdf

open Lib

structure Letters extends Unicode where
  word : Nat → Bool
  word_ascii : c < 128 →
    word c = decide (48 ≤ c ∧ c ≤ 57 ∨ 65 ≤ c ∧ c ≤ 90 ∨ c = 95 ∨ 97 ≤ c ∧ c ≤ 122)

inductive Error
  | signError (message : String)
  | valueError
  deriving DecidableEq

def isWhite (c : Nat) : Bool := c ∈ str " \r\n\t"

def endsName (c : Nat) : Bool := c ∈ str " \r\n\t/<>[]()"

def skipString (depth : Nat) : Str → Str
  | [] => []
  | [92] => []
  | 92 :: _ :: rest => skipString depth rest
  | 40 :: rest => skipString (depth + 1) rest
  | 41 :: rest => if depth - 1 = 0 then rest else skipString (depth - 1) rest
  | _ :: rest => skipString depth rest

theorem length_skipString_le (depth : Nat) (s : Str) : (skipString depth s).length ≤ s.length := by
  fun_induction skipString depth s with
  | case1 => simp
  | case2 => simp
  | case3 depth c rest ih => exact ih.trans (Nat.le_add_right _ 2)
  | case4 depth rest ih => exact ih.trans (by simp)
  | case5 depth rest h => simp
  | case6 depth rest h ih => exact ih.trans (by simp)
  | case7 depth c rest h₁ h₂ h₃ h₄ ih => exact ih.trans (by simp)

def afterString (rest : Str) : Str := skipString 0 (40 :: rest)

theorem length_afterString_le (rest : Str) : (afterString rest).length ≤ rest.length :=
  length_skipString_le 1 rest

def skipDict (depth : Nat) : Str → Str
  | [] => []
  | 60 :: 60 :: rest => skipDict (depth + 1) rest
  | 62 :: 62 :: rest => if depth - 1 = 0 then rest else skipDict (depth - 1) rest
  | 40 :: rest => skipDict depth (afterString rest)
  | _ :: rest => skipDict depth rest
termination_by s => s.length
decreasing_by
  · simp
  · simp
  · exact Nat.lt_succ_of_le (length_afterString_le rest)
  · simp

def skipArray (depth : Nat) : Str → Str
  | [] => []
  | 91 :: rest => skipArray (depth + 1) rest
  | 93 :: rest => if depth - 1 = 0 then rest else skipArray (depth - 1) rest
  | 40 :: rest => skipArray depth (afterString rest)
  | _ :: rest => skipArray depth rest
termination_by s => s.length
decreasing_by
  · simp
  · simp
  · exact Nat.lt_succ_of_le (length_afterString_le rest)
  · simp

def some1 (p : Nat → Bool) (s : Str) : Option Str :=
  if s.head?.any p then some (s.dropWhile p) else none

namespace Letters

variable (u : Letters)

def digits (c : Nat) : Bool := (u.digit c).isSome

def matchRef (s : Str) : Option Str := do
  let s ← some1 u.digits s
  let s ← some1 u.space s
  let s ← some1 u.digits s
  let s ← some1 u.space s
  match s with
  | 82 :: rest => some rest
  | _ => none

def matchWord (s : Str) : Option Str := some1 (fun c => c = 45 || c = 43 || c = 46 || u.word c) s

def skipToken (s : Str) : Str :=
  ((u.matchRef (s.dropWhile u.space)) <|> u.matchWord (s.dropWhile u.space)).getD (s.drop 1)

def skipValue (s : Str) : Except Error Str :=
  match s.dropWhile isWhite with
  | [] => .ok []
  | 60 :: 60 :: rest => .ok (skipDict 0 (60 :: 60 :: rest))
  | 91 :: rest => .ok (skipArray 0 (91 :: rest))
  | 40 :: rest => .ok (afterString rest)
  | 60 :: rest =>
    if 62 ∈ rest then .ok ((rest.dropWhile (· ≠ 62)).drop 1) else .error .valueError
  | 47 :: rest => .ok (rest.dropWhile fun c => !endsName c)
  | s => .ok (u.skipToken s)

end Letters

def part (key value : Str) : Str := str "/" ++ key ++ str " " ++ value

theorem length_dropWhile_le (p : Nat → Bool) (s : Str) : (s.dropWhile p).length ≤ s.length :=
  (List.dropWhile_suffix p).length_le

theorem length_skipDict_le (depth : Nat) (s : Str) : (skipDict depth s).length ≤ s.length := by
  fun_induction skipDict depth s with
  | case1 => simp
  | case2 depth rest ih => exact ih.trans (Nat.le_add_right _ 2)
  | case3 depth rest h => exact Nat.le_add_right _ 2
  | case4 depth rest h ih => exact ih.trans (Nat.le_add_right _ 2)
  | case5 depth rest ih => exact ih.trans ((length_afterString_le rest).trans (Nat.le_succ _))
  | case6 depth c rest h₁ h₂ h₃ ih => exact ih.trans (Nat.le_succ _)

theorem length_skipArray_le (depth : Nat) (s : Str) : (skipArray depth s).length ≤ s.length := by
  fun_induction skipArray depth s with
  | case1 => simp
  | case2 depth rest ih => exact ih.trans (Nat.le_succ _)
  | case3 depth rest h => simp
  | case4 depth rest h ih => exact ih.trans (Nat.le_succ _)
  | case5 depth rest ih => exact ih.trans ((length_afterString_le rest).trans (Nat.le_succ _))
  | case6 depth c rest h₁ h₂ h₃ ih => exact ih.trans (Nat.le_succ _)

theorem length_some1_le {p : Nat → Bool} {s rest : Str} (h : some1 p s = some rest) :
    rest.length ≤ s.length := by
  rw [some1] at h
  split at h
  · cases h
    exact length_dropWhile_le p s
  · cases h

namespace Letters

variable {u : Letters}

theorem length_matchRef_le {s rest : Str} (h : u.matchRef s = some rest) : rest.length ≤ s.length := by
  simp only [matchRef, Option.bind_eq_bind, Option.bind_eq_some_iff] at h
  obtain ⟨s₁, h₁, s₂, h₂, s₃, h₃, s₄, h₄, h⟩ := h
  have hlast : rest.length ≤ s₄.length := by
    split at h
    · cases h
      exact Nat.le_succ _
    · cases h
  exact hlast.trans ((length_some1_le h₄).trans ((length_some1_le h₃).trans
    ((length_some1_le h₂).trans (length_some1_le h₁))))

theorem length_skipToken_le (s : Str) : (u.skipToken s).length ≤ s.length := by
  have hdrop := length_dropWhile_le u.space s
  rw [skipToken]
  cases href : u.matchRef (s.dropWhile u.space) with
  | some rest => exact (length_matchRef_le href).trans hdrop
  | none =>
    cases hword : u.matchWord (s.dropWhile u.space) with
    | some rest => exact (length_some1_le hword).trans hdrop
    | none => simp

theorem length_skipValue_le {s rest : Str} (h : u.skipValue s = .ok rest) : rest.length ≤ s.length := by
  apply Nat.le_trans _ (length_dropWhile_le isWhite s)
  rw [skipValue] at h
  split at h
  · cases h
    exact Nat.zero_le _
  · next heq =>
    cases h
    rw [heq]
    exact length_skipDict_le 0 _
  · next heq =>
    cases h
    rw [heq]
    exact length_skipArray_le 0 _
  · next heq =>
    cases h
    rw [heq]
    exact (length_afterString_le _).trans (Nat.le_succ _)
  · next inner hdict heq =>
    split at h
    · cases h
      rw [heq, List.length_drop]
      exact (Nat.sub_le _ _).trans ((length_dropWhile_le _ inner).trans (Nat.le_succ _))
    · cases h
  · next heq =>
    cases h
    rw [heq]
    exact (length_dropWhile_le _ _).trans (Nat.le_succ _)
  · cases h
    exact length_skipToken_le _

def topLevelEntries (u : Letters) (body : Str) : Except Error (List (Str × Str)) :=
  match hbody : body.dropWhile isWhite with
  | [] => .ok []
  | 47 :: rest =>
    let value := rest.dropWhile fun c => !endsName c
    match hvalue : u.skipValue value with
    | .error e => .error e
    | .ok next => do
      let more ← u.topLevelEntries next
      .ok ((rest.takeWhile fun c => !endsName c, u.strip (value.take (value.length - next.length))) :: more)
  | _ => .error (.signError "unexpected dictionary text")
termination_by body.length
decreasing_by
  calc next.length
      ≤ rest.length := (length_skipValue_le hvalue).trans (length_dropWhile_le _ rest)
    _ < (body.dropWhile isWhite).length := by
        rw [hbody]
        exact Nat.lt_succ_self _
    _ ≤ body.length := length_dropWhile_le isWhite body

def setInDict (u : Letters) (d key value : Str) : Except Error Str := do
  let tokens ← u.topLevelEntries ((d.drop 2).take (d.length - 4))
  let parts := tokens.map fun (k, v) => if k = key then part k value else part k v
  let added := if key ∈ tokens.map Prod.fst then [] else [part key value]
  .ok (str "<<" ++ (parts ++ added).flatten ++ str ">>")

end Letters

end StainedGlass.Pdf
