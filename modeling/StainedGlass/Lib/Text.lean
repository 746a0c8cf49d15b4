import Mathlib

/-! Text as Python's `str` has it: code points, lone surrogates among them. -/

namespace StainedGlass.Lib

abbrev Str := List Nat

instance : LawfulBEq Str := inferInstanceAs (LawfulBEq (List Nat))

def str (s : String) : Str := s.toList.map Char.toNat

theorem str_ofList (cs : List Char) : str (.ofList cs) = cs.map Char.toNat := by
  rw [str, String.toList_ofList]

def isBreak (c : Nat) : Bool := c ∈ [10, 11, 12, 13, 28, 29, 30, 0x85, 0x2028, 0x2029]

def splitlinesFrom (line : Str) : Str → List Str
  | [] => if line = [] then [] else [line]
  | 13 :: 10 :: rest => line :: splitlinesFrom [] rest
  | c :: rest =>
    if isBreak c then line :: splitlinesFrom [] rest else splitlinesFrom (line ++ [c]) rest

def splitlines (s : Str) : List Str := splitlinesFrom [] s

def universalNewlines : Str → Str
  | [] => []
  | 13 :: 10 :: rest => 10 :: universalNewlines rest
  | c :: rest => (if c = 13 then 10 else c) :: universalNewlines rest

def Plain (s : Str) : Prop := ∀ c ∈ s, c ≠ 9 ∧ isBreak c = false

instance (s : Str) : Decidable (Plain s) := inferInstanceAs (Decidable (∀ c ∈ s, _))

theorem Plain.notMem_tab (h : Plain s) : 9 ∉ s := fun hc => (h 9 hc).1 rfl

theorem plain_of_ascii (h : ∀ c ∈ s, 32 ≤ c ∧ c < 128) : Plain s := by
  intro c hc
  have := h c hc
  refine ⟨by omega, ?_⟩
  simp only [isBreak, List.mem_cons, List.not_mem_nil, or_false, decide_eq_false_iff_not]
  omega

theorem splitlinesFrom_cons {s : Str} (h : ¬ (c = 13 ∧ s.head? = some 10)) (line : Str) : splitlinesFrom line (c :: s) =
      if isBreak c then line :: splitlinesFrom [] s else splitlinesFrom (line ++ [c]) s := by
  rw [splitlinesFrom]
  rintro rest rfl rfl
  exact h ⟨rfl, rfl⟩

theorem splitlinesFrom_unbroken (h : ∀ c ∈ s, isBreak c = false) (line rest : Str) :
    splitlinesFrom line (s ++ rest) = splitlinesFrom (line ++ s) rest := by
  induction s generalizing line with
  | nil => simp
  | cons c s ih =>
    rw [List.forall_mem_cons] at h
    have hcr : ¬ (c = 13 ∧ (s ++ rest).head? = some 10) := by
      rintro ⟨rfl, -⟩
      exact absurd h.1 (by decide)
    rw [List.cons_append, splitlinesFrom_cons hcr, if_neg (by simp [h.1]), ih h.2, List.append_assoc,
      List.singleton_append]

theorem splitlinesFrom_break (hb : isBreak b = true) (rest : Str) :
    ∃ more, ∀ line, splitlinesFrom line (b :: rest) = line :: more := by
  by_cases h : b = 13 ∧ rest.head? = some 10
  · obtain ⟨rfl, hrest⟩ := h
    obtain ⟨s, rfl⟩ := List.head?_eq_some_iff.mp hrest
    exact ⟨splitlinesFrom [] s, fun line => by rw [splitlinesFrom]⟩
  · exact ⟨splitlinesFrom [] rest, fun line => by rw [splitlinesFrom_cons h, if_pos hb]⟩

theorem splitlines_line (h : ∀ c ∈ s, isBreak c = false) (rest : Str) :
    splitlines (s ++ 10 :: rest) = s :: splitlines rest := by
  rw [splitlines, splitlinesFrom_unbroken h, splitlinesFrom_cons (by simp), if_pos (by decide)]
  rfl

def joinLines (lines : List Str) : Str := [10].intercalate lines ++ [10]

theorem joinLines_cons (l l' : Str) (lines : List Str) :
    joinLines (l :: l' :: lines) = l ++ 10 :: joinLines (l' :: lines) := by
  simp [joinLines, List.intercalate]

theorem splitlinesFrom_append (line s rest : Str) :
    splitlinesFrom line (s ++ 10 :: rest) = splitlinesFrom line (s ++ [10]) ++ splitlines rest := by
  fun_induction splitlinesFrom line s with
  | case1 => simp [splitlinesFrom, splitlines, isBreak]
  | case2 => simp [splitlinesFrom, splitlines, isBreak]
  | case3 line s ih => simpa [splitlinesFrom] using ih
  | case4 line c s hcr hc ih =>
    by_cases hs : c = 13 ∧ s = []
    · obtain ⟨rfl, rfl⟩ := hs
      simp [splitlinesFrom, splitlines]
    · have h (rest : Str) : ¬ (c = 13 ∧ (s ++ 10 :: rest).head? = some 10) := by
        rintro ⟨h13, hhead⟩
        cases s with
        | nil => exact hs ⟨h13, rfl⟩
        | cons d s => exact hcr s h13 (by simpa using hhead)
      rw [List.cons_append, List.cons_append, splitlinesFrom_cons (h rest), splitlinesFrom_cons (h []),
        if_pos hc, if_pos hc, ih, List.cons_append]
  | case5 line c s hcr hc ih =>
    have h (rest : Str) : ¬ (c = 13 ∧ (s ++ 10 :: rest).head? = some 10) := by
      rintro ⟨rfl, -⟩
      exact hc rfl
    rw [List.cons_append, List.cons_append, splitlinesFrom_cons (h rest), splitlinesFrom_cons (h []),
      if_neg hc, if_neg hc, ih]

theorem splitlinesFrom_universalNewlines (line s : Str) :
    splitlinesFrom line (universalNewlines s) = splitlinesFrom line s := by
  fun_induction splitlinesFrom line s with
  | case1 => simp [universalNewlines, splitlinesFrom]
  | case2 => simp_all [universalNewlines, splitlinesFrom]
  | case3 line s ih =>
    have h10 : ¬ (10 = 13 ∧ (universalNewlines s).head? = some 10) := fun h => nomatch h.1
    rw [universalNewlines, splitlinesFrom_cons h10, ih, if_pos (by decide)]
  | case4 line c s hcr hc ih =>
    have hbreak : isBreak (if c = 13 then 10 else c) = true := by
      split
      · rfl
      · exact hc
    have h13 : ¬ ((if c = 13 then 10 else c) = 13 ∧ (universalNewlines s).head? = some 10) := by
      split
      · exact fun h => nomatch h.1
      · next h => exact fun h' => h h'.1
    rw [universalNewlines, splitlinesFrom_cons h13, ih, if_pos hbreak]
    exact hcr
  | case5 line c s hcr hc ih =>
    have h13 : c ≠ 13 := by
      rintro rfl
      exact hc rfl
    rw [universalNewlines, if_neg h13, splitlinesFrom_cons fun h => h13 h.1, if_neg hc, ih]
    exact hcr

theorem isBreak_splitlinesFrom (hline : ∀ c ∈ line, isBreak c = false) :
    ∀ l ∈ splitlinesFrom line s, ∀ c ∈ l, isBreak c = false := by
  fun_induction splitlinesFrom line s with
  | case1 => exact nofun
  | case2 =>
    intro l hl
    rwa [List.mem_singleton.mp hl]
  | case3 line s ih => exact List.forall_mem_cons.mpr ⟨hline, ih nofun⟩
  | case4 line c s hcr hc ih => exact List.forall_mem_cons.mpr ⟨hline, ih nofun⟩
  | case5 line c s hcr hc ih =>
    refine ih fun d hd => ?_
    obtain hd | hd := List.mem_append.mp hd
    · exact hline d hd
    · simpa [List.mem_singleton.mp hd] using hc

theorem splitlines_joinLines {lines : List Str} (hne : lines ≠ []) :
    splitlines (joinLines lines) = lines.flatMap fun l => splitlines (l ++ [10]) := by
  induction lines with
  | nil => exact absurd rfl hne
  | cons l lines ih =>
    cases lines with
    | nil => simp [joinLines, List.intercalate]
    | cons l' lines =>
      rw [joinLines_cons, splitlines, splitlinesFrom_append, ih nofun, List.flatMap_cons]
      rfl

theorem splitlines_single (h : ∀ c ∈ l, isBreak c = false) : splitlines (l ++ [10]) = [l] :=
  splitlines_line h []

theorem flatMap_eq_map {xs : List α} (h : ∀ x ∈ xs, f x = [g x]) : xs.flatMap f = xs.map g := by
  rw [List.flatMap_def, List.map_congr_left h, ← List.flatMap_def, List.map_eq_flatMap]

theorem mapM_eq_some_iff {xs : List α} : xs.mapM f = some ys ↔ List.Forall₂ (fun x y => f x = some y) xs ys := by
  constructor
  · intro h
    induction xs generalizing ys with
    | nil =>
      cases h
      exact .nil
    | cons x xs ih =>
      rw [List.mapM_cons] at h
      obtain ⟨y, hy, h⟩ := Option.bind_eq_some_iff.mp h
      obtain ⟨ys, hys, h⟩ := Option.bind_eq_some_iff.mp h
      cases h
      exact .cons hy (ih hys)
  · intro h
    induction h with
    | nil => rfl
    | cons hxy _ ih => simp [List.mapM_cons, hxy, ih]

theorem notMem_intercalate {sep : Str} (hsep : c ∉ sep) (h : ∀ s ∈ parts, c ∉ s) : c ∉ sep.intercalate parts := by
  induction parts with
  | nil => exact List.not_mem_nil
  | cons s parts ih =>
    cases parts with
    | nil => simpa [List.intercalate] using h s (.head _)
    | cons s' parts =>
      have hrest := ih fun s hs => h s (.tail _ hs)
      have hs := h s (.head _)
      simp only [List.intercalate, List.intersperse_cons_cons, List.flatten_cons, List.mem_append] at hrest ⊢
      exact fun hc => hc.elim hs fun hc => hc.elim hsep hrest

theorem mem_intercalate (hs : s ∈ parts) (hc : c ∈ s) (sep : Str) : c ∈ sep.intercalate parts := by
  induction parts with
  | nil => cases hs
  | cons s' parts ih =>
    cases parts with
    | nil =>
      rw [List.mem_singleton.mp hs] at hc
      simpa [List.intercalate] using hc
    | cons s'' parts =>
      simp only [List.intercalate, List.intersperse_cons_cons, List.flatten_cons, List.mem_append] at ih ⊢
      obtain rfl | hs := List.mem_cons.mp hs
      · exact .inl hc
      · exact .inr (.inr (ih hs))

theorem mem_splitOn {s part : Str} (h : part ∈ s.splitOn c) : ∀ d ∈ part, d ≠ c ∧ d ∈ s := by
  induction s generalizing part with
  | nil =>
    rw [List.splitOn_nil, List.mem_singleton] at h
    simp [h]
  | cons x s ih =>
    rw [List.splitOn_cons_eq_if_modifyHead] at h
    split at h
    · obtain rfl | h := List.mem_cons.mp h
      · exact nofun
      · exact fun d hd => (ih h d hd).imp_right (.tail _)
    · next hx =>
      obtain ⟨first, rest, hsplit⟩ := List.exists_cons_of_ne_nil (List.splitOn_ne_nil c s)
      rw [hsplit, List.modifyHead_cons] at h
      rw [hsplit] at ih
      intro d hd
      obtain rfl | h := List.mem_cons.mp h
      · obtain rfl | hd := List.mem_cons.mp hd
        · exact ⟨by simpa using hx, .head _⟩
        · exact (ih (.head _) d hd).imp_right (.tail _)
      · exact (ih (.tail _ h) d hd).imp_right (.tail _)

theorem splitOn_joinLines (hne : lines ≠ []) (h : ∀ l ∈ lines, 10 ∉ l) :
    (joinLines lines).splitOn 10 = lines ++ [[]] := by
  have hjoin : joinLines lines = [10].intercalate (lines ++ [[]]) := by
    induction lines with
    | nil => exact absurd rfl hne
    | cons l lines ih =>
      cases lines with
      | nil => simp [joinLines, List.intercalate]
      | cons l' lines =>
        rw [joinLines_cons, ih nofun fun l hl => h l (.tail _ hl)]
        simp [List.intercalate]
  rw [hjoin]
  refine List.splitOn_intercalate 10 (fun l hl => ?_) (by simp)
  obtain hl | rfl := by simpa using hl
  · exact h l hl
  · exact List.not_mem_nil

theorem splitOn_pair {c : Nat} {s t : Str} (hs : c ∉ s) (ht : c ∉ t) :
    (s ++ c :: t).splitOn c = [s, t] := by
  rw [List.splitOn_append_cons_self_of_not_mem hs, List.splitOn_eq_singleton ht]

def isSurrogate (c : Nat) : Bool := 0xd800 ≤ c && c ≤ 0xdfff

def startsWith (s pre : Str) : Bool := pre.isPrefixOf s

def dec (n : Nat) : Str := (Nat.toDigits 10 n).map Char.toNat

theorem dec_ne_nil (n : Nat) : dec n ≠ [] := by simp [dec, Nat.toDigits_ne_nil]

theorem digit_of_mem_dec (h : c ∈ dec n) : 48 ≤ c ∧ c ≤ 57 := by
  obtain ⟨d, hd, rfl⟩ := List.mem_map.mp h
  have hdigit := Nat.isDigit_of_mem_toDigits (by decide) (by decide) hd
  simp only [Char.isDigit, Bool.and_eq_true, decide_eq_true_eq] at hdigit
  exact ⟨UInt32.le_iff_toNat_le.mp hdigit.1, UInt32.le_iff_toNat_le.mp hdigit.2⟩

theorem notMem_dec (n : Nat) (h : ¬ (48 ≤ c ∧ c ≤ 57)) : c ∉ dec n := fun hc =>
  h (digit_of_mem_dec hc)

def digitsValue (digit : Nat → Option Nat) (s : Str) : Option Nat :=
  s.foldlM (fun acc c => (digit c).map (10 * acc + ·)) 0

theorem digitsValue_dec (h : ∀ c, 48 ≤ c → c ≤ 57 → digit c = some (c - 48))
    (n : Nat) : digitsValue digit (dec n) = some n := by
  have hfold (ds : List Char) (hds : ∀ c ∈ ds, c.isDigit = true) (acc : Nat) :
      (ds.map Char.toNat).foldlM (fun acc c => (digit c).map (10 * acc + ·)) acc =
        some (Nat.ofDigitChars 10 ds acc) := by
    induction ds generalizing acc with
    | nil => rfl
    | cons d ds ih =>
      have hd := hds d (.head _)
      simp only [Char.isDigit, Bool.and_eq_true, decide_eq_true_eq] at hd
      have hdigit := h d.toNat (UInt32.le_iff_toNat_le.mp hd.1) (UInt32.le_iff_toNat_le.mp hd.2)
      rw [List.map_cons, List.foldlM_cons, hdigit]
      change (ds.map Char.toNat).foldlM _ (10 * acc + (d.toNat - 48)) = _
      rw [ih fun c hc => hds c (.tail _ hc), Nat.ofDigitChars_cons]
      rfl
  rw [digitsValue, dec, hfold _ (fun c hc => Nat.isDigit_of_mem_toDigits (by decide) (by decide) hc),
    Nat.ofDigitChars_ten_toDigits]

/-- Decimal numerals and the rationals they stand for. -/
def unsignedDecimal (digit : Nat → Option Nat) (s : Str) : Option ℚ :=
  match s.span (· ≠ 46) with
  | (whole, []) => if whole = [] then none else (digitsValue digit whole).map (↑)
  | (whole, _ :: frac) =>
    if whole = [] ∧ frac = [] then none
    else (digitsValue digit (whole ++ frac)).map fun n => n / 10 ^ frac.length

def decimal? (digit : Nat → Option Nat) : Str → Option ℚ
  | 45 :: s => (unsignedDecimal digit s).map (- ·)
  | s => unsignedDecimal digit s

theorem length_dec_le (hk : 0 < k) (h : n < 10 ^ k) : (dec n).length ≤ k := by
  rw [dec, List.length_map]
  exact (Nat.length_toDigits_le_iff (by decide) hk).mpr h

def asciiLower (c : Nat) : Nat := if 65 ≤ c ∧ c ≤ 90 then c + 32 else c

/-- What depends on the version of Unicode, with what every version says. -/
structure Unicode where
  printable : Nat → Bool
  space : Nat → Bool
  digit : Nat → Option Nat
  lower : Str → Str
  printable_ascii : c < 128 → printable c = decide (32 ≤ c ∧ c ≤ 126)
  printable_break : isBreak c → printable c = false
  printable_surrogate : isSurrogate c → printable c = false
  space_ascii : c < 128 → space c = decide ((9 ≤ c ∧ c ≤ 13) ∨ (28 ≤ c ∧ c ≤ 32))
  digit_ascii : c < 128 → digit c = if 48 ≤ c ∧ c ≤ 57 then some (c - 48) else none
  lower_ascii : (∀ c ∈ s, c < 128) → lower s = s.map asciiLower

namespace Unicode

variable (u : Unicode)

def strip (s : Str) : Str := ((s.dropWhile u.space).reverse.dropWhile u.space).reverse

def lstrip (s : Str) : Str := s.dropWhile u.space

theorem strip_eq_self {s : Str} (hhead : ∀ c ∈ s.head?, u.space c = false)
    (hlast : ∀ c ∈ s.getLast?, u.space c = false) : u.strip s = s := by
  have hdrop {s : Str} (h : ∀ c ∈ s.head?, u.space c = false) : s.dropWhile u.space = s := by
    cases s with
    | nil => rfl
    | cons c s => rw [List.dropWhile_cons_of_neg (by simp [h c rfl])]
  rw [strip, hdrop hhead, hdrop (by rwa [List.head?_reverse]), List.reverse_reverse]

theorem space_visible (h : 33 ≤ c ∧ c < 128) : u.space c = false := by
  rw [u.space_ascii h.2, decide_eq_false_iff_not]
  omega

theorem strip_visible (h : ∀ c ∈ s, 33 ≤ c ∧ c < 128) : u.strip s = s :=
  u.strip_eq_self (fun c hc => u.space_visible (h c (List.mem_of_mem_head? hc)))
    fun c hc => u.space_visible (h c (List.mem_of_mem_getLast? hc))

theorem lstrip_cons (h : u.space c = false) (s : Str) : u.lstrip (c :: s) = c :: s :=
  List.dropWhile_cons_of_neg (by simp [h])

theorem strip_cons_ne_nil (h : u.space c = false) (s : Str) : u.strip (c :: s) ≠ [] := by
  rw [strip, List.dropWhile_cons_of_neg (by simp [h]), ne_eq, List.reverse_eq_nil_iff,
    List.dropWhile_eq_nil_iff]
  exact fun hall => by simpa [h] using hall c (by simp)

theorem digit_dec (h : 48 ≤ c ∧ c ≤ 57) : u.digit c = some (c - 48) := by
  rw [u.digit_ascii (by omega), if_pos h]

end Unicode

def Unicode.ascii : Unicode where
  printable c := 32 ≤ c && c ≤ 126
  space c := decide ((9 ≤ c ∧ c ≤ 13) ∨ (28 ≤ c ∧ c ≤ 32))
  digit c := if 48 ≤ c ∧ c ≤ 57 then some (c - 48) else none
  lower s := s.map asciiLower
  printable_ascii _ := by simp
  printable_break h := by
    simp only [isBreak, List.mem_cons, List.not_mem_nil, or_false, decide_eq_true_eq] at h
    simp only [Bool.and_eq_false_iff, decide_eq_false_iff_not]
    omega
  printable_surrogate h := by
    simp only [isSurrogate, Bool.and_eq_true, decide_eq_true_eq] at h
    simp only [Bool.and_eq_false_iff, decide_eq_false_iff_not]
    omega
  space_ascii _ := rfl
  digit_ascii _ := rfl
  lower_ascii _ := rfl

end StainedGlass.Lib
