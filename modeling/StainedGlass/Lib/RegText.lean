import StainedGlass.Lib.Text

/-! Text of UTF-16 units as Wine's server writes it in a registry file (`dump_strW`). -/

namespace StainedGlass.Lib.RegText

def isHex (c : Nat) : Bool := (48 ≤ c && c ≤ 57) || (97 ≤ c && c ≤ 102) || (65 ≤ c && c ≤ 70)

def isOct (c : Nat) : Bool := 48 ≤ c && c ≤ 55

def digit (d : Nat) : Nat := if d < 10 then 48 + d else 87 + d

def hex4 (c : Nat) : Str := [c / 4096 % 16, c / 256 % 16, c / 16 % 16, c % 16].map digit

def oct3 (c : Nat) : Str := [c / 64 % 8, c / 8 % 8, c % 8].map digit

def short (digits : Str) : Str :=
  match digits.dropWhile (· = 48) with
  | [] => [48]
  | ds => ds

def letters : List (Nat × Nat) :=
  [(7, 97), (8, 98), (9, 116), (10, 110), (11, 118), (12, 102), (13, 114), (27, 101)]

def dumpUnit (c : Nat) (next : Option Nat) : Str :=
  if 127 < c then
    92 :: 120 :: if next.any isHex then hex4 c else short (hex4 c)
  else if c < 32 then
    match letters.lookup c with
    | some letter => [92, letter]
    | none => 92 :: if next.any isOct then oct3 c else short (oct3 c)
  else if c = 92 ∨ c = 34 then [92, c]
  else [c]

def dumpStrW : List UInt16 → Str
  | [] => []
  | u :: us => dumpUnit u.toNat (us.head?.map UInt16.toNat) ++ dumpStrW us

def isHigh (u : UInt16) : Bool := 0xd800 ≤ u.toNat && u.toNat < 0xdc00

def isLow (u : UInt16) : Bool := 0xdc00 ≤ u.toNat && u.toNat < 0xe000

/-- The text that the units are: a pair of surrogates is one character, any other unit
is the character of its number. -/
def textOf : List UInt16 → Str
  | [] => []
  | [u] => [u.toNat]
  | u :: v :: us =>
    if isHigh u && isLow v then
      (0x10000 + (u.toNat - 0xd800) * 0x400 + (v.toNat - 0xdc00)) :: textOf us
    else u.toNat :: textOf (v :: us)

def Unpaired (us : List UInt16) : Prop := us.IsChain fun u v => ¬ (isHigh u = true ∧ isLow v = true)

theorem length_textOf_le (us : List UInt16) : (textOf us).length ≤ us.length := by
  fun_induction textOf us with
  | case1 => simp
  | case2 => simp
  | case3 u v us hpair ih => simp only [List.length_cons] at ih ⊢; omega
  | case4 u v us hpair ih => simpa using ih

theorem textOf_eq_units_iff (us : List UInt16) : textOf us = us.map UInt16.toNat ↔ Unpaired us := by
  fun_induction textOf us with
  | case1 => simp [Unpaired]
  | case2 u => simp [Unpaired]
  | case3 u v us hpair ih =>
    rw [Bool.and_eq_true] at hpair
    refine iff_of_false (fun h => ?_) fun h => (List.isChain_cons_cons.mp h).1 hpair
    have hlen := congrArg List.length h
    have := length_textOf_le us
    simp only [List.length_cons, List.length_map] at hlen
    omega
  | case4 u v us hpair ih =>
    rw [Bool.and_eq_true] at hpair
    rw [Unpaired, List.isChain_cons_cons, and_iff_right hpair, List.map_cons, List.cons_inj_right]
    exact ih

theorem isHex_digit (h : d < 16) : isHex (digit d) = true := by
  interval_cases d <;> rfl

theorem isOct_digit (h : d < 8) : isOct (digit d) = true := by
  interval_cases d <;> rfl

theorem isHex_hex4 (c : Nat) : ∀ x ∈ hex4 c, isHex x = true := by
  intro x hx
  obtain ⟨d, hd, rfl⟩ := List.mem_map.mp hx
  refine isHex_digit ?_
  simp only [List.mem_cons, List.not_mem_nil, or_false] at hd
  omega

theorem isOct_oct3 (c : Nat) : ∀ x ∈ oct3 c, isOct x = true := by
  intro x hx
  obtain ⟨d, hd, rfl⟩ := List.mem_map.mp hx
  refine isOct_digit ?_
  simp only [List.mem_cons, List.not_mem_nil, or_false] at hd
  omega

theorem mem_short (h : x ∈ short digits) : x ∈ digits ∨ x = 48 := by
  rw [short] at h
  split at h
  · exact .inr (List.mem_singleton.mp h)
  · exact .inl ((List.dropWhile_sublist _).subset h)

theorem short_ne_nil (digits : Str) : short digits ≠ [] := by
  rw [short]
  split
  · simp
  · next h => exact h

theorem length_short_le {digits : Str} (h : digits ≠ []) : (short digits).length ≤ digits.length := by
  rw [short]
  split
  · exact List.length_pos_iff.mpr h
  · exact (List.dropWhile_sublist _).length_le

theorem head_dumpStrW {us : List UInt16} (h : c ∈ (dumpStrW us).head?) :
    c = 92 ∨ (us.head?.map UInt16.toNat) = some c := by
  cases us with
  | nil => cases h
  | cons u us =>
    rw [dumpStrW, dumpUnit] at h
    split at h
    · exact .inl (by simpa using h.symm)
    · split at h
      · split at h <;> exact .inl (by simpa using h.symm)
      · split at h
        · exact .inl (by simpa using h.symm)
        · exact .inr (by simpa using h)

end StainedGlass.Lib.RegText
