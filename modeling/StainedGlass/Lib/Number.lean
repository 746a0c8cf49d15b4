import StainedGlass.Lib.Bytes

/-! Decimal numbers read by C's `strtoul` and `strtoll` in base 10. -/

namespace StainedGlass.Lib

def isDigit (c : UInt8) : Bool := 48 ≤ c && c ≤ 57

def isSpace (c : UInt8) : Bool := c = 32 || (9 ≤ c && c ≤ 13)

def readDigits (acc : Nat) : Bytes → Nat
  | [] => acc
  | c :: cs => if isDigit c then readDigits (10 * acc + (c.toNat - 48)) cs else acc

def strtoul (s : Bytes) : Nat :=
  match s.dropWhile isSpace with
  | 43 :: s => min (readDigits 0 s) (2 ^ 64 - 1)
  | 45 :: s => if 2 ^ 64 ≤ readDigits 0 s then 2 ^ 64 - 1 else (2 ^ 64 - readDigits 0 s) % 2 ^ 64
  | s => min (readDigits 0 s) (2 ^ 64 - 1)

def strtoll (s : Bytes) : Int :=
  match s.dropWhile isSpace with
  | 43 :: s => min (readDigits 0 s) (2 ^ 63 - 1)
  | 45 :: s => max (-(readDigits 0 s : Int)) (-2 ^ 63)
  | s => min (readDigits 0 s) (2 ^ 63 - 1)

def hexDigit (n : Nat) : UInt8 := UInt8.ofNat (if n < 10 then 48 + n else 87 + n)

def hex (width n : Nat) : Bytes :=
  (List.range width).map fun i => hexDigit (n / 16 ^ (width - 1 - i) % 16)

def hexNumber (n : Nat) : Bytes :=
  if n = 0 then [48] else (Nat.digits 16 n).reverse.map hexDigit

def signedDecimal : Int → Bytes
  | .ofNat n => decimal n
  | .negSucc n => 45 :: decimal (n + 1)

theorem toNat_toUInt8_of_isDigit {c : Char} (h : c.isDigit = true) :
    isDigit c.toUInt8 = true ∧ c.toUInt8.toNat = c.toNat := by
  simp only [Char.isDigit, Bool.and_eq_true, decide_eq_true_eq] at h
  have h₁ : 48 ≤ c.toNat := UInt32.le_iff_toNat_le.mp h.1
  have h₂ : c.toNat ≤ 57 := UInt32.le_iff_toNat_le.mp h.2
  have hval : c.toUInt8.toNat = c.toNat := by
    change c.toNat % 2 ^ 8 = c.toNat
    omega
  refine ⟨?_, hval⟩
  simp only [isDigit, Bool.and_eq_true, decide_eq_true_eq, UInt8.le_iff_toNat_le, hval]
  exact ⟨h₁, h₂⟩

theorem readDigits_digits {ds : List Char} (h : ∀ c ∈ ds, c.isDigit = true) (acc : Nat)
    {rest : Bytes} (hrest : ∀ c ∈ rest.head?, isDigit c = false) :
    readDigits acc (ds.map Char.toUInt8 ++ rest) = Nat.ofDigitChars 10 ds acc := by
  induction ds generalizing acc with
  | nil =>
    cases rest with
    | nil => rfl
    | cons c cs => simp [readDigits, hrest c rfl]
  | cons d ds ih =>
    obtain ⟨hd, hval⟩ := toNat_toUInt8_of_isDigit (h d (.head _))
    rw [List.map_cons, List.cons_append, readDigits, if_pos hd, hval,
      ih (fun c hc => h c (.tail _ hc)), Nat.ofDigitChars_cons]
    rfl

theorem readDigits_decimal (n : Nat) {rest : Bytes} (hrest : ∀ c ∈ rest.head?, isDigit c = false) :
    readDigits 0 (decimal n ++ rest) = n := by
  rw [decimal, readDigits_digits (fun c hc => Nat.isDigit_of_mem_toDigits (by decide) (by decide) hc)
    0 hrest, Nat.ofDigitChars_ten_toDigits]

theorem decimal_eq_cons (n : Nat) : ∃ d ds, decimal n = d :: ds ∧ isDigit d = true := by
  cases h : decimal n with
  | nil => simp [decimal, Nat.toDigits_ne_nil] at h
  | cons d ds =>
    have := isDigit_of_mem_decimal (h ▸ List.mem_cons_self : d ∈ decimal n)
    exact ⟨d, ds, rfl, by simp [isDigit, this]⟩

theorem notMem_decimal (n : Nat) (hc : c < 48) : c ∉ decimal n := fun h =>
  absurd (isDigit_of_mem_decimal h).1 (by simpa using hc)

theorem length_decimal_le (hk : 0 < k) (h : n < 10 ^ k) : (decimal n).length ≤ k := by
  rw [decimal, List.length_map]
  exact (Nat.length_toDigits_le_iff (by decide) hk).mpr h

theorem not_isSpace_of_isDigit (h : isDigit d = true) : isSpace d = false := by
  simp only [isDigit, Bool.and_eq_true, decide_eq_true_eq, UInt8.le_iff_toNat_le] at h
  simp only [isSpace, Bool.or_eq_false_iff, Bool.and_eq_false_iff, decide_eq_false_iff_not,
    UInt8.le_iff_toNat_le, ← UInt8.toNat_inj]
  simp at h ⊢
  omega

theorem dropWhile_isSpace_decimal (n : Nat) (rest : Bytes) :
    (decimal n ++ rest).dropWhile isSpace = decimal n ++ rest := by
  obtain ⟨d, ds, hd, hdigit⟩ := decimal_eq_cons n
  rw [hd, List.cons_append, List.dropWhile_cons_of_neg (by simp [not_isSpace_of_isDigit hdigit])]

theorem readDigits_append (h : ∀ c ∈ xs, isDigit c = true) (acc : Nat) (ys : Bytes) :
    readDigits acc (xs ++ ys) = readDigits (readDigits acc xs) ys := by
  induction xs generalizing acc with
  | nil => rfl
  | cons c xs ih =>
    rw [List.forall_mem_cons] at h
    rw [List.cons_append, readDigits, readDigits, if_pos h.1, if_pos h.1, ih h.2]

theorem toNat_le_of_isDigit {c : UInt8} (h : isDigit c = true) : c.toNat - 48 < 10 := by
  simp only [isDigit, Bool.and_eq_true, decide_eq_true_eq, UInt8.le_iff_toNat_le] at h
  simp at h
  omega

theorem readDigits_acc {ds : Bytes} (h : ∀ c ∈ ds, isDigit c = true) (acc : Nat) :
    readDigits acc ds = acc * 10 ^ ds.length + readDigits 0 ds ∧ readDigits 0 ds < 10 ^ ds.length := by
  induction ds generalizing acc with
  | nil => exact ⟨by simp [readDigits], by simp [readDigits]⟩
  | cons c ds ih =>
    rw [List.forall_mem_cons] at h
    have hc := toNat_le_of_isDigit h.1
    have hacc := (ih h.2 (10 * acc + (c.toNat - 48))).1
    have hzero := (ih h.2 (c.toNat - 48)).1
    have hlt := (ih h.2 0).2
    rw [readDigits, readDigits, if_pos h.1, if_pos h.1, hacc, Nat.mul_zero, Nat.zero_add, hzero, List.length_cons,
      pow_succ]
    have hle : (c.toNat - 48) * 10 ^ ds.length ≤ 9 * 10 ^ ds.length := Nat.mul_le_mul_right _ (by omega)
    exact ⟨by ring, by omega⟩

theorem readDigits_take_decimal (n k : Nat) :
    readDigits 0 ((decimal n).take k) = n / 10 ^ ((decimal n).length - k) := by
  have hdigits {c : UInt8} (hc : c ∈ decimal n) : isDigit c = true := by
    simp [isDigit, isDigit_of_mem_decimal hc]
  have htake : ∀ c ∈ (decimal n).take k, isDigit c = true := fun c hc => hdigits (List.mem_of_mem_take hc)
  have hdrop : ∀ c ∈ (decimal n).drop k, isDigit c = true := fun c hc => hdigits (List.mem_of_mem_drop hc)
  have hval : readDigits 0 (decimal n ++ []) = n := readDigits_decimal n (by simp)
  have happend := readDigits_append htake 0 ((decimal n).drop k)
  obtain ⟨hacc, hlt⟩ := readDigits_acc hdrop (readDigits 0 ((decimal n).take k))
  rw [List.append_nil] at hval
  rw [List.take_append_drop, hval, hacc] at happend
  rw [List.length_drop] at happend hlt
  symm
  rw [Nat.div_eq_iff (by positivity)]
  omega

theorem strtoul_digits (h : ∀ c ∈ ds, isDigit c = true) : strtoul ds = min (readDigits 0 ds) (2 ^ 64 - 1) := by
  cases ds with
  | nil => rfl
  | cons d ds =>
    have hd := h d (.head _)
    rw [strtoul, List.dropWhile_cons_of_neg (by simp [not_isSpace_of_isDigit hd])]
    split
    · next heq => cases heq; cases hd
    · next heq => cases heq; cases hd
    · rfl

theorem strtoul_decimal (hn : n < 2 ^ 64) {rest : Bytes}
    (hrest : ∀ c ∈ rest.head?, isDigit c = false) : strtoul (decimal n ++ rest) = n := by
  have hval := readDigits_decimal n hrest
  obtain ⟨d, ds, hd, hdigit⟩ := decimal_eq_cons n
  rw [strtoul, dropWhile_isSpace_decimal]
  split
  · next h => rw [hd] at h; cases h; cases hdigit
  · next h => rw [hd] at h; cases h; cases hdigit
  · rw [hval]
    omega

theorem strtoll_signedDecimal (hlo : -2 ^ 63 ≤ z) (hhi : z < 2 ^ 63) {rest : Bytes}
    (hrest : ∀ c ∈ rest.head?, isDigit c = false) : strtoll (signedDecimal z ++ rest) = z := by
  cases z with
  | ofNat n =>
    have hval := readDigits_decimal n hrest
    obtain ⟨d, ds, hd, hdigit⟩ := decimal_eq_cons n
    rw [signedDecimal, strtoll, dropWhile_isSpace_decimal]
    split
    · next h => rw [hd] at h; cases h; cases hdigit
    · next h => rw [hd] at h; cases h; cases hdigit
    · rw [hval]
      change min (n : Int) _ = n
      have : (n : Int) < 2 ^ 63 := hhi
      omega
  | negSucc n =>
    have hval := readDigits_decimal (n + 1) hrest
    have hdrop : (45 :: (decimal (n + 1) ++ rest)).dropWhile isSpace =
        45 :: (decimal (n + 1) ++ rest) := List.dropWhile_cons_of_neg (by decide)
    rw [signedDecimal, strtoll, List.cons_append, hdrop]
    simp only [hval]
    omega

end StainedGlass.Lib
