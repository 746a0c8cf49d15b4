import Mathlib

/-! Byte buffers as C programs use them. -/

namespace StainedGlass.Lib

abbrev Bytes := List UInt8

def ascii (s : String) : Bytes := s.toList.map Char.toUInt8

def cstr (b : Bytes) : Bytes := b.takeWhile (· ≠ 0)

theorem zero_notMem_cstr (b : Bytes) : 0 ∉ cstr b := by
  intro h
  have hall := List.all_takeWhile (l := b) (p := (· ≠ (0 : UInt8)))
  simpa using List.all_eq_true.mp hall 0 h

theorem cstr_append_zero (h : 0 ∉ s) (rest : Bytes) : cstr (s ++ 0 :: rest) = s := by
  rw [cstr, List.takeWhile_append_of_pos]
  · simp
  · intro b hb
    simpa using ne_of_mem_of_not_mem hb h

theorem cstr_eq_self (h : 0 ∉ s) : cstr s = s := by
  rw [cstr, List.takeWhile_eq_self_iff]
  intro b hb
  simpa using ne_of_mem_of_not_mem hb h

def cut [DecidableEq α] (c : α) : List α → Option (List α × List α)
  | [] => none
  | x :: xs => if x = c then some ([], xs) else (cut c xs).map fun r => (x :: r.1, r.2)

theorem cut_append [DecidableEq α] (h : c ∉ xs) (ys : List α) : cut c (xs ++ c :: ys) = some (xs, ys) := by
  induction xs with
  | nil => simp [cut]
  | cons x xs ih =>
    rw [List.mem_cons, not_or] at h
    simp [cut, Ne.symm h.1, ih h.2]

theorem eq_of_cut [DecidableEq α] {c : α} {xs a b : List α} (h : cut c xs = some (a, b)) :
    xs = a ++ c :: b ∧ c ∉ a := by
  induction xs generalizing a with
  | nil => cases h
  | cons x xs ih =>
    rw [cut] at h
    split at h
    · next hx =>
      cases h
      exact ⟨by rw [hx]; rfl, List.not_mem_nil⟩
    · next hx =>
      obtain ⟨⟨a', b'⟩, hr, hab⟩ := Option.map_eq_some_iff.mp h
      cases hab
      obtain ⟨rfl, ha⟩ := ih hr
      exact ⟨rfl, by simpa [Ne.symm hx] using ha⟩

structure CString where
  bytes : Bytes
  nul_free : 0 ∉ bytes
  deriving DecidableEq

namespace CString

def ofBuffer (b : Bytes) : CString := ⟨cstr b, zero_notMem_cstr b⟩

def ofString (s : String) : CString := ofBuffer (ascii s)

def empty : CString := ⟨[], List.not_mem_nil⟩

@[simp] theorem empty_bytes : empty.bytes = [] := rfl

def terminated (s : CString) : Bytes := s.bytes ++ [0]

variable (s : CString)

@[simp] theorem length_terminated : s.terminated.length = s.bytes.length + 1 := by
  simp [terminated]

@[simp] theorem terminated_ne_nil : s.terminated ≠ [] := by
  simp [terminated]

@[simp] theorem ofBuffer_bytes : ofBuffer s.bytes = s := by
  simp [ofBuffer, cstr_eq_self s.nul_free]

@[simp] theorem ofBuffer_terminated (rest : Bytes) : ofBuffer (s.terminated ++ rest) = s := by
  simp [ofBuffer, terminated, cstr_append_zero s.nul_free]

end CString

def nextString (b : Bytes) : CString × Bytes :=
  (CString.ofBuffer b, b.drop ((cstr b).length + 1))

variable (s : CString) (ss : List CString)

@[simp] theorem nextString_terminated (rest : Bytes) : nextString (s.terminated ++ rest) = (s, rest) := by
  have h : (cstr (s.terminated ++ rest)).length + 1 = s.terminated.length := by
    simp [CString.terminated, cstr_append_zero s.nul_free]
  rw [nextString, h, List.drop_left, CString.ofBuffer_terminated]

def pack (ss : List CString) : Bytes := ss.flatMap CString.terminated

@[simp] theorem pack_nil : pack [] = [] := rfl

theorem getLast?_pack : (pack (s :: ss)).getLast? = some 0 := by
  induction ss generalizing s with
  | nil => simp [pack, CString.terminated]
  | cons t ss ih =>
    change (s.terminated ++ pack (t :: ss)).getLast? = some 0
    rw [List.getLast?_append, ih]
    rfl

@[simp] theorem pack_cons : pack (s :: ss) = s.terminated ++ pack ss := rfl

theorem pack_append (ss ts : List CString) : pack (ss ++ ts) = pack ss ++ pack ts :=
  List.flatMap_append

def put (cap : Nat) (buf : Bytes) (s : CString) : Option Bytes :=
  if cap < buf.length + (s.bytes.length + 1) then none else some (buf ++ s.terminated)

theorem foldlM_put {buf : Bytes} (h : buf.length ≤ cap) : ss.foldlM (put cap) buf =
      if cap < (buf ++ pack ss).length then none else some (buf ++ pack ss) := by
  induction ss generalizing buf with
  | nil => simp [Nat.not_lt.mpr h]
  | cons s ss ih =>
    rw [List.foldlM_cons, put, pack_cons, ← List.append_assoc]
    by_cases hfit : cap < buf.length + (s.bytes.length + 1)
    · rw [if_pos hfit, if_pos]
      · rfl
      · simp only [List.length_append, CString.length_terminated]
        omega
    · rw [if_neg hfit]
      exact ih (by simp only [List.length_append, CString.length_terminated]; omega)

def unpack : Bytes → List CString
  | [] => []
  | b :: bs => (nextString (b :: bs)).1 :: unpack (nextString (b :: bs)).2
termination_by b => b.length
decreasing_by simp only [nextString, List.length_drop, List.length_cons]; omega

theorem unpack_terminated (rest : Bytes) : unpack (s.terminated ++ rest) = s :: unpack rest := by
  obtain ⟨b, bs, hb⟩ : ∃ b bs, s.terminated ++ rest = b :: bs := by
    cases h : s.terminated ++ rest with
    | nil => simp [CString.terminated] at h
    | cons b bs => exact ⟨b, bs, rfl⟩
  rw [hb, unpack, ← hb, nextString_terminated]

theorem unpack_pack : unpack (pack ss) = ss := by
  induction ss with
  | nil => rw [pack_nil, unpack]
  | cons s ss ih => rw [pack_cons, unpack_terminated, ih]

def decimal (n : Nat) : Bytes := (Nat.toDigits 10 n).map Char.toUInt8

theorem isDigit_of_mem_decimal (h : b ∈ decimal n) : 48 ≤ b ∧ b ≤ 57 := by
  obtain ⟨c, hc, rfl⟩ := List.mem_map.mp h
  have hdigit := Nat.isDigit_of_mem_toDigits (by decide) (by decide) hc
  simp only [Char.isDigit, Bool.and_eq_true, decide_eq_true_eq] at hdigit
  have h₁ : 48 ≤ c.toNat := UInt32.le_iff_toNat_le.mp hdigit.1
  have h₂ : c.toNat ≤ 57 := UInt32.le_iff_toNat_le.mp hdigit.2
  simp only [UInt8.le_iff_toNat_le, Char.toUInt8, UInt32.toNat_toUInt8]
  change 48 ≤ c.toNat % 2 ^ 8 ∧ c.toNat % 2 ^ 8 ≤ 57
  omega

def CString.decimal (n : Nat) : CString where
  bytes := Lib.decimal n
  nul_free h := absurd (isDigit_of_mem_decimal h).1 (by decide)

def le32 (x : UInt32) : Bytes :=
  [UInt8.ofNat x.toNat, UInt8.ofNat (x.toNat / 2 ^ 8), UInt8.ofNat (x.toNat / 2 ^ 16),
    UInt8.ofNat (x.toNat / 2 ^ 24)]

def ofLe32 : Bytes → UInt32
  | [a, b, c, d] =>
    UInt32.ofNat (a.toNat + b.toNat * 2 ^ 8 + c.toNat * 2 ^ 16 + d.toNat * 2 ^ 24)
  | _ => 0

@[simp] theorem length_le32 (x : UInt32) : (le32 x).length = 4 := rfl

@[simp] theorem ofLe32_le32 (x : UInt32) : ofLe32 (le32 x) = x := by
  have hx : x.toNat < 2 ^ 32 := x.toNat_lt
  apply UInt32.toNat_inj.mp
  simp only [ofLe32, le32, UInt32.toNat_ofNat', UInt8.toNat_ofNat']
  omega

end StainedGlass.Lib
