import StainedGlass.Lib.Bytes

/-! Archives of cpio's "newc" format. -/

namespace StainedGlass.Lib.Cpio

structure Member where
  path : Bytes
  mode : Nat
  data : Bytes
  deriving DecidableEq

def hexValue (c : UInt8) : Option Nat :=
  if 48 ≤ c ∧ c ≤ 57 then some (c.toNat - 48)
  else if 65 ≤ c ∧ c ≤ 70 then some (c.toNat - 55)
  else if 97 ≤ c ∧ c ≤ 102 then some (c.toNat - 87)
  else none

def readHex (b : Bytes) : Option Nat :=
  if b.length = 8 then (b.mapM hexValue).map fun ds => Nat.ofDigits 16 ds.reverse else none

def readFields : Nat → Bytes → Option (List Nat)
  | 0, _ => some []
  | n + 1, b => do
    let v ← readHex (b.take 8)
    let vs ← readFields n (b.drop 8)
    pure (v :: vs)

def align (n : Nat) : Nat := n + (4 - n % 4) % 4

def trailer : Bytes := ascii "TRAILER!!!"

/-- The member at a position of the archive, where `b` is the archive from there on, and what
follows it. -/
def readMember (pos : Nat) (b : Bytes) : Option (Member × Nat × Bytes) :=
  match if b.take 6 = ascii "070701" then readFields 13 (b.drop 6) else none with
  | some [_, mode, _, _, _, _, size, _, _, _, _, namesize, _] =>
    let name := (b.drop 110).take namesize
    let start := align (pos + 110 + namesize)
    let data := (b.drop (start - pos)).take size
    let stop := align (start + size)
    if name.length = namesize ∧ name.getLast? = some 0 ∧ 0 ∉ name.dropLast ∧ data.length = size then
      some (⟨name.dropLast, mode, data⟩, stop, b.drop (stop - pos))
    else none
  | _ => none

def readMembers : Nat → Nat → Bytes → Option (List Member)
  | 0, _, _ => none
  | fuel + 1, pos, b =>
    match readMember pos b with
    | none => none
    | some (m, pos, b) => if m.path = trailer then some [] else (readMembers fuel pos b).map (m :: ·)

def read (archive : Bytes) : Option (List Member) := readMembers (archive.length / 110 + 1) 0 archive

def hexDigit (n : Nat) : UInt8 := UInt8.ofNat (if n < 10 then 48 + n else 55 + n)

def hex8 (v : Nat) : Bytes :=
  List.replicate (8 - (Nat.digits 16 v).length) 48 ++ (Nat.digits 16 v).reverse.map hexDigit

theorem hexValue_hexDigit {n : Nat} (h : n < 16) : hexValue (hexDigit n) = some n := by
  interval_cases n <;> rfl

theorem length_hex8 {v : Nat} (h : v < 2 ^ 32) : (hex8 v).length = 8 := by
  have hle : (Nat.digits 16 v).length ≤ 8 := (Nat.digits_length_le_iff (by norm_num) v).2 (by norm_num; omega)
  simp only [hex8, List.length_append, List.length_replicate, List.length_map, List.length_reverse]
  omega

theorem mapM_hexValue {ds : List Nat} (h : ∀ d ∈ ds, d < 16) : (ds.map hexDigit).mapM hexValue = some ds := by
  induction ds with
  | nil => rfl
  | cons d ds ih =>
    rw [List.forall_mem_cons] at h
    simp [hexValue_hexDigit h.1, ih h.2]

theorem readHex_hex8 {v : Nat} (h : v < 2 ^ 32) : readHex (hex8 v) = some v := by
  set k := 8 - (Nat.digits 16 v).length with hk
  have hdigits : hex8 v = (List.replicate k 0 ++ (Nat.digits 16 v).reverse).map hexDigit := by
    rw [hex8, List.map_append, List.map_replicate]
    rfl
  have hsmall : ∀ d ∈ List.replicate k 0 ++ (Nat.digits 16 v).reverse, d < 16 := by
    intro d hd
    rcases List.mem_append.1 hd with hd | hd
    · rw [List.eq_of_mem_replicate hd]
      norm_num
    · exact Nat.digits_lt_base (by norm_num) (List.mem_reverse.1 hd)
  rw [readHex, if_pos (length_hex8 h), hdigits, mapM_hexValue hsmall]
  simp [Nat.ofDigits_append, Nat.ofDigits_digits]

theorem readFields_hex8 {vs : List Nat} (h : ∀ v ∈ vs, v < 2 ^ 32) (rest : Bytes) :
    readFields vs.length (vs.flatMap hex8 ++ rest) = some vs := by
  induction vs with
  | nil => rfl
  | cons v vs ih =>
    rw [List.forall_mem_cons] at h
    rw [List.flatMap_cons, List.append_assoc, List.length_cons, readFields, List.take_left' (length_hex8 h.1),
      List.drop_left' (length_hex8 h.1), readHex_hex8 h.1, ih h.2]
    rfl

theorem length_flatMap_hex8 {vs : List Nat} (h : ∀ v ∈ vs, v < 2 ^ 32) : (vs.flatMap hex8).length = 8 * vs.length := by
  induction vs with
  | nil => rfl
  | cons v vs ih =>
    rw [List.forall_mem_cons] at h
    rw [List.flatMap_cons, List.length_append, length_hex8 h.1, ih h.2, List.length_cons]
    omega

end StainedGlass.Lib.Cpio
