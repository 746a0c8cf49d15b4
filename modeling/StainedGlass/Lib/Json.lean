import StainedGlass.Lib.Utf8
import StainedGlass.Lib.Number

/-! JSON as far as objects of strings go, on the bytes of a text. -/

namespace StainedGlass.Lib.Json

def hexValue (b : UInt8) : Option Nat :=
  if 48 ≤ b ∧ b ≤ 57 then some (b.toNat - 48)
  else if 97 ≤ b ∧ b ≤ 102 then some (b.toNat - 87)
  else if 65 ≤ b ∧ b ≤ 70 then some (b.toNat - 55)
  else none

def readUnit : Bytes → Option (Nat × Bytes)
  | a :: b :: c :: d :: rest => do
    let a ← hexValue a
    let b ← hexValue b
    let c ← hexValue c
    let d ← hexValue d
    return (a * 4096 + b * 256 + c * 16 + d, rest)
  | _ => none

def simpleEscape (b : UInt8) : Option UInt8 :=
  if b = 34 ∨ b = 92 ∨ b = 47 then some b
  else if b = 98 then some 8
  else if b = 102 then some 12
  else if b = 110 then some 10
  else if b = 114 then some 13
  else if b = 116 then some 9
  else none

def readLow : Bytes → Option (Nat × Bytes)
  | 92 :: 117 :: rest => (readUnit rest).filter fun r => 0xdc00 ≤ r.1 && r.1 < 0xe000
  | _ => none

def readUnicode (b : Bytes) : Option (Char × Bytes) := do
  let (n, rest) ← readUnit b
  if 0xd800 ≤ n ∧ n < 0xdc00 then
    let (m, rest) ← readLow rest
    return (Char.ofNat (0x10000 + (n - 0xd800) * 1024 + (m - 0xdc00)), rest)
  else if 0xdc00 ≤ n ∧ n < 0xe000 then none
  else return (Char.ofNat n, rest)

def readItem : Bytes → Option (Option Bytes × Bytes)
  | [] => none
  | b :: rest =>
    if b = 34 then some (none, rest)
    else if b = 92 then
      match rest with
      | [] => none
      | e :: rest =>
        if e = 117 then (readUnicode rest).map fun r => (some (String.utf8EncodeChar r.1), r.2)
        else (simpleEscape e).map fun c => (some [c], rest)
    else if b < 32 then none
    else some (some [b], rest)

def readStringFrom : Nat → Bytes → Option (Bytes × Bytes)
  | 0, _ => none
  | n + 1, b =>
    match readItem b with
    | none => none
    | some (none, rest) => some ([], rest)
    | some (some x, rest) => (readStringFrom n rest).map fun r => (x ++ r.1, r.2)

def readString (b : Bytes) : Option (Bytes × Bytes) := readStringFrom b.length b

def expect (c : UInt8) : Bytes → Option Bytes
  | [] => none
  | b :: rest => if b = c then some rest else none

def readMember (b : Bytes) : Option ((Bytes × Bytes) × Bytes) := do
  let b ← expect 34 b
  let (key, b) ← readString b
  let b ← expect 58 b
  let b ← expect 34 b
  let (value, b) ← readString b
  return ((key, value), b)

def readMembers : Nat → Bytes → Option (List (Bytes × Bytes))
  | 0, _ => none
  | n + 1, b => do
    let (m, rest) ← readMember b
    if rest = [125] then return [m]
    let rest ← expect 44 rest
    let ms ← readMembers n rest
    return m :: ms

def readObject (b : Bytes) : Option (List (Bytes × Bytes)) := do
  let rest ← expect 123 b
  readMembers b.length rest

def escapeByte (b : UInt8) : Bytes :=
  if b = 34 then [92, 34]
  else if b = 92 then [92, 92]
  else if b = 10 then [92, 110]
  else if b = 13 then [92, 114]
  else if b = 9 then [92, 116]
  else if b < 32 then [92, 117] ++ hex 4 b.toNat
  else [b]

def escape (b : Bytes) : Bytes := b.flatMap escapeByte

@[simp] theorem escape_nil : escape [] = [] := rfl

@[simp] theorem escape_cons (b : UInt8) (bs : Bytes) : escape (b :: bs) = escapeByte b ++ escape bs := rfl

theorem escape_append (a b : Bytes) : escape (a ++ b) = escape a ++ escape b := List.flatMap_append

theorem escapeByte_ne_nil (b : UInt8) : escapeByte b ≠ [] := by
  rw [escapeByte]
  repeat' split
  all_goals simp

theorem length_escapeByte_pos (b : UInt8) : 0 < (escapeByte b).length :=
  List.length_pos_of_ne_nil (escapeByte_ne_nil b)

theorem length_le_escape (b : Bytes) : b.length ≤ (escape b).length := by
  induction b with
  | nil => exact Nat.le_refl 0
  | cons b bs ih =>
    have := length_escapeByte_pos b
    rw [escape_cons, List.length_append, List.length_cons]
    omega

theorem readUnit_hex (h : n < 32) (rest : Bytes) : readUnit (hex 4 n ++ rest) = some (n, rest) := by
  have hall : ∀ n < 32, hex 4 n = [48, 48, hexDigit (n / 16), hexDigit (n % 16)] ∧
      hexValue (hexDigit (n / 16)) = some (n / 16) ∧
      hexValue (hexDigit (n % 16)) = some (n % 16) := by decide
  obtain ⟨hhex, hhi, hlo⟩ := hall n h
  have hzero : hexValue 48 = some 0 := by decide
  rw [hhex]
  simp only [List.cons_append, List.nil_append, readUnit, hzero, hhi, hlo, Option.bind_eq_bind,
    Option.bind_some, Option.pure_def, Option.some.injEq, Prod.mk.injEq, and_true]
  omega

theorem readUnicode_hex (h : n < 32) (rest : Bytes) : readUnicode (hex 4 n ++ rest) = some (Char.ofNat n, rest) := by
  rw [readUnicode, readUnit_hex h]
  simp only [Option.bind_eq_bind, Option.bind_some]
  rw [if_neg (by omega), if_neg (by omega)]
  rfl

theorem readItem_escapeByte (b : UInt8) (rest : Bytes) :
    readItem (escapeByte b ++ rest) = some (some [b], rest) := by
  rw [escapeByte]
  split
  · next h => subst h; rfl
  split
  · next h => subst h; rfl
  split
  · next h => subst h; rfl
  split
  · next h => subst h; rfl
  split
  · next h => subst h; rfl
  next hquote hback _ _ _ =>
  split
  · next h =>
    have hlt : b.toNat < 32 := UInt8.lt_iff_toNat_lt.mp h
    change (readUnicode (hex 4 b.toNat ++ rest)).map _ = _
    rw [readUnicode_hex hlt, Option.map_some, utf8EncodeChar_ascii (by omega)]
  · next h =>
    rw [List.singleton_append, readItem.eq_def]
    dsimp only
    rw [if_neg hquote, if_neg hback, if_neg h]

theorem readStringFrom_escape {p : Bytes} (h : p.length < n) (rest : Bytes) :
    readStringFrom n (escape p ++ 34 :: rest) = some (p, rest) := by
  induction p generalizing n with
  | nil =>
    cases n with
    | zero => cases h
    | succ n => rfl
  | cons b p ih =>
    cases n with
    | zero => cases h
    | succ n =>
      rw [escape_cons, List.append_assoc, readStringFrom, readItem_escapeByte]
      dsimp only
      rw [ih (Nat.lt_of_succ_lt_succ h)]
      rfl

theorem readString_escape (p rest : Bytes) : readString (escape p ++ 34 :: rest) = some (p, rest) := by
  apply readStringFrom_escape
  have := length_le_escape p
  rw [List.length_append, List.length_cons]
  omega

def memberText (key value : Bytes) : Bytes := 34 :: (escape key ++ 34 :: 58 :: 34 :: (escape value ++ [34]))

theorem readMember_memberText (key value rest : Bytes) :
    readMember (memberText key value ++ rest) = some ((key, value), rest) := by
  have htext : memberText key value ++ rest =
      34 :: (escape key ++ 34 :: 58 :: 34 :: (escape value ++ 34 :: rest)) := by
    simp [memberText]
  simp only [readMember, htext, expect, if_true, readString_escape, Option.bind_eq_bind,
    Option.bind_some, Option.pure_def]

theorem readMembers_last (n : Nat) (key value : Bytes) :
    readMembers (n + 1) (memberText key value ++ [125]) = some [(key, value)] := by
  simp [readMembers, readMember_memberText]

theorem readMembers_more (n : Nat) (key value rest : Bytes) :
    readMembers (n + 1) (memberText key value ++ 44 :: rest) =
      (readMembers n rest).map ((key, value) :: ·) := by
  simp [readMembers, readMember_memberText, expect, Option.map_eq_bind]

theorem readObject_pair (key₁ value₁ key₂ value₂ : Bytes) :
    readObject (123 :: (memberText key₁ value₁ ++ 44 :: (memberText key₂ value₂ ++ [125]))) =
      some [(key₁, value₁), (key₂, value₂)] := by
  simp only [readObject, expect, if_true, Option.bind_eq_bind, Option.bind_some, List.length_cons,
    List.length_append, readMembers_more]
  rw [← Nat.add_assoc, readMembers_last]
  rfl

theorem escapeByte_wide {b : UInt8} (h : 128 ≤ b.toNat) : escapeByte b = [b] := by
  have hne {c : UInt8} (hc : c.toNat < 128) : b ≠ c := by
    rintro rfl
    omega
  have hge : ¬ b < 32 := by
    rw [UInt8.lt_iff_toNat_lt]
    change ¬ b.toNat < 32
    omega
  rw [escapeByte, if_neg (hne (by decide)), if_neg (hne (by decide)), if_neg (hne (by decide)),
    if_neg (hne (by decide)), if_neg (hne (by decide)), if_neg hge]

theorem escape_wide (h : ∀ b ∈ p, 128 ≤ b.toNat) : escape p = p := by
  induction p with
  | nil => rfl
  | cons b p ih =>
    rw [escape_cons, escapeByte_wide (h b List.mem_cons_self),
      ih fun b hb => h b (List.mem_cons_of_mem _ hb), List.singleton_append]

theorem hexDigit_ascii (h : n < 16) : (hexDigit n).toNat < 128 := by
  rw [hexDigit]
  split
  · rw [toNat_ofNat_of_lt (by omega)]
    omega
  · rw [toNat_ofNat_of_lt (by omega)]
    omega

theorem hex_ascii (width n : Nat) : ∀ x ∈ hex width n, x.toNat < 128 := by
  intro x hx
  obtain ⟨i, -, rfl⟩ := List.mem_map.mp hx
  exact hexDigit_ascii (Nat.mod_lt _ (by decide))

theorem escapeByte_ascii {b : UInt8} (h : b.toNat < 128) : ∀ x ∈ escapeByte b, x.toNat < 128 := by
  rw [escapeByte]
  split
  · simp
  split
  · simp
  split
  · simp
  split
  · simp
  split
  · simp
  split
  · simpa using hex_ascii 4 b.toNat
  · intro x hx
    rwa [List.mem_singleton.mp hx]

theorem isUtf8_escape (h : IsUtf8 p) : IsUtf8 (escape p) := by
  obtain ⟨cs, rfl⟩ := h
  induction cs with
  | nil => exact ⟨[], rfl⟩
  | cons c cs ih =>
    rw [utf8_cons, escape_append]
    rcases utf8EncodeChar_cases c with ⟨hlt, henc⟩ | ⟨-, hge⟩
    · have hascii := escapeByte_ascii (b := UInt8.ofNat c.toNat)
        (by rw [toNat_ofNat_of_lt (by omega)]; exact hlt)
      rw [henc, escape_cons, escape_nil, List.append_nil, isUtf8_append_ascii hascii]
      exact ih
    · rw [escape_wide hge]
      exact IsUtf8.append ⟨[c], by simp⟩ ih

theorem escape_eq_wide_append (htail : ∀ x ∈ tail, 128 ≤ x.toNat)
    (hrest : ∀ x ∈ rest, x.toNat < 128) (h : escape p ++ rest = tail ++ r) :
    ∃ q, p = tail ++ q ∧ escape q ++ rest = r := by
  induction tail generalizing p with
  | nil => exact ⟨p, rfl, h⟩
  | cons t tail ih =>
    have ht := htail t List.mem_cons_self
    cases p with
    | nil =>
      rw [escape_nil, List.nil_append] at h
      have := hrest t (by rw [h]; exact List.mem_cons_self)
      omega
    | cons b p =>
      by_cases hb : b.toNat < 128
      · obtain ⟨x, xs, hx⟩ := List.exists_cons_of_ne_nil (escapeByte_ne_nil b)
        have hlt := escapeByte_ascii hb x (by rw [hx]; exact List.mem_cons_self)
        rw [escape_cons, hx] at h
        rw [(List.cons.inj h).1] at hlt
        omega
      · rw [escape_cons, escapeByte_wide (Nat.not_lt.mp hb), List.singleton_append,
          List.cons_append, List.cons_append, List.cons.injEq] at h
        obtain ⟨rfl, h⟩ := h
        obtain ⟨q, rfl, hq⟩ := ih (fun x hx => htail x (List.mem_cons_of_mem _ hx)) h
        exact ⟨q, rfl, hq⟩

theorem isUtf8_of_escape (hrest : ∀ x ∈ rest, x.toNat < 128) (h : IsUtf8 (escape p ++ rest)) : IsUtf8 p := by
  induction hn : p.length using Nat.strong_induction_on generalizing p with
  | _ n ih =>
    subst hn
    cases p with
    | nil => exact ⟨[], rfl⟩
    | cons b p =>
      rw [escape_cons, List.append_assoc] at h
      by_cases hb : b.toNat < 128
      · rw [isUtf8_append_ascii (escapeByte_ascii hb)] at h
        rw [isUtf8_cons_ascii hb]
        exact ih p.length (Nat.lt_succ_self _) h rfl
      · have hwide := Nat.not_lt.mp hb
        rw [escapeByte_wide hwide, List.singleton_append] at h
        obtain ⟨c, tail, r, henc, hr, htail, hutf⟩ := h.wide hwide
        obtain ⟨q, rfl, rfl⟩ := escape_eq_wide_append htail hrest hr
        have hq := ih q.length (by simp) hutf rfl
        rw [← List.cons_append, ← henc]
        exact IsUtf8.append ⟨[c], by simp⟩ hq

end StainedGlass.Lib.Json
