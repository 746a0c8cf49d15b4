import StainedGlass.Lib.Bytes

/-! Bytes that are the UTF-8 of a text, and the code units of its UTF-16. -/

namespace StainedGlass.Lib

def utf8 (cs : List Char) : Bytes := cs.flatMap String.utf8EncodeChar

def IsUtf8 (b : Bytes) : Prop := ∃ cs, b = utf8 cs

@[simp] theorem utf8_nil : utf8 [] = [] := rfl

@[simp] theorem utf8_cons (c : Char) (cs : List Char) :
    utf8 (c :: cs) = String.utf8EncodeChar c ++ utf8 cs := rfl

theorem utf8_append (cs ds : List Char) : utf8 (cs ++ ds) = utf8 cs ++ utf8 ds :=
  List.flatMap_append

theorem IsUtf8.append (ha : IsUtf8 a) (hb : IsUtf8 b) : IsUtf8 (a ++ b) := by
  obtain ⟨cs, rfl⟩ := ha
  obtain ⟨ds, rfl⟩ := hb
  exact ⟨cs ++ ds, (utf8_append cs ds).symm⟩

theorem toNat_ofNat_of_lt (h : n < 256) : (UInt8.ofNat n).toNat = n :=
  UInt8.toNat_ofNat_of_lt h

theorem utf8EncodeChar_cases (c : Char) :
    (c.toNat < 128 ∧ String.utf8EncodeChar c = [UInt8.ofNat c.toNat]) ∨
      (128 ≤ c.toNat ∧ ∀ b ∈ String.utf8EncodeChar c, 128 ≤ b.toNat) := by
  have hval : c.toNat = c.val.toNat := rfl
  rw [String.utf8EncodeChar, hval]
  split
  · next h => exact .inl ⟨by omega, rfl⟩
  · next h =>
    refine .inr ⟨by omega, ?_⟩
    split
    · simp only [List.mem_cons, List.not_mem_nil, or_false, forall_eq_or_imp, forall_eq]
      rw [toNat_ofNat_of_lt (by omega), toNat_ofNat_of_lt (by omega)]
      omega
    split
    · simp only [List.mem_cons, List.not_mem_nil, or_false, forall_eq_or_imp, forall_eq]
      rw [toNat_ofNat_of_lt (by omega), toNat_ofNat_of_lt (by omega), toNat_ofNat_of_lt (by omega)]
      omega
    · simp only [List.mem_cons, List.not_mem_nil, or_false, forall_eq_or_imp, forall_eq]
      rw [toNat_ofNat_of_lt (by omega), toNat_ofNat_of_lt (by omega), toNat_ofNat_of_lt (by omega),
        toNat_ofNat_of_lt (by omega)]
      omega

theorem utf8EncodeChar_ascii {b : UInt8} (h : b.toNat < 128) :
    String.utf8EncodeChar (Char.ofNat b.toNat) = [b] := by
  have hchar : (Char.ofNat b.toNat).toNat = b.toNat := by
    rw [Char.toNat_ofNat, if_pos (Or.inl (by omega))]
  rcases utf8EncodeChar_cases (Char.ofNat b.toNat) with ⟨-, henc⟩ | ⟨hge, -⟩
  · rw [henc, hchar, UInt8.ofNat_toNat]
  · rw [hchar] at hge
    omega

theorem isUtf8_cons_ascii {b : UInt8} (h : b.toNat < 128) (bs : Bytes) :
    IsUtf8 (b :: bs) ↔ IsUtf8 bs := by
  constructor
  · rintro ⟨cs, hcs⟩
    cases cs with
    | nil => cases hcs
    | cons c cs =>
      rw [utf8_cons] at hcs
      rcases utf8EncodeChar_cases c with ⟨-, henc⟩ | ⟨-, hge⟩
      · rw [henc] at hcs
        exact ⟨cs, (List.cons.inj hcs).2⟩
      · obtain ⟨b', tail, henc⟩ := List.exists_cons_of_ne_nil (@String.utf8EncodeChar_ne_nil c)
        rw [henc] at hcs hge
        have := hge b' List.mem_cons_self
        rw [← (List.cons.inj hcs).1] at this
        omega
  · rintro ⟨cs, rfl⟩
    exact ⟨Char.ofNat b.toNat :: cs, by rw [utf8_cons, utf8EncodeChar_ascii h]; rfl⟩

theorem isUtf8_append_ascii (h : ∀ b ∈ a, b.toNat < 128) (bs : Bytes) : IsUtf8 (a ++ bs) ↔ IsUtf8 bs := by
  induction a with
  | nil => rfl
  | cons b a ih =>
    rw [List.cons_append, isUtf8_cons_ascii (h b List.mem_cons_self),
      ih fun b hb => h b (List.mem_cons_of_mem _ hb)]

theorem IsUtf8.wide {b : UInt8} (h : IsUtf8 (b :: bs)) (hb : 128 ≤ b.toNat) :
    ∃ (c : Char) (tail rest : Bytes), String.utf8EncodeChar c = b :: tail ∧ bs = tail ++ rest ∧
      (∀ x ∈ tail, 128 ≤ x.toNat) ∧ IsUtf8 rest := by
  obtain ⟨cs, hcs⟩ := h
  cases cs with
  | nil => cases hcs
  | cons c cs =>
    rw [utf8_cons] at hcs
    rcases utf8EncodeChar_cases c with ⟨hlt, henc⟩ | ⟨-, hge⟩
    · rw [henc] at hcs
      have hbeq := (List.cons.inj hcs).1
      rw [hbeq, toNat_ofNat_of_lt (by omega)] at hb
      omega
    · obtain ⟨b', tail, henc⟩ := List.exists_cons_of_ne_nil (@String.utf8EncodeChar_ne_nil c)
      rw [henc] at hcs hge
      obtain ⟨rfl, rfl⟩ := List.cons.inj hcs
      exact ⟨c, tail, utf8 cs, henc, rfl, fun x hx => hge x (List.mem_cons_of_mem _ hx), cs, rfl⟩

theorem utf8EncodeChar_append_inj
    (h : String.utf8EncodeChar c ++ x = String.utf8EncodeChar d ++ y) : c = d ∧ x = y := by
  have hcd : c = d := by
    have hbytes := congrArg List.toByteArray h
    rw [List.toByteArray_append, List.toByteArray_append] at hbytes
    have hc : ((String.utf8EncodeChar c).toByteArray ++ x.toByteArray).utf8DecodeChar? 0 = some c :=
      ByteArray.utf8DecodeChar?_utf8EncodeChar_append
    rw [hbytes, ByteArray.utf8DecodeChar?_utf8EncodeChar_append] at hc
    exact (Option.some.inj hc).symm
  subst hcd
  exact ⟨rfl, List.append_cancel_left h⟩

theorem isUtf8_char_append (c : Char) (b : Bytes) :
    IsUtf8 (String.utf8EncodeChar c ++ b) ↔ IsUtf8 b := by
  constructor
  · rintro ⟨cs, hcs⟩
    cases cs with
    | nil => exact absurd (List.append_eq_nil_iff.mp hcs).1 String.utf8EncodeChar_ne_nil
    | cons d ds => exact ⟨ds, (utf8EncodeChar_append_inj hcs).2⟩
  · rintro ⟨cs, rfl⟩
    exact ⟨c :: cs, rfl⟩

def utf16EncodeChar (c : Char) : List UInt16 :=
  if c.toNat < 0x10000 then [UInt16.ofNat c.toNat]
  else [UInt16.ofNat (0xd800 + (c.toNat - 0x10000) / 1024),
    UInt16.ofNat (0xdc00 + (c.toNat - 0x10000) % 1024)]

def utf16 (cs : List Char) : List UInt16 := cs.flatMap utf16EncodeChar

def isSurrogateUnit (u : UInt16) : Bool := 0xd800 ≤ u.toNat && u.toNat < 0xe000

theorem not_isUtf8_surrogate (hlo : 0xd800 ≤ u) (hhi : u < 0xe000) (b : Bytes) :
    ¬ IsUtf8 (UInt8.ofNat (u / 4096 + 224) :: UInt8.ofNat (u / 64 % 64 + 128) :: UInt8.ofNat (u % 64 + 128) :: b) := by
  rintro ⟨cs, hcs⟩
  cases cs with
  | nil => cases hcs
  | cons c cs =>
    have hvalid : c.val.toNat < 0xd800 ∨ 0xdfff < c.val.toNat ∧ c.val.toNat < 0x110000 := c.valid
    have hbyte {m n : Nat} (h : UInt8.ofNat m = UInt8.ofNat n) (hm : m < 256) (hn : n < 256) :
        m = n := by
      rw [← toNat_ofNat_of_lt hm, h, toNat_ofNat_of_lt hn]
    rw [utf8_cons, String.utf8EncodeChar] at hcs
    split at hcs
    · have := hbyte (List.cons.inj hcs).1 (by omega) (by omega)
      omega
    split at hcs
    · have := hbyte (List.cons.inj hcs).1 (by omega) (by omega)
      omega
    split at hcs
    · obtain ⟨h₁, hcs⟩ := List.cons.inj hcs
      have := hbyte h₁ (by omega) (by omega)
      have := hbyte (List.cons.inj hcs).1 (by omega) (by omega)
      omega
    · have := hbyte (List.cons.inj hcs).1 (by omega) (by omega)
      omega

def unitChar (u : UInt16) : Char := Char.ofNat u.toNat

theorem toNat_unitChar {u : UInt16} (h : isSurrogateUnit u = false) :
    (unitChar u).toNat = u.toNat := by
  have hlt : u.toNat < 65536 := u.toNat_lt
  have hsur : ¬ (0xd800 ≤ u.toNat ∧ u.toNat < 0xe000) := by simpa [isSurrogateUnit] using h
  rw [unitChar, Char.toNat_ofNat, if_pos]
  unfold Nat.isValidChar
  omega

theorem utf16_unitChar (h : isSurrogateUnit u = false) : utf16EncodeChar (unitChar u) = [u] := by
  rw [utf16EncodeChar, toNat_unitChar h, if_pos u.toNat_lt, UInt16.ofNat_toNat]

theorem eq_of_utf16 {us : List UInt16} (h : utf16 cs = us)
    (hus : ∀ u ∈ us, isSurrogateUnit u = false) : cs = us.map unitChar := by
  subst h
  induction cs with
  | nil => rfl
  | cons c cs ih =>
    have hcons : utf16 (c :: cs) = utf16EncodeChar c ++ utf16 cs := rfl
    rw [hcons] at hus ⊢
    rw [List.map_append, ← ih fun u hu => hus u (List.mem_append_right _ hu)]
    have hc := hus
    rw [utf16EncodeChar] at hc ⊢
    split at hc
    · next hlt =>
      rw [if_pos hlt]
      have hunit : (UInt16.ofNat c.toNat).toNat = c.toNat := UInt16.toNat_ofNat_of_lt hlt
      rw [List.map_singleton, unitChar, hunit, Char.ofNat_toNat, List.singleton_append]
    · next hge =>
      have hmax : c.toNat < 0x110000 := by
        have := c.valid
        unfold UInt32.isValidChar Nat.isValidChar at this
        change c.toNat < 0xd800 ∨ 0xdfff < c.toNat ∧ c.toNat < 0x110000 at this
        omega
      have hhead := hc _ (List.mem_append_left _ List.mem_cons_self)
      have hunit : (UInt16.ofNat (0xd800 + (c.toNat - 0x10000) / 1024)).toNat =
          0xd800 + (c.toNat - 0x10000) / 1024 :=
        UInt16.toNat_ofNat_of_lt (show _ < 65536 by omega)
      rw [isSurrogateUnit, hunit] at hhead
      simp only [Bool.and_eq_false_iff, decide_eq_false_iff_not] at hhead
      omega

end StainedGlass.Lib
