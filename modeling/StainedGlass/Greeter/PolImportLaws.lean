import StainedGlass.Greeter.PolImport
import StainedGlass.Lib.Text

namespace StainedGlass.Greeter.PolImport

open Lib RegFile

/-- An entry of a file: names are code units up to a NUL, and the size of the data is a
double word. -/
structure Entry where
  key : List UInt16
  value : List UInt16
  type : UInt32
  data : Bytes
  key_nul : 0 ∉ key
  value_nul : 0 ∉ value
  data_lt : data.length < 2 ^ 32

def le16 (u : UInt16) : Bytes := [UInt8.ofNat u.toNat, UInt8.ofNat (u.toNat / 256)]

def wide (us : List UInt16) : Bytes := us.flatMap le16 ++ le16 0

def Entry.bytes (e : Entry) : Bytes :=
  le16 91 ++ (wide e.key ++ (le16 59 ++ (wide e.value ++ (le16 59 ++ (le32 e.type ++ (le16 59 ++
    (le32 (UInt32.ofNat e.data.length) ++ (le16 59 ++ (e.data ++ le16 93)))))))))

def polFile (version : UInt32) (es : List Entry) : Bytes :=
  ascii "PReg" ++ (le32 version ++ es.flatMap Entry.bytes)

def encode (us : List UInt16) : Bytes := us.flatMap encodeUnit

theorem unit_le16 (u : UInt16) :
    UInt16.ofNat ((UInt8.ofNat u.toNat).toNat + (UInt8.ofNat (u.toNat / 256)).toNat * 256) = u := by
  have hu : u.toNat < 65536 := u.toNat_lt
  apply UInt16.toNat_inj.mp
  simp only [UInt16.toNat_ofNat', UInt8.toNat_ofNat']
  omega

theorem expect_le16 (u : UInt16) (rest : Bytes) : expect u (le16 u ++ rest) = some rest := by
  rw [le16, List.cons_append, List.cons_append, List.nil_append, expect, u16]
  dsimp only
  rw [unit_le16, if_pos rfl]

theorem u32_le32 (x : UInt32) (rest : Bytes) : u32 (le32 x ++ rest) = some (x, rest) := by
  have h := ofLe32_le32 x
  rw [le32] at h ⊢
  simp only [List.cons_append, List.nil_append, u32, h]

variable {us : List UInt16}

theorem wstrFrom_wide (hnul : 0 ∉ us) {out : Bytes} (hout : out.length < size) (rest : Bytes) :
    wstrFrom size out (wide us ++ rest) =
      if (out ++ encode us).length < size then some (out ++ encode us, rest) else none := by
  induction us generalizing out with
  | nil =>
    rw [wide, List.flatMap_nil, List.nil_append, le16, List.cons_append, List.cons_append,
      List.nil_append, wstrFrom, unit_le16, if_pos rfl, encode, List.flatMap_nil, List.append_nil,
      if_pos hout]
  | cons u us ih =>
    rw [List.mem_cons, not_or] at hnul
    have hwide : wide (u :: us) ++ rest =
        UInt8.ofNat u.toNat :: UInt8.ofNat (u.toNat / 256) :: (wide us ++ rest) := by
      simp [wide, le16]
    have hencode : out ++ encode (u :: us) = out ++ encodeUnit u ++ encode us := by
      rw [encode, List.flatMap_cons, ← List.append_assoc, encode]
    rw [hwide, wstrFrom, unit_le16, if_neg (Ne.symm hnul.1), hencode]
    split
    · next hfit => rw [ih hnul.2 (by rwa [List.length_append])]
    · next hfit =>
      rw [if_neg]
      rw [List.length_append, List.length_append]
      omega

theorem wstr_wide (hsize : 0 < size) (hnul : 0 ∉ us) (rest : Bytes) : wstr size (wide us ++ rest) =
      if (encode us).length < size then some (encode us, rest) else none :=
  wstrFrom_wide hnul hsize rest

def Entry.Fits (e : Entry) : Prop :=
  (encode e.key).length < keySize ∧ (encode e.value).length < valSize

instance (e : Entry) : Decidable e.Fits := inferInstanceAs (Decidable (_ ∧ _))

def Entry.read (e : Entry) (rest : Bytes) : Read :=
  ⟨encode e.key, encode e.value, e.type, e.data, rest⟩

theorem keySize_pos : 0 < keySize := by decide

theorem valSize_pos : 0 < valSize := by decide

theorem toNat_size (e : Entry) : (UInt32.ofNat e.data.length).toNat = e.data.length := by
  rw [UInt32.toNat_ofNat', Nat.mod_eq_of_lt e.data_lt]

theorem bind_of_eq_some {α β : Type} {x : Option α} {a : α} (h : x = some a) (f : α → Option β) :
    (x >>= f) = f a := by
  rw [h]
  rfl

theorem bind_of_eq_none {α β : Type} {x : Option α} (h : x = none) (f : α → Option β) :
    (x >>= f) = none := by
  rw [h]
  rfl

section Reading

variable {e : Entry} (rest : Bytes)

theorem wstr_key (h : (encode e.key).length < keySize) :
    wstr keySize (wide e.key ++ rest) = some (encode e.key, rest) := by
  rw [wstr_wide keySize_pos e.key_nul, if_pos h]

theorem wstr_value (h : (encode e.value).length < valSize) :
    wstr valSize (wide e.value ++ rest) = some (encode e.value, rest) := by
  rw [wstr_wide valSize_pos e.value_nul, if_pos h]

theorem bytes_append : e.bytes ++ rest =
    le16 91 ++ (wide e.key ++ (le16 59 ++ (wide e.value ++ (le16 59 ++ (le32 e.type ++ (le16 59 ++
      (le32 (UInt32.ofNat e.data.length) ++ (le16 59 ++ (e.data ++ (le16 93 ++ rest)))))))))) := by
  simp only [Entry.bytes, List.append_assoc]

theorem readEntry_fits (h : e.Fits) :
    readEntry (e.bytes ++ rest) = some (e.read (le16 93 ++ rest)) := by
  have hroom : ¬ (e.data ++ (le16 93 ++ rest)).length < e.data.length := by
    rw [List.length_append]
    exact Nat.not_lt.mpr (Nat.le_add_right _ _)
  have hsize := toNat_size e
  rw [bytes_append, readEntry]
  generalize UInt32.ofNat e.data.length = size at hsize
  refine (bind_of_eq_some (expect_le16 _ _) _).trans ?_
  refine (bind_of_eq_some (wstr_key _ h.1) _).trans ?_
  refine (bind_of_eq_some (expect_le16 _ _) _).trans ?_
  refine (bind_of_eq_some (wstr_value _ h.2) _).trans ?_
  refine (bind_of_eq_some (expect_le16 _ _) _).trans ?_
  refine (bind_of_eq_some (u32_le32 _ _) _).trans ?_
  refine (bind_of_eq_some (expect_le16 _ _) _).trans ?_
  refine (bind_of_eq_some (u32_le32 _ _) _).trans ?_
  refine (bind_of_eq_some (expect_le16 _ _) _).trans ?_
  rw [hsize, if_neg hroom, List.take_left, List.drop_left]
  rfl

theorem readEntry_not_fits (h : ¬ e.Fits) : readEntry (e.bytes ++ rest) = none := by
  rw [bytes_append, readEntry]
  refine (bind_of_eq_some (expect_le16 _ _) _).trans ?_
  by_cases hkey : (encode e.key).length < keySize
  · have hvalue (rest : Bytes) : wstr valSize (wide e.value ++ rest) = none := by
      rw [wstr_wide valSize_pos e.value_nul, if_neg fun hvalue => h ⟨hkey, hvalue⟩]
    refine (bind_of_eq_some (wstr_key _ hkey) _).trans ?_
    refine (bind_of_eq_some (expect_le16 _ _) _).trans ?_
    exact bind_of_eq_none (hvalue _) _
  · have hstop (rest : Bytes) : wstr keySize (wide e.key ++ rest) = none := by
      rw [wstr_wide keySize_pos e.key_nul, if_neg hkey]
    exact bind_of_eq_none (hstop _) _

end Reading

theorem entries_fits {e : Entry} (h : e.Fits) (rest : Bytes) :
    entries (e.bytes ++ rest) = (e.read (le16 93 ++ rest)).text ++ entries rest := by
  have hread := readEntry_fits rest h
  have hne : e.bytes ++ rest ≠ [] := by simp [Entry.bytes, le16]
  rw [entries, if_neg hne]
  split
  · next hr => cases hread.symm.trans hr
  · next r hr =>
    cases hread.symm.trans hr
    split
    · next hx => cases (expect_le16 93 rest).symm.trans hx
    · next rest' hx =>
      cases (expect_le16 93 rest).symm.trans hx
      rfl

theorem entries_stops {e : Entry} (h : ¬ e.Fits) (rest : Bytes) : entries (e.bytes ++ rest) = [] := by
  have hread := readEntry_not_fits rest h
  have hne : e.bytes ++ rest ≠ [] := by simp [Entry.bytes, le16]
  rw [entries, if_neg hne]
  split
  · rfl
  · next r hr => cases hread.symm.trans hr

def rootKey : Bytes := ascii "HKEY_LOCAL_MACHINE"

def Entry.keyLine (e : Entry) : Bytes := 91 :: rootKey ++ [92] ++ encode e.key ++ [93]

def Entry.valueLine (e : Entry) : Bytes := RegFile.valueLine (encode e.value) e.type.toNat e.data

def Entry.text (e : Entry) : Bytes := e.keyLine ++ 10 :: (e.valueLine ++ 10 :: [10])

theorem read_text (e : Entry) (rest : Bytes) : (e.read rest).text = e.text := by
  have hkey : ascii "[HKEY_LOCAL_MACHINE\\" = 91 :: rootKey ++ [92] := by decide
  have hend : ascii "]\n" = [93, 10] := by decide
  have hquote : ascii "\"" = [34] := by decide
  have hhex : ascii "\"=hex(" = 34 :: ascii "=hex(" := by decide
  have hcolon : ascii "):" = [41, 58] := by decide
  have hblank : ascii "\n\n" = [10, 10] := by decide
  simp only [Entry.read, Read.text, Entry.text, Entry.keyLine, Entry.valueLine, RegFile.valueLine,
    dataText, hkey, hend, hquote, hhex, hcolon, hblank, List.append_assoc, List.cons_append,
    List.nil_append]

theorem entries_flatMap (es : List Entry) :
    entries (es.flatMap Entry.bytes) = (es.takeWhile (·.Fits)).flatMap Entry.text := by
  induction es with
  | nil =>
    rw [List.flatMap_nil, entries, if_pos rfl]
    rfl
  | cons e es ih =>
    rw [List.flatMap_cons]
    by_cases h : e.Fits
    · rw [entries_fits h, read_text, ih, List.takeWhile_cons_of_pos (by simpa using h),
        List.flatMap_cons]
    · rw [entries_stops h, List.takeWhile_cons_of_neg (by simpa using h), List.flatMap_nil]

theorem polimport_polFile (version : UInt32) (es : List Entry) :
    polimport (polFile version es) =
      some (header ++ 10 :: 10 :: (es.takeWhile (·.Fits)).flatMap Entry.text) := by
  have hfile : polFile version es =
      (ascii "PReg" ++ le32 version) ++ es.flatMap Entry.bytes := by
    rw [polFile, List.append_assoc]
  have hlen : (ascii "PReg" ++ le32 version).length = 8 := rfl
  have htake : (polFile version es).take 4 = ascii "PReg" := List.take_left' rfl
  have hdrop : (polFile version es).drop 8 = es.flatMap Entry.bytes := by
    rw [hfile, List.drop_left' hlen]
  have hheader : ascii "Windows Registry Editor Version 5.00\n\n" = header ++ [10, 10] := by decide
  rw [polimport, if_neg, if_neg (by simp [htake]), hdrop, entries_flatMap, hheader,
    List.append_assoc]
  · rfl
  · rw [hfile, List.length_append, hlen]
    omega

theorem encodeUnit_eq (h : isSurrogateUnit u = false) : encodeUnit u = String.utf8EncodeChar (unitChar u) := by
  have hlt : u.toNat < 65536 := u.toNat_lt
  have hval : (unitChar u).val.toNat = u.toNat := toNat_unitChar h
  rw [encodeUnit, String.utf8EncodeChar, hval]
  by_cases h₁ : u.toNat < 0x80
  · rw [if_pos h₁, if_pos (Nat.le_of_lt_succ h₁)]
  rw [if_neg h₁, if_neg (fun hle => h₁ (Nat.lt_succ_of_le hle))]
  by_cases h₂ : u.toNat < 0x800
  · have hmod : u.toNat / 64 % 32 = u.toNat / 64 := Nat.mod_eq_of_lt (by omega)
    rw [if_pos h₂, if_pos (Nat.le_of_lt_succ h₂), hmod]
  · have hmod : u.toNat / 4096 % 16 = u.toNat / 4096 := Nat.mod_eq_of_lt (by omega)
    rw [if_neg h₂, if_neg (fun hle => h₂ (Nat.lt_succ_of_le hle)), if_pos (Nat.le_of_lt_succ hlt),
      hmod]

theorem encode_eq (h : ∀ u ∈ us, isSurrogateUnit u = false) : encode us = utf8 (us.map unitChar) := by
  induction us with
  | nil => rfl
  | cons u us ih =>
    rw [encode, List.flatMap_cons, encodeUnit_eq (h u List.mem_cons_self), List.map_cons, utf8_cons,
      ← ih fun u hu => h u (List.mem_cons_of_mem _ hu), encode]

theorem utf16_map (h : ∀ u ∈ us, isSurrogateUnit u = false) : utf16 (us.map unitChar) = us := by
  induction us with
  | nil => rfl
  | cons u us ih =>
    have hcons : utf16 ((u :: us).map unitChar) = utf16EncodeChar (unitChar u) ++ utf16 (us.map unitChar) :=
      rfl
    rw [hcons, utf16_unitChar (h u List.mem_cons_self), ih fun u hu => h u (List.mem_cons_of_mem _ hu),
      List.singleton_append]

theorem isUtf8_encodeUnit (u : UInt16) (b : Bytes) :
    IsUtf8 (encodeUnit u ++ b) ↔ isSurrogateUnit u = false ∧ IsUtf8 b := by
  cases h : isSurrogateUnit u with
  | false => rw [encodeUnit_eq h, isUtf8_char_append, and_iff_right rfl]
  | true =>
    have hsur : 0xd800 ≤ u.toNat ∧ u.toNat < 0xe000 := by simpa [isSurrogateUnit] using h
    rw [encodeUnit, if_neg (by omega), if_neg (by omega)]
    simpa using not_isUtf8_surrogate hsur.1 hsur.2 b

theorem isUtf8_encode (us : List UInt16) (b : Bytes) :
    IsUtf8 (encode us ++ b) ↔ (∀ u ∈ us, isSurrogateUnit u = false) ∧ IsUtf8 b := by
  induction us with
  | nil => simp [encode]
  | cons u us ih =>
    rw [encode, List.flatMap_cons, List.append_assoc, isUtf8_encodeUnit, ← encode, ih]
    simp [and_assoc]

variable {c : UInt8}

theorem mem_encodeUnit (hc : c.toNat < 128) (u : UInt16) : c ∈ encodeUnit u ↔ u.toNat = c.toNat := by
  have hu : u.toNat < 65536 := u.toNat_lt
  have hbyte {n : Nat} (hn : n < 256) : c = UInt8.ofNat n ↔ n = c.toNat := by
    rw [← UInt8.toNat_inj, toNat_ofNat_of_lt hn, eq_comm]
  rw [encodeUnit]
  split
  · rw [List.mem_singleton, hbyte (by omega)]
  split
  · rw [List.mem_cons, List.mem_singleton, hbyte (by omega), hbyte (by omega)]
    omega
  · rw [List.mem_cons, List.mem_cons, List.mem_singleton, hbyte (by omega), hbyte (by omega),
      hbyte (by omega)]
    omega

theorem mem_encode (hc : c.toNat < 128) (us : List UInt16) : c ∈ encode us ↔ UInt16.ofNat c.toNat ∈ us := by
  have hunit (u : UInt16) : u.toNat = c.toNat ↔ u = UInt16.ofNat c.toNat := by
    rw [← UInt16.toNat_inj, UInt16.toNat_ofNat', Nat.mod_eq_of_lt (by omega)]
  rw [encode, List.mem_flatMap]
  simp only [mem_encodeUnit hc, hunit, exists_eq_right]

structure Same (e : Entry) (v : RegFile.Value) : Prop where
  key : ∃ cs, v.key = utf8 cs ∧ utf16 cs = e.key
  name : ∃ cs, v.name = utf8 cs ∧ utf16 cs = e.value
  type : v.type = e.type.toNat
  data : v.data = e.data

def Denotes (text : Bytes) (es : List Entry) : Prop :=
  IsUtf8 text ∧ ∃ vs, RegFile.read rootKey text = some vs ∧ List.Forall₂ Same es vs

def Entry.rest (e : Entry) : Bytes :=
  34 :: (ascii "=hex(" ++ (hexNumber e.type.toNat ++ 41 :: 58 :: dataText e.data))

theorem mem_rest {e : Entry} (h : c ∈ e.rest) : c.toNat < 128 ∧ isEnd c = false := by
  have hdigit : ∀ d < 16, (hexDigit d).toNat < 128 ∧ isEnd (hexDigit d) = false := by decide
  have hhex : (ascii "=hex(").all (fun c => c.toNat < 128 && !isEnd c) = true := by decide
  rw [Entry.rest, List.mem_cons, List.mem_append, List.mem_append, List.mem_cons, List.mem_cons] at h
  rcases h with rfl | h | h | rfl | rfl | h
  · decide
  · simpa using List.all_eq_true.mp hhex c h
  · obtain ⟨d, hd, rfl⟩ := mem_hexNumber h
    exact hdigit d hd
  · decide
  · decide
  · obtain rfl | ⟨d, hd, rfl⟩ := mem_dataText h
    · decide
    · exact hdigit d hd

theorem valueLine_eq (e : Entry) : e.valueLine = 34 :: (encode e.value ++ e.rest) := rfl

theorem ascii_of_all {b : Bytes} (h : b.all (fun c => c.toNat < 128) = true) :
    ∀ c ∈ b, c.toNat < 128 := by
  simpa using h

theorem isUtf8_text (e : Entry) (b : Bytes) :
    IsUtf8 (e.text ++ b) ↔ (∀ u ∈ e.key, isSurrogateUnit u = false) ∧
      (∀ u ∈ e.value, isSurrogateUnit u = false) ∧ IsUtf8 b := by
  have htext : e.text ++ b = (91 :: rootKey ++ [92]) ++ (encode e.key ++ ([93, 10, 34] ++
      (encode e.value ++ ((e.rest ++ [10, 10]) ++ b)))) := by
    simp [Entry.text, Entry.keyLine, valueLine_eq]
  have htail : ∀ c ∈ e.rest ++ [10, 10], c.toNat < 128 := by
    intro c hc
    rcases List.mem_append.mp hc with hc | hc
    · exact (mem_rest hc).1
    · exact ascii_of_all (by decide) c hc
  rw [htext, isUtf8_append_ascii (ascii_of_all (by decide)), isUtf8_encode,
    isUtf8_append_ascii (ascii_of_all (by decide)), isUtf8_encode, isUtf8_append_ascii htail]

theorem isUtf8_texts (es : List Entry) :
    IsUtf8 (es.flatMap Entry.text) ↔ ∀ e ∈ es, (∀ u ∈ e.key, isSurrogateUnit u = false) ∧
      ∀ u ∈ e.value, isSurrogateUnit u = false := by
  induction es with
  | nil => simpa using ⟨[], rfl⟩
  | cons e es ih =>
    rw [List.flatMap_cons, isUtf8_text, ih]
    simp [and_assoc]

def Entry.Lined (e : Entry) : Prop :=
  (∀ c ∈ encode e.key, isEnd c = false) ∧ ∀ c ∈ encode e.value, isEnd c = false

variable {es : List Entry}

theorem lines_texts (h : ∀ e ∈ es, e.Lined) :
    lines (es.flatMap Entry.text) = es.flatMap fun e => [e.keyLine, e.valueLine] := by
  induction es with
  | nil => rfl
  | cons e es ih =>
    obtain ⟨hkey, hvalue⟩ := h e List.mem_cons_self
    have hkeyLine : ∀ c ∈ e.keyLine, isEnd c = false := by
      have hhead : (91 :: rootKey ++ [92]).all (fun c => isEnd c = false) = true := by decide
      intro c hc
      rw [Entry.keyLine] at hc
      rcases List.mem_append.mp hc with hc | hc
      · rcases List.mem_append.mp hc with hc | hc
        · simpa using List.all_eq_true.mp hhead c hc
        · exact hkey c hc
      · rw [List.mem_singleton.mp hc]
        rfl
    have hvalueLine : ∀ c ∈ e.valueLine, isEnd c = false := by
      intro c hc
      rw [valueLine_eq] at hc
      rcases List.mem_cons.mp hc with rfl | hc
      · rfl
      · rcases List.mem_append.mp hc with hc | hc
        · exact hvalue c hc
        · exact (mem_rest hc).2
    rw [List.flatMap_cons, List.flatMap_cons, Entry.text, List.append_assoc, List.cons_append,
      List.append_assoc, List.cons_append, List.singleton_append,
      lines_line hkeyLine (by simp [Entry.keyLine]), lines_line hvalueLine (by simp [valueLine_eq]),
      lines_blank, ih fun e he => h e (List.mem_cons_of_mem _ he)]
    rfl

theorem lines_polimport (h : ∀ e ∈ es, e.Lined) : lines (header ++ 10 :: 10 :: es.flatMap Entry.text) =
      header :: es.flatMap fun e => [e.keyLine, e.valueLine] := by
  have hheader : header.all (fun c => isEnd c = false) = true := by decide
  rw [lines_line (by simpa using hheader) (by decide), lines_blank, lines_texts h]

def Entry.readBack (e : Entry) : Option RegFile.Value :=
  (readValue e.valueLine).map fun v => ⟨encode e.key, v.1, v.2.1, v.2.2⟩

theorem readLines_entries (k : Option Bytes) (es : List Entry) :
    readLines rootKey k (es.flatMap fun e => [e.keyLine, e.valueLine]) = es.mapM Entry.readBack := by
  induction es generalizing k with
  | nil => rfl
  | cons e es ih =>
    have hkey : readKey rootKey e.keyLine = some (encode e.key) := readKey_eq rootKey (encode e.key)
    have hkeyHead : e.keyLine.head? = some 91 := rfl
    have hvalueHead : ¬ e.valueLine.head? = some 91 := by
      simp [valueLine_eq]
    rw [List.flatMap_cons, List.cons_append, List.singleton_append, readLines, if_pos hkeyHead, hkey,
      Option.bind_eq_bind, Option.bind_some, readLines, if_neg hvalueHead, List.mapM_cons,
      Entry.readBack]
    cases readValue e.valueLine with
    | none => rfl
    | some v =>
      change (readLines rootKey (some (encode e.key)) _).bind _ = _
      rw [ih]
      rfl

theorem read_polimport (h : ∀ e ∈ es, e.Lined) :
    RegFile.read rootKey (header ++ 10 :: 10 :: es.flatMap Entry.text) = es.mapM Entry.readBack := by
  rw [RegFile.read, lines_polimport h]
  dsimp only
  rw [if_pos rfl, readLines_entries]

theorem exists_of_forall₂ (h : List.Forall₂ r xs ys) : ∀ x ∈ xs, ∃ y ∈ ys, r x y := by
  induction h with
  | nil => simp
  | cons hxy _ ih =>
    intro x hx
    rcases List.mem_cons.mp hx with rfl | hx
    · exact ⟨_, List.mem_cons_self, hxy⟩
    · obtain ⟨y, hy, hxy⟩ := ih x hx
      exact ⟨y, List.mem_cons_of_mem _ hy, hxy⟩

theorem mem_utf8_of_mem_utf16 (hc : c.toNat < 128) (h : UInt16.ofNat c.toNat ∈ utf16 cs) : c ∈ utf8 cs := by
  obtain ⟨d, hd, hunit⟩ := List.mem_flatMap.mp h
  refine List.mem_flatMap.mpr ⟨d, hd, ?_⟩
  have hval {n : Nat} (hn : n < 65536) : (UInt16.ofNat n).toNat = n := UInt16.toNat_ofNat_of_lt hn
  have hmax : d.toNat < 0x110000 := by
    have := d.valid
    unfold UInt32.isValidChar Nat.isValidChar at this
    change d.toNat < 0xd800 ∨ 0xdfff < d.toNat ∧ d.toNat < 0x110000 at this
    omega
  rw [utf16EncodeChar] at hunit
  split at hunit
  · next hlt =>
    have hd : d.toNat = c.toNat := by
      rw [← hval (show c.toNat < 65536 by omega), List.mem_singleton.mp hunit, hval hlt]
    rcases utf8EncodeChar_cases d with ⟨-, henc⟩ | ⟨hge, -⟩
    · rw [henc, hd, UInt8.ofNat_toNat]
      exact List.mem_singleton_self c
    · omega
  · simp only [List.mem_cons, List.not_mem_nil, or_false] at hunit
    rcases hunit with hunit | hunit
    all_goals
      have hnat := congrArg UInt16.toNat hunit
      rw [hval (by omega), hval (by omega)] at hnat
      omega

/-- Both names fit and hold no surrogate or end of line, a value's name no quote or backslash. -/
structure Entry.Plain (e : Entry) : Prop where
  fits : e.Fits
  key : ∀ u ∈ e.key, isSurrogateUnit u = false ∧ u ≠ 10 ∧ u ≠ 13
  value : ∀ u ∈ e.value, isSurrogateUnit u = false ∧ u ≠ 10 ∧ u ≠ 13 ∧ u ≠ 34 ∧ u ≠ 92

theorem isEnd_encode_iff (us : List UInt16) :
    (∀ c ∈ encode us, isEnd c = false) ↔ 10 ∉ us ∧ 13 ∉ us := by
  have hnewline := mem_encode (c := 10) (by decide) us
  have hreturn := mem_encode (c := 13) (by decide) us
  rw [show UInt16.ofNat (UInt8.toNat 10) = 10 from rfl] at hnewline
  rw [show UInt16.ofNat (UInt8.toNat 13) = 13 from rfl] at hreturn
  rw [← hnewline, ← hreturn]
  constructor
  · intro h
    exact ⟨fun hmem => absurd (h 10 hmem) (by decide), fun hmem => absurd (h 13 hmem) (by decide)⟩
  · rintro ⟨h₁, h₂⟩ c hc
    by_cases hc₁ : c = 10
    · exact absurd (hc₁ ▸ hc) h₁
    by_cases hc₂ : c = 13
    · exact absurd (hc₂ ▸ hc) h₂
    · simp [isEnd, hc₁, hc₂]

theorem quoting_encode_iff (us : List UInt16) :
    34 ∉ encode us ∧ 92 ∉ encode us ↔ 34 ∉ us ∧ 92 ∉ us := by
  rw [mem_encode (by decide), mem_encode (by decide)]
  rfl

theorem Entry.plain_iff (e : Entry) :
    e.Plain ↔ e.Fits ∧ e.Lined ∧ ((∀ u ∈ e.key, isSurrogateUnit u = false) ∧
      ∀ u ∈ e.value, isSurrogateUnit u = false) ∧ 34 ∉ encode e.value ∧ 92 ∉ encode e.value := by
  rw [Entry.Lined, isEnd_encode_iff, isEnd_encode_iff, quoting_encode_iff]
  constructor
  · rintro ⟨hfits, hkey, hvalue⟩
    grind
  · rintro ⟨hfits, ⟨hkey, hvalue⟩, ⟨hkey', hvalue'⟩, hquote⟩
    refine ⟨hfits, ?_, ?_⟩ <;> grind

theorem Same.of_plain {e : Entry} (h : e.Plain) :
    e.readBack = some ⟨encode e.key, encode e.value, e.type.toNat, e.data⟩ ∧
      Same e ⟨encode e.key, encode e.value, e.type.toNat, e.data⟩ := by
  obtain ⟨-, -, ⟨hkey, hvalue⟩, hquote⟩ := e.plain_iff.mp h
  refine ⟨?_, ⟨_, encode_eq hkey, utf16_map hkey⟩, ⟨_, encode_eq hvalue, utf16_map hvalue⟩, rfl, rfl⟩
  rw [Entry.readBack, Entry.valueLine, readValue_valueLine hquote]
  rfl

theorem Same.lined {e : Entry} {v : RegFile.Value} (h : Same e v)
    (hkey : ∀ c ∈ v.key, isEnd c = false) (hname : ∀ c ∈ v.name, isEnd c = false) : e.Lined := by
  have hunits {cs : List Char} (hcs : ∀ c ∈ utf8 cs, isEnd c = false) :
      10 ∉ utf16 cs ∧ 13 ∉ utf16 cs := by
    constructor
    · intro hmem
      exact absurd (hcs 10 (mem_utf8_of_mem_utf16 (by decide) hmem)) (by decide)
    · intro hmem
      exact absurd (hcs 13 (mem_utf8_of_mem_utf16 (by decide) hmem)) (by decide)
  obtain ⟨ks, hk, hkunits⟩ := h.key
  obtain ⟨ns, hn, hnunits⟩ := h.name
  rw [Entry.Lined, isEnd_encode_iff, isEnd_encode_iff, ← hkunits, ← hnunits]
  exact ⟨hunits (hk ▸ hkey), hunits (hn ▸ hname)⟩

theorem Same.unquoted {e : Entry} (h : Same e v) (hread : e.readBack = some v)
    (hvalue : ∀ u ∈ e.value, isSurrogateUnit u = false) : 34 ∉ encode e.value ∧ 92 ∉ encode e.value := by
  obtain ⟨cs, hcs, hunits⟩ := h.name
  obtain ⟨x, hx, rfl⟩ := Option.map_eq_some_iff.mp hread
  obtain ⟨b, r, hb, hr⟩ := readName_of_readValue hx
  cases (strip?_append [34] _).symm.trans hb
  have hname : x.1 = encode e.value := by
    rw [encode_eq hvalue, ← eq_of_utf16 hunits hvalue]
    exact hcs
  rw [hname] at hr
  exact readName_eq_self_iff.mp ⟨r, hr⟩

theorem header_utf8 (b : Bytes) : IsUtf8 (header ++ 10 :: 10 :: b) ↔ IsUtf8 b := by
  rw [show header ++ 10 :: 10 :: b = (header ++ [10, 10]) ++ b by simp,
    isUtf8_append_ascii (ascii_of_all (by decide))]

theorem takeWhile_eq_of_denotes (hlined : ∀ e ∈ es, e.Lined) (hsame : List.Forall₂ Same es vs)
    (hread : RegFile.read rootKey (header ++ 10 :: 10 :: (es.takeWhile (·.Fits)).flatMap Entry.text) = some vs) :
    es.takeWhile (·.Fits) = es ∧ List.Forall₂ (fun e v => e.readBack = some v) es vs := by
  have hpre : es.takeWhile (·.Fits) <+: es := List.takeWhile_prefix _
  rw [read_polimport fun e he => hlined e (hpre.mem he), mapM_eq_some_iff] at hread
  have hall : es.takeWhile (·.Fits) = es :=
    hpre.eq_of_length (hread.length_eq.trans hsame.length_eq.symm)
  rw [hall] at hread
  exact ⟨hall, hread⟩

/-- The registry text written for a policy file denotes its entries exactly where every
entry is plain. -/
theorem polimport_denotes_iff (version : UInt32) (es : List Entry) :
    (∃ text, polimport (polFile version es) = some text ∧ Denotes text es) ↔
      ∀ e ∈ es, e.Plain := by
  rw [polimport_polFile]
  constructor
  · rintro ⟨_, ⟨rfl⟩, hutf8, vs, hread, hsame⟩
    have hlined : ∀ e ∈ es, e.Lined := by
      intro e he
      obtain ⟨v, hv, hev⟩ := exists_of_forall₂ hsame e he
      obtain ⟨hkey, hname⟩ := isEnd_of_read hread v hv
      exact hev.lined hkey hname
    obtain ⟨hall, hback⟩ := takeWhile_eq_of_denotes hlined hsame hread
    rw [hall, header_utf8, isUtf8_texts] at hutf8
    intro e he
    have hfits : e.Fits := by simpa using List.takeWhile_eq_self_iff.mp hall e he
    obtain ⟨v, -, hev, hbackv⟩ := exists_of_forall₂
      (List.Forall₂.mp (fun e v (h₁ : Same e v) (h₂ : e.readBack = some v) => And.intro h₁ h₂)
        hsame hback) e he
    exact e.plain_iff.mpr ⟨hfits, hlined e he, hutf8 e he, hev.unquoted hbackv (hutf8 e he).2⟩
  · intro h
    have hall : es.takeWhile (·.Fits) = es :=
      List.takeWhile_eq_self_iff.mpr fun e he => by simpa using (h e he).fits
    have hlined : ∀ e ∈ es, e.Lined := fun e he => (e.plain_iff.mp (h e he)).2.1
    rw [hall]
    refine ⟨_, rfl, ?_, es.map fun e => ⟨encode e.key, encode e.value, e.type.toNat, e.data⟩, ?_, ?_⟩
    · rw [header_utf8, isUtf8_texts]
      exact fun e he => (e.plain_iff.mp (h e he)).2.2.1
    · rw [read_polimport hlined, mapM_eq_some_iff, List.forall₂_map_right_iff, List.forall₂_same]
      exact fun e he => (Same.of_plain (h e he)).1
    · rw [List.forall₂_map_right_iff, List.forall₂_same]
      exact fun e he => (Same.of_plain (h e he)).2

def pathEntry : Entry where
  key := [75]
  value := [67, 58, 92, 120]
  type := 1
  data := [0, 0]
  key_nul := by decide
  value_nul := by decide
  data_lt := by decide

theorem path_value_not_denoted :
    ∃ text, polimport (polFile 1 [pathEntry]) = some text ∧ ¬ Denotes text [pathEntry] := by
  refine ⟨_, polimport_polFile 1 [pathEntry], ?_⟩
  rintro ⟨-, vs, hread, -⟩
  have hnone : RegFile.read rootKey (header ++ 10 :: 10 ::
      ([pathEntry].takeWhile (·.Fits)).flatMap Entry.text) = none := by decide
  cases hnone.symm.trans hread

end StainedGlass.Greeter.PolImport
