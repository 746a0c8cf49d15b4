import StainedGlass.Lib.Utf8
import StainedGlass.Lib.Number

/-! The text of a `.reg` file as far as keys of one root and values written as hexadecimal data go. -/

namespace StainedGlass.Lib.RegFile

structure Value where
  key : Bytes
  name : Bytes
  type : Nat
  data : Bytes
  deriving DecidableEq

def isEnd (b : UInt8) : Bool := b = 10 || b = 13

def lines (text : Bytes) : List Bytes := (text.splitOnP isEnd).filter (· ≠ [])

def strip? (pre b : Bytes) : Option Bytes := if pre.isPrefixOf b then some (b.drop pre.length) else none

def readKey (root line : Bytes) : Option Bytes :=
  match line.reverse.dropWhile (· ≠ 93) with
  | [] => none
  | _ :: front => strip? (91 :: root ++ [92]) front.reverse

def readName : Bytes → Option (Bytes × Bytes)
  | [] => none
  | b :: rest =>
    if b = 34 then some ([], rest)
    else if b = 92 then
      match rest with
      | [] => none
      | c :: rest =>
        if c = 92 ∨ c = 34 then (readName rest).map fun r => (c :: r.1, r.2) else none
    else (readName rest).map fun r => (b :: r.1, r.2)

def hexValue (b : UInt8) : Option Nat :=
  if 48 ≤ b ∧ b ≤ 57 then some (b.toNat - 48)
  else if 97 ≤ b ∧ b ≤ 102 then some (b.toNat - 87)
  else none

def readHex (b : Bytes) : Option Nat :=
  if b = [] then none else b.foldlM (fun acc d => (hexValue d).map (acc * 16 + ·)) 0

def readByte : Bytes → Option UInt8
  | [a, b] => (readHex [a, b]).map UInt8.ofNat
  | _ => none

def readData (b : Bytes) : Option Bytes := if b = [] then some [] else (b.splitOn 44).mapM readByte

def readValue (line : Bytes) : Option (Bytes × Nat × Bytes) := do
  let b ← strip? [34] line
  let (name, b) ← readName b
  let b ← strip? (ascii "=hex(") b
  let (type, b) ← cut 41 b
  let type ← readHex type
  let b ← strip? [58] b
  let data ← readData b
  return (name, type, data)

def readLines (root : Bytes) : Option Bytes → List Bytes → Option (List Value)
  | _, [] => some []
  | key, line :: rest =>
    if line.head? = some 91 then do
      let key ← readKey root line
      readLines root (some key) rest
    else do
      let key ← key
      let (name, type, data) ← readValue line
      let more ← readLines root (some key) rest
      return ⟨key, name, type, data⟩ :: more

def header : Bytes := ascii "Windows Registry Editor Version 5.00"

def read (root text : Bytes) : Option (List Value) :=
  match lines text with
  | [] => none
  | first :: rest => if first = header then readLines root none rest else none

theorem splitOnP_line (h : ∀ b ∈ l, isEnd b = false) (text : Bytes) :
    (l ++ 10 :: text).splitOnP isEnd = l :: text.splitOnP isEnd :=
  List.splitOnP_append_cons_of_forall_mem h 10 rfl text

theorem lines_line (h : ∀ b ∈ l, isEnd b = false) (hne : l ≠ []) (text : Bytes) :
    lines (l ++ 10 :: text) = l :: lines text := by
  rw [lines, splitOnP_line h, List.filter_cons_of_pos (by simpa using hne), lines]

theorem lines_blank (text : Bytes) : lines (10 :: text) = lines text := by
  rw [lines, show 10 :: text = [] ++ 10 :: text from rfl, splitOnP_line (by simp)]
  rfl

theorem notMem_of_mem_splitOnP {xs l : List α} (h : l ∈ xs.splitOnP p) : ∀ x ∈ l, p x = false := by
  induction xs generalizing l with
  | nil =>
    rw [List.splitOnP_nil, List.mem_singleton] at h
    simp [h]
  | cons x xs ih =>
    rw [List.splitOnP_cons_eq_if_modifyHead] at h
    split at h
    · rcases List.mem_cons.mp h with rfl | h
      · simp
      · exact ih h
    · next hx =>
      cases hs : xs.splitOnP p with
      | nil => simp [hs] at h
      | cons a as =>
        rw [hs] at h ih
        rcases List.mem_cons.mp h with rfl | h
        · simpa [hx] using ih List.mem_cons_self
        · exact ih (List.mem_cons_of_mem _ h)

theorem isEnd_of_mem_lines (h : l ∈ lines text) : ∀ b ∈ l, isEnd b = false :=
  notMem_of_mem_splitOnP (List.mem_filter.mp h).1

theorem readName_plain (h : 34 ∉ n ∧ 92 ∉ n) (rest : Bytes) : readName (n ++ 34 :: rest) = some (n, rest) := by
  induction n with
  | nil => simp [readName.eq_def]
  | cons b n ih =>
    simp only [List.mem_cons, not_or] at h
    rw [List.cons_append, readName.eq_def]
    dsimp only
    rw [if_neg (Ne.symm h.1.1), if_neg (Ne.symm h.2.1), ih ⟨h.1.2, h.2.2⟩]
    rfl

theorem readName_cons_plain (h₁ : b ≠ 34) (h₂ : b ≠ 92) (rest : Bytes) :
    readName (b :: rest) = (readName rest).map fun r => (b :: r.1, r.2) := by
  rw [readName.eq_def]
  dsimp only
  rw [if_neg h₁, if_neg h₂]

theorem readName_quote (rest : Bytes) : readName (34 :: rest) = some ([], rest) := by
  simp [readName.eq_def]

theorem readName_escaped (hc : c = 92 ∨ c = 34) (rest : Bytes) :
    readName (92 :: c :: rest) = (readName rest).map fun r => (c :: r.1, r.2) := by
  rw [readName.eq_def]
  simp [hc]

theorem readName_bad (hc : ¬ (c = 92 ∨ c = 34)) (rest : Bytes) : readName (92 :: c :: rest) = none := by
  rw [readName.eq_def]
  simp [hc]

/-- A backslash that was read takes two of the text: each one read is one the text is behind. -/
theorem readName_behind (k : Nat) (n rest r : Bytes) :
    readName (n ++ 34 :: rest) ≠ some (List.replicate (k + 1) 92 ++ n, r) := by
  induction hlen : n.length using Nat.strong_induction_on generalizing n k with
  | _ len ih =>
    intro h
    rw [List.replicate_succ, List.cons_append] at h
    cases n with
    | nil =>
      rw [List.nil_append, readName_quote] at h
      cases h
    | cons b n =>
      by_cases hquote : b = 34
      · rw [hquote, List.cons_append, readName_quote] at h
        cases h
      by_cases hback : b = 92
      · subst hback
        cases n with
        | nil =>
          rw [List.singleton_append, readName_escaped (.inr rfl)] at h
          obtain ⟨x, -, hx⟩ := Option.map_eq_some_iff.mp h
          cases hx
        | cons c n =>
          by_cases hc : c = 92
          · subst hc
            rw [List.cons_append, List.cons_append, readName_escaped (.inl rfl)] at h
            obtain ⟨x, hx, hpair⟩ := Option.map_eq_some_iff.mp h
            rw [Prod.mk.injEq, List.cons.injEq] at hpair
            have hx₁ : x.1 = List.replicate (k + 1 + 1) 92 ++ n := by
              rw [hpair.1.2, List.replicate_succ', List.replicate_succ', List.append_assoc,
                List.append_assoc]
              rfl
            refine ih n.length (by rw [← hlen]; simp) (k + 1) n rfl ?_
            rw [hx, ← hx₁, ← hpair.2]
          · by_cases hc' : c = 34
            · subst hc'
              rw [List.cons_append, List.cons_append, readName_escaped (.inr rfl)] at h
              obtain ⟨x, -, hx⟩ := Option.map_eq_some_iff.mp h
              cases hx
            · rw [List.cons_append, List.cons_append, readName_bad (by simp [hc, hc'])] at h
              cases h
      · rw [List.cons_append, readName_cons_plain hquote hback] at h
        obtain ⟨x, -, hx⟩ := Option.map_eq_some_iff.mp h
        rw [Prod.mk.injEq, List.cons.injEq] at hx
        exact hback hx.1.1

theorem readName_eq_self_iff : (∃ r, readName (n ++ 34 :: rest) = some (n, r)) ↔ 34 ∉ n ∧ 92 ∉ n := by
  constructor
  · rintro ⟨r, h⟩
    induction n with
    | nil => exact ⟨List.not_mem_nil, List.not_mem_nil⟩
    | cons b n ih =>
      by_cases hquote : b = 34
      · rw [hquote, List.cons_append, readName_quote] at h
        cases h
      by_cases hback : b = 92
      · subst hback
        cases n with
        | nil =>
          rw [List.singleton_append, readName_escaped (.inr rfl)] at h
          obtain ⟨x, -, hx⟩ := Option.map_eq_some_iff.mp h
          cases hx
        | cons c n =>
          by_cases hc : c = 92 ∨ c = 34
          · rw [List.cons_append, List.cons_append, readName_escaped hc] at h
            obtain ⟨x, hx, hpair⟩ := Option.map_eq_some_iff.mp h
            rw [Prod.mk.injEq, List.cons.injEq] at hpair
            obtain rfl : c = 92 := hpair.1.1
            have hx₁ : x.1 = List.replicate (0 + 1) 92 ++ n := hpair.1.2
            exact absurd (by rw [hx, ← hx₁]) (readName_behind 0 n rest x.2)
          · rw [List.cons_append, List.cons_append, readName_bad hc] at h
            cases h
      · rw [List.cons_append, readName_cons_plain hquote hback] at h
        obtain ⟨x, hx, hpair⟩ := Option.map_eq_some_iff.mp h
        rw [Prod.mk.injEq, List.cons.injEq] at hpair
        obtain ⟨h₁, h₂⟩ := ih (by rw [hx, ← hpair.1.2, ← hpair.2])
        exact ⟨by simp [Ne.symm hquote, h₁], by simp [Ne.symm hback, h₂]⟩
  · intro h
    exact ⟨rest, readName_plain h rest⟩

theorem sublist_of_readName {x : Bytes × Bytes} (h : readName b = some x) : List.Sublist x.1 b := by
  fun_induction readName b generalizing x with
  | case1 => cases h
  | case2 =>
    cases h
    exact List.nil_sublist _
  | case3 => cases h
  | case4 c rest hc hquote ih =>
    obtain ⟨y, hy, rfl⟩ := Option.map_eq_some_iff.mp h
    exact ((ih hy).cons_cons c).cons 92
  | case5 => cases h
  | case6 b rest hquote hback ih =>
    obtain ⟨y, hy, rfl⟩ := Option.map_eq_some_iff.mp h
    exact (ih hy).cons_cons b

theorem readKey_eq (root key : Bytes) :
    readKey root (91 :: root ++ [92] ++ key ++ [93]) = some key := by
  rw [readKey, List.reverse_append, List.reverse_singleton, List.singleton_append,
    List.dropWhile_cons_of_neg (by simp)]
  simp [strip?]

theorem mem_of_strip? (h : strip? pre b = some rest) : ∀ c ∈ rest, c ∈ b := by
  rw [strip?] at h
  split at h
  · cases h
    exact fun c hc => List.mem_of_mem_drop hc
  · cases h

theorem mem_of_readKey (h : readKey root line = some key) : ∀ c ∈ key, c ∈ line := by
  rw [readKey] at h
  split at h
  · cases h
  · next x front hdrop =>
    intro c hc
    have hfront : c ∈ front := List.mem_reverse.mp (mem_of_strip? h c hc)
    have hline : c ∈ line.reverse.dropWhile (· ≠ 93) := by
      rw [hdrop]
      exact List.mem_cons_of_mem x hfront
    exact List.mem_reverse.mp ((List.dropWhile_sublist _).mem hline)

theorem hexValue_hexDigit (h : n < 16) : hexValue (hexDigit n) = some n := by
  have hall : ∀ n < 16, hexValue (hexDigit n) = some n := by decide
  exact hall n h

theorem readHex_digits (ds : List Nat) (h : ∀ d ∈ ds, d < 16) (acc : Nat) :
    (ds.map hexDigit).foldlM (fun acc d => (hexValue d).map (acc * 16 + ·)) acc =
      some (ds.foldl (fun acc d => acc * 16 + d) acc) := by
  induction ds generalizing acc with
  | nil => rfl
  | cons d ds ih =>
    rw [List.map_cons, List.foldlM_cons, hexValue_hexDigit (h d List.mem_cons_self)]
    exact ih (fun d hd => h d (List.mem_cons_of_mem _ hd)) _

theorem readByte_hex (b : UInt8) : readByte (hex 2 b.toNat) = some b := by
  have hb : b.toNat < 256 := b.toNat_lt
  have hhex : hex 2 b.toNat = [b.toNat / 16, b.toNat % 16].map hexDigit := by
    have hdiv : b.toNat / 16 % 16 = b.toNat / 16 := Nat.mod_eq_of_lt (by omega)
    simp [hex, List.range_succ, hdiv]
  have hread := readHex_digits [b.toNat / 16, b.toNat % 16] (by
    simp only [List.mem_cons, List.not_mem_nil, or_false, forall_eq_or_imp, forall_eq]
    omega) 0
  rw [hhex]
  change (readHex ([b.toNat / 16, b.toNat % 16].map hexDigit)).map UInt8.ofNat = some b
  rw [readHex, if_neg (by simp), hread]
  simp only [List.foldl_cons, List.foldl_nil, Option.map_some, Option.some.injEq]
  rw [show (0 * 16 + b.toNat / 16) * 16 + b.toNat % 16 = b.toNat by omega, UInt8.ofNat_toNat]

theorem readHex_hexNumber (n : Nat) : readHex (hexNumber n) = some n := by
  rw [hexNumber]
  split
  · next h =>
    rw [h]
    decide
  · next h =>
    have hlt : ∀ d ∈ (Nat.digits 16 n).reverse, d < 16 := fun d hd =>
      Nat.digits_lt_base (by decide) (List.mem_reverse.mp hd)
    have hne : (Nat.digits 16 n).reverse.map hexDigit ≠ [] := by
      simpa [Nat.digits_eq_nil_iff_eq_zero] using h
    have hfold : (fun (d acc : Nat) => acc * 16 + d) = fun d acc => d + 16 * acc := by
      funext d acc
      rw [Nat.add_comm, Nat.mul_comm]
    rw [readHex, if_neg hne, readHex_digits _ hlt, List.foldl_reverse, hfold]
    have hvalue := Nat.ofDigits_digits 16 n
    rw [Nat.ofDigits_eq_foldr] at hvalue
    exact congrArg some hvalue

def dataText (data : Bytes) : Bytes := [44].intercalate (data.map fun b => hex 2 b.toNat)

theorem mem_hex (h : c ∈ hex width n) : ∃ d < 16, c = hexDigit d := by
  obtain ⟨i, -, rfl⟩ := List.mem_map.mp h
  exact ⟨_, Nat.mod_lt _ (by decide), rfl⟩

theorem mapM_readByte (data : Bytes) :
    (data.map fun b => hex 2 b.toNat).mapM readByte = some data := by
  induction data with
  | nil => rfl
  | cons b data ih => simp [readByte_hex, ih]

theorem readData_dataText (data : Bytes) : readData (dataText data) = some data := by
  cases data with
  | nil => rfl
  | cons b data =>
    have hcomma : ∀ l ∈ (b :: data).map (fun b : UInt8 => hex 2 b.toNat), 44 ∉ l := by
      intro l hl hmem
      obtain ⟨x, -, rfl⟩ := List.mem_map.mp hl
      obtain ⟨d, hd, hc⟩ := mem_hex hmem
      have hall : ∀ d < 16, 44 ≠ hexDigit d := by decide
      exact hall d hd hc
    have hsplit : (dataText (b :: data)).splitOn 44 = (b :: data).map fun b => hex 2 b.toNat :=
      List.splitOn_intercalate 44 hcomma (by simp)
    have hne : dataText (b :: data) ≠ [] := by
      intro h
      rw [h, List.splitOn_nil] at hsplit
      simp [hex, List.range_succ] at hsplit
    rw [readData, if_neg hne, hsplit]
    exact mapM_readByte (b :: data)

def valueLine (name : Bytes) (type : Nat) (data : Bytes) : Bytes :=
  34 :: (name ++ 34 :: (ascii "=hex(" ++ (hexNumber type ++ 41 :: 58 :: dataText data)))

theorem strip?_append (pre b : Bytes) : strip? pre (pre ++ b) = some b := by
  simp [strip?]

theorem mem_hexNumber (h : c ∈ hexNumber n) : ∃ d < 16, c = hexDigit d := by
  rw [hexNumber] at h
  split at h
  · exact ⟨0, by decide, List.mem_singleton.mp h⟩
  · obtain ⟨d, hd, rfl⟩ := List.mem_map.mp h
    exact ⟨d, Nat.digits_lt_base (by decide) (List.mem_reverse.mp hd), rfl⟩

theorem mem_intercalate {sep : List α} (h : x ∈ sep.intercalate ls) : x ∈ sep ∨ ∃ l ∈ ls, x ∈ l := by
  induction ls with
  | nil => simp [List.intercalate] at h
  | cons l ls ih =>
    cases ls with
    | nil => exact .inr ⟨l, List.mem_cons_self, by simpa [List.intercalate] using h⟩
    | cons l' ls =>
      have hcons : sep.intercalate (l :: l' :: ls) = l ++ (sep ++ sep.intercalate (l' :: ls)) := by
        simp [List.intercalate]
      rw [hcons, List.mem_append, List.mem_append] at h
      rcases h with h | h | h
      · exact .inr ⟨l, List.mem_cons_self, h⟩
      · exact .inl h
      · obtain hsep | ⟨m, hm, hx⟩ := ih h
        · exact .inl hsep
        · exact .inr ⟨m, List.mem_cons_of_mem _ hm, hx⟩

theorem mem_dataText (h : c ∈ dataText data) : c = 44 ∨ ∃ d < 16, c = hexDigit d := by
  obtain hsep | ⟨l, hl, hc⟩ := mem_intercalate h
  · exact .inl (List.mem_singleton.mp hsep)
  · obtain ⟨b, -, rfl⟩ := List.mem_map.mp hl
    exact .inr (mem_hex hc)

theorem readValue_valueLine (h : 34 ∉ name ∧ 92 ∉ name) (type : Nat) (data : Bytes) :
    readValue (valueLine name type data) = some (name, type, data) := by
  have hparen : 41 ∉ hexNumber type := by
    intro h
    obtain ⟨d, hd, hc⟩ := mem_hexNumber h
    have hall : ∀ d < 16, 41 ≠ hexDigit d := by decide
    exact hall d hd hc
  have hquote : strip? [34] (valueLine name type data) =
      some (name ++ 34 :: (ascii "=hex(" ++ (hexNumber type ++ 41 :: 58 :: dataText data))) :=
    strip?_append [34] _
  have hcolon : strip? [58] (58 :: dataText data) = some (dataText data) := strip?_append [58] _
  simp only [readValue, hquote, readName_plain h, strip?_append, cut_append hparen,
    readHex_hexNumber, hcolon, readData_dataText, Option.bind_eq_bind, Option.bind_some,
    Option.pure_def]

theorem readName_of_readValue {v : Bytes × Nat × Bytes} (h : readValue line = some v) :
    ∃ b r, strip? [34] line = some b ∧ readName b = some (v.1, r) := by
  obtain ⟨b, hb, h⟩ := Option.bind_eq_some_iff.mp h
  obtain ⟨x, hx, h⟩ := Option.bind_eq_some_iff.mp h
  obtain ⟨_, _, h⟩ := Option.bind_eq_some_iff.mp h
  obtain ⟨_, _, h⟩ := Option.bind_eq_some_iff.mp h
  obtain ⟨_, _, h⟩ := Option.bind_eq_some_iff.mp h
  obtain ⟨_, _, h⟩ := Option.bind_eq_some_iff.mp h
  obtain ⟨_, _, h⟩ := Option.bind_eq_some_iff.mp h
  cases h
  exact ⟨b, x.2, hb, hx⟩

theorem mem_of_readValue {v : Bytes × Nat × Bytes} (h : readValue line = some v) : ∀ c ∈ v.1, c ∈ line := by
  obtain ⟨b, r, hb, hr⟩ := readName_of_readValue h
  exact fun c hc => mem_of_strip? hb c ((sublist_of_readName hr).mem hc)

theorem isEnd_of_readLines (h : readLines root key ls = some vs) (hkey : ∀ k ∈ key, ∀ c ∈ k, isEnd c = false)
    (hls : ∀ l ∈ ls, ∀ c ∈ l, isEnd c = false) :
    ∀ v ∈ vs, (∀ c ∈ v.key, isEnd c = false) ∧ ∀ c ∈ v.name, isEnd c = false := by
  induction ls generalizing key vs with
  | nil =>
    cases h
    simp
  | cons l ls ih =>
    have htail : ∀ l ∈ ls, ∀ c ∈ l, isEnd c = false := fun l hl => hls l (List.mem_cons_of_mem _ hl)
    have hline := hls l List.mem_cons_self
    rw [readLines] at h
    split at h
    · obtain ⟨k, hk, h⟩ := Option.bind_eq_some_iff.mp h
      refine ih h ?_ htail
      rintro k' ⟨rfl⟩ c hc
      exact hline c (mem_of_readKey hk c hc)
    · obtain ⟨k, hk, h⟩ := Option.bind_eq_some_iff.mp h
      obtain ⟨x, hx, h⟩ := Option.bind_eq_some_iff.mp h
      obtain ⟨more, hmore, h⟩ := Option.bind_eq_some_iff.mp h
      cases h
      intro v hv
      rcases List.mem_cons.mp hv with rfl | hv
      · exact ⟨hkey k hk, fun c hc => hline c (mem_of_readValue hx c hc)⟩
      · exact ih hmore (hk ▸ hkey) htail v hv

theorem isEnd_of_read (h : read root text = some vs) :
    ∀ v ∈ vs, (∀ c ∈ v.key, isEnd c = false) ∧ ∀ c ∈ v.name, isEnd c = false := by
  rw [read] at h
  split at h
  · cases h
  · next first rest hlines =>
    split at h
    · have hmem : ∀ l ∈ rest, l ∈ lines text := by
        intro l hl
        rw [hlines]
        exact List.mem_cons_of_mem _ hl
      exact isEnd_of_readLines h (by simp) fun l hl => isEnd_of_mem_lines (hmem l hl)
    · cases h

end StainedGlass.Lib.RegFile
