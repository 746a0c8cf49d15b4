import StainedGlass.Greeter.GreetReply

namespace StainedGlass.Greeter

open Lib Json

theorem jsonCopy_full {max o : Nat} (h : ¬ o + 1 < max) (s : Bytes) : jsonCopy max o s = [] := by
  rcases s with _ | ⟨b, _ | ⟨c, s⟩⟩
  · rfl
  · rw [jsonCopy, if_pos (.inr h)]
  · rw [jsonCopy, if_pos (.inr h)]

theorem jsonCopy_quote (max o : Nat) (s : Bytes) : jsonCopy max o (34 :: s) = [] := by
  cases s with
  | nil => rw [jsonCopy, if_pos (.inl rfl)]
  | cons c s => rw [jsonCopy, if_pos (.inl rfl)]

theorem jsonCopy_plain {max o : Nat} (h : o + 1 < max) (hquote : b ≠ 34) (hback : b ≠ 92) (s : Bytes) :
    jsonCopy max o (b :: s) = b :: jsonCopy max (o + 1) s := by
  cases s with
  | nil => exact if_neg (not_or.mpr ⟨hquote, not_not.mpr h⟩)
  | cons c s => rw [jsonCopy, if_neg (not_or.mpr ⟨hquote, not_not.mpr h⟩), if_neg hback]

theorem jsonCopy_back {max o : Nat} (h : o + 1 < max) (c : UInt8) (s : Bytes) :
    jsonCopy max o (92 :: c :: s) = jsonUndo c :: jsonCopy max (o + 1) s := by
  rw [jsonCopy, if_neg (not_or.mpr ⟨by decide, not_not.mpr h⟩), if_pos rfl]

def Copies (max : Nat) (s u : Bytes) : Prop :=
  ∀ o rest, jsonCopy max o (s ++ rest) = u.take (max - 1 - o) ++ jsonCopy max (o + u.length) rest

theorem Copies.append {max : Nat} (h : Copies max s u) (h' : Copies max s' u') : Copies max (s ++ s') (u ++ u') := by
  intro o rest
  rw [List.append_assoc, h, h', List.take_append, List.length_append, List.append_assoc, Nat.add_assoc]
  congr 3
  omega

theorem copies_of_notMem {max : Nat} (hquote : 34 ∉ u) (hback : 92 ∉ u) : Copies max u u := by
  induction u with
  | nil => exact fun o rest => by simp
  | cons b u ih =>
    rw [List.mem_cons, not_or] at hquote hback
    intro o rest
    by_cases hroom : o + 1 < max
    · have htake : max - 1 - o = (max - 1 - (o + 1)) + 1 := by omega
      rw [List.cons_append, jsonCopy_plain hroom (Ne.symm hquote.1) (Ne.symm hback.1), ih hquote.2 hback.2, htake,
        List.take_succ_cons, List.length_cons, List.cons_append]
      congr 3
      omega
    · have htake : max - 1 - o = 0 := by omega
      rw [jsonCopy_full hroom, jsonCopy_full (by omega), htake]
      rfl

theorem copies_escape {max : Nat} (c : UInt8) : Copies max [92, c] [jsonUndo c] := by
  intro o rest
  by_cases hroom : o + 1 < max
  · have htake : max - 1 - o = (max - 1 - (o + 1)) + 1 := by omega
    rw [List.cons_append, List.singleton_append, jsonCopy_back hroom, htake, List.take_succ_cons, List.take_nil]
    rfl
  · have htake : max - 1 - o = 0 := by omega
    rw [jsonCopy_full hroom, jsonCopy_full (by simp; omega), htake]
    rfl

theorem copies_hex4 {max : Nat} (x : Hex4) : Copies max (92 :: 117 :: x.bytes) (117 :: x.bytes) :=
  (copies_escape 117).append (copies_of_notMem (x.notMem (by decide)) (x.notMem (by decide)))

theorem copies_item {max : Nat} (i : Item) : Copies max i.text (undoItem i) := by
  cases i with
  | plain b ge quote back =>
    exact copies_of_notMem (by simpa [Item.text] using Ne.symm quote) (by simpa [Item.text] using Ne.symm back)
  | short e c means => exact copies_escape e
  | unit x alone => exact copies_hex4 x
  | pair x y high low => exact (copies_hex4 x).append (copies_hex4 y)

theorem copies_literal {max : Nat} (l : Literal) : Copies max l.text (undo l) := by
  induction l with
  | nil => exact copies_of_notMem List.not_mem_nil List.not_mem_nil
  | cons i l ih => exact (copies_item i).append ih

theorem jsonCopy_literal (max : Nat) (l : Literal) (rest : Bytes) :
    jsonCopy max 0 (l.text ++ 34 :: rest) = (undo l).take (max - 1) := by
  rw [copies_literal l 0, jsonCopy_quote, List.append_nil]
  rfl

theorem length_value_le (i : Item) : i.value.length ≤ (undoItem i).length := by
  cases i with
  | plain b ge quote back => exact le_rfl
  | short e c means => exact le_rfl
  | unit x alone =>
    have hsize := Char.utf8Size_le_four (Char.ofNat x.value)
    rw [Item.value, undoItem, String.length_utf8EncodeChar, List.length_cons, x.length_eq]
    omega
  | pair x y high low =>
    have hsize := Char.utf8Size_le_four (Char.ofNat (0x10000 + (x.value - 0xd800) * 1024 + (y.value - 0xdc00)))
    rw [Item.value, undoItem, String.length_utf8EncodeChar, List.length_cons, List.length_append, List.length_cons,
      x.length_eq, y.length_eq]
    omega

def shortEscapes : List (UInt8 × UInt8) :=
  [(34, 34), (92, 92), (47, 47), (98, 8), (102, 12), (110, 10), (114, 13), (116, 9)]

theorem mem_shortEscapes (h : simpleEscape e = some c) : (e, c) ∈ shortEscapes := by
  unfold simpleEscape at h
  repeat' split at h
  all_goals cases h
  · next h =>
    rcases h with rfl | rfl | rfl
    all_goals decide
  all_goals
    next h =>
      subst h
      decide

theorem undoItem_eq_value_iff (i : Item) : undoItem i = i.value ↔ isSimple i = true := by
  cases i with
  | plain b ge quote back => exact iff_of_true rfl rfl
  | short e c means =>
    rw [undoItem, Item.value, List.singleton_inj, isSimple]
    have hall : ∀ p ∈ shortEscapes, jsonUndo p.1 = p.2 ↔ (p.1 ≠ 98 && p.1 ≠ 102) = true := by
      simp only [shortEscapes, List.forall_mem_cons]
      refine ⟨by decide, by decide, by decide, by decide, by decide, by decide, by decide, by decide, by simp⟩
    exact hall (e, c) (mem_shortEscapes means)
  | unit x alone =>
    have hsize := Char.utf8Size_le_four (Char.ofNat x.value)
    refine iff_of_false (fun h => ?_) (by simp [isSimple])
    have hlen := congrArg List.length h
    rw [Item.value, undoItem, String.length_utf8EncodeChar, List.length_cons, x.length_eq] at hlen
    omega
  | pair x y high low =>
    have hsize := Char.utf8Size_le_four (Char.ofNat (0x10000 + (x.value - 0xd800) * 1024 + (y.value - 0xdc00)))
    refine iff_of_false (fun h => ?_) (by simp [isSimple])
    have hlen := congrArg List.length h
    rw [Item.value, undoItem, String.length_utf8EncodeChar, List.length_cons, List.length_append, List.length_cons,
      x.length_eq, y.length_eq] at hlen
    omega

theorem length_value_le_undo (l : Literal) : l.value.length ≤ (undo l).length := by
  induction l with
  | nil => exact le_rfl
  | cons i l ih =>
    have hi := length_value_le i
    rw [Literal.value_cons, undo, List.flatMap_cons, List.length_append, List.length_append]
    exact Nat.add_le_add hi ih

theorem undo_eq_value_iff (l : Literal) : undo l = l.value ↔ l.all isSimple = true := by
  induction l with
  | nil => exact iff_of_true rfl rfl
  | cons i l ih =>
    rw [undo, List.flatMap_cons, Literal.value_cons, List.all_cons, Bool.and_eq_true, ← undoItem_eq_value_iff, ← ih]
    constructor
    · intro h
      have hlen := congrArg List.length h
      have hi := length_value_le i
      have hl := length_value_le_undo l
      rw [List.length_append, List.length_append] at hlen
      refine List.append_inj h ?_
      have hundo : (l.flatMap undoItem).length = (undo l).length := rfl
      omega
    · rintro ⟨hi, hl⟩
      rw [hi]
      exact congrArg _ hl

theorem take_undo_iff {max : Nat} (hmax : 0 < max) (l : Literal) : (undo l).take (max - 1) = l.value ↔ Reads max l := by
  constructor
  · intro h
    have hlen := congrArg List.length h
    rw [List.length_take] at hlen
    by_cases hfits : (undo l).length ≤ max - 1
    · rw [List.take_of_length_le hfits] at h
      refine .inl ⟨(undo_eq_value_iff l).mp h, ?_⟩
      rw [← h]
      omega
    · refine .inr ⟨by omega, ?_⟩
      rw [← h]
      exact List.take_prefix _ _
  · rintro (⟨hsimple, hlen⟩ | ⟨hlen, hstart⟩)
    · rw [(undo_eq_value_iff l).mpr hsimple, List.take_of_length_le (by omega)]
    · have hcut : max - 1 = l.value.length := by omega
      rw [hcut]
      exact (List.prefix_iff_eq_take.mp hstart).symm

theorem snprintf_quoted {key : Bytes} (h : key.length ≤ 61) : snprintf 64 (quoted key) = quoted key := by
  rw [snprintf, List.take_of_length_le]
  simp [quoted]
  omega

def isSkipped (b : UInt8) : Bool := b = 32 || b = 58

theorem dropWhile_skipped (h : ∀ b ∈ bytes, isSkipped b = true) (rest : Bytes) :
    (bytes ++ rest).dropWhile isSkipped = rest.dropWhile isSkipped := by
  induction bytes with
  | nil => rfl
  | cons b bytes ih =>
    rw [List.forall_mem_cons] at h
    rw [List.cons_append, List.dropWhile_cons_of_pos h.1, ih h.2]

theorem dropWhile_ne_quote (hquote : 34 ∉ bytes) (h : ∃ b ∈ bytes, isSkipped b = false) (rest p : Bytes) :
    (bytes ++ rest).dropWhile isSkipped ≠ 34 :: p := by
  induction bytes with
  | nil => simp at h
  | cons b bytes ih =>
    rw [List.mem_cons, not_or] at hquote
    rw [List.cons_append, List.dropWhile_cons]
    split
    · next hb =>
      obtain ⟨c, hc, hskip⟩ := h
      obtain rfl | hc := List.mem_cons.mp hc
      · simp [hb] at hskip
      · exact ih hquote.2 ⟨c, hc, hskip⟩
    · exact fun heq => hquote.1 (List.cons.inj heq).1.symm

theorem tail_append (m : Member) (rest : Bytes) : m.tail ++ rest =
    (m.toColon.bytes ++ 58 :: m.toValue.bytes) ++ 34 :: (m.value.text ++ 34 :: (m.behind.bytes ++ rest)) := by
  simp [Member.tail]

theorem dropWhile_tail {m : Member} (hspaced : Spaced m) (rest : Bytes) :
    (m.tail ++ rest).dropWhile isSkipped = 34 :: (m.value.text ++ 34 :: (m.behind.bytes ++ rest)) := by
  have hskip : ∀ b ∈ m.toColon.bytes ++ 58 :: m.toValue.bytes, isSkipped b = true := by
    intro b hb
    rw [List.mem_append, List.mem_cons] at hb
    obtain hb | rfl | hb := hb
    · rw [hspaced b (List.mem_append_left _ hb)]
      rfl
    · rfl
    · rw [hspaced b (List.mem_append_right _ hb)]
      rfl
  rw [tail_append, dropWhile_skipped hskip]
  rfl

theorem dropWhile_tail_of_not {m : Member} (hspaced : ¬ Spaced m) (rest p : Bytes) :
    (m.tail ++ rest).dropWhile isSkipped ≠ 34 :: p := by
  rw [tail_append]
  apply dropWhile_ne_quote
  · simp [Gap.notMem_quote]
  · simp only [Spaced, not_forall] at hspaced
    obtain ⟨b, hb, hne⟩ := hspaced
    have hmem : b ∈ m.toColon.bytes ++ 58 :: m.toValue.bytes := by
      rw [List.mem_append] at hb ⊢
      exact hb.imp id (List.mem_cons_of_mem _)
    have hwhite : b = 9 ∨ b = 10 ∨ b = 13 ∨ b = 32 := (List.mem_append.mp hb).elim (m.toColon.white b) (m.toValue.white b)
    refine ⟨b, hmem, ?_⟩
    rcases hwhite with rfl | rfl | rfl | rfl
    · rfl
    · rfl
    · rfl
    · exact absurd rfl hne

theorem jsonString_eq_some_iff {json : CString} {max : Nat} :
    jsonString json key max = some v ↔ ∃ p q, afterFirst (snprintf 64 (quoted key)) json.bytes = some p ∧
      p.dropWhile isSkipped = 34 :: q ∧ jsonCopy max 0 q = v := by
  rw [jsonString]
  cases hfirst : afterFirst (snprintf 64 (quoted key)) json.bytes with
  | none => simp
  | some p =>
    simp only
    change _ ↔ ∃ p' q, some p = some p' ∧ p'.dropWhile isSkipped = 34 :: q ∧ _
    simp only [Option.some.injEq, exists_and_left, exists_eq_left']
    constructor
    · intro h
      split at h
      · next q hq => exact ⟨q, hq, Option.some.inj h⟩
      · cases h
    · rintro ⟨q, hq, rfl⟩
      have hq' : (p.dropWhile fun b => decide (b = 32) || decide (b = 58)) = 34 :: q := hq
      rw [hq']
      rfl

section Reading

variable {r : Reply} {key : Bytes} {max : Nat} {pre post : List Member} {m : Member}

theorem jsonString_of_first (hkey : Word key) (hlen : key.length ≤ 61)
    (hmembers : r.members = pre ++ m :: post) (hname : m.name = key)
    (hpre : ∀ m' ∈ pre, m'.name ≠ key ∧ hits key m'.value = false) (v : Bytes) :
    jsonString r.text key max = some v ↔ Spaced m ∧ (undo m.value).take (max - 1) = v := by
  have hfirst : afterFirst (snprintf 64 (quoted key)) r.text.bytes = some (m.tail ++ after post r.trail.bytes) := by
    rw [snprintf_quoted hlen]
    refine (afterFirst_object r.object).trans ?_
    rw [Reply.object, hmembers]
    exact afterFirst_members hkey hname hpre post r.trail.bytes
  rw [jsonString_eq_some_iff]
  constructor
  · rintro ⟨p, q, hp, hq, hv⟩
    obtain rfl := Option.some.inj (hfirst.symm.trans hp)
    by_cases hspaced : Spaced m
    · rw [dropWhile_tail hspaced] at hq
      obtain rfl := (List.cons.inj hq).2
      rw [jsonCopy_literal] at hv
      exact ⟨hspaced, hv⟩
    · exact absurd hq (dropWhile_tail_of_not hspaced _ _)
  · rintro ⟨hspaced, rfl⟩
    exact ⟨_, _, hfirst, dropWhile_tail hspaced _, jsonCopy_literal _ _ _⟩

theorem jsonString_of_hits (hkey : Word key) (hlen : key.length ≤ 61)
    (hmembers : r.members = pre ++ m :: post) (hpre : ∀ m' ∈ pre, m'.name ≠ key)
    (hhits : ∃ m' ∈ pre, hits key m'.value = true) : jsonString r.text key max = none := by
  obtain ⟨g, rest, hfirst⟩ := afterFirst_members_of_hits hkey hpre hhits (m := m) post r.trail.bytes
  have hfirst' : afterFirst (snprintf 64 (quoted key)) r.text.bytes = some (g.bytes ++ 44 :: rest) := by
    rw [snprintf_quoted hlen]
    refine (afterFirst_object r.object).trans ?_
    rw [Reply.object, hmembers, hfirst]
  rw [Option.eq_none_iff_forall_ne_some]
  intro v hv
  obtain ⟨p, q, hp, hq, -⟩ := jsonString_eq_some_iff.mp hv
  obtain rfl := Option.some.inj (hfirst'.symm.trans hp)
  have hquote : 34 ∉ g.bytes ++ [44] := by simp [Gap.notMem_quote]
  rw [List.append_cons] at hq
  exact dropWhile_ne_quote hquote ⟨44, by simp, rfl⟩ rest q hq

theorem get_eq (hmembers : r.members = pre ++ m :: post) (hname : m.name = key) :
    r.get key = some m.value.value ∧ ∀ m' ∈ pre, m'.name ≠ key := by
  have hnodup := r.nodup
  change (r.members.map Member.name).Nodup at hnodup
  rw [hmembers, List.map_append, List.nodup_append] at hnodup
  have hpre : ∀ m' ∈ pre, m'.name ≠ key := by
    intro m' hm' hname'
    exact hnodup.2.2 _ (List.mem_map_of_mem hm') _ (List.mem_cons_self) (hname'.trans hname.symm)
  refine ⟨?_, hpre⟩
  rw [Reply.get, hmembers, List.find?_append, List.find?_eq_none.mpr (by simpa using hpre)]
  simp [hname]

theorem bufferSize_pos (key : Bytes) : 0 < bufferSize key := by
  rw [bufferSize]
  split
  · decide
  · split <;> decide

theorem jsonString_eq_get_iff (hkey : Word key) (hlen : key.length ≤ 61)
    (hmem : key ∈ r.members.map Member.name) :
    jsonString r.text key (bufferSize key) = r.get key ↔ Found r key := by
  obtain ⟨m, hm, hname⟩ := List.mem_map.mp hmem
  obtain ⟨pre, post, hmembers⟩ := List.append_of_mem hm
  obtain ⟨hget, hpre⟩ := get_eq hmembers hname
  have hunique {m' : Member} (hm' : m' ∈ r.members) (hname' : m'.name = key) : m' = m :=
    List.inj_on_of_nodup_map r.nodup hm' hm (hname'.trans hname.symm)
  rw [hget]
  by_cases hhits : ∃ m' ∈ pre, hits key m'.value = true
  · rw [jsonString_of_hits hkey hlen hmembers hpre hhits]
    refine iff_of_false (by simp) fun hfound => ?_
    obtain ⟨m', hm', hhit⟩ := hhits
    have := hfound.first pre m post hmembers hname m' hm'
    rw [hhit] at this
    cases this
  · have hno : ∀ m' ∈ pre, hits key m'.value = false := by
      intro m' hm'
      rw [Bool.eq_false_iff]
      exact fun hhit => hhits ⟨m', hm', hhit⟩
    rw [jsonString_of_first hkey hlen hmembers hname fun m' hm' => ⟨hpre m' hm', hno m' hm'⟩,
      take_undo_iff (bufferSize_pos key)]
    constructor
    · rintro ⟨hspaced, hreads⟩
      refine ⟨fun pre' m' post' hmembers' hname' => ?_, fun m' hm' hname' => ?_, fun m' hm' hname' => ?_⟩
      · obtain rfl : m' = m := hunique (hmembers' ▸ by simp) hname'
        have hnodup : r.members.Nodup := .of_map _ r.nodup
        rw [hmembers, List.nodup_append, List.nodup_cons] at hnodup
        have hnotin : m' ∉ pre := fun h => hnodup.2.2 m' h m' List.mem_cons_self rfl
        have hpre' := ((List.append_cons_inj_of_notMem hnotin hnodup.2.1.1).mp
          (hmembers.symm.trans hmembers')).1
        exact hpre' ▸ hno
      · rwa [hunique hm' hname']
      · rwa [hunique hm' hname']
    · intro hfound
      exact ⟨hfound.spaced m hm hname, hfound.reads m hm hname⟩

end Reading

def isWordByte (b : UInt8) : Bool :=
  (48 ≤ b && b ≤ 57) || (65 ≤ b && b ≤ 90) || b = 95 || (97 ≤ b && b ≤ 122)

theorem word_of_all {key : Bytes} (hne : key ≠ []) (h : key.all isWordByte = true) : Word key := by
  refine ⟨hne, fun b hb => ?_⟩
  have := List.all_eq_true.mp h b hb
  simpa [isWordByte, or_assoc] using this

theorem word_of_replyKeys {type key : Bytes} (h : key ∈ replyKeys type) : Word key ∧ key.length ≤ 61 := by
  rw [replyKeys] at h
  split at h
  · simp only [List.mem_cons, List.not_mem_nil, or_false] at h
    rcases h with rfl | rfl | rfl
    all_goals exact ⟨word_of_all (by decide) (by decide), by decide⟩
  · split at h
    · simp only [List.mem_cons, List.not_mem_nil, or_false] at h
      rcases h with rfl | rfl | rfl
      all_goals exact ⟨word_of_all (by decide) (by decide), by decide⟩
    · obtain rfl := List.mem_singleton.mp h
      exact ⟨word_of_all (by decide) (by decide), by decide⟩

theorem strings_iff (r : Reply) :
    (∀ key ∈ r.keys, jsonString r.text key (bufferSize key) = r.get key) ↔ ∀ key ∈ r.keys, Found r key := by
  refine forall₂_congr fun key hkey => ?_
  obtain ⟨hword, hlen⟩ := word_of_replyKeys hkey
  exact jsonString_eq_get_iff hword hlen (r.complete key hkey)

theorem text_eq_value {l : Literal} (hsimple : l.all isSimple = true) (hword : l.value.all isWordByte = true) :
    l.text = l.value := by
  induction l with
  | nil => rfl
  | cons i l ih =>
    rw [List.all_cons, Bool.and_eq_true] at hsimple
    rw [Literal.value_cons, List.all_append, Bool.and_eq_true] at hword
    rw [Literal.text_cons, Literal.value_cons, ih hsimple.2 hword.2]
    congr 1
    cases i with
    | plain b ge quote back => rfl
    | short e c means =>
      have hall : ∀ p ∈ shortEscapes, isWordByte p.2 = false := by
        simp only [shortEscapes, List.forall_mem_cons]
        exact ⟨rfl, rfl, rfl, rfl, rfl, rfl, rfl, rfl, by simp⟩
      have hc := hall (e, c) (mem_shortEscapes means)
      have := hword.1
      simp [Item.value, hc] at this
    | unit x alone => cases hsimple.1
    | pair x y high low => cases hsimple.1

theorem get_type (r : Reply) : r.get (ascii "type") = some r.type.value.value := by
  rw [Reply.get, Reply.members, List.find?_cons_of_pos (by simp [r.isType])]
  rfl

theorem not_found_of_auth {r : Reply} (htype : r.type.value.value = ascii "auth_message") :
    ¬ ∀ key ∈ r.keys, Found r key := by
  intro hall
  have hkeys : r.keys = [ascii "type", ascii "auth_message_type", ascii "auth_message"] := by
    rw [Reply.keys, htype, replyKeys, if_pos rfl]
  have hfoundType : Found r (ascii "type") := hall _ (hkeys ▸ List.mem_cons_self)
  have hfoundText : Found r (ascii "auth_message") := hall _ (hkeys ▸ by simp)
  have htext : r.type.value.text = ascii "auth_message" := by
    obtain ⟨hsimple, -⟩ | ⟨hlen, -⟩ := hfoundType.reads r.type List.mem_cons_self r.isType
    · rw [text_eq_value hsimple (by rw [htype]; decide), htype]
    · rw [htype] at hlen
      exact absurd hlen (by decide)
  have hmem : ascii "auth_message" ∈ r.members.map Member.name :=
    r.complete _ (by rw [← Reply.keys, hkeys]; simp)
  rw [Reply.members, List.map_cons, List.mem_cons, r.isType] at hmem
  obtain hmem | hmem := hmem
  · exact absurd hmem (by decide)
  obtain ⟨m, hm, hname⟩ := List.mem_map.mp hmem
  obtain ⟨pre, post, hrest⟩ := List.append_of_mem hm
  have hhits := hfoundText.first (r.type :: pre) m post (by rw [Reply.members, hrest]; rfl) hname
    r.type List.mem_cons_self
  rw [hits, htext] at hhits
  simp at hhits

theorem knownWords_line (h : knownWords etype text = some words) : 10 ∉ words := by
  have hincorrect : 10 ∉ incorrect := by decide
  rw [knownWords] at h
  split at h
  · obtain rfl := Option.some.inj h
    exact hincorrect
  · split at h
    · next p hp =>
      obtain rfl := Option.some.inj h
      have hall : ∀ p ∈ pamWords, 10 ∉ p.2 := by decide
      exact hall p (List.mem_of_find?_eq_some hp)
    · split at h
      · obtain rfl := Option.some.inj h
        decide
      · cases h

theorem exists_get (r : Reply) (key : Bytes) (h : key ∈ r.keys) : ∃ v, r.get key = some v := by
  obtain ⟨m, hm, hname⟩ := List.mem_map.mp (r.complete key h)
  obtain ⟨pre, post, hmembers⟩ := List.append_of_mem hm
  exact ⟨_, (get_eq hmembers hname).1⟩

structure Told (r : Reply) (etype text : Bytes) : Prop where
  get_etype : r.get (ascii "error_type") = some etype
  get_text : r.get (ascii "description") = some text
  line : r.line = some (ascii "FAILURE " ++ failureWords etype text)

theorem keys_error {r : Reply} (htype : r.type.value.value = ascii "error") :
    r.keys = [ascii "type", ascii "error_type", ascii "description"] := by
  rw [Reply.keys, htype, replyKeys, if_neg (by decide), if_pos rfl]

theorem exists_told {r : Reply} (htype : r.type.value.value = ascii "error") :
    ∃ etype text, Told r etype text := by
  obtain ⟨etype, hetype⟩ := exists_get r (ascii "error_type") (by rw [keys_error htype]; simp)
  obtain ⟨text, htext⟩ := exists_get r (ascii "description") (by rw [keys_error htype]; simp)
  refine ⟨etype, text, hetype, htext, ?_⟩
  rw [Reply.line, htype, if_neg (by decide), if_pos rfl, hetype, htext]
  rfl

theorem ui_error {r : Reply} (htype : r.type.value.value = ascii "error")
    (hstrings : ∀ key ∈ r.keys, jsonString r.text key (bufferSize key) = r.get key)
    (htold : Told r etype text) (junk : Junk) (sends : Bool) (cmd : Option Bytes) (next : Option CString) :
    (handleGreetdReply junk sends cmd next (some r.text)).ui =
      (ascii "FAILURE " ++ failureWords etype text) ++ [10] := by
  rw [keys_error htype] at hstrings
  simp only [List.forall_mem_cons] at hstrings
  obtain ⟨hs₁, hs₂, hs₃, -⟩ := hstrings
  have hsize₁ : bufferSize (ascii "type") = 64 := by decide
  have hsize₂ : bufferSize (ascii "error_type") = 64 := by decide
  have hsize₃ : bufferSize (ascii "description") = 1024 := by decide
  rw [hsize₁, get_type, htype] at hs₁
  rw [hsize₂, htold.get_etype] at hs₂
  rw [hsize₃, htold.get_text] at hs₃
  rw [handleGreetdReply, hs₁]
  simp only
  rw [if_neg (by decide), if_neg (by decide), if_pos trivial, onError, hs₂, hs₃]
  rfl

theorem notMem_failure_iff :
    10 ∉ ascii "FAILURE " ++ failureWords etype text ↔ (knownWords etype text).isSome = true ∨ 10 ∉ text := by
  have hlead : 10 ∉ ascii "FAILURE " := by decide
  rw [List.mem_append, not_or, and_iff_right hlead, failureWords]
  cases hwords : knownWords etype text with
  | none => simp
  | some words => exact iff_of_true (knownWords_line hwords) (.inl rfl)

theorem handled_iff (r : Reply) (junk : Junk) (sends : Bool) (cmd : Option Bytes) (next : Option CString) :
    Handled r (handleGreetdReply junk sends cmd next (some r.text)) ↔ Readable r := by
  constructor
  · rintro ⟨hstrings, hline⟩
    have hfound := (strings_iff r).mp hstrings
    refine ⟨fun htype => not_found_of_auth htype hfound, hfound, fun etype hetype text htext htype => ?_⟩
    obtain ⟨etype', text', htold⟩ := exists_told htype
    obtain rfl := Option.some.inj (htold.get_etype.symm.trans hetype)
    obtain rfl := Option.some.inj (htold.get_text.symm.trans htext)
    exact notMem_failure_iff.mp (hline _ htold.line).2
  · rintro ⟨htype, hfound, hwhole⟩
    have hstrings := (strings_iff r).mpr hfound
    refine ⟨hstrings, fun line hline => ?_⟩
    by_cases herror : r.type.value.value = ascii "error"
    · obtain ⟨etype, text, htold⟩ := exists_told herror
      obtain rfl := Option.some.inj (htold.line.symm.trans hline)
      refine ⟨ui_error herror hstrings htold junk sends cmd next, ?_⟩
      exact notMem_failure_iff.mpr (hwhole etype htold.get_etype text htold.get_text herror)
    · rw [Reply.line, if_neg htype, if_neg herror] at hline
      cases hline

def literalOf (s : Bytes) : Literal :=
  s.filterMap fun b => if h : 32 ≤ b ∧ b ≠ 34 ∧ b ≠ 92 then some (.plain b h.1 h.2.1 h.2.2) else none

def noGap : Gap := ⟨[], by simp⟩

def memberOf (name : Bytes) (hname : Word name) (value : Literal) : Member :=
  ⟨noGap, name, hname, noGap, noGap, value, noGap⟩

def passwordPrompt : Reply where
  lead := noGap
  type := memberOf (ascii "type") (word_of_all (by decide) (by decide)) (literalOf (ascii "auth_message"))
  rest := [memberOf (ascii "auth_message_type") (word_of_all (by decide) (by decide))
      (literalOf (ascii "secret")),
    memberOf (ascii "auth_message") (word_of_all (by decide) (by decide))
      (literalOf (ascii "Password: "))]
  trail := noGap
  isType := rfl
  nodup := by decide
  complete := by decide

theorem passwordPrompt_not_read :
    passwordPrompt.text.bytes = ascii
      "\x7b\"type\":\"auth_message\",\"auth_message_type\":\"secret\",\"auth_message\":\"Password: \"\x7d" ∧
    jsonString passwordPrompt.text (ascii "auth_message") 1024 = none ∧
    passwordPrompt.get (ascii "auth_message") = some (ascii "Password: ") ∧
    (handleGreetdReply ⟨ascii "junk", [], []⟩ true none none (some passwordPrompt.text)).ui =
      ascii "PROMPT_SECRET junk\n" := by
  decide +kernel

end StainedGlass.Greeter
