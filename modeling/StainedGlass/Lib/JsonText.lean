import StainedGlass.Lib.Json

/-! Where a quoted word is first found in the text of an object. -/

namespace StainedGlass.Lib.Json

structure Hex4 where
  bytes : Bytes
  length_eq : bytes.length = 4
  digits : ∀ b ∈ bytes, (hexValue b).isSome

def Hex4.value (x : Hex4) : Nat := x.bytes.foldl (fun n b => n * 16 + (hexValue b).getD 0) 0

inductive Item where
  | plain (b : UInt8) (ge : 32 ≤ b) (quote : b ≠ 34) (back : b ≠ 92)
  | short (e c : UInt8) (means : simpleEscape e = some c)
  | unit (x : Hex4) (alone : ¬ (0xd800 ≤ x.value ∧ x.value < 0xe000))
  | pair (x y : Hex4) (high : 0xd800 ≤ x.value ∧ x.value < 0xdc00) (low : 0xdc00 ≤ y.value ∧ y.value < 0xe000)

abbrev Literal := List Item

namespace Item

def text : Item → Bytes
  | plain b _ _ _ => [b]
  | short e _ _ => [92, e]
  | unit x _ => 92 :: 117 :: x.bytes
  | pair x y _ _ => 92 :: 117 :: (x.bytes ++ 92 :: 117 :: y.bytes)

def value : Item → Bytes
  | plain b _ _ _ => [b]
  | short _ c _ => [c]
  | unit x _ => String.utf8EncodeChar (Char.ofNat x.value)
  | pair x y _ _ => String.utf8EncodeChar (Char.ofNat (0x10000 + (x.value - 0xd800) * 1024 + (y.value - 0xdc00)))

end Item

namespace Literal

def text (l : Literal) : Bytes := l.flatMap Item.text

def value (l : Literal) : Bytes := l.flatMap Item.value

@[simp] theorem text_nil : text [] = [] := rfl

@[simp] theorem text_cons (i : Item) (l : Literal) : text (i :: l) = i.text ++ text l := rfl

@[simp] theorem value_nil : value [] = [] := rfl

@[simp] theorem value_cons (i : Item) (l : Literal) : value (i :: l) = i.value ++ value l := rfl

end Literal

def afterFirst (pat : Bytes) : Bytes → Option Bytes
  | [] => if pat = [] then some [] else none
  | b :: s => if pat.isPrefixOf (b :: s) then some ((b :: s).drop pat.length) else afterFirst pat s

def quoted (key : Bytes) : Bytes := 34 :: (key ++ [34])

structure Word (key : Bytes) : Prop where
  ne_nil : key ≠ []
  word : ∀ b ∈ key, (48 ≤ b ∧ b ≤ 57) ∨ (65 ≤ b ∧ b ≤ 90) ∨ b = 95 ∨ (97 ≤ b ∧ b ≤ 122)

variable {key : Bytes}

theorem afterFirst_of_ne (h : b ≠ 34) (s : Bytes) : afterFirst (quoted key) (b :: s) = afterFirst (quoted key) s := by
  rw [afterFirst, if_neg]
  simp [quoted, List.isPrefixOf, Ne.symm h]

theorem afterFirst_of_notMem (h : 34 ∉ s) (rest : Bytes) :
    afterFirst (quoted key) (s ++ rest) = afterFirst (quoted key) rest := by
  induction s with
  | nil => rfl
  | cons b s ih =>
    rw [List.mem_cons, not_or] at h
    rw [List.cons_append, afterFirst_of_ne (Ne.symm h.1), ih h.2]

theorem afterFirst_quote (s : Bytes) : afterFirst (quoted key) (34 :: s) =
    if key ++ [34] <+: s then some (s.drop (key.length + 1)) else afterFirst (quoted key) s := by
  rw [afterFirst]
  simp [quoted, List.isPrefixOf_iff_prefix]

theorem Word.notMem_quote (h : Word key) : 34 ∉ key := fun hmem => by
  have := h.word 34 hmem
  revert this
  decide

theorem Word.notMem_back (h : Word key) : 92 ∉ key := fun hmem => by
  have := h.word 92 hmem
  revert this
  decide

theorem Item.plain_or_back (i : Item) : (∃ b, i.text = [b] ∧ b ≠ 34 ∧ b ≠ 92) ∨ ∃ t, i.text = 92 :: t := by
  cases i with
  | plain b ge quote back => exact .inl ⟨b, rfl, quote, back⟩
  | short e c means => exact .inr ⟨_, rfl⟩
  | unit x alone => exact .inr ⟨_, rfl⟩
  | pair x y high low => exact .inr ⟨_, rfl⟩

theorem prefix_text_iff (hquote : 34 ∉ key) (hback : 92 ∉ key) (l : Literal) (rest : Bytes) :
    key ++ [34] <+: l.text ++ 34 :: rest ↔ l.text = key := by
  induction l generalizing key with
  | nil =>
    cases key with
    | nil => simp
    | cons k key =>
      have hk : k ≠ 34 := fun h => hquote (h ▸ List.mem_cons_self)
      simp [hk]
  | cons i l ih =>
    rw [Literal.text_cons]
    obtain ⟨b, hi, hb, -⟩ | ⟨t, hi⟩ := i.plain_or_back
    · cases key with
      | nil => simp [hi, Ne.symm hb]
      | cons k key =>
        rw [List.mem_cons, not_or] at hquote hback
        rw [hi, List.cons_append, List.append_assoc, List.singleton_append, List.singleton_append,
          List.cons_prefix_cons, ih hquote.2 hback.2, List.cons.injEq, eq_comm]
    · rw [hi]
      cases key with
      | nil => simp
      | cons k key =>
        have hk : k ≠ 92 := fun h => hback (h ▸ List.mem_cons_self)
        simp [hk, Ne.symm hk]

def endsQuoted (key : Bytes) : Literal → Bool
  | [] => false
  | i :: l => (i.text = [92, 34] && Literal.text l = key) || endsQuoted key l

def hits (key : Bytes) (l : Literal) : Bool := l.text = key || endsQuoted key l

theorem Hex4.notMem (x : Hex4) (h : hexValue b = none) : b ∉ x.bytes := fun hmem => by
  have := x.digits b hmem
  simp [h] at this

theorem notMem_quote {i : Item} (h : i.text ≠ [92, 34]) : 34 ∉ i.text := by
  cases i with
  | plain b ge quote back => simpa [Item.text] using Ne.symm quote
  | short e c means =>
    have he : e ≠ 34 := by
      rintro rfl
      exact h rfl
    simpa [Item.text] using Ne.symm he
  | unit x alone =>
    have hx := x.notMem (by decide : hexValue 34 = none)
    simpa [Item.text] using hx
  | pair x y high low =>
    have hx := x.notMem (by decide : hexValue 34 = none)
    have hy := y.notMem (by decide : hexValue 34 = none)
    simpa [Item.text] using ⟨hx, hy⟩

theorem afterFirst_text (hkey : Word key) (l : Literal) (rest : Bytes) :
    afterFirst (quoted key) (l.text ++ 34 :: rest) =
      if endsQuoted key l then some rest else afterFirst (quoted key) (34 :: rest) := by
  induction l with
  | nil => rfl
  | cons i l ih =>
    rw [Literal.text_cons, List.append_assoc, endsQuoted]
    by_cases hi : i.text = [92, 34]
    · have hstart := prefix_text_iff hkey.notMem_quote hkey.notMem_back l rest
      rw [hi, List.cons_append, afterFirst_of_ne (by decide), List.singleton_append, afterFirst_quote, ih]
      by_cases hl : Literal.text l = key
      · rw [if_pos (hstart.mpr hl), ← hl]
        simp
      · rw [if_neg (mt hstart.mp hl)]
        simp [hl]
    · rw [afterFirst_of_notMem (notMem_quote hi), ih]
      simp [hi]

def Ends (rest : Bytes) : Prop := ∀ b ∈ rest.head?, b = 9 ∨ b = 10 ∨ b = 13 ∨ b = 32 ∨ b = 44 ∨ b = 58 ∨ b = 125

theorem afterFirst_closing (hkey : Word key) (hrest : Ends rest) :
    afterFirst (quoted key) (34 :: rest) = afterFirst (quoted key) rest := by
  rw [afterFirst_quote, if_neg]
  rintro ⟨more, rfl⟩
  obtain ⟨k, key, rfl⟩ := List.exists_cons_of_ne_nil hkey.ne_nil
  have hk := hrest k rfl
  have hword := hkey.word k List.mem_cons_self
  rcases hk with rfl | rfl | rfl | rfl | rfl | rfl | rfl
  all_goals exact absurd hword (by decide)

theorem afterFirst_literal (hkey : Word key) (l : Literal) (hrest : Ends rest) :
    afterFirst (quoted key) (34 :: (l.text ++ 34 :: rest)) =
      if hits key l then some rest else afterFirst (quoted key) rest := by
  have hstart := prefix_text_iff hkey.notMem_quote hkey.notMem_back l rest
  rw [afterFirst_quote, afterFirst_text hkey, afterFirst_closing hkey hrest, hits]
  by_cases hl : l.text = key
  · rw [if_pos (hstart.mpr hl), ← hl]
    simp
  · rw [if_neg (mt hstart.mp hl)]
    simp [hl]

structure Gap where
  bytes : Bytes
  white : ∀ b ∈ bytes, b = 9 ∨ b = 10 ∨ b = 13 ∨ b = 32

structure Member where
  before : Gap
  name : Bytes
  word : Word name
  toColon : Gap
  toValue : Gap
  value : Literal
  behind : Gap

namespace Member

def tail (m : Member) : Bytes :=
  m.toColon.bytes ++ 58 :: (m.toValue.bytes ++ 34 :: (m.value.text ++ 34 :: m.behind.bytes))

def text (m : Member) : Bytes := m.before.bytes ++ 34 :: (m.name ++ 34 :: m.tail)

end Member

def membersText : List Member → Bytes
  | [] => []
  | [m] => m.text
  | m :: m' :: ms => m.text ++ 44 :: membersText (m' :: ms)

structure Object where
  lead : Gap
  members : List Member
  trail : Gap

def Object.text (o : Object) : Bytes := o.lead.bytes ++ 123 :: (membersText o.members ++ 125 :: o.trail.bytes)

theorem Gap.notMem_quote (g : Gap) : 34 ∉ g.bytes := fun hmem => by
  have := g.white 34 hmem
  revert this
  decide

theorem ends_gap (g : Gap) (h : Ends rest) : Ends (g.bytes ++ rest) := by
  obtain ⟨bytes, hwhite⟩ := g
  cases bytes with
  | nil => exact h
  | cons b bytes =>
    intro c hc
    cases hc
    rcases hwhite b List.mem_cons_self with rfl | rfl | rfl | rfl
    all_goals simp

theorem prefix_name_iff (hkey : 34 ∉ key) (hname : 34 ∉ name) (rest : Bytes) :
    key ++ [34] <+: name ++ 34 :: rest ↔ name = key := by
  induction name generalizing key with
  | nil =>
    cases key with
    | nil => simp
    | cons k key =>
      have hk : k ≠ 34 := fun h => hkey (h ▸ List.mem_cons_self)
      simp [hk]
  | cons n name ih =>
    rw [List.mem_cons, not_or] at hname
    cases key with
    | nil => simp [hname.1]
    | cons k key =>
      rw [List.mem_cons, not_or] at hkey
      rw [List.cons_append, List.cons_append, List.cons_prefix_cons, ih hkey.2 hname.2, List.cons.injEq, eq_comm]

theorem afterFirst_name (hkey : Word key) (hname : Word name) (hrest : Ends rest) :
    afterFirst (quoted key) (34 :: (name ++ 34 :: rest)) =
      if name = key then some rest else afterFirst (quoted key) rest := by
  have hstart := prefix_name_iff hkey.notMem_quote hname.notMem_quote rest
  rw [afterFirst_quote, afterFirst_of_notMem hname.notMem_quote, afterFirst_closing hkey hrest]
  by_cases heq : name = key
  · rw [if_pos (hstart.mpr heq), if_pos heq, ← heq]
    simp
  · rw [if_neg (mt hstart.mp heq), if_neg heq]

theorem afterFirst_member (hkey : Word key) (m : Member) (hrest : Ends rest) :
    afterFirst (quoted key) (m.text ++ rest) = if m.name = key then some (m.tail ++ rest)
      else if hits key m.value then some (m.behind.bytes ++ rest) else afterFirst (quoted key) rest := by
  have hcolon : Ends (58 :: (m.toValue.bytes ++ 34 :: (m.value.text ++ 34 :: (m.behind.bytes ++ rest)))) := by
    intro b hb
    cases hb
    simp
  have htext : m.text ++ rest = m.before.bytes ++ 34 :: (m.name ++ 34 :: (m.tail ++ rest)) := by
    simp [Member.text]
  have htail : m.tail ++ rest = m.toColon.bytes ++
      58 :: (m.toValue.bytes ++ 34 :: (m.value.text ++ 34 :: (m.behind.bytes ++ rest))) := by
    simp [Member.tail]
  have hends : Ends (m.tail ++ rest) := htail ▸ ends_gap m.toColon hcolon
  rw [htext, afterFirst_of_notMem m.before.notMem_quote, afterFirst_name hkey m.word hends]
  refine if_congr Iff.rfl rfl ?_
  rw [htail, afterFirst_of_notMem m.toColon.notMem_quote, afterFirst_of_ne (by decide),
    afterFirst_of_notMem m.toValue.notMem_quote, afterFirst_literal hkey m.value (ends_gap m.behind hrest),
    afterFirst_of_notMem m.behind.notMem_quote]

def after (ms : List Member) (t : Bytes) : Bytes :=
  if ms = [] then 125 :: t else 44 :: (membersText ms ++ 125 :: t)

theorem membersText_cons (m : Member) (ms : List Member) (t : Bytes) :
    membersText (m :: ms) ++ 125 :: t = m.text ++ after ms t := by
  cases ms with
  | nil => rfl
  | cons m' ms => simp [membersText, after]

theorem ends_after (ms : List Member) (t : Bytes) : Ends (after ms t) := by
  intro b hb
  rw [after] at hb
  split at hb
  · cases hb
    simp
  · cases hb
    simp

theorem afterFirst_after (h : ms ≠ []) (t : Bytes) :
    afterFirst (quoted key) (after ms t) = afterFirst (quoted key) (membersText ms ++ 125 :: t) := by
  rw [after, if_neg h, afterFirst_of_ne (by decide)]

theorem afterFirst_members (hkey : Word key) {m : Member} (hname : m.name = key)
    (hpre : ∀ m' ∈ pre, m'.name ≠ key ∧ hits key m'.value = false) (post : List Member) (t : Bytes) :
    afterFirst (quoted key) (membersText (pre ++ m :: post) ++ 125 :: t) = some (m.tail ++ after post t) := by
  induction pre with
  | nil => rw [List.nil_append, membersText_cons, afterFirst_member hkey m (ends_after _ _), if_pos hname]
  | cons m' pre ih =>
    rw [List.forall_mem_cons] at hpre
    rw [List.cons_append, membersText_cons, afterFirst_member hkey m' (ends_after _ _), if_neg hpre.1.1,
      if_neg (by simp [hpre.1.2]), afterFirst_after (by simp), ih hpre.2]

theorem afterFirst_members_of_hits (hkey : Word key)
    (hpre : ∀ m' ∈ pre, m'.name ≠ key) (hhits : ∃ m' ∈ pre, hits key m'.value = true) (post : List Member) (t : Bytes) :
    ∃ (g : Gap) (rest : Bytes),
      afterFirst (quoted key) (membersText (pre ++ m :: post) ++ 125 :: t) = some (g.bytes ++ 44 :: rest) := by
  induction pre with
  | nil => simp at hhits
  | cons m' pre ih =>
    rw [List.forall_mem_cons] at hpre
    have hne : pre ++ m :: post ≠ [] := by simp
    rw [List.cons_append, membersText_cons, afterFirst_member hkey m' (ends_after _ _), if_neg hpre.1]
    by_cases hhit : hits key m'.value = true
    · rw [if_pos hhit, after, if_neg hne]
      exact ⟨m'.behind, _, rfl⟩
    · rw [if_neg hhit, afterFirst_after hne]
      obtain ⟨m'', hmem, hhit'⟩ := hhits
      obtain rfl | hmem := List.mem_cons.mp hmem
      · exact absurd hhit' hhit
      · exact ih hpre.2 ⟨m'', hmem, hhit'⟩

theorem afterFirst_object (o : Object) :
    afterFirst (quoted key) o.text = afterFirst (quoted key) (membersText o.members ++ 125 :: o.trail.bytes) := by
  rw [Object.text, afterFirst_of_notMem o.lead.notMem_quote, afterFirst_of_ne (by decide)]

theorem zero_notMem_item (i : Item) : 0 ∉ i.text := by
  cases i with
  | plain b ge quote back =>
    have hb : (0 : UInt8) ≠ b := by
      rintro rfl
      exact absurd ge (by decide)
    simpa [Item.text] using hb
  | short e c means =>
    have he : (0 : UInt8) ≠ e := by
      rintro rfl
      cases means
    simpa [Item.text] using he
  | unit x alone =>
    have hx := x.notMem (by decide : hexValue 0 = none)
    simpa [Item.text] using hx
  | pair x y high low =>
    have hx := x.notMem (by decide : hexValue 0 = none)
    have hy := y.notMem (by decide : hexValue 0 = none)
    simpa [Item.text] using ⟨hx, hy⟩

theorem zero_notMem_literal (l : Literal) : 0 ∉ l.text := by
  rw [Literal.text, List.mem_flatMap]
  rintro ⟨i, -, hmem⟩
  exact zero_notMem_item i hmem

theorem Gap.zero_notMem (g : Gap) : 0 ∉ g.bytes := fun hmem => by
  have := g.white 0 hmem
  revert this
  decide

theorem Word.zero_notMem (h : Word key) : 0 ∉ key := fun hmem => by
  have := h.word 0 hmem
  revert this
  decide

theorem zero_notMem_member (m : Member) : 0 ∉ m.text := by
  simp [Member.text, Member.tail, Gap.zero_notMem, m.word.zero_notMem, zero_notMem_literal]

theorem zero_notMem_members (ms : List Member) : 0 ∉ membersText ms := by
  induction ms with
  | nil => exact List.not_mem_nil
  | cons m ms ih =>
    cases ms with
    | nil => exact zero_notMem_member m
    | cons m' ms => simp [membersText, zero_notMem_member, ih]

theorem zero_notMem_object (o : Object) : 0 ∉ o.text := by
  simp [Object.text, Gap.zero_notMem, zero_notMem_members]

end StainedGlass.Lib.Json
