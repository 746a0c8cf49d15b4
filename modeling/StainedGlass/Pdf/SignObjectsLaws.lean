import StainedGlass.Pdf.ArrayTextLaws

namespace StainedGlass.Pdf

open Lib

namespace Document

variable (doc : Document) (objs : Assoc Nat Str)

def DictAt (n : Nat) (d : Dictionary) : Prop :=
  objs.get? n = some d.text ∨ objs.get? n = none ∧ doc.object n = .dict d

def ArrayAt (n : Nat) (a : Arr) : Prop :=
  objs.get? n = some a.text ∨ objs.get? n = none ∧ doc.object n = .array a

def NullAt (n : Nat) : Prop :=
  objs.get? n = some null ∨ objs.get? n = none ∧ doc.object n = .other null

inductive Lists : Option Str → List Str → Prop
  | absent : Lists none []
  | null : Lists (some null) []
  | direct (a : Arr) : Lists (some a.text) a.values
  | indirect (a : Arr) (hv : refTo v = some n) (ha : doc.ArrayAt objs n a) : Lists (some v) a.values
  | missing (hv : refTo v = some n) (hn : doc.NullAt objs n) : Lists (some v) []

def FormIs (form : Dictionary) : Prop :=
  ∃ root, doc.DictAt objs doc.catalog root ∧
    (root.get "AcroForm" = some form.text ∨
      ∃ v n, root.get "AcroForm" = some v ∧ refTo v = some n ∧ doc.DictAt objs n form)

inductive FormAt (form : Dictionary) : Option Nat → Prop
  | direct (h : doc.root.get "AcroForm" = some form.text) : FormAt form none
  | indirect (h : doc.root.get "AcroForm" = some v) (hv : refTo v = some n) (hn : doc.object n = .dict form) :
      FormAt form (some n)

end Document

/-- A document with a form, and a page of it to sign on, as objects of their own. -/
structure Signable where
  doc : Document
  page : Nat
  leaf : Dictionary
  page_dict : doc.object page = .dict leaf
  page_ne_catalog : page ≠ doc.catalog
  form : Dictionary
  form_nodup : (form.pairs.map Prod.fst).Nodup
  place : Option Nat
  form_at : doc.FormAt form place
  place_ne_page : place ≠ some page
  place_ne_catalog : place ≠ some doc.catalog
  fields : List Str
  fields_listed : doc.Lists .empty (form.get "Fields") fields
  annots : List Str
  annots_listed : doc.Lists .empty (leaf.get "Annots") annots

theorem Dictionary.get_eq (d : Dictionary) (h : (d.pairs.map Prod.fst).Nodup) (key : String) :
    d.get key = (d.assoc h).get? (str key) := by
  have hbeq : (List.instBEq : BEq Str) = instBEqOfDecidableEq := lawful_beq_subsingleton _ _
  rw [Dictionary.get, Assoc.get?, hbeq]
  rfl

variable {d : Dictionary}

theorem Dictionary.get_of_pairs {items : Assoc Str Str} (h : d.pairs = items.items)
    (key : String) : d.get key = items.get? (str key) := by
  have hbeq : (List.instBEq : BEq Str) = instBEqOfDecidableEq := lawful_beq_subsingleton _ _
  rw [Dictionary.get, Assoc.get?, hbeq, h]

theorem refTo_of_head {v : Str} (h : ∀ c ∈ v.head?, isDigit c = false) : refTo v = none := by
  have hany : v.head?.any isDigit = false := by
    cases hv : v.head? with
    | none => rfl
    | some c => exact h c hv
  simp [refTo, hany]

theorem Dictionary.refTo_text (d : Dictionary) : refTo d.text = none := by
  apply refTo_of_head
  intro c hc
  have htext : d.text.head? = some 60 := rfl
  rw [htext] at hc
  cases hc
  rfl

theorem Arr.refTo_text (a : Arr) : refTo a.text = none := by
  apply refTo_of_head
  intro c hc
  cases hc
  rfl

theorem refTo_null : refTo null = none := by decide

theorem Value.isPlain_of_refTo (h : Value v) (hv : refTo v = some n) : IsPlain v := by
  cases h with
  | name h => exact isPlain_name h
  | word h hne => exact isPlain_word h
  | ref hnum _ hgap _ hgen _ hlast _ => exact isPlain_ref hnum hgap hgen hlast
  | string h => cases hv
  | hex h => cases hv
  | array => cases hv
  | dict => cases hv

theorem isPlain_null : IsPlain null := by
  rw [IsPlain]
  decide

theorem value_null : Value null := .word (by decide) (by decide)

theorem Extends.refTo (h : Extends v) : refTo v = none := by
  apply refTo_of_head
  intro c hc
  rw [h.1] at hc
  cases hc
  rfl

theorem Extends.ne_null (h : Extends v) : v ≠ null := by
  rintro rfl
  exact absurd h.1 (by decide)

namespace Document.Lists

variable {doc : Document} {objs : Assoc Nat Str} {v : Str} {xs : List Str}

theorem eq_nil (h : doc.Lists objs none xs) : xs = [] := by
  cases h
  rfl

theorem extend (h : doc.Lists objs (some v) xs) (hv : Extends v) (u : Letters) (w : Nat) :
    ∃ a : Arr, withItem u v w = a.text ∧ a.values = xs ++ [ref w] := by
  cases h with
  | null => exact absurd rfl hv.ne_null
  | direct a => exact withItem_text u a w hv
  | indirect a href ha => cases hv.refTo.symm.trans href
  | missing href hn => cases hv.refTo.symm.trans href

theorem broken (h : doc.Lists objs (some v) xs) (hvalue : Value v) (hv : ¬ Extends v) (u : Letters) (w : Nat) :
    ∃ opened closed, opened ≠ closed ∧ Shifts (withItem u v w) opened closed := by
  cases h with
  | null => exact ⟨0, 1, by decide, shifts_withItem_plain u value_null isPlain_null w⟩
  | direct a =>
    obtain ⟨n, hn⟩ := shifts_withItem_nested u a w hv
    exact ⟨n + 1, 0, by simp, hn⟩
  | indirect a href ha => exact ⟨0, 1, by decide, shifts_withItem_plain u hvalue (hvalue.isPlain_of_refTo href) w⟩
  | missing href hn => exact ⟨0, 1, by decide, shifts_withItem_plain u hvalue (hvalue.isPlain_of_refTo href) w⟩

end Document.Lists

theorem Document.inRange (doc : Document) (h : doc.object n ≠ .other null) : 0 < n ∧ n < doc.size := by
  by_contra hout
  exact h (doc.outside hout)

theorem Document.getKey_dict {doc : Document} (h : doc.object n = .dict d)
    (key : String) : doc.getKey n key = .ok (classify (d.get key)) := by
  rw [getKey, if_pos (doc.inRange (by simp [h])), valueOf, h]

theorem classify_ref (h : refTo v = some n) : classify (some v) = (.xref, ref n) := by
  rw [classify, h]

theorem classify_direct (h : refTo v = none) : classify (some v) = (kind v, v) := by
  rw [classify, h]

theorem Document.xrefObject_eq {doc : Document} {o : Obj} (h : doc.object n = o)
    (hne : o ≠ .other null) : doc.xrefObject n = .ok o.text := by
  rw [xrefObject, if_pos (doc.inRange (h.trans_ne hne)), h]

theorem refNumber_ref (u : Letters) (n : Nat) : refNumber u (ref n) = .ok n := by
  have hword : u.toUnicode.word (ref n) = dec n := by
    apply Unicode.word_append (dec_ne_nil n)
    · intro c hc
      have := digit_of_mem_dec hc
      exact u.space_visible (by omega)
    · intro c hc
      cases hc
      exact u.space_of_isWhite (by decide)
  rw [refNumber, hword, digitsValue_dec fun c hlo hhi => u.digit_dec ⟨hlo, hhi⟩]

theorem withKey_eq (u : Letters) {doc : Document} (h : doc.object n = .dict d)
    (key : String) (value : Str) : withKey u doc n key value = u.setInDict d.text (str key) value := by
  rw [withKey, withKeys, doc.xrefObject_eq h (by simp)]
  have hstream : doc.isStream n = false := by rw [Document.isStream, h]
  have hobj : u.strip (Obj.text (.dict d)) = d.text := d.strip_text u
  simp only [bind, Except.bind, hstream, hobj, d.startsWith_text, List.foldlM_cons, List.foldlM_nil]
  cases u.setInDict d.text (str key) value <;> rfl

namespace Signable

variable (s : Signable) (u : Letters) (w : Nat)

/-- The old fields and the new one in the form, and so the page's annotations. -/
def FormGood (objs : Assoc Nat Str) : Prop :=
  ∃ form, s.doc.FormIs objs form ∧ s.doc.Lists objs (form.get "Fields") (s.fields ++ [ref w])

def PageGood (objs : Assoc Nat Str) : Prop :=
  ∃ leaf, s.doc.DictAt objs s.page leaf ∧ s.doc.Lists objs (leaf.get "Annots") (s.annots ++ [ref w])

def formNumber : Nat := s.place.getD s.doc.catalog

def newForm : Assoc Str Str := formItems u (s.form.assoc s.form_nodup) w

def newRoot : Assoc Str Str :=
  (s.doc.root.assoc (s.doc.nodup s.doc.catalog_dict)).set (str "AcroForm") (printDict (s.newForm u w).items)

def formText : Str := printDict (s.place.elim (s.newRoot u w) fun _ => s.newForm u w).items

def FormCut : Prop := s.form.Cut ∧ (s.place = none → s.doc.root.Cut)

def FieldsExtend : Prop := ∀ v ∈ s.form.get "Fields", Extends v

theorem kind_text (d : Dictionary) : kind d.text = .dict := by
  have hhead : d.text.head? = some 60 := rfl
  rw [kind, d.refTo_text, if_neg (by simp), hhead, if_neg (by decide), if_pos d.startsWith_text]

theorem formUpdate_direct (hget : s.doc.root.get "AcroForm" = some s.form.text) :
    formUpdate u s.doc (some w) = (do
      .ok (s.doc.catalog, ← u.setInDict s.doc.root.text (str "AcroForm") (← formDict u s.form.text (some w)))) := by
  rw [formUpdate, s.doc.getKey_dict s.doc.catalog_dict, hget]
  rw [classify_direct s.form.refTo_text, kind_text]
  simp only [withKey_eq u s.doc.catalog_dict]
  rfl

variable {n : Nat}

theorem formUpdate_indirect (hget : s.doc.root.get "AcroForm" = some v)
    (href : refTo v = some n) (hn : s.doc.object n = .dict s.form) :
    formUpdate u s.doc (some w) = (do .ok (n, ← formDict u s.form.text (some w))) := by
  rw [formUpdate, s.doc.getKey_dict s.doc.catalog_dict, hget]
  rw [classify_ref href]
  simp only [bind, Except.bind, refNumber_ref, s.doc.xrefObject_eq hn (by simp), Obj.text]

theorem formUpdate_of_cut (h : s.FormCut) :
    formUpdate u s.doc (some w) = .ok (s.formNumber, s.formText u w) := by
  have hform := formDict_of_cut u h.1 s.form_nodup w
  have hat := s.form_at
  rw [formNumber, formText]
  cases hplace : s.place with
  | none =>
    rw [hplace] at hat
    cases hat with
    | direct hget =>
      rw [s.formUpdate_direct u w hget, hform]
      simp only [bind, Except.bind]
      rw [u.setInDict_of_cut (h.2 hplace) (s.doc.nodup s.doc.catalog_dict)]
      rfl
  | some n =>
    rw [hplace] at hat
    cases hat with
    | indirect hget href hn =>
      rw [s.formUpdate_indirect u w hget href hn, hform]
      rfl

theorem formUpdate_of_not_cut (h : ¬ s.FormCut) : ∃ e, formUpdate u s.doc (some w) = .error e := by
  have hat := s.form_at
  by_cases hform : s.form.Cut
  · cases hplace : s.place with
    | none =>
      have hroot : ¬ s.doc.root.Cut := fun hroot => h ⟨hform, fun _ => hroot⟩
      rw [hplace] at hat
      cases hat with
      | direct hget =>
        rw [s.formUpdate_direct u w hget, formDict_of_cut u hform s.form_nodup]
        simp only [bind, Except.bind, u.setInDict_of_not_cut hroot]
        exact ⟨_, rfl⟩
    | some n => exact absurd ⟨hform, fun hnone => absurd (hplace.symm.trans hnone) (by simp)⟩ h
  · cases hplace : s.place with
    | none =>
      rw [hplace] at hat
      cases hat with
      | direct hget =>
        rw [s.formUpdate_direct u w hget, formDict_of_not_cut u hform]
        exact ⟨_, rfl⟩
    | some n =>
      rw [hplace] at hat
      cases hat with
      | indirect hget href hn =>
        rw [s.formUpdate_indirect u w hget href hn, formDict_of_not_cut u hform]
        exact ⟨_, rfl⟩

def oldFields : Str := (s.form.get "Fields").getD (str "[]")

theorem fields_extend (h : s.FieldsExtend) :
    ∃ a : Arr, withItem u s.oldFields w = a.text ∧ a.values = s.fields ++ [ref w] := by
  have hlisted := s.fields_listed
  rw [FieldsExtend] at h
  rw [oldFields]
  cases hget : s.form.get "Fields" with
  | some v =>
    rw [hget] at h hlisted
    exact hlisted.extend (h v rfl) u w
  | none =>
    rw [hget] at hlisted
    let a : Arr := ⟨[], [], List.forall_mem_nil _, List.forall_mem_nil _, .nil, List.forall_mem_nil _⟩
    have hempty : ¬ [93, 93] <:+ [91, 93] := by decide
    obtain ⟨a', htext, hvalues⟩ := withItem_text u a w ⟨rfl, hempty⟩
    refine ⟨a', htext, ?_⟩
    rw [hvalues, hlisted.eq_nil]
    rfl

theorem value_of_get {d : Dictionary} (h : d.get key = some v) : Value v := by
  have hmem : ∃ p ∈ d.pairs, p.2 = v := by
    rw [Dictionary.get, List.lookup_eq_some_iff] at h
    obtain ⟨l, l', hl, -⟩ := h
    exact ⟨(str key, v), by rw [hl]; simp, rfl⟩
  obtain ⟨p, hp, rfl⟩ := hmem
  exact (d.regular p hp).2

theorem fields_broken (h : ¬ s.FieldsExtend) :
    ∃ opened closed, opened ≠ closed ∧ Shifts (withItem u s.oldFields w) opened closed := by
  have hlisted := s.fields_listed
  simp only [FieldsExtend, not_forall] at h
  obtain ⟨v, hget, hv⟩ := h
  have hget' : s.form.get "Fields" = some v := hget
  rw [oldFields, hget', Option.getD_some]
  rw [hget'] at hlisted
  exact hlisted.broken (value_of_get hget') hv u w

theorem regular_fields : ∀ c ∈ str "Fields", isRegular c = true := by decide

theorem regular_acroForm : ∀ c ∈ str "AcroForm", isRegular c = true := by decide

theorem newForm_eq : s.newForm u w =
    ((s.form.assoc s.form_nodup).set (str "Fields") (withItem u s.oldFields w)).set (str "SigFlags") (str "3") := by
  rw [newForm, formItems, oldFields, s.form.get_eq s.form_nodup]

theorem newForm_fields : (s.newForm u w).get? (str "Fields") = some (withItem u s.oldFields w) := by
  rw [newForm_eq, Assoc.get?_set_ne _ _ (by decide), Assoc.get?_set]

theorem value_three : Value (str "3") := .word (by decide) (by decide)

theorem newForm_regular (h : s.FieldsExtend) : Regular (s.newForm u w).items := by
  obtain ⟨a, htext, -⟩ := s.fields_extend u w h
  rw [newForm_eq]
  apply Regular.set _ (by decide) value_three
  apply Regular.set s.form.regular regular_fields
  rw [htext]
  exact a.value_text

theorem newForm_broken (h : ¬ s.FieldsExtend) :
    ∃ opened closed, opened ≠ closed ∧ Shifts (printDict (s.newForm u w).items) opened closed := by
  obtain ⟨opened, closed, hne, hshifts⟩ := s.fields_broken u w h
  refine ⟨opened, closed, hne, shifts_printDict (s.newForm_fields u w) ?_ hshifts⟩
  intro p hp
  rw [newForm_eq] at hp
  obtain hp | rfl := mem_items_set hp
  · obtain hp | rfl := mem_items_set hp
    · have := s.form.regular p hp
      exact ⟨this.1, fun _ => this.2⟩
    · exact ⟨regular_fields, fun hkey => absurd rfl hkey⟩
  · exact ⟨by decide, fun _ => value_three⟩

structure Written (objs : Assoc Nat Str) : Prop where
  form : objs.get? s.formNumber = some (s.formText u w)
  catalog : s.place ≠ none → objs.get? s.doc.catalog = none

theorem formGood_of_extend (hobjs : s.Written u w objs) (h : s.FieldsExtend) : s.FormGood w objs := by
  obtain ⟨form, hform, hpairs⟩ := (s.newForm_regular u w h).exists_dictionary
  obtain ⟨a, htext, hvalues⟩ := s.fields_extend u w h
  have hlists : s.doc.Lists objs (form.get "Fields") (s.fields ++ [ref w]) := by
    rw [form.get_of_pairs hpairs, s.newForm_fields, htext, ← hvalues]
    exact .direct a
  refine ⟨form, ?_, hlists⟩
  have hwritten := hobjs.form
  have hat := s.form_at
  rw [formNumber, formText] at hwritten
  cases hplace : s.place with
  | none =>
    rw [hplace] at hwritten
    have hroot : Regular (s.newRoot u w).items := by
      apply Regular.set s.doc.root.regular regular_acroForm
      rw [hform]
      exact form.value_text
    obtain ⟨root, hroot, hrootPairs⟩ := hroot.exists_dictionary
    refine ⟨root, .inl (hwritten.trans (congrArg some hroot)), .inl ?_⟩
    rw [root.get_of_pairs hrootPairs, newRoot, Assoc.get?_set, hform]
  | some n =>
    rw [hplace] at hwritten hat
    cases hat with
    | indirect hget href hn =>
      refine ⟨s.doc.root, .inr ⟨hobjs.catalog (by simp [hplace]), s.doc.catalog_dict⟩,
        .inr ⟨_, n, hget, href, .inl ?_⟩⟩
      exact hwritten.trans (congrArg some hform)

theorem extend_of_formGood (hobjs : s.Written u w objs) (h : s.FormGood w objs) : s.FieldsExtend := by
  by_contra hbroken
  obtain ⟨form, ⟨root, hroot, hform⟩, -⟩ := h
  obtain ⟨opened, closed, hne, hshifts⟩ := s.newForm_broken u w hbroken
  have hwritten := hobjs.form
  have hat := s.form_at
  rw [formNumber, formText] at hwritten
  cases hplace : s.place with
  | none =>
    rw [hplace] at hwritten
    have hrootShifts : Shifts (printDict (s.newRoot u w).items) opened closed := by
      apply shifts_printDict (k := str "AcroForm") (Assoc.get?_set _ _ _) _ hshifts
      intro p hp
      obtain hp | rfl := mem_items_set hp
      · have := s.doc.root.regular p hp
        exact ⟨this.1, fun _ => this.2⟩
      · exact ⟨regular_acroForm, fun hkey => absurd rfl hkey⟩
    obtain hroot | ⟨hnone, -⟩ := hroot
    · exact ne_text_of_shifts hrootShifts hne root (Option.some.inj (hwritten.symm.trans hroot))
    · cases hwritten.symm.trans hnone
  | some n =>
    rw [hplace] at hwritten hat
    have hcatalog := hobjs.catalog (by simp [hplace])
    cases hat with
    | @indirect v _ hget href hn =>
      obtain hroot | ⟨-, hroot⟩ := hroot
      · cases hcatalog.symm.trans hroot
      · cases s.doc.catalog_dict.symm.trans hroot
        obtain hdirect | ⟨v', n', hget', href', hform⟩ := hform
        · cases hget.symm.trans hdirect
          cases form.refTo_text.symm.trans href
        · cases hget.symm.trans hget'
          cases href.symm.trans href'
          obtain hform | ⟨hnone, -⟩ := hform
          · exact ne_text_of_shifts hshifts hne form (Option.some.inj (hwritten.symm.trans hform))
          · cases hwritten.symm.trans hnone

theorem leaf_nodup : (s.leaf.pairs.map Prod.fst).Nodup := s.doc.nodup s.page_dict

def newLeaf (annots : Str) : Assoc Str Str := (s.leaf.assoc s.leaf_nodup).set (str "Annots") annots

theorem regular_annots : ∀ c ∈ str "Annots", isRegular c = true := by decide

variable {annots : Str}

theorem pageGood_of_array {objs : Assoc Nat Str}
    (hobjs : objs.get? s.page = some (printDict (s.newLeaf annots).items)) {a : Arr} (htext : annots = a.text)
    (hvalues : a.values = s.annots ++ [ref w]) : s.PageGood w objs := by
  have hregular : Regular (s.newLeaf annots).items := by
    apply Regular.set s.leaf.regular regular_annots
    rw [htext]
    exact a.value_text
  obtain ⟨leaf, hleaf, hpairs⟩ := hregular.exists_dictionary
  refine ⟨leaf, .inl (hobjs.trans (congrArg some hleaf)), ?_⟩
  rw [leaf.get_of_pairs hpairs, newLeaf, Assoc.get?_set, htext, ← hvalues]
  exact .direct a

theorem not_pageGood_of_shifts {objs : Assoc Nat Str}
    (hobjs : objs.get? s.page = some (printDict (s.newLeaf annots).items)) (hne : opened ≠ closed)
    (hshifts : Shifts annots opened closed) : ¬ s.PageGood w objs := by
  rintro ⟨leaf, hleaf, -⟩
  have hbroken : Shifts (printDict (s.newLeaf annots).items) opened closed := by
    apply shifts_printDict (k := str "Annots") (Assoc.get?_set _ _ _) _ hshifts
    intro p hp
    obtain hp | rfl := mem_items_set hp
    · have := s.leaf.regular p hp
      exact ⟨this.1, fun _ => this.2⟩
    · exact ⟨regular_annots, fun hkey => absurd rfl hkey⟩
  obtain hleaf | ⟨hnone, -⟩ := hleaf
  · exact ne_text_of_shifts hbroken hne leaf (Option.some.inj (hobjs.symm.trans hleaf))
  · cases hobjs.symm.trans hnone

/-- An array can be written where the page has none, or the one there takes another item. -/
def AnnotsHold : Prop :=
  match (s.leaf.get "Annots").bind refTo with
  | some n => Extends (s.doc.object n).text
  | none => s.leaf.Cut ∧ ∀ v ∈ s.leaf.get "Annots", v = null ∨ Extends v

theorem annotsHold_ref (hget : s.leaf.get "Annots" = some v) (href : refTo v = some n) :
    s.AnnotsHold ↔ Extends (s.doc.object n).text := by
  rw [AnnotsHold, hget, Option.bind_some, href]

theorem annotsHold_page (h : (s.leaf.get "Annots").bind refTo = none) :
    s.AnnotsHold ↔ s.leaf.Cut ∧ ∀ v ∈ s.leaf.get "Annots", v = null ∨ Extends v := by
  rw [AnnotsHold, h]

def AnnotsSpec (result : Except Error (Nat × Str)) : Prop :=
  match result with
  | .error _ => ¬ s.AnnotsHold
  | .ok (n, t) => n < s.doc.size ∧ (n = s.page ∨ ∀ d, s.doc.object n ≠ .dict d) ∧
      ∀ objs : Assoc Nat Str, objs.get? n = some t → (n ≠ s.page → objs.get? s.page = none) →
        (s.PageGood w objs ↔ s.AnnotsHold)

theorem page_lt : s.page < s.doc.size := (s.doc.inRange (by simp [s.page_dict])).2

theorem annotsSpec_page (h : (s.leaf.get "Annots").bind refTo = none)
    (hgood : (∀ v ∈ s.leaf.get "Annots", v = null ∨ Extends v) →
      ∃ a : Arr, annots = a.text ∧ a.values = s.annots ++ [ref w])
    (hbad : ¬ (∀ v ∈ s.leaf.get "Annots", v = null ∨ Extends v) →
      ∃ opened closed, opened ≠ closed ∧ Shifts annots opened closed) :
    s.AnnotsSpec w (do .ok (s.page, ← u.setInDict s.leaf.text (str "Annots") annots)) := by
  by_cases hcut : s.leaf.Cut
  · rw [u.setInDict_of_cut hcut s.leaf_nodup]
    refine ⟨s.page_lt, .inl rfl, fun objs hobjs _ => ?_⟩
    rw [s.annotsHold_page h]
    by_cases hold : ∀ v ∈ s.leaf.get "Annots", v = null ∨ Extends v
    · obtain ⟨a, htext, hvalues⟩ := hgood hold
      exact iff_of_true (s.pageGood_of_array w hobjs htext hvalues) ⟨hcut, hold⟩
    · obtain ⟨opened, closed, hne, hshifts⟩ := hbad hold
      exact iff_of_false (s.not_pageGood_of_shifts w hobjs hne hshifts) fun h => hold h.2
  · rw [u.setInDict_of_not_cut hcut]
    change ¬ s.AnnotsHold
    rw [s.annotsHold_page h]
    exact fun h => hcut h.1

theorem oneItem (w : Nat) : ∃ a : Arr, str "[" ++ ref w ++ str "]" = a.text ∧ a.values = [ref w] := by
  refine ⟨⟨[⟨[], ref w⟩], [], List.forall_mem_nil _, ?_, .singleton _, ?_⟩, ?_, rfl⟩
  · rw [List.forall_mem_singleton]
    exact List.forall_mem_nil _
  · rw [List.forall_mem_singleton]
    exact ref_value w
  · simp [Arr.text, Arr.inner, Item.text, str]

theorem annotsUpdate_page {t : Kind × Str} (h : classify (s.leaf.get "Annots") = t) (harray : t.1 ≠ .array)
    (href : t.1 ≠ .xref) :
    annotsUpdate u s.doc s.page w =
      (do .ok (s.page, ← u.setInDict s.leaf.text (str "Annots") (str "[" ++ ref w ++ str "]"))) := by
  rw [annotsUpdate, s.doc.getKey_dict s.page_dict, h]
  obtain ⟨k, v⟩ := t
  simp only [bind, Except.bind, withKey_eq u s.page_dict]
  cases k with
  | array => exact absurd rfl harray
  | xref => exact absurd rfl href
  | null => rfl
  | dict => rfl
  | other => rfl

theorem kind_arr (a : Arr) : kind a.text = .array := by
  have hhead : a.text.head? = some 91 := rfl
  rw [kind, a.refTo_text, if_neg (by simp), if_pos hhead]

theorem annotsUpdate_array {a : Arr} (h : s.leaf.get "Annots" = some a.text) :
    annotsUpdate u s.doc s.page w =
      (do .ok (s.page, ← u.setInDict s.leaf.text (str "Annots") (withItem u a.text w))) := by
  rw [annotsUpdate, s.doc.getKey_dict s.page_dict, h, classify_direct a.refTo_text, kind_arr]
  simp only [bind, Except.bind, withKey_eq u s.page_dict]

theorem annotsUpdate_ref (h : s.leaf.get "Annots" = some v) (href : refTo v = some n) :
    annotsUpdate u s.doc s.page w = (do .ok (n, withItem u (← s.doc.xrefObject n) w)) := by
  rw [annotsUpdate, s.doc.getKey_dict s.page_dict, h, classify_ref href]
  simp only [bind, Except.bind, refNumber_ref]

theorem not_pageGood_of_ref (hget : s.leaf.get "Annots" = some v) (href : refTo v = some n)
    {objs : Assoc Nat Str} (hobjs : objs.get? n = some t) (hpage : objs.get? s.page = none)
    (hne : opened ≠ closed) (hshifts : Shifts t opened closed) : ¬ s.PageGood w objs := by
  rintro ⟨leaf, hleaf, hlists⟩
  obtain hleaf | ⟨-, hleaf⟩ := hleaf
  · cases hpage.symm.trans hleaf
  · cases s.page_dict.symm.trans hleaf
    rw [hget] at hlists
    generalize s.annots ++ [ref w] = xs at hlists
    cases hlists with
    | null => cases refTo_null.symm.trans href
    | direct a => cases a.refTo_text.symm.trans href
    | indirect a href' ha =>
      cases href.symm.trans href'
      obtain ha | ⟨hnone, -⟩ := ha
      · cases hobjs.symm.trans ha
        exact hne (a.value_text.shifts.eq_of_shifts hshifts)
      · cases hobjs.symm.trans hnone
    | missing href' hn =>
      cases href.symm.trans href'
      obtain hn | ⟨hnone, -⟩ := hn
      · cases hobjs.symm.trans hn
        exact hne (value_null.shifts.eq_of_shifts hshifts)
      · cases hobjs.symm.trans hnone

theorem ne_page (h : ∀ d, s.doc.object n ≠ .dict d) : n ≠ s.page := by
  rintro rfl
  exact h _ s.page_dict

theorem annotsSpec_array {a : Arr} (hget : s.leaf.get "Annots" = some v)
    (href : refTo v = some n) (hn : s.doc.object n = .array a) (hannots : s.annots = a.values) :
    s.AnnotsSpec w (do .ok (n, withItem u (← s.doc.xrefObject n) w)) := by
  have hdict : ∀ d, s.doc.object n ≠ .dict d := by simp [hn]
  rw [s.doc.xrefObject_eq hn (by simp)]
  refine ⟨(s.doc.inRange (by simp [hn])).2, .inr hdict, fun objs hobjs hpage => ?_⟩
  have hobjs : objs.get? n = some (withItem u a.text w) := hobjs
  rw [s.annotsHold_ref hget href, hn]
  change _ ↔ Extends a.text
  constructor
  · intro hgood
    by_contra hbroken
    obtain ⟨m, hm⟩ := shifts_withItem_nested u a w hbroken
    exact s.not_pageGood_of_ref w hget href hobjs (hpage (s.ne_page hdict)) (by simp) hm hgood
  · intro hext
    obtain ⟨a', htext, hvalues⟩ := withItem_text u a w hext
    refine ⟨s.leaf, .inr ⟨hpage (s.ne_page hdict), s.page_dict⟩, ?_⟩
    rw [hget, hannots, ← hvalues]
    exact .indirect a' href (.inl (hobjs.trans (congrArg some htext)))

theorem annotsSpec_missing (hget : s.leaf.get "Annots" = some v)
    (href : refTo v = some n) (hn : s.doc.object n = .other null) :
    s.AnnotsSpec w (do .ok (n, withItem u (← s.doc.xrefObject n) w)) := by
  have hdict : ∀ d, s.doc.object n ≠ .dict d := by simp [hn]
  have hhold : ¬ s.AnnotsHold := by
    rw [s.annotsHold_ref hget href, hn]
    exact fun h => h.ne_null rfl
  rw [Document.xrefObject]
  split
  · next hrange =>
    refine ⟨hrange.2, .inr hdict, fun objs hobjs hpage => iff_of_false ?_ hhold⟩
    rw [hn] at hobjs
    exact s.not_pageGood_of_ref w hget href hobjs (hpage (s.ne_page hdict)) (by decide)
      (shifts_withItem_plain u value_null isPlain_null w)
  · exact hhold

theorem annotsUpdate_spec : s.AnnotsSpec w (annotsUpdate u s.doc s.page w) := by
  have hlisted := s.annots_listed
  generalize hannots : s.annots = xs at hlisted
  cases hget : s.leaf.get "Annots" with
  | none =>
    rw [hget] at hlisted
    rw [s.annotsUpdate_page u w (t := (.null, null)) (by rw [hget]; rfl) (by decide) (by decide)]
    apply s.annotsSpec_page u w (by rw [hget]; rfl)
    · intro _
      obtain ⟨a, htext, hvalues⟩ := oneItem w
      exact ⟨a, htext, by rw [hvalues, hannots, hlisted.eq_nil, List.nil_append]⟩
    · simp [hget]
  | some v =>
    rw [hget] at hlisted
    cases hlisted with
    | null =>
      have hkind : classify (some null) = (.null, null) := by decide
      rw [s.annotsUpdate_page u w (by rw [hget, hkind]) (by decide) (by decide)]
      apply s.annotsSpec_page u w (by rw [hget]; exact refTo_null)
      · intro _
        obtain ⟨a, htext, hvalues⟩ := oneItem w
        exact ⟨a, htext, by rw [hvalues, hannots, List.nil_append]⟩
      · simp [hget]
    | direct a =>
      rw [s.annotsUpdate_array u w hget]
      apply s.annotsSpec_page u w (by rw [hget]; exact a.refTo_text)
      · intro hold
        rw [hannots]
        apply withItem_text
        refine (hold a.text hget).resolve_left ?_
        intro hnull
        cases congrArg List.head? hnull
      · intro hbroken
        obtain ⟨n, hn⟩ := shifts_withItem_nested u a w fun hext => hbroken fun v hv => by
          cases hget.symm.trans hv
          exact .inr hext
        exact ⟨n + 1, 0, by simp, hn⟩
    | indirect a href ha =>
      rw [s.annotsUpdate_ref u w hget href]
      obtain ha | ⟨-, ha⟩ := ha
      · cases ha
      · exact s.annotsSpec_array u w hget href ha hannots
    | missing href hn =>
      rw [s.annotsUpdate_ref u w hget href]
      obtain hn | ⟨-, hn⟩ := hn
      · cases hn
      · exact s.annotsSpec_missing u w hget href hn

theorem pdfStr_ok {t : Str} (h : t.any isSurrogate = false) : ∃ x, pdfStr t = .ok x := by
  rw [pdfStr]
  split
  · exact ⟨_, rfl⟩
  · rw [if_neg (by simp [h])]
    exact ⟨_, rfl⟩

theorem optionalKey_ok (key : String) {t : Str} (h : t.any isSurrogate = false) :
    ∃ x, optionalKey key t = .ok x := by
  rw [optionalKey]
  split
  · exact ⟨_, rfl⟩
  · obtain ⟨x, hx⟩ := pdfStr_ok h
    rw [hx]
    exact ⟨_, rfl⟩

theorem sigTail_ok (r : Request) : ∃ x, sigTail r = .ok x := by
  obtain ⟨date, hdate⟩ := pdfStr_ok (r.scalar r.date (by simp))
  obtain ⟨signer, hsigner⟩ := pdfStr_ok (r.scalar r.signer (by simp))
  obtain ⟨reason, hreason⟩ := optionalKey_ok "/Reason" (r.scalar r.reason (by simp))
  obtain ⟨location, hlocation⟩ := optionalKey_ok "/Location" (r.scalar r.location (by simp))
  obtain ⟨contact, hcontact⟩ := optionalKey_ok "/ContactInfo" (r.scalar r.contact (by simp))
  rw [sigTail, hdate, hsigner, hreason, hlocation, hcontact]
  exact ⟨_, rfl⟩

theorem ownObjects_ok (r : Request) (size page : Nat) :
    ∃ objs, ownObjects r (Field.numbers size (.new page)) = .ok objs ∧ ∀ n < size, objs.get? n = none := by
  obtain ⟨tail, htail⟩ := sigTail_ok r
  rw [ownObjects, sigDict, htail]
  refine ⟨_, rfl, fun n hn => ?_⟩
  have hap : n ≠ size + 2 := by omega
  have hfont : n ≠ size + 3 := by omega
  have hpic : n ≠ size + 4 := by omega
  have hsig : n ≠ size + 1 := by omega
  cases r.picture with
  | none => simp only [Field.numbers, Option.elim, Assoc.get?_set_ne _ _ hap, Assoc.get?_set_ne _ _ hfont, Assoc.get?_set_ne _ _ hsig]; rfl
  | some picture => simp only [Field.numbers, Option.elim, Assoc.get?_set_ne _ _ hap, Assoc.get?_set_ne _ _ hfont, Assoc.get?_set_ne _ _ hsig, Assoc.get?_set_ne _ _ hpic]; rfl

theorem widgetObject_ok (r : Request) (page : Nat) (no : Numbers) : ∃ x, widgetObject r page no = .ok x := by
  obtain ⟨name, hname⟩ := pdfStr_ok (r.scalar r.name (by simp))
  rw [widgetObject, hname]
  exact ⟨_, rfl⟩

theorem signObjects_eq (r : Request) :
    ∃ objs : Assoc Nat Str, (∀ n < s.doc.size, objs.get? n = none) ∧
      signObjects u s.doc r (.new s.page) = (do
        let annots ← annotsUpdate u s.doc s.page s.doc.size
        let form ← formUpdate u s.doc (some s.doc.size)
        .ok ((objs.set annots.1 annots.2).set form.1 form.2)) := by
  obtain ⟨own, hown, hnone⟩ := ownObjects_ok r s.doc.size s.page
  obtain ⟨widget, hwidget⟩ := widgetObject_ok r s.page (Field.numbers s.doc.size (.new s.page))
  refine ⟨own.set s.doc.size widget, fun n hn => ?_, ?_⟩
  · rw [Assoc.get?_set_ne _ _ (Nat.ne_of_lt hn), hnone n hn]
  · have hw : (Field.numbers s.doc.size (.new s.page)).widget = s.doc.size := rfl
    simp only [signObjects, checkField, hown, fieldObjects, hwidget, hw, bind, Except.bind]
    cases annotsUpdate u s.doc s.page s.doc.size <;> rfl

theorem formNumber_dict : ∃ d, s.doc.object s.formNumber = .dict d := by
  have hat := s.form_at
  rw [formNumber]
  cases hplace : s.place with
  | none => exact ⟨_, s.doc.catalog_dict⟩
  | some n =>
    rw [hplace] at hat
    cases hat with
    | indirect _ _ hn => exact ⟨_, hn⟩

theorem formNumber_ne_page : s.formNumber ≠ s.page := by
  have hpage := s.place_ne_page
  rw [formNumber]
  cases hplace : s.place with
  | none => exact s.page_ne_catalog.symm
  | some n =>
    rw [hplace] at hpage
    exact fun h => hpage (congrArg some h)

theorem written_objects {base : Assoc Nat Str} (hbase : ∀ n < s.doc.size, base.get? n = none)
    (hn : n = s.page ∨ ∀ d, s.doc.object n ≠ .dict d) (t : Str) :
    s.Written u w ((base.set n t).set s.formNumber (s.formText u w)) := by
  refine ⟨Assoc.get?_set _ _ _, fun hplace => ?_⟩
  have hcatalog : s.doc.catalog ≠ s.formNumber := by
    rw [formNumber]
    cases hp : s.place with
    | none => exact absurd hp hplace
    | some m => exact fun h => s.place_ne_catalog (hp.trans (congrArg some h.symm))
  have hne : s.doc.catalog ≠ n := by
    obtain rfl | hn := hn
    · exact s.page_ne_catalog.symm
    · rintro rfl
      exact hn _ s.doc.catalog_dict
  rw [Assoc.get?_set_ne _ _ hcatalog, Assoc.get?_set_ne _ _ hne]
  exact hbase _ (s.doc.inRange (by simp [s.doc.catalog_dict])).2

/-- `sign_file` keeps the old fields and annotations and adds the new one, just for these documents. -/
theorem appended_iff (u : Letters) (s : Signable) (r : Request) :
    (∃ objs, signObjects u s.doc r (.new s.page) = .ok objs ∧ s.FormGood s.doc.size objs ∧
      s.PageGood s.doc.size objs) ↔ s.FormCut ∧ s.FieldsExtend ∧ s.AnnotsHold := by
  obtain ⟨base, hbase, hsign⟩ := s.signObjects_eq u r
  have hspec := s.annotsUpdate_spec u s.doc.size
  rw [hsign]
  cases hannots : annotsUpdate u s.doc s.page s.doc.size with
  | error e =>
    rw [hannots] at hspec
    constructor
    · rintro ⟨objs, h, -⟩
      cases h
    · exact fun h => absurd h.2.2 hspec
  | ok result =>
    obtain ⟨n, t⟩ := result
    rw [hannots] at hspec
    obtain ⟨hsize, hn, hpage⟩ := hspec
    have hform : s.formNumber ≠ n := by
      obtain rfl | hn := hn
      · exact s.formNumber_ne_page
      · rintro rfl
        obtain ⟨d, hd⟩ := s.formNumber_dict
        exact hn d hd
    by_cases hcut : s.FormCut
    · rw [s.formUpdate_of_cut u _ hcut]
      have hwritten := s.written_objects u s.doc.size hbase hn t
      have hgood := hpage ((base.set n t).set s.formNumber (s.formText u s.doc.size))
        (by rw [Assoc.get?_set_ne _ _ hform.symm, Assoc.get?_set])
        fun hne => by
          rw [Assoc.get?_set_ne _ _ s.formNumber_ne_page.symm, Assoc.get?_set_ne _ _ hne.symm]
          exact hbase _ s.page_lt
      constructor
      · rintro ⟨objs, h, hform, hpage⟩
        cases h
        exact ⟨hcut, s.extend_of_formGood u _ hwritten hform, hgood.mp hpage⟩
      · rintro ⟨-, hfields, hhold⟩
        exact ⟨_, rfl, s.formGood_of_extend u _ hwritten hfields, hgood.mpr hhold⟩
    · obtain ⟨e, he⟩ := s.formUpdate_of_not_cut u s.doc.size hcut
      rw [he]
      constructor
      · rintro ⟨objs, h, -⟩
        cases h
      · exact fun h => absurd h.1 hcut

end Signable

theorem letterRoot_regular : Regular [(str "AcroForm", ref 2)] := by
  rw [Regular, List.forall_mem_singleton]
  exact ⟨by decide, ref_value 2⟩

theorem letterForm_regular : Regular [(str "Fields", ref 4)] := by
  rw [Regular, List.forall_mem_singleton]
  exact ⟨by decide, ref_value 4⟩

theorem letterPage_regular : Regular [(str "Type", str "/Page")] := by
  rw [Regular, List.forall_mem_singleton]
  exact ⟨by decide, .name (n := str "Page") (by decide)⟩

theorem letterName_regular : Regular [(str "FT", str "/Tx")] := by
  rw [Regular, List.forall_mem_singleton]
  exact ⟨by decide, .name (n := str "Tx") (by decide)⟩

theorem fieldList_gap : ∀ x ∈ [Item.mk [] (ref 5)], IsWhite x.gap := by
  rw [List.forall_mem_singleton]
  exact List.forall_mem_nil _

theorem fieldList_value : ∀ x ∈ [Item.mk [] (ref 5)], Value x.value := by
  rw [List.forall_mem_singleton]
  exact ref_value 5

theorem isWhite_nil : IsWhite [] := List.forall_mem_nil _

def fieldList : Arr := ⟨[⟨[], ref 5⟩], [], isWhite_nil, fieldList_gap, .singleton _, fieldList_value⟩

def letterObject : Nat → Obj
  | 1 => .dict letterRoot_regular.dict
  | 2 => .dict letterForm_regular.dict
  | 3 => .dict letterPage_regular.dict
  | 4 => .array fieldList
  | 5 => .dict letterName_regular.dict
  | _ => .other null

theorem letter_outside (h : ¬ (0 < n ∧ n < 6)) : letterObject n = .other null := by
  unfold letterObject
  split
  · exact absurd (by decide) h
  · exact absurd (by decide) h
  · exact absurd (by decide) h
  · exact absurd (by decide) h
  · exact absurd (by decide) h
  · rfl

theorem letter_nodup (h : letterObject n = .dict d) : (d.pairs.map Prod.fst).Nodup := by
  unfold letterObject at h
  split at h
  · cases h
    simp [Regular.pairs_dict]
  · cases h
    simp [Regular.pairs_dict]
  · cases h
    simp [Regular.pairs_dict]
  · cases h
  · cases h
    simp [Regular.pairs_dict]
  · cases h

def letter : Document := ⟨6, letterObject, letter_outside, letter_nodup, 1, letterRoot_regular.dict, rfl⟩

theorem letter_form_at : letter.FormAt letterForm_regular.dict (some 2) :=
  .indirect (v := ref 2) rfl (by decide) rfl

theorem letter_fields : letter.Lists .empty (letterForm_regular.dict.get "Fields") fieldList.values :=
  .indirect (v := ref 4) (n := 4) fieldList (by decide) (.inr ⟨rfl, rfl⟩)

theorem letter_annots : letter.Lists .empty (letterPage_regular.dict.get "Annots") [] := .absent

theorem letterForm_nodup : (letterForm_regular.dict.pairs.map Prod.fst).Nodup := letter_nodup (n := 2) rfl

def letterToSign : Signable where
  doc := letter
  page := 3
  leaf := letterPage_regular.dict
  page_dict := rfl
  page_ne_catalog := by decide
  form := letterForm_regular.dict
  form_nodup := letterForm_nodup
  place := some 2
  form_at := letter_form_at
  place_ne_page := by decide
  place_ne_catalog := by decide
  fields := fieldList.values
  fields_listed := letter_fields
  annots := []
  annots_listed := letter_annots

theorem plainRequest_scalar :
    ∀ t ∈ [str "D:20260101000000Z", str "A", [], [], [], str "Signature"], t.any isSurrogate = false := by
  decide

def plainRequest : Request where
  date := str "D:20260101000000Z"
  signer := str "A"
  reason := []
  location := []
  contact := []
  name := str "Signature"
  rect := str "10.000 10.000 90.000 40.000"
  appearance := []
  picture := none
  scalar := plainRequest_scalar

theorem cut_of_pairs (h : Regular items)
    (hcut : ∀ p ∈ items, startsWith p.2 (str "<<") = true → oddEnd p.2 = false) : h.dict.Cut := by
  intro e he
  have hmem : e.pair ∈ h.dict.pairs := List.mem_map_of_mem he
  rw [h.pairs_dict] at hmem
  exact hcut e.pair hmem

theorem indirectFields_broken :
    ∃ (s : Signable) (r : Request) (objs : Assoc Nat Str), s.form.text = str "<</Fields 4 0 R>>" ∧
      s.doc.object 4 = .array fieldList ∧ s.fields = [ref 5] ∧
      signObjects .ascii s.doc r (.new s.page) = .ok objs ∧
      objs.get? 2 = some (str "<</Fields 4 0 R 6 0 R]/SigFlags 3>>") ∧ ¬ s.FormGood s.doc.size objs := by
  have hleaf : letterToSign.leaf.Cut := cut_of_pairs letterPage_regular (by decide)
  have hform : letterToSign.FormCut :=
    ⟨cut_of_pairs letterForm_regular (by decide), fun h => absurd h (by decide)⟩
  have hannots := letterToSign.annotsUpdate_page .ascii 6 (t := (.null, null)) rfl (by decide) (by decide)
  rw [Letters.ascii.setInDict_of_cut hleaf letterToSign.leaf_nodup] at hannots
  obtain ⟨base, hbase, hsign⟩ := letterToSign.signObjects_eq .ascii plainRequest
  have hsize : letterToSign.doc.size = 6 := rfl
  rw [hsize, hannots, letterToSign.formUpdate_of_cut .ascii 6 hform] at hsign
  have hwritten := letterToSign.written_objects .ascii 6 hbase (n := letterToSign.page) (.inl rfl)
    (printDict (letterToSign.newLeaf (str "[" ++ ref 6 ++ str "]")).items)
  refine ⟨letterToSign, plainRequest, _, letterForm_regular.text_dict, rfl, rfl, hsign, ?_, ?_⟩
  · exact hwritten.form.trans (by decide)
  · intro hgood
    have hextends := letterToSign.extend_of_formGood .ascii 6 hwritten hgood (ref 4) rfl
    exact absurd hextends.1 (by decide)

end StainedGlass.Pdf
