import StainedGlass.Pdf.Objects

namespace StainedGlass.Pdf

open Lib

variable {t : Str}

theorem skipString_balanced (h : Balanced t) (depth : Nat) (rest : Str) :
    skipString (depth + 1) (t ++ rest) = skipString (depth + 1) rest := by
  induction h generalizing depth rest with
  | nil => rfl
  | @char c t hc h ih =>
    rw [List.cons_append, skipString, ih]
    · exact fun heq _ => hc.2.2 heq
    · exact fun _ _ heq _ => hc.2.2 heq
    · exact hc.1
    · exact hc.2.1
  | escape h ih => exact ih depth rest
  | @nest t t' h h' ih ih' =>
    simp only [List.cons_append, List.append_assoc, skipString]
    rw [ih, skipString, if_neg (by simp)]
    exact ih' depth rest

theorem afterString_balanced (h : Balanced t) (rest : Str) : afterString (t ++ 41 :: rest) = rest := by
  rw [afterString, skipString, skipString_balanced h, skipString]
  rfl

variable {c : Nat}

theorem skipArray_cons (hopen : c ≠ 91) (hclose : c ≠ 93) (hstring : c ≠ 40) (depth : Nat)
    (rest : Str) : skipArray depth (c :: rest) = skipArray depth rest := by
  rw [skipArray]
  · exact hopen
  · exact hclose
  · exact hstring

variable {s : Str}

theorem skipArray_plain (h : IsPlain s) (depth : Nat) (rest : Str) :
    skipArray depth (s ++ rest) = skipArray depth rest := by
  induction s with
  | nil => rfl
  | cons c s ih =>
    obtain ⟨hc, hs⟩ := List.forall_mem_cons.mp h
    rw [List.cons_append, skipArray_cons, ih hs]
    · exact ne_of_isPlain hc rfl
    · exact ne_of_isPlain hc rfl
    · exact ne_of_isPlain hc rfl

theorem skip_flatMap {α β : Type} {f : Str → β} {text : α → Str} {xs : List α}
    (h : ∀ x ∈ xs, ∀ rest, f (text x ++ rest) = f rest) (rest : Str) :
    f (xs.flatMap text ++ rest) = f rest := by
  induction xs with
  | nil => rfl
  | cons x xs ih =>
    rw [List.forall_mem_cons] at h
    rw [List.flatMap_cons, List.append_assoc, h.1, ih h.2]

theorem isPlain_name (h : ∀ c ∈ n, isRegular c = true) : IsPlain (47 :: n) :=
  isPlain_cons rfl fun c hc => isPlain_of_isRegular (h c hc)

theorem isPlain_word (h : ∀ c ∈ w, isWord c = true) : IsPlain w :=
  fun c hc => isPlain_of_isRegular (isRegular_of_isWord (h c hc))

theorem isPlain_ref (hnum : ∀ c ∈ num, isDigit c = true) (hgap : IsWhite gap)
    (hgen : ∀ c ∈ gen, isDigit c = true) (hgap' : IsWhite gap') :
    IsPlain (num ++ (gap ++ (gen ++ (gap' ++ [82])))) := by
  apply (isPlain_word fun c hc => isWord_of_isDigit (hnum c hc)).append
  apply hgap.isPlain.append
  apply (isPlain_word fun c hc => isWord_of_isDigit (hgen c hc)).append
  exact hgap'.isPlain.append (isPlain_cons rfl (List.forall_mem_nil _))

theorem skipArray_entry {e : Entry} (he : e.Spaced)
    (hvalue : ∀ rest, skipArray depth (e.value ++ rest) = skipArray depth rest) (rest : Str) :
    skipArray depth (e.text ++ rest) = skipArray depth rest := by
  simp only [Entry.text, List.append_assoc, List.cons_append]
  rw [skipArray_plain he.before.isPlain, ← List.cons_append, skipArray_plain (isPlain_name he.key),
    skipArray_plain he.gap.isPlain, hvalue]

variable {v : Str}

theorem skipArray_value (h : Value v) (depth : Nat) (rest : Str) :
    skipArray (depth + 1) (v ++ rest) = skipArray (depth + 1) rest := by
  induction h generalizing depth rest with
  | name h => exact skipArray_plain (isPlain_name h) _ rest
  | word h hne => exact skipArray_plain (isPlain_word h) _ rest
  | ref hnum _ hgap _ hgen _ hlast _ => exact skipArray_plain (isPlain_ref hnum hgap hgen hlast) _ rest
  | string h =>
    rw [List.cons_append, List.append_assoc, skipArray, List.singleton_append, afterString_balanced h]
  | hex h =>
    rw [List.cons_append, List.append_assoc, skipArray_cons (by decide) (by decide) (by decide),
      skipArray_plain (isPlain_word fun c hc => isWord_of_isHexDigit (h c hc)), List.singleton_append,
      skipArray_cons (by decide) (by decide) (by decide)]
  | array htail hgap _ _ ih =>
    rw [List.cons_append, List.append_assoc, List.append_assoc, skipArray, skip_flatMap (f := skipArray _),
      skipArray_plain htail.isPlain, List.singleton_append, skipArray, if_neg (by simp)]
    · rfl
    · intro x hx rest
      rw [Item.text, List.append_assoc, skipArray_plain (hgap x hx).isPlain, ih x hx]
  | dict htail hspaced _ ih =>
    simp only [List.cons_append, List.append_assoc]
    rw [skipArray_cons (by decide) (by decide) (by decide), skipArray_cons (by decide) (by decide)
      (by decide), skip_flatMap (f := skipArray _), skipArray_plain htail.isPlain, skipArray_cons (by decide) (by decide)
      (by decide), skipArray_cons (by decide) (by decide) (by decide)]
    · rfl
    · exact fun e he rest => skipArray_entry (hspaced e he) (ih e he depth) rest

def closers (s : Str) : Nat := (s.reverse.takeWhile (· = 62)).length

def oddEnd (s : Str) : Bool := closers s % 2 = 1

def overhang (s : Str) : Str := if oddEnd s then [62] else []

@[simp] theorem closers_concat_close (s : Str) : closers (s ++ [62]) = closers s + 1 := by
  simp [closers]

theorem closers_concat (hc : c ≠ 62) (s : Str) : closers (s ++ [c]) = 0 := by
  simp [closers, hc]

theorem closers_append (s : Str) (ht : ∃ c ∈ t, c ≠ 62) : closers (s ++ t) = closers t := by
  obtain ⟨c, hc, hne⟩ := ht
  rw [closers, closers, List.reverse_append, List.takeWhile_append, if_neg]
  intro heq
  have hall : ∀ x ∈ t.reverse, decide (x = 62) = true :=
    List.takeWhile_eq_self_iff.mp ((List.takeWhile_prefix _).eq_of_length heq)
  exact hne (by simpa using hall c (by simpa using hc))

theorem closers_cons (hc : c ≠ 62) (s : Str) : closers (c :: s) = closers s := by
  by_cases hs : ∃ d ∈ s, d ≠ 62
  · exact closers_append [c] hs
  · have hall : ∀ d ∈ s, d = 62 := by simpa using hs
    rw [List.eq_replicate_of_mem hall]
    simp [closers, hc]

theorem closers_eq_zero (h : 62 ∉ s) : closers s = 0 := by
  obtain rfl | ⟨t, c, rfl⟩ := List.eq_nil_or_concat' s
  · rfl
  · apply closers_concat
    rintro rfl
    exact h (by simp)

theorem overhang_eq_nil (h : closers s = 0) : overhang s = [] := by
  simp [overhang, oddEnd, h]

theorem overhang_congr (h : closers s = closers t) : overhang s = overhang t := by
  simp [overhang, oddEnd, h]

theorem IsPlain.notMem_close (h : IsPlain s) : 62 ∉ s :=
  fun hmem => absurd (h 62 hmem) (by decide)

theorem IsPlain.overhang (h : IsPlain s) : overhang s = [] :=
  overhang_eq_nil (closers_eq_zero h.notMem_close)

variable {rest : Str}

theorem skipDict_cons (hopen : c ≠ 60 ∨ rest.head? ≠ some 60)
    (hclose : c ≠ 62 ∨ rest.head? ≠ some 62) (hstring : c ≠ 40) (depth : Nat) :
    skipDict depth (c :: rest) = skipDict depth rest := by
  rw [skipDict]
  · rintro _ rfl rfl
    simp at hopen
  · rintro _ rfl rfl
    simp at hclose
  · exact hstring

theorem skipDict_plain (h : IsPlain s) (depth : Nat) (rest : Str) :
    skipDict depth (s ++ rest) = skipDict depth rest := by
  induction s with
  | nil => rfl
  | cons c s ih =>
    obtain ⟨hc, hs⟩ := List.forall_mem_cons.mp h
    rw [List.cons_append, skipDict_cons, ih hs]
    · exact .inl (ne_of_isPlain hc rfl)
    · exact .inl (ne_of_isPlain hc rfl)
    · exact ne_of_isPlain hc rfl

theorem skipDict_overhang (v : Str) (h : rest.head? ≠ some 62) (depth : Nat) :
    skipDict depth (overhang v ++ rest) = skipDict depth rest := by
  rw [overhang]
  split
  · rw [List.singleton_append, skipDict_cons (.inl (by decide)) (.inr h) (by decide)]
  · rfl

theorem Value.head (h : Value v) : ∃ c s, v = c :: s ∧ (isWord c = true ∨ c ∈ [47, 40, 60, 91]) := by
  cases h with
  | name h => exact ⟨47, _, rfl, .inr (by simp)⟩
  | @word w h hne =>
    obtain ⟨c, s, rfl⟩ := List.exists_cons_of_ne_nil hne
    exact ⟨c, s, rfl, .inl (h c (.head _))⟩
  | @ref num _ _ _ hnum hnum' =>
    obtain ⟨c, s, rfl⟩ := List.exists_cons_of_ne_nil hnum'
    exact ⟨c, _, rfl, .inl (isWord_of_isDigit (hnum c (.head _)))⟩
  | string h => exact ⟨40, _, rfl, .inr (by simp)⟩
  | hex h => exact ⟨60, _, rfl, .inr (by simp)⟩
  | array => exact ⟨91, _, rfl, .inr (by simp)⟩
  | dict => exact ⟨60, _, rfl, .inr (by simp)⟩

theorem Value.exists_ne (h : Value v) : ∃ c ∈ v, c ≠ 62 := by
  obtain ⟨c, s, rfl, hc⟩ := h.head
  refine ⟨c, .head _, ?_⟩
  rintro rfl
  exact absurd hc (by decide)

theorem head?_ne_close (h : ∀ c ∈ s.head?, isWhite c = true ∨ c = 47) (rest : Str)
    (hrest : s ≠ [] ∨ rest.head? ≠ some 62) : (s ++ rest).head? ≠ some 62 := by
  cases s with
  | nil => simpa using hrest
  | cons c s =>
    obtain hc | hc := h c rfl
    · exact fun heq => absurd (Option.some.inj heq ▸ hc) (by decide)
    · exact fun heq => absurd (Option.some.inj heq ▸ hc) (by decide)

theorem head?_append_white (h : IsWhite s) (ht : ∀ c ∈ t.head?, isWhite c = true ∨ c = 47) :
    ∀ c ∈ (s ++ t).head?, isWhite c = true ∨ c = 47 := by
  cases s with
  | nil => exact ht
  | cons d s =>
    intro c hc
    cases hc
    exact .inl (h d (.head _))

theorem head?_entries {es : List Entry} (htail : IsWhite tail) (hspaced : ∀ e ∈ es, e.Spaced) :
    ∀ c ∈ (es.flatMap Entry.text ++ tail).head?, isWhite c = true ∨ c = 47 := by
  cases es with
  | nil => exact fun c hc => .inl (htail c (List.mem_of_mem_head? hc))
  | cons e es =>
    rw [List.flatMap_cons, Entry.text, List.append_assoc, List.append_assoc]
    apply head?_append_white (hspaced e (.head _)).before
    simp

theorem entry_append_overhang (e : Entry) (he : Value e.value) : closers e.text = closers e.value := by
  rw [Entry.text, closers_append, closers_cons (by decide), ← List.append_assoc, closers_append]
  · exact he.exists_ne
  · exact ⟨47, .head _, by decide⟩

theorem skipDict_entries {es : List Entry} (htail : IsWhite tail)
    (hspaced : ∀ e ∈ es, e.Spaced) (hvalue : ∀ e ∈ es, Value e.value) (hskip : ∀ e ∈ es, ∀ rest,
      skipDict depth (e.value ++ rest) = skipDict depth (overhang e.value ++ rest)) (rest : Str) :
    skipDict depth (es.flatMap Entry.text ++ (tail ++ rest)) =
      skipDict depth (overhang (es.flatMap Entry.text ++ tail) ++ rest) := by
  induction es with
  | nil => simp [skipDict_plain htail.isPlain, htail.isPlain.overhang]
  | cons e es ih =>
    rw [List.forall_mem_cons] at hspaced hvalue hskip
    have hentry : skipDict depth (e.text ++ (es.flatMap Entry.text ++ (tail ++ rest))) =
        skipDict depth (overhang e.value ++ (es.flatMap Entry.text ++ (tail ++ rest))) := by
      rw [Entry.text, List.append_assoc, skipDict_plain hspaced.1.before.isPlain, ← hskip.1,
        List.cons_append, List.append_assoc, ← List.cons_append,
        skipDict_plain (isPlain_name hspaced.1.key), List.append_assoc,
        skipDict_plain hspaced.1.gap.isPlain]
    rw [List.flatMap_cons, List.append_assoc, hentry]
    by_cases hlast : es.flatMap Entry.text ++ tail = []
    · obtain ⟨hes, rfl⟩ := List.append_eq_nil_iff.mp hlast
      rw [hes, List.append_nil, List.append_nil, overhang_congr (entry_append_overhang e hvalue.1)]
      rfl
    · have hhead := head?_entries htail hspaced.2
      have hne : ∃ c ∈ es.flatMap Entry.text ++ tail, c ≠ 62 := by
        obtain ⟨c, s, hs⟩ := List.exists_cons_of_ne_nil hlast
        refine ⟨c, by simp [hs], ?_⟩
        rintro rfl
        exact absurd (hhead 62 (by simp [hs])) (by decide)
      rw [skipDict_overhang, ih hspaced.2 hvalue.2 hskip.2, List.append_assoc,
        overhang_congr (closers_append e.text hne)]
      rw [← List.append_assoc]
      exact head?_ne_close hhead rest (.inl hlast)

theorem overhang_dict (body : Str) : overhang (60 :: 60 :: (body ++ [62, 62])) = overhang body := by
  have hclosers : closers (60 :: 60 :: (body ++ [62, 62])) = closers body + 2 := by
    rw [closers_cons (by decide), closers_cons (by decide), ← List.singleton_append, ← List.append_assoc,
      closers_concat_close, closers_concat_close]
  simp [overhang, oddEnd, hclosers]

theorem skipDict_close (v rest : Str) (depth : Nat) :
    skipDict (depth + 2) (overhang v ++ 62 :: 62 :: rest) = skipDict (depth + 1) (overhang v ++ rest) := by
  rw [overhang]
  split
  · simp [skipDict]
  · simp [skipDict]

theorem head?_items {items : List Item} (hgap : ∀ x ∈ items, IsWhite x.gap)
    (hvalue : ∀ x ∈ items, Value x.value) (hrest : rest.head? ≠ some 62) :
    (items.flatMap Item.text ++ rest).head? ≠ some 62 := by
  cases items with
  | nil => exact hrest
  | cons x items =>
    rw [List.flatMap_cons, Item.text, List.append_assoc, List.append_assoc]
    cases hwhite : x.gap with
    | nil =>
      obtain ⟨c, s, hv, hc⟩ := (hvalue x (.head _)).head
      rw [hv]
      intro heq
      rw [Option.some.inj heq] at hc
      exact absurd hc (by decide)
    | cons c gap =>
      intro heq
      have hc := hgap x (.head _) c (by simp [hwhite])
      rw [Option.some.inj heq] at hc
      exact absurd hc (by decide)

theorem skipDict_items {items : List Item} (hgap : ∀ x ∈ items, IsWhite x.gap) (hvalue : ∀ x ∈ items, Value x.value)
    (hskip : ∀ x ∈ items, ∀ rest, skipDict depth (x.value ++ rest) = skipDict depth (overhang x.value ++ rest))
    (hrest : rest.head? ≠ some 62) : skipDict depth (items.flatMap Item.text ++ rest) = skipDict depth rest := by
  induction items with
  | nil => rfl
  | cons x items ih =>
    rw [List.forall_mem_cons] at hgap hvalue hskip
    rw [List.flatMap_cons, Item.text, List.append_assoc, List.append_assoc, skipDict_plain hgap.1.isPlain,
      hskip.1, skipDict_overhang, ih hgap.2 hvalue.2 hskip.2]
    exact head?_items hgap.2 hvalue.2 hrest

theorem skipDict_value (h : Value v) (depth : Nat) (rest : Str) :
    skipDict (depth + 1) (v ++ rest) = skipDict (depth + 1) (overhang v ++ rest) := by
  have hplain {v : Str} (hv : IsPlain v) (depth : Nat) (rest : Str) :
      skipDict (depth + 1) (v ++ rest) = skipDict (depth + 1) (overhang v ++ rest) := by
    rw [skipDict_plain hv, hv.overhang, List.nil_append]
  induction h generalizing depth rest with
  | name h => exact hplain (isPlain_name h) depth rest
  | word h hne => exact hplain (isPlain_word h) depth rest
  | ref hnum _ hgap _ hgen _ hlast _ => exact hplain (isPlain_ref hnum hgap hgen hlast) depth rest
  | @string t h =>
    have hover : overhang (40 :: (t ++ [41])) = [] :=
      overhang_eq_nil ((closers_cons (by decide) _).trans (closers_concat (by decide) t))
    rw [hover, List.cons_append, List.append_assoc, skipDict, List.singleton_append,
      afterString_balanced h, List.nil_append]
  | @hex t h =>
    have ht : IsPlain t := isPlain_word fun c hc => isWord_of_isHexDigit (h c hc)
    have hover : overhang (60 :: (t ++ [62])) = [62] := by
      simp [overhang, oddEnd, closers_cons, closers_eq_zero ht.notMem_close]
    have hopen : ((t ++ [62]) ++ rest).head? ≠ some 60 := by
      cases t with
      | nil => simp
      | cons c t => simpa using ne_of_isPlain (ht c (.head _)) rfl
    rw [hover, List.cons_append, skipDict_cons (.inr hopen) (.inl (by decide)) (by decide),
      List.append_assoc, skipDict_plain ht]
  | @array items tail htail hgap _ hvalue ih =>
    have hover : overhang (91 :: (items.flatMap Item.text ++ (tail ++ [93]))) = [] := by
      rw [← List.append_assoc]
      exact overhang_eq_nil ((closers_cons (by decide) _).trans (closers_concat (by decide) _))
    have hrest : (tail ++ 93 :: rest).head? ≠ some 62 := by
      cases tail with
      | nil => simp
      | cons c tail => simpa using ne_of_isPlain (htail.isPlain c (.head _)) rfl
    simp only [hover, List.cons_append, List.append_assoc, List.nil_append]
    rw [skipDict_cons (.inl (by decide)) (.inl (by decide)) (by decide),
      skipDict_items hgap hvalue (fun x hx => ih x hx depth) hrest, skipDict_plain htail.isPlain,
      skipDict_cons (.inl (by decide)) (.inl (by decide)) (by decide)]
  | @dict es tail htail hspaced hvalue ih =>
    have hentries := skipDict_entries htail hspaced hvalue (fun e he => ih e he (depth + 1))
      (62 :: 62 :: rest)
    rw [← List.append_assoc, overhang_dict, ← skipDict_close, ← hentries]
    simp only [List.cons_append, List.append_assoc, skipDict]
    rfl

end StainedGlass.Pdf
