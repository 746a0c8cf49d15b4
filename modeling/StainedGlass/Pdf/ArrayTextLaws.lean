import StainedGlass.Pdf.SignObjects

namespace StainedGlass.Pdf

open Lib

def Shifts (text : Str) (opened closed : Nat) : Prop :=
  ∀ depth rest, skipArray (depth + closed + 1) (text ++ rest) = skipArray (depth + opened + 1) rest

variable {v : Str}

theorem Value.shifts (h : Value v) : Shifts v 0 0 := fun depth rest => skipArray_value h depth rest

variable {s : Str}

theorem IsPlain.notMem_bracket (h : IsPlain s) : 93 ∉ s := fun hmem => absurd (h 93 hmem) (by decide)

theorem IsPlain.shifts (h : IsPlain s) : Shifts s 0 0 := fun _ rest => skipArray_plain h _ rest

theorem Shifts.append (hs : Shifts s 0 0) (ht : Shifts t opened closed) : Shifts (s ++ t) opened closed := by
  intro depth rest
  rw [List.append_assoc]
  exact (hs (depth + closed) (t ++ rest)).trans (ht depth rest)

theorem Shifts.before (hs : Shifts s opened closed) (ht : Shifts t 0 0) : Shifts (s ++ t) opened closed := by
  intro depth rest
  rw [List.append_assoc]
  exact (hs depth (t ++ rest)).trans (ht (depth + opened) rest)

theorem skipArray_replicate (n : Nat) (rest : Str) :
    skipArray (n + 1) (List.replicate (n + 1) 93 ++ rest) = rest := by
  induction n with
  | zero => rw [List.replicate_one, List.singleton_append, skipArray, if_pos rfl]
  | succ n ih =>
    rw [List.replicate_succ, List.cons_append, skipArray, if_neg (by simp)]
    exact ih

theorem skipArray_replicate_deeper (n k : Nat) :
    skipArray (n + k + 2) (List.replicate (n + 1) 93 ++ [0]) = [] := by
  induction n with
  | zero =>
    rw [List.replicate_one, List.singleton_append, skipArray, if_neg (by simp),
      skipArray_cons (by decide) (by decide) (by decide), skipArray]
  | succ n ih =>
    rw [List.replicate_succ, List.cons_append, skipArray, if_neg (by simp)]
    have hdepth : n + 1 + k + 2 - 1 = n + k + 2 := by omega
    rw [hdepth]
    exact ih

theorem skipArray_depth (h : ∀ rest, skipArray (m + 1) rest = skipArray (n + 1) rest) : m = n := by
  have hlt {m n : Nat} (h : ∀ rest, skipArray (m + 1) rest = skipArray (n + 1) rest) : ¬ m < n := by
    intro hlt
    obtain ⟨k, rfl⟩ := Nat.exists_eq_add_of_lt hlt
    have := h (List.replicate (m + 1) 93 ++ [0])
    rw [skipArray_replicate] at this
    exact absurd (this.trans (skipArray_replicate_deeper m k)) (by simp)
  exact Nat.le_antisymm (not_lt.mp (hlt fun rest => (h rest).symm)) (not_lt.mp (hlt h))

theorem Shifts.eq_of_shifts (h : Shifts s 0 0) (h' : Shifts s opened closed) : opened = closed := by
  apply skipArray_depth
  intro rest
  have hshift := h' 0 rest
  rw [Nat.zero_add, Nat.zero_add] at hshift
  exact hshift.symm.trans (h closed rest)

theorem ref_value (n : Nat) : Value (ref n) := by
  have hdigits : ∀ c ∈ dec n, isDigit c = true := fun c hc => by simp [isDigit, digit_of_mem_dec hc]
  have hgap : IsWhite [32] := by
    rw [IsWhite, List.forall_mem_singleton]
    rfl
  exact @Value.ref (dec n) [48] [32] [32] hdigits (dec_ne_nil n) hgap (by decide) (by decide) (by decide)
    hgap (by decide)

namespace Arr

variable (a : Arr)

theorem value_text : Value a.text := by
  rw [text, inner, List.append_assoc]
  exact .array a.white a.gap a.apart a.value

end Arr

theorem Dictionary.value_text (d : Dictionary) : Value d.text := by
  have htext : d.text = 60 :: 60 :: (d.entries.flatMap Entry.text ++ (d.tail ++ [62, 62])) := by
    simp [Dictionary.text, Dictionary.body, str]
  rw [htext]
  exact .dict d.white d.spaced d.value

variable {u : Letters}

theorem rdropWhile_space_value (h : Value v) : v.rdropWhile u.space = v := by
  rw [List.rdropWhile_eq_self_iff]
  intro hne
  simpa using u.space_visible (h.getLast? _ (List.getLast?_eq_some_getLast hne))

theorem rdropWhile_concat_bracket (h : s.getLast? ≠ some 93) (n : Nat) :
    (s ++ List.replicate n 93).rdropWhile (· == 93) = s := by
  induction n with
  | zero =>
    rw [List.replicate_zero, List.append_nil, List.rdropWhile_eq_self_iff]
    intro hne heq
    apply h
    rw [List.getLast?_eq_some_getLast hne]
    simpa using heq
  | succ n ih =>
    rw [List.replicate_succ', ← List.append_assoc, List.rdropWhile_concat_pos _ _ _ (by rfl)]
    exact ih

theorem inner_eq_of_bracket {items : List Item} (htail : IsWhite tail)
    (hvalue : ∀ x ∈ items, Value x.value) (h : (items.flatMap Item.text ++ tail).getLast? = some 93) :
    ∃ init x, items = init ++ [x] ∧ tail = [] ∧ x.value.getLast? = some 93 := by
  obtain rfl | ⟨t, c, rfl⟩ := List.eq_nil_or_concat' tail
  · obtain rfl | ⟨init, x, rfl⟩ := List.eq_nil_or_concat' items
    · cases h
    · refine ⟨init, x, rfl, rfl, ?_⟩
      obtain ⟨c, s, hs, -⟩ := (hvalue x (by simp)).head
      rw [List.append_nil, List.flatMap_append, List.flatMap_singleton, Item.text, ← List.append_assoc,
        List.getLast?_append_of_ne_nil _ (by simp [hs])] at h
      exact h
  · rw [← List.append_assoc, List.getLast?_concat] at h
    have hc := htail c (by simp)
    rw [Option.some.inj h] at hc
    exact absurd hc (by decide)

theorem shifts_item {x : Item} (hgap : IsWhite x.gap) (hvalue : Value x.value) : Shifts x.text 0 0 :=
  hgap.isPlain.shifts.append hvalue.shifts

theorem shifts_items {items : List Item} (hgap : ∀ x ∈ items, IsWhite x.gap)
    (hvalue : ∀ x ∈ items, Value x.value) : Shifts (items.flatMap Item.text) 0 0 :=
  fun depth rest => skip_flatMap (fun x hx rest => shifts_item (hgap x hx) (hvalue x hx) depth rest) rest

theorem shifts_open (h : Shifts s opened 0) : Shifts (91 :: s) (opened + 1) 0 := by
  intro depth rest
  rw [List.cons_append, skipArray]
  refine (h (depth + 1) rest).trans ?_
  rw [Nat.add_right_comm depth 1 opened]
  rfl

theorem Value.exists_core (h : Value v) (hlast : v.getLast? = some 93) :
    ∃ core n, v = core ++ List.replicate (n + 1) 93 ∧ core.getLast? ≠ some 93 ∧ Shifts core (n + 1) 0 := by
  induction h with
  | @array items tail htail hgap hapart hvalue ih =>
    by_cases hinner : (items.flatMap Item.text ++ tail).getLast? = some 93
    · obtain ⟨init, x, rfl, rfl, hx⟩ := inner_eq_of_bracket htail hvalue hinner
      have hmem : x ∈ init ++ [x] := by simp
      have hinit : ∀ y ∈ init, y ∈ init ++ [x] := fun y hy => List.mem_append_left _ hy
      obtain ⟨core, n, hcore, hend, hshifts⟩ := ih x hmem hx
      refine ⟨91 :: (init.flatMap Item.text ++ (x.gap ++ core)), n + 1, ?_, ?_, ?_⟩
      · rw [List.replicate_succ']
        simp [Item.text, hcore]
      · obtain ⟨c, s, hs⟩ : ∃ c s, core = c :: s := by
          obtain ⟨c, s, hs, hc⟩ := (hvalue x hmem).head
          cases core with
          | nil =>
            rw [hs, List.nil_append, List.replicate_succ] at hcore
            cases hcore
            exact absurd hc (by decide)
          | cons c s => exact ⟨c, s, rfl⟩
        rw [← List.append_assoc, ← List.cons_append, List.getLast?_append_of_ne_nil _ (by simp [hs])]
        exact hend
      · apply shifts_open
        apply (shifts_items (fun y hy => hgap y (hinit y hy)) fun y hy => hvalue y (hinit y hy)).append
        exact (hgap x hmem).isPlain.shifts.append hshifts
    · refine ⟨91 :: (items.flatMap Item.text ++ tail), 0, by simp, ?_, ?_⟩
      · cases hne : items.flatMap Item.text ++ tail with
        | nil => decide
        | cons c s =>
          rw [hne] at hinner
          rwa [List.getLast?_cons_cons]
      · exact shifts_open ((shifts_items hgap hvalue).append htail.isPlain.shifts)
  | @name n h =>
    have := List.mem_of_mem_getLast? hlast
    exact absurd this (isPlain_name h).notMem_bracket
  | word h hne => exact absurd (List.mem_of_mem_getLast? hlast) (isPlain_word h).notMem_bracket
  | ref hnum _ hgap _ hgen _ hlast' _ =>
    exact absurd (List.mem_of_mem_getLast? hlast) (isPlain_ref hnum hgap hgen hlast').notMem_bracket
  | string h =>
    rw [← List.cons_append, List.getLast?_concat] at hlast
    exact absurd hlast (by decide)
  | hex h =>
    rw [← List.cons_append, List.getLast?_concat] at hlast
    exact absurd hlast (by decide)
  | @dict es tail =>
    have hend : 60 :: 60 :: (es.flatMap Entry.text ++ (tail ++ [62, 62])) =
        60 :: 60 :: (es.flatMap Entry.text ++ (tail ++ [62])) ++ [62] := by simp
    rw [hend, List.getLast?_concat] at hlast
    exact absurd hlast (by decide)

theorem shifts_close : Shifts [93] 0 1 := by
  intro depth rest
  rw [List.singleton_append, skipArray, if_neg (by simp)]
  rfl

theorem Shifts.close (h : Shifts s (opened + 1) closed) : Shifts (s ++ [93]) opened closed := by
  intro depth rest
  rw [List.append_assoc, h]
  have := shifts_close (depth + opened) rest
  exact this

def newItem (w : Nat) : Str := str " " ++ ref w ++ str "]"

theorem shifts_newItem (h : Shifts s (opened + 1) closed) (w : Nat) :
    Shifts (s ++ newItem w) opened closed := by
  have hspace : IsPlain (str " ") := by
    intro c hc
    cases List.mem_singleton.mp hc
    rfl
  have hitem : Shifts (s ++ (str " " ++ ref w)) (opened + 1) closed :=
    h.before (hspace.shifts.append (ref_value w).shifts)
  have hclose := hitem.close
  rw [newItem]
  simpa [str] using hclose

def Extends (v : Str) : Prop := v.head? = some 91 ∧ ¬ [93, 93] <:+ v

theorem Arr.extends_iff (a : Arr) : Extends a.text ↔ a.inner.getLast? ≠ some 93 := by
  have hsuffix : [93, 93] <:+ a.text ↔ a.inner.getLast? = some 93 := by
    obtain hnil | ⟨s, c, hs⟩ := List.eq_nil_or_concat' a.inner
    · rw [Arr.text, hnil]
      decide
    · rw [Arr.text, hs, List.getLast?_concat, ← List.cons_append, ← List.cons_append]
      constructor
      · rintro ⟨t, ht⟩
        have hinit := congrArg List.dropLast ht
        rw [List.dropLast_concat, show t ++ [93, 93] = t ++ [93] ++ [93] by simp, List.dropLast_concat] at hinit
        have hlast := congrArg List.getLast? hinit
        rw [List.getLast?_concat, List.getLast?_concat] at hlast
        exact hlast.symm
      · intro hc
        rw [Option.some.inj hc]
        exact ⟨91 :: s, by simp⟩
  rw [Extends, hsuffix]
  exact and_iff_right rfl

theorem withItem_text (u : Letters) (a : Arr) (w : Nat) (h : Extends a.text) :
    ∃ a' : Arr, withItem u a.text w = a'.text ∧ a'.values = a.values ++ [ref w] := by
  have hgap : IsWhite (a.tail ++ [32]) := by
    rw [IsWhite, List.forall_mem_append, List.forall_mem_singleton]
    exact ⟨a.white, rfl⟩
  have hcut : withItem u a.text w = 91 :: (a.inner ++ newItem w) := by
    have hlast : (91 :: a.inner).getLast? ≠ some 93 := by
      cases hinner : a.inner with
      | nil => decide
      | cons c s =>
        rw [List.getLast?_cons_cons, ← hinner]
        exact a.extends_iff.mp h
    rw [withItem, rdropWhile_space_value a.value_text, Arr.text, ← List.cons_append, ← List.replicate_one,
      rdropWhile_concat_bracket hlast, newItem, List.append_assoc, List.append_assoc, List.append_assoc]
    rfl
  let a' : Arr :=
    { items := a.items ++ [⟨a.tail ++ [32], ref w⟩]
      tail := []
      white := List.forall_mem_nil _
      gap := by
        rw [List.forall_mem_append, List.forall_mem_singleton]
        exact ⟨a.gap, hgap⟩
      apart := by
        rw [List.isChain_append]
        refine ⟨a.apart, .singleton _, ?_⟩
        intro x _ y hy heq
        cases hy
        exact absurd heq (by simp)
      value := by
        rw [List.forall_mem_append, List.forall_mem_singleton]
        exact ⟨a.value, ref_value w⟩ }
  refine ⟨a', ?_, ?_⟩
  · rw [hcut, Arr.text, newItem]
    simp [a', Arr.inner, Item.text, str]
  · simp [a', Arr.values]

theorem shifts_withItem_nested (u : Letters) (a : Arr) (w : Nat) (h : ¬ Extends a.text) :
    ∃ n, Shifts (withItem u a.text w) (n + 1) 0 := by
  have hinner : a.inner.getLast? = some 93 := by
    by_contra hne
    exact h (a.extends_iff.mpr hne)
  obtain ⟨core, n, htext, hend, hshifts⟩ := a.value_text.exists_core (by rw [Arr.text, ← List.cons_append, List.getLast?_concat])
  cases n with
  | zero =>
    have hcore : core = 91 :: a.inner := by
      have := congrArg List.dropLast htext
      rw [List.replicate_one, List.dropLast_concat, Arr.text, ← List.cons_append, List.dropLast_concat] at this
      exact this.symm
    cases hne : a.inner with
    | nil => simp [hne] at hinner
    | cons c s =>
      rw [hcore, hne, List.getLast?_cons_cons, ← hne] at hend
      exact absurd hinner hend
  | succ n =>
    refine ⟨n, ?_⟩
    have hcut : withItem u a.text w = core ++ newItem w := by
      rw [withItem, rdropWhile_space_value a.value_text, htext, rdropWhile_concat_bracket hend, newItem,
        List.append_assoc, List.append_assoc, List.append_assoc]
    rw [hcut]
    exact shifts_newItem hshifts w

theorem shifts_withItem_plain (u : Letters) (h : Value v) (hv : IsPlain v) (w : Nat) :
    Shifts (withItem u v w) 0 1 := by
  have hend : v.getLast? ≠ some 93 := fun heq => hv.notMem_bracket (List.mem_of_mem_getLast? heq)
  have hcut : withItem u v w = v ++ (str " " ++ ref w) ++ [93] := by
    have hdrop := rdropWhile_concat_bracket hend 0
    rw [List.replicate_zero, List.append_nil] at hdrop
    rw [withItem, rdropWhile_space_value h, hdrop, List.append_assoc, List.append_assoc, List.append_assoc,
      List.append_assoc]
    rfl
  have hspace : IsPlain (str " ") := by
    intro c hc
    cases List.mem_singleton.mp hc
    rfl
  rw [hcut]
  exact (hv.shifts.append (hspace.shifts.append (ref_value w).shifts)).append shifts_close

variable {items : List (Str × Str)}

theorem setItems_eq_setPair (h : (items.map Prod.fst).Nodup) (k v : Str) :
    Assoc.setItems k v items = setPair items k v := by
  induction items with
  | nil => rfl
  | cons x items ih =>
    rw [List.map_cons, List.nodup_cons] at h
    rw [Assoc.setItems]
    by_cases hx : x.1 = k
    · have hrest : items.map (fun p => if p.1 = k then (k, v) else p) = items := by
        refine (List.map_congr_left fun p hp => if_neg ?_).trans (List.map_id _)
        intro hkey
        rw [hx, ← hkey] at h
        exact h.1 (List.mem_map_of_mem hp)
      rw [if_pos hx, setPair, if_pos (by simp [hx]), List.map_cons, if_pos hx, hrest]
    · rw [if_neg hx, ih h.2, setPair, setPair, List.map_cons, List.map_cons, if_neg hx]
      have hk : k ∈ x.1 :: items.map Prod.fst ↔ k ∈ items.map Prod.fst := by simp [Ne.symm hx]
      simp only [hk]
      split <;> rfl

theorem items_set (d : Assoc Str Str) (k v : Str) : (d.set k v).items = setPair d.items k v :=
  setItems_eq_setPair d.nodup k v

theorem mem_items_set {d : Assoc Str Str} (h : p ∈ (d.set k v).items) : p ∈ d.items ∨ p = (k, v) := by
  rw [items_set] at h
  exact mem_setPair h

theorem items_toDict {pairs : List (Str × Str)} (h : (pairs.map Prod.fst).Nodup) :
    (toDict pairs).items = pairs := by
  have hfold {pairs : List (Str × Str)} (d : Assoc Str Str) (hd : ((d.items ++ pairs).map Prod.fst).Nodup) :
      (pairs.foldl (fun d p => d.set p.1 p.2) d).items = d.items ++ pairs := by
    induction pairs generalizing d with
    | nil => simp
    | cons p pairs ih =>
      have hnew : p.1 ∉ d.items.map Prod.fst := by
        intro hmem
        rw [List.map_append] at hd
        exact (List.nodup_append.mp hd).2.2 _ hmem _ (by simp) rfl
      have hset : (d.set p.1 p.2).items = d.items ++ [p] := by
        rw [items_set, setPair, if_neg hnew]
      rw [List.foldl_cons, ih, hset]
      · simp
      · rw [hset]
        simpa using hd
  exact hfold .empty h

def Regular (items : List (Str × Str)) : Prop := ∀ p ∈ items, (∀ c ∈ p.1, isRegular c = true) ∧ Value p.2

theorem Dictionary.regular (d : Dictionary) : Regular d.pairs := by
  intro p hp
  obtain ⟨e, he, rfl⟩ := List.mem_map.mp hp
  exact ⟨(d.spaced e he).key, d.value e he⟩

theorem Regular.keys (h : Regular items) : ∀ p ∈ items, ∀ c ∈ p.1, isRegular c = true := fun p hp => (h p hp).1

theorem Regular.values (h : Regular items) : ∀ p ∈ items, Value p.2 :=
  fun p hp => (h p hp).2

def Regular.dict {items : List (Str × Str)} (h : Regular items) : Dictionary := .ofPairs items h.keys h.values

theorem Regular.pairs_dict (h : Regular items) : h.dict.pairs = items :=
  Dictionary.pairs_ofPairs _ _

theorem Regular.text_dict (h : Regular items) : h.dict.text = printDict items := by
  rw [Regular.dict, Dictionary.text_ofPairs, printDict, List.flatMap_def]

theorem Regular.set {d : Assoc Str Str} (h : Regular d.items) (hk : ∀ c ∈ k, isRegular c = true)
    (hv : Value v) : Regular (d.set k v).items := by
  intro p hp
  obtain hp | rfl := mem_items_set hp
  · exact h p hp
  · exact ⟨hk, hv⟩

theorem Regular.exists_dictionary (h : Regular items) :
    ∃ d : Dictionary, printDict items = d.text ∧ d.pairs = items :=
  ⟨h.dict, h.text_dict.symm, h.pairs_dict⟩

theorem isPlain_key (h : ∀ c ∈ k, isRegular c = true) : IsPlain (str "/" ++ k ++ str " ") := by
  rw [List.append_assoc]
  refine isPlain_cons rfl fun c hc => ?_
  change c ∈ k ++ str " " at hc
  obtain hc | hc := List.mem_append.mp hc
  · exact isPlain_of_isRegular (h c hc)
  · cases List.mem_singleton.mp hc
    rfl

theorem shifts_part (hk : ∀ c ∈ k, isRegular c = true) (hv : Shifts v opened closed) :
    Shifts (part k v) opened closed := by
  rw [part]
  exact (isPlain_key hk).shifts.append hv

theorem shifts_printDict {d : Assoc Str Str} (hget : d.get? k = some v)
    (hd : ∀ p ∈ d.items, (∀ c ∈ p.1, isRegular c = true) ∧ (p.1 ≠ k → Value p.2))
    (hv : Shifts v opened closed) : Shifts (printDict d.items) opened closed := by
  have hmem := Assoc.mem_of_get? hget
  obtain ⟨s, t, hitems⟩ := List.append_of_mem hmem
  have hnodup := d.nodup
  rw [hitems, List.map_append, List.map_cons, List.nodup_middle, List.nodup_cons] at hnodup
  have hparts {l : List (Str × Str)} (hl : ∀ p ∈ l, p ∈ s ++ t) :
      Shifts (l.flatMap fun p => part p.1 p.2) 0 0 := by
    intro depth rest
    apply skip_flatMap
    intro p hp rest
    have hp' : p ∈ d.items := by
      rw [hitems]
      have := hl p hp
      simp only [List.mem_append, List.mem_cons] at this ⊢
      tauto
    have hne : p.1 ≠ k := by
      intro hkey
      apply hnodup.1
      have hmap : p.1 ∈ (s ++ t).map Prod.fst := List.mem_map_of_mem (hl p hp)
      rwa [hkey, List.map_append] at hmap
    exact shifts_part (hd p hp').1 ((hd p hp').2 hne).shifts depth rest
  have hopen : Shifts (str "<<") 0 0 := by
    intro depth rest
    exact (skipArray_cons (by decide) (by decide) (by decide) _ _).trans
      (skipArray_cons (by decide) (by decide) (by decide) _ _)
  have hclose : Shifts (str ">>") 0 0 := by
    intro depth rest
    exact (skipArray_cons (by decide) (by decide) (by decide) _ _).trans
      (skipArray_cons (by decide) (by decide) (by decide) _ _)
  rw [printDict, hitems, List.flatMap_append, List.flatMap_cons]
  apply Shifts.before _ hclose
  apply hopen.append
  apply (hparts fun p hp => List.mem_append_left _ hp).append
  exact (shifts_part (hd _ hmem).1 hv).before (hparts fun p hp => List.mem_append_right _ hp)

theorem ne_text_of_shifts (h : Shifts t opened closed) (hne : opened ≠ closed) (d : Dictionary) : t ≠ d.text := by
  rintro rfl
  exact hne (d.value_text.shifts.eq_of_shifts h)

def Dictionary.Cut (d : Dictionary) : Prop :=
  ∀ e ∈ d.entries, startsWith e.value (str "<<") = true → oddEnd e.value = false

def Dictionary.assoc (d : Dictionary) (h : (d.pairs.map Prod.fst).Nodup) : Assoc Str Str := ⟨d.pairs, h⟩

theorem Dictionary.body_text (d : Dictionary) : (d.text.drop 2).take (d.text.length - 4) = d.body := by
  have hlength : d.text.length - 4 = d.body.length := by simp [Dictionary.text, str]
  rw [hlength]
  simp [Dictionary.text, str]

theorem Dictionary.strip_text (u : Letters) (d : Dictionary) : u.strip d.text = d.text :=
  u.strip_gap (List.forall_mem_nil _) d.value_text

theorem Dictionary.startsWith_text (d : Dictionary) : startsWith d.text (str "<<") = true := by
  simp [Dictionary.text, startsWith, str, List.isPrefixOf]

variable {d : Dictionary}

theorem Letters.topLevelEntries_of_cut (u : Letters) (h : d.Cut) : u.topLevelEntries d.body = .ok d.pairs := by
  rw [u.topLevelEntries_body, if_pos fun e he => (leftover_eq_nil_iff _).mpr (h e he)]

theorem Letters.topLevelEntries_of_not_cut (u : Letters) (h : ¬ d.Cut) :
    u.topLevelEntries d.body = .error (.signError "unexpected dictionary text") := by
  rw [u.topLevelEntries_body, if_neg]
  intro hall
  exact h fun e he => (leftover_eq_nil_iff _).mp (hall e he)

theorem Letters.setInDict_of_cut (u : Letters) (h : d.Cut)
    (hnodup : (d.pairs.map Prod.fst).Nodup) (key value : Str) :
    u.setInDict d.text key value = .ok (printDict ((d.assoc hnodup).set key value).items) := by
  rw [u.setInDict_text d fun e he => (leftover_eq_nil_iff _).mpr (h e he), printDict, List.flatMap_def,
    items_set]
  rfl

theorem Letters.setInDict_of_not_cut (u : Letters) (h : ¬ d.Cut) (key value : Str) :
    u.setInDict d.text key value = .error (.signError "unexpected dictionary text") := by
  rw [setInDict, d.body_text, u.topLevelEntries_of_not_cut h]
  rfl

def formItems (u : Letters) (form : Assoc Str Str) (w : Nat) : Assoc Str Str :=
  (form.set (str "Fields") (withItem u ((form.get? (str "Fields")).getD (str "[]")) w)).set
    (str "SigFlags") (str "3")

theorem formDict_of_cut (u : Letters) (h : d.Cut) (hnodup : (d.pairs.map Prod.fst).Nodup)
    (w : Nat) : formDict u d.text (some w) = .ok (printDict (formItems u (d.assoc hnodup) w).items) := by
  have hdict : toDict d.pairs = d.assoc hnodup := by
    have hitems := items_toDict hnodup
    cases hto : toDict d.pairs with
    | mk items hn =>
      rw [hto] at hitems
      cases hitems
      rfl
  have hentries : formEntries u d.text = .ok (d.assoc hnodup) := by
    rw [formEntries, d.strip_text, if_pos d.startsWith_text, d.body_text, u.topLevelEntries_of_cut h, ← hdict]
    rfl
  rw [formDict, hentries]
  rfl

theorem formDict_of_not_cut (u : Letters) (h : ¬ d.Cut) (w : Nat) :
    formDict u d.text (some w) = .error (.signError "unexpected dictionary text") := by
  rw [formDict, formEntries, d.strip_text, if_pos d.startsWith_text, d.body_text,
    u.topLevelEntries_of_not_cut h]
  rfl

end StainedGlass.Pdf
