import StainedGlass.Snapshot.Changes

namespace StainedGlass.Snapshot

open Lib

def firstOld (n : Str) (changes : List Change) : Option Str :=
  (changes.find? (·.name = n)).map Change.old

variable {have_ : List Change}

theorem mem_mergeChange_of_ne {h c : Change} (hh : h ∈ have_)
    (hne : h.name ≠ c.name) : h ∈ mergeChange have_ c := by
  induction have_ with
  | nil => exact absurd hh List.not_mem_nil
  | cons x have_ ih =>
    rw [mergeChange]
    split
    · next hx =>
      cases hh with
      | head => exact absurd hx hne
      | tail _ hh => exact .tail _ hh
    · cases hh with
      | head => exact .head _
      | tail _ hh => exact .tail _ (ih hh)

theorem mem_mergeChange_self (have_ : List Change) (c : Change) :
    { c with old := (firstOld c.name have_).getD c.old } ∈ mergeChange have_ c := by
  induction have_ with
  | nil => exact .head _
  | cons x have_ ih =>
    rw [mergeChange, firstOld]
    by_cases hx : x.name = c.name
    · simp [hx]
    · rw [List.find?_cons_of_neg (by simpa using hx), if_neg hx]
      exact .tail _ ih

theorem firstOld_mergeChange (n : Str) (have_ : List Change) (c : Change) :
    firstOld n (mergeChange have_ c) = firstOld n (have_ ++ [c]) := by
  induction have_ with
  | nil => rfl
  | cons x have_ ih =>
    rw [mergeChange]
    unfold firstOld at ih ⊢
    by_cases hx : x.name = c.name
    · rw [if_pos hx]
      by_cases hn : x.name = n
      · simp [hn]
      · have hc : c.name ≠ n := hx ▸ hn
        simp [hn, hc, List.find?_append]
    · rw [if_neg hx]
      by_cases hn : x.name = n
      · simp [hn]
      · simpa [hn] using ih

variable {changes : List Change}

theorem mem_mergeChanges_of_ne {h : Change}
    (hne : ∀ c ∈ changes, h.name ≠ c.name) (hh : h ∈ have_) :
    h ∈ mergeChanges have_ changes := by
  induction changes generalizing have_ with
  | nil => exact hh
  | cons c changes ih =>
    apply ih
    · exact fun c hc => hne c (.tail _ hc)
    · exact mem_mergeChange_of_ne hh (hne c (.head _))

theorem firstOld_mergeChanges (n : Str) (have_ changes : List Change) :
    firstOld n (mergeChanges have_ changes) = firstOld n (have_ ++ changes) := by
  induction changes generalizing have_ with
  | nil => simp [mergeChanges]
  | cons c changes ih =>
    calc firstOld n (mergeChanges (mergeChange have_ c) changes)
        = firstOld n (mergeChange have_ c ++ changes) := ih _
      _ = firstOld n ((have_ ++ [c]) ++ changes) := by
        have h := firstOld_mergeChange n have_ c
        unfold firstOld at h ⊢
        rw [List.find?_append, List.find?_append, Option.map_or, Option.map_or, h]
      _ = firstOld n (have_ ++ c :: changes) := by rw [List.append_assoc, List.singleton_append]

theorem name_mem_mergeChange {h c : Change} (hh : h ∈ mergeChange have_ c) :
    h.name = c.name ∨ ∃ x ∈ have_, h.name = x.name := by
  induction have_ with
  | nil =>
    rw [List.mem_singleton.mp hh]
    exact .inl rfl
  | cons x have_ ih =>
    rw [mergeChange] at hh
    split at hh
    · cases hh with
      | head => exact .inr ⟨x, .head _, rfl⟩
      | tail _ hh => exact .inr ⟨h, .tail _ hh, rfl⟩
    · cases hh with
      | head => exact .inr ⟨h, .head _, rfl⟩
      | tail _ hh =>
        obtain hc | ⟨y, hy, hname⟩ := ih hh
        · exact .inl hc
        · exact .inr ⟨y, .tail _ hy, hname⟩

theorem name_mem_mergeChanges {h : Change}
    (hh : h ∈ mergeChanges have_ changes) : ∃ x ∈ have_ ++ changes, h.name = x.name := by
  induction changes generalizing have_ with
  | nil => exact ⟨h, by simpa [mergeChanges] using hh, rfl⟩
  | cons c changes ih =>
    obtain ⟨x, hx, hname⟩ := ih hh
    obtain hx | hx := List.mem_append.mp hx
    · obtain hc | ⟨y, hy, hxy⟩ := name_mem_mergeChange hx
      · exact ⟨c, by simp, hname.trans hc⟩
      · exact ⟨y, by simp [hy], hname.trans hxy⟩
    · exact ⟨x, by simp [hx], hname⟩

def mergeRuns : List (List Change) → List Change
  | [] => []
  | run :: runs => runs.foldl mergeChanges run

theorem mergeRuns_cons (run : List Change) (runs : List (List Change)) :
    mergeRuns (run :: runs) = mergeChanges run runs.flatten := by
  rw [mergeRuns, mergeChanges, List.foldl_flatten]
  rfl

variable {runs : List (List Change)}

theorem mergeRuns_append (h : runs ≠ []) (run : List Change) :
    mergeRuns (runs ++ [run]) = mergeChanges (mergeRuns runs) run := by
  cases runs with
  | nil => exact absurd rfl h
  | cons first runs => simp [mergeRuns]

theorem firstOld_append_of_some (h : firstOld n a = some old) (b : List Change) : firstOld n (a ++ b) = some old := by
  unfold firstOld at h ⊢
  rw [List.find?_append, Option.map_or, h, Option.some_or]

def Last (c : Change) (changes : List Change) : Prop :=
  ∃ before after, changes = before ++ c :: after ∧ ∀ x ∈ after, c.name ≠ x.name

def Tells (m c : Change) (changes : List Change) : Prop :=
  m.name = c.name ∧ m.new = c.new ∧ (m.old = c.old ∨ firstOld c.name changes = some m.old)

variable {c : Change}

theorem exists_mem_mergeChanges (hafter : ∀ x ∈ after, c.name ≠ x.name) (have_ before : List Change) :
    ∃ m ∈ mergeChanges have_ (before ++ c :: after), Tells m c (have_ ++ (before ++ c :: after)) := by
  refine ⟨{ c with old := (firstOld c.name (mergeChanges have_ before)).getD c.old }, ?_, rfl, rfl, ?_⟩
  · rw [mergeChanges, List.foldl_append, List.foldl_cons]
    apply mem_mergeChanges_of_ne
    · exact hafter
    · exact mem_mergeChange_self _ c
  · rw [firstOld_mergeChanges, ← List.append_assoc]
    cases hfirst : firstOld c.name (have_ ++ before) with
    | none => exact .inl rfl
    | some old => exact .inr (firstOld_append_of_some hfirst _)

theorem Last.mem_mergeRuns (h : Last c runs.flatten) : ∃ m ∈ mergeRuns runs, Tells m c runs.flatten := by
  obtain ⟨before, after, hsplit, hafter⟩ := h
  cases runs with
  | nil => simp at hsplit
  | cons run runs =>
    rw [mergeRuns_cons]
    rw [List.flatten_cons] at hsplit ⊢
    obtain ⟨rest, rfl, hrest⟩ | ⟨rest, rfl, hrest⟩ := List.append_eq_append_iff.mp hsplit
    · rw [hrest]
      exact exists_mem_mergeChanges hafter run rest
    · cases rest with
      | nil =>
        rw [List.nil_append] at hrest
        rw [← hrest, List.append_nil]
        exact exists_mem_mergeChanges hafter before []
      | cons x rest =>
        -- the last change is the first run's own, and no later run touches it
        obtain ⟨rfl, rfl⟩ := List.cons_eq_cons.mp hrest
        refine ⟨c, ?_, rfl, rfl, .inl rfl⟩
        apply mem_mergeChanges_of_ne
        · exact fun x hx => hafter x (List.mem_append_right _ hx)
        · simp

theorem name_mem_mergeRuns {m : Change} (h : m ∈ mergeRuns runs) : ∃ c ∈ runs.flatten, m.name = c.name := by
  cases runs with
  | nil => exact absurd h List.not_mem_nil
  | cons run runs =>
    rw [mergeRuns_cons] at h
    exact name_mem_mergeChanges h

theorem pinsOf_append (a b : List Str) : pinsOf (a ++ [] :: b) = pinsOf a ++ pinsOf b := by
  simp [pinsOf, paragraphs, List.splitOn_append_cons_self]

theorem pins_append (a b : Str) : pins (a ++ 10 :: 10 :: b) = pins a ++ pins b := by
  have hb : (10 :: b).splitOn 10 = [] :: b.splitOn 10 :=
    List.splitOn_append_cons_self_of_not_mem List.not_mem_nil b
  rw [pins, List.splitOn_append_cons_self, hb, pinsOf_append]
  rfl

theorem newline_notMem_of_validName (h : validName name) : 10 ∉ name := by
  cases name with
  | nil => exact List.not_mem_nil
  | cons c s =>
    simp only [validName, Bool.and_eq_true, List.all_eq_true] at h
    intro hmem
    cases hmem with
    | head => exact absurd h.1 (by decide)
    | tail _ hmem => exact absurd (h.2 10 hmem) (by decide)

theorem newline_notMem_of_validVersion (h : validVersion new) : 10 ∉ new := by
  simp only [validVersion, Bool.and_eq_true, List.all_eq_true] at h
  exact fun hmem => absurd (h.2 10 hmem) (by decide)

theorem matchesWhole_iff : matchesWhole p s ↔ p s ∨ ∃ t, s = t ++ [10] ∧ p t := by
  rw [matchesWhole, Bool.or_eq_true, Bool.and_eq_true, decide_eq_true_eq]
  apply or_congr_right
  constructor
  · rintro ⟨hlast, hp⟩
    exact ⟨s.dropLast, (List.dropLast_append_getLast? 10 hlast).symm, hp⟩
  · rintro ⟨t, rfl, hp⟩
    exact ⟨by simp, by simpa using hp⟩

theorem splitOn_line (h : 10 ∉ l) (rest : Str) : (l ++ 10 :: rest).splitOn 10 = l :: rest.splitOn 10 :=
  List.splitOn_append_cons_self_of_not_mem h rest

theorem splitOn_last {l : Str} (h : 10 ∉ l) : l.splitOn 10 = [l] := List.splitOn_eq_singleton h

theorem pins_stanzaText (hname : 10 ∉ name) (hnew : 10 ∉ new) : pins (stanzaText name new) = [(name, new)] := by
  have h₁ : 10 ∉ str "Package: " ++ name := by simpa [List.mem_append] using ⟨by decide, hname⟩
  have h₂ : 10 ∉ str "Pin: version " ++ new := by simpa [List.mem_append] using ⟨by decide, hnew⟩
  have h₃ : 10 ∉ str "Pin-Priority: -1" := by decide
  rw [pins, stanzaText, splitOn_line h₁, splitOn_line h₂, splitOn_last h₃]
  rfl

theorem pins_stanzaText_new (hname : 10 ∉ name) (hnew : 10 ∉ new) : pins (stanzaText name (new ++ [10])) = [] := by
  have h₁ : 10 ∉ str "Package: " ++ name := by simpa [List.mem_append] using ⟨by decide, hname⟩
  have h₂ : 10 ∉ str "Pin: version " ++ new := by simpa [List.mem_append] using ⟨by decide, hnew⟩
  have h₃ : 10 ∉ str "Pin-Priority: -1" := by decide
  have htext : stanzaText name (new ++ [10]) =
      (str "Package: " ++ name ++ 10 :: (str "Pin: version " ++ new)) ++
        10 :: 10 :: str "Pin-Priority: -1" := by
    simp [stanzaText]
  rw [htext, pins_append, pins, pins, splitOn_line h₁, splitOn_last h₂, splitOn_last h₃]
  rfl

theorem pins_stanzaText_name (hname : 10 ∉ name) (hnew : 10 ∉ new ∨ ∃ v, new = v ++ [10] ∧ 10 ∉ v) :
    pins (stanzaText (name ++ [10]) new) = [] := by
  have h₁ : 10 ∉ str "Package: " ++ name := by simpa [List.mem_append] using ⟨by decide, hname⟩
  have h₃ : 10 ∉ str "Pin-Priority: -1" := by decide
  have htext : stanzaText (name ++ [10]) new =
      (str "Package: " ++ name) ++
        10 :: 10 :: (str "Pin: version " ++ new ++ 10 :: str "Pin-Priority: -1") := by
    simp [stanzaText]
  rw [htext, pins_append, pins, pins, splitOn_last h₁]
  obtain hnew | ⟨v, rfl, hv⟩ := hnew
  · have h₂ : 10 ∉ str "Pin: version " ++ new := by simpa [List.mem_append] using ⟨by decide, hnew⟩
    rw [splitOn_line h₂, splitOn_last h₃]
    rfl
  · have h₂ : 10 ∉ str "Pin: version " ++ v := by simpa [List.mem_append] using ⟨by decide, hv⟩
    have hrest : str "Pin: version " ++ (v ++ [10]) ++ 10 :: str "Pin-Priority: -1" =
        str "Pin: version " ++ v ++ 10 :: ([] ++ 10 :: str "Pin-Priority: -1") := by
      simp
    rw [hrest, splitOn_line h₂, splitOn_line List.not_mem_nil, splitOn_last h₃]
    rfl

def Change.Kept (c : Change) : Prop :=
  c.old ≠ noVersion ∧ validName c.name ∧ validVersion c.new

instance (c : Change) : Decidable c.Kept := inferInstanceAs (Decidable (_ ∧ _ ∧ _))

def Change.pins (c : Change) : List (Str × Str) := if c.Kept then [(c.name, c.new)] else []

theorem stanza_eq_none (h : stanza c = none) : ¬ c.Kept := by
  rintro ⟨hold, hname, hnew⟩
  simp [stanza, hold, matchesWhole, hname, hnew] at h

theorem pins_stanza (h : stanza c = some text) : ∃ t, text = t ++ [10] ∧ Snapshot.pins t = c.pins := by
  rw [stanza] at h
  split at h
  · exact absurd h (by simp)
  · next hold =>
    split at h
    · next hmatch =>
      refine ⟨stanzaText c.name c.new, (Option.some.inj h).symm, ?_⟩
      rw [Bool.and_eq_true, matchesWhole_iff, matchesWhole_iff] at hmatch
      have hbroken {s : Str} : 10 ∈ s ++ [10] := by simp
      obtain ⟨hname | ⟨name, hname, hn⟩, hnew⟩ := hmatch
      · have hn := newline_notMem_of_validName hname
        obtain hnew | ⟨new, hnew, hv⟩ := hnew
        · rw [Change.pins, if_pos ⟨hold, hname, hnew⟩,
            pins_stanzaText hn (newline_notMem_of_validVersion hnew)]
        · rw [hnew, pins_stanzaText_new hn (newline_notMem_of_validVersion hv), Change.pins,
            if_neg]
          rintro ⟨-, -, hvalid⟩
          exact newline_notMem_of_validVersion hvalid (hnew ▸ hbroken)
      · rw [hname, pins_stanzaText_name (newline_notMem_of_validName hn), Change.pins, if_neg]
        · rintro ⟨-, hvalid, -⟩
          exact newline_notMem_of_validName hvalid (hname ▸ hbroken)
        · obtain hnew | ⟨new, hnew, hv⟩ := hnew
          · exact .inl (newline_notMem_of_validVersion hnew)
          · exact .inr ⟨new, hnew, newline_notMem_of_validVersion hv⟩
    · exact absurd h (by simp)

theorem pins_newline (t : Str) : pins (t ++ [10]) = pins t := by
  rw [pins, List.splitOn_append_cons_self, List.splitOn_nil, pinsOf_append]
  exact List.append_nil _

theorem pins_stanzas (changes : List Change) :
    pins ([10].intercalate (stanzas changes)) = changes.flatMap Change.pins := by
  induction changes with
  | nil => rfl
  | cons c changes ih =>
    rw [List.flatMap_cons, ← ih, stanzas, List.filterMap_cons]
    cases hc : stanza c with
    | none =>
      rw [Change.pins, if_neg (stanza_eq_none hc)]
      rfl
    | some text =>
      obtain ⟨t, rfl, ht⟩ := pins_stanza hc
      rw [← ht]
      cases hrest : changes.filterMap stanza with
      | nil =>
        rw [show stanzas changes = [] from hrest]
        simpa [List.intercalate, show pins [] = [] from rfl] using pins_newline t
      | cons next rest =>
        rw [show stanzas changes = next :: rest from hrest, ← pins_append]
        simp [List.intercalate]

theorem pins_prefsHeader (h : 10 ∉ why) : pins (prefsHeader why) = [] := by
  have h₁ : 10 ∉ str "# Stained Glass OS (sg-snapshot): " ++ why ++
      str ". These versions are not installed again;" := by
    simpa [List.mem_append] using ⟨by decide, h, by decide⟩
  have h₂ : 10 ∉ str "# later ones are. Delete this file to allow them." := by decide
  rw [pins, prefsHeader, splitOn_line h₁, splitOn_last h₂]
  rfl

theorem pins_wentBackPrefs (hwhy : 10 ∉ why)
    (h : wentBackPrefs changes why = some text) : pins text = changes.flatMap Change.pins := by
  rw [wentBackPrefs] at h
  split at h
  · exact absurd h (by simp)
  · rw [← Option.some.inj h, pins_append, pins_prefsHeader hwhy, pins_stanzas, List.nil_append]

theorem wentBackPrefs_eq_none (h : wentBackPrefs changes why = none) : ∀ c ∈ changes, ¬ c.Kept := by
  intro c hc
  apply stanza_eq_none
  rw [wentBackPrefs] at h
  split at h
  · next hnil => exact List.filterMap_eq_nil_iff.mp hnil c hc
  · exact absurd h (by simp)

end StainedGlass.Snapshot
