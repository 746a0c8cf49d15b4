import StainedGlass.Domain.GpoMachine

namespace StainedGlass.Domain.GroupPolicy

open Lib

theorem digit_of_mem_pad2 (h : c ∈ pad2 n) : 48 ≤ c ∧ c ≤ 57 := by
  rw [pad2] at h
  split at h
  · obtain rfl | h := List.mem_cons.mp h
    · decide
    · exact digit_of_mem_dec h
  · exact digit_of_mem_dec h

def decimalDigit (c : Nat) : Option Nat := if 48 ≤ c ∧ c ≤ 57 then some (c - 48) else none

theorem digitsValue_pad2 (n : Nat) : digitsValue decimalDigit (pad2 n) = some n := by
  have hdec : digitsValue decimalDigit (dec n) = some n :=
    digitsValue_dec (fun c hlo hhi => if_pos ⟨hlo, hhi⟩) n
  rw [pad2]
  split
  · exact hdec
  · exact hdec

theorem pad2_injective : Function.Injective pad2 := by
  intro n m h
  have hvalue := congrArg (digitsValue decimalDigit) h
  rwa [digitsValue_pad2, digitsValue_pad2, Option.some.injEq] at hvalue

theorem dec_injective : Function.Injective dec := by
  intro n m h
  have hdec (n : Nat) : digitsValue decimalDigit (dec n) = some n :=
    digitsValue_dec (fun c hlo hhi => if_pos ⟨hlo, hhi⟩) n
  have hvalue := congrArg (digitsValue decimalDigit) h
  rwa [hdec, hdec, Option.some.injEq] at hvalue

theorem append_cons_inj (hx : c ∉ x) (hx' : c ∉ x') (h : x ++ c :: y = x' ++ c :: y') : x = x' ∧ y = y' := by
  induction x generalizing x' with
  | nil =>
    cases x' with
    | nil => exact ⟨rfl, (List.cons.inj h).2⟩
    | cons a x' =>
      obtain ⟨rfl, -⟩ := List.cons.inj h
      exact absurd List.mem_cons_self hx'
  | cons a x ih =>
    cases x' with
    | nil =>
      obtain ⟨rfl, -⟩ := List.cons.inj h
      exact absurd List.mem_cons_self hx
    | cons a' x' =>
      obtain ⟨rfl, htail⟩ := List.cons.inj h
      obtain ⟨rfl, rfl⟩ := ih (fun hc => hx (.tail _ hc)) (fun hc => hx' (.tail _ hc)) htail
      exact ⟨rfl, rfl⟩

theorem notMem_pad2 (n : Nat) (h : ¬ (48 ≤ c ∧ c ≤ 57)) : c ∉ pad2 n := fun hc =>
  h (digit_of_mem_pad2 hc)

theorem policyName_inj (h : policyName n name = policyName m name') : n = m ∧ name = name' := by
  obtain ⟨hn, hname⟩ := append_cons_inj (notMem_pad2 n (by decide)) (notMem_pad2 m (by decide))
    (List.append_cancel_left h)
  exact ⟨pad2_injective hn, List.append_cancel_right hname⟩

theorem isDomainPolicy_policyName (n : Nat) (name : Str) : isDomainPolicy (policyName n name) = true := by
  have hdrop : (policyName n name).drop 10 = pad2 n ++ 45 :: (name ++ str ".pol") := rfl
  rw [isDomainPolicy, hdrop, Bool.and_eq_true, List.isPrefixOf_iff_prefix, List.isSuffixOf_iff_suffix]
  exact ⟨List.prefix_append _ _, (pad2 n ++ 45 :: name), by simp⟩

theorem scriptDest_inj (h : scriptDest n i cmd = scriptDest m j cmd') : n = m ∧ i = j := by
  obtain ⟨-, h⟩ := List.cons.inj (List.append_cancel_left h)
  obtain ⟨hn, h⟩ := append_cons_inj (notMem_pad2 n (by decide)) (notMem_pad2 m (by decide)) h
  obtain ⟨hi, -⟩ := append_cons_inj (notMem_dec i (by decide)) (notMem_dec j (by decide)) h
  exact ⟨pad2_injective hn, dec_injective hi⟩

theorem safe_safeName (h : c ∈ safeName name) : isSafe c = true := by
  simp only [safeName] at h
  split at h
  · revert c
    decide
  · obtain ⟨a, -, rfl⟩ := List.mem_map.mp (List.dropWhile_subset _ h)
    split
    · assumption
    · rfl

theorem tab_notMem_scriptDest (n i : Nat) (cmd : Str) : 9 ∉ scriptDest n i cmd := by
  simp only [scriptDest, List.mem_append, List.mem_cons, not_or]
  refine ⟨by decide, by decide, notMem_pad2 n (by decide), by decide, notMem_dec i (by decide), by decide, fun h => ?_⟩
  exact absurd (safe_safeName h) (by decide)

@[simp] theorem Files.put_self (files : Files) (name : Str) (data : Bytes) : files.put name data name = some data :=
  if_pos rfl

theorem Files.put_of_ne (files : Files) (data : Bytes) (h : f ≠ name) : files.put name data f = files f :=
  if_neg h

def PolicyFetched (u : Unicode) (answer : Call → Smb) (x : Gpo × Nat) (data : Bytes) : Prop :=
  ∃ rel, x.1.rel u = some rel ∧ fetchPolicy answer x.2 rel = .file data

def PolicyTimesOut (u : Unicode) (answer : Call → Smb) (x : Gpo × Nat) : Prop :=
  ∃ rel, x.1.rel u = some rel ∧ fetchPolicy answer x.2 rel = .timeout

def Puts (u : Unicode) (answer : Call → Smb) (x : Gpo × Nat) (f : Str) : Prop :=
  f = policyName x.2 x.1.name ∧ ∃ data, PolicyFetched u answer x data

section Policies

variable {u : Unicode} {answer : Call → Smb} {n : Nat} {g : Gpo} {gpos : List Gpo} {p q : Pass} {ended : Bool}

structure Passed (u : Unicode) (answer : Call → Smb) (xs : List (Gpo × Nat)) (p q : Pass) (ended : Bool) : Prop where
  timeout : ended = false ↔ ∃ x ∈ xs, PolicyTimesOut u answer x
  left : ∀ f, (∀ x ∈ xs, ¬ Puts u answer x f) → q.policies f = p.policies f
  stays : ∀ f, p.policies f ≠ none → q.policies f ≠ none
  keep : ∀ f ∈ q.keep, f ∈ p.keep ∨ ∃ x ∈ xs, Puts u answer x f
  kept : p.keep ⊆ q.keep
  installed : ended = true → ∀ x ∈ xs, ∀ data, PolicyFetched u answer x data →
    policyName x.2 x.1.name ∈ q.keep ∧ q.policies (policyName x.2 x.1.name) = some data
  rels : ended = true → ∀ y, y ∈ q.rels ↔ y ∈ p.rels ∨ ∃ x ∈ xs, ∃ rel, x.1.rel u = some rel ∧ y = (x.2, slashed rel)

theorem Passed.nil : Passed u answer [] p p true :=
  ⟨by simp, fun _ _ => rfl, fun _ h => h, fun _ h => .inl h, List.Subset.refl _, by simp, by simp⟩

theorem Passed.abandoned (xs : List (Gpo × Nat)) (h : PolicyTimesOut u answer x) (rels : List (Nat × Str)) :
    Passed u answer (x :: xs) p { p with rels } false := by
  refine ⟨?_, fun _ _ => rfl, fun _ h => h, fun _ h => .inl h, List.Subset.refl _, by simp, by simp⟩
  exact iff_of_true rfl ⟨x, List.mem_cons_self, h⟩

theorem Passed.skip {x : Gpo × Nat} {rels : List (Nat × Str)}
    (h : Passed u answer xs { p with rels } q ended) (hfetched : ∀ data, ¬ PolicyFetched u answer x data)
    (htimeout : ¬ PolicyTimesOut u answer x)
    (hrels : ∀ y, y ∈ rels ↔ y ∈ p.rels ∨ ∃ rel, x.1.rel u = some rel ∧ y = (x.2, slashed rel)) :
    Passed u answer (x :: xs) p q ended := by
  have hputs (f : Str) : ¬ Puts u answer x f := by
    rintro ⟨-, data, hdata⟩
    exact hfetched data hdata
  refine ⟨?_, ?_, h.stays, ?_, h.kept, ?_, ?_⟩
  · simp only [h.timeout, List.exists_mem_cons_iff, htimeout, false_or]
  · intro f hf
    exact h.left f fun y hy => hf y (.tail _ hy)
  · intro f hf
    simp only [List.exists_mem_cons_iff, hputs, false_or]
    exact h.keep f hf
  · intro hended
    rw [List.forall_mem_cons]
    exact ⟨fun data hdata => absurd hdata (hfetched data), h.installed hended⟩
  · intro hended y
    rw [h.rels hended, hrels, List.exists_mem_cons_iff, or_assoc]

theorem Passed.install {x : Gpo × Nat} {rels : List (Nat × Str)}
    (hx : PolicyFetched u answer x data) (hxs : ∀ y ∈ xs, y.2 ≠ x.2)
    (h : Passed u answer xs ⟨p.policies.put (policyName x.2 x.1.name) data, policyName x.2 x.1.name :: p.keep, rels⟩ q ended)
    (hrels : ∀ y, y ∈ rels ↔ y ∈ p.rels ∨ ∃ rel, x.1.rel u = some rel ∧ y = (x.2, slashed rel)) :
    Passed u answer (x :: xs) p q ended := by
  have hputs : Puts u answer x (policyName x.2 x.1.name) := ⟨rfl, data, hx⟩
  have htimeout : ¬ PolicyTimesOut u answer x := by
    rintro ⟨rel, hrel, htimeout⟩
    obtain ⟨rel', hrel', hfile⟩ := hx
    cases hrel.symm.trans hrel'
    cases htimeout.symm.trans hfile
  refine ⟨?_, ?_, ?_, ?_, ?_, ?_, ?_⟩
  · simp only [h.timeout, List.exists_mem_cons_iff, htimeout, false_or]
  · intro f hf
    rw [List.forall_mem_cons] at hf
    rw [h.left f hf.2]
    exact Files.put_of_ne _ _ fun heq => hf.1 (heq ▸ hputs)
  · intro f hf
    refine h.stays f ?_
    by_cases heq : f = policyName x.2 x.1.name
    · simp [heq]
    · exact fun hnone => hf ((Files.put_of_ne _ _ heq).symm.trans hnone)
  · intro f hf
    rw [List.exists_mem_cons_iff]
    obtain hf | hf := h.keep f hf
    · obtain rfl | hf := List.mem_cons.mp hf
      · exact .inr (.inl hputs)
      · exact .inl hf
    · exact .inr (.inr hf)
  · exact fun f hf => h.kept (.tail _ hf)
  · intro hended
    rw [List.forall_mem_cons]
    refine ⟨fun data' hdata' => ⟨h.kept List.mem_cons_self, ?_⟩, h.installed hended⟩
    have hsame : data' = data := by
      obtain ⟨rel, hrel, hfile⟩ := hx
      obtain ⟨rel', hrel', hfile'⟩ := hdata'
      cases hrel.symm.trans hrel'
      cases hfile.symm.trans hfile'
      rfl
    rw [hsame]
    refine (h.left _ ?_).trans (Files.put_self ..)
    rintro y hy ⟨hname, -⟩
    exact hxs y hy (policyName_inj hname).1.symm
  · intro hended y
    rw [h.rels hended, hrels, List.exists_mem_cons_iff, or_assoc]

theorem passed_fetchPolicies (n : Nat) (gpos : List Gpo) (p : Pass) :
    Passed u answer (gpos.zipIdx n) p (fetchPolicies u answer n gpos p).1 (fetchPolicies u answer n gpos p).2 := by
  induction gpos generalizing n p with
  | nil => exact .nil
  | cons g gpos ih =>
    rw [List.zipIdx_cons, fetchPolicies]
    have hlater : ∀ y ∈ gpos.zipIdx (n + 1), y.2 ≠ n := fun y hy => by
      have := List.le_snd_of_mem_zipIdx hy
      omega
    cases hrel : g.rel u with
    | none =>
      refine Passed.skip (ih (n + 1) p) ?_ ?_ ?_
      · rintro data ⟨rel, hrel', -⟩
        cases hrel.symm.trans hrel'
      · rintro ⟨rel, hrel', -⟩
        cases hrel.symm.trans hrel'
      · simp [hrel]
    | some rel =>
      simp only
      have hrels (y : Nat × Str) : y ∈ p.rels ++ [(n, slashed rel)] ↔
          y ∈ p.rels ∨ ∃ rel', g.rel u = some rel' ∧ y = (n, slashed rel') := by
        simp [hrel]
      cases hfetch : fetchPolicy answer n rel with
      | timeout => exact .abandoned _ ⟨rel, hrel, hfetch⟩ _
      | nothing =>
        refine Passed.skip (ih (n + 1) _) ?_ ?_ hrels
        · rintro data ⟨rel', hrel', hfetch'⟩
          cases hrel.symm.trans hrel'
          cases hfetch.symm.trans hfetch'
        · rintro ⟨rel', hrel', hfetch'⟩
          cases hrel.symm.trans hrel'
          cases hfetch.symm.trans hfetch'
      | file data =>
        have hx : PolicyFetched u answer (g, n) data := ⟨rel, hrel, hfetch⟩
        exact Passed.install hx hlater (ih (n + 1) _) hrels

end Policies

structure Added (file : Str → Bytes → Str → Prop) (other : Str → Prop) (s t : Scripts) : Prop where
  files : ∀ path data, t.files path = some data → s.files path = some data ∨ ∃ line, file path data line
  stays : ∀ path, s.files path ≠ none → t.files path ≠ none
  lines : ∀ line ∈ t.lines, line ∈ s.lines ∨ (∃ path data, file path data line) ∨ other line
  kept : s.lines ⊆ t.lines
  fetched : ∀ path data line, file path data line → t.files path ≠ none ∧ line ∈ t.lines

section Added

variable {file file' : Str → Bytes → Str → Prop} {other other' : Str → Prop} {s t v : Scripts}

theorem Added.refl (hfile : ∀ path data line, ¬ file path data line) : Added file other s s :=
  ⟨fun _ _ h => .inl h, fun _ h => h, fun _ h => .inl h, List.Subset.refl _,
    fun path data line h => absurd h (hfile path data line)⟩

theorem Added.trans (h : Added file other s t) (h' : Added file' other' t v) :
    Added (fun path data line => file path data line ∨ file' path data line)
      (fun line => other line ∨ other' line) s v := by
  refine ⟨?_, fun path hpath => h'.stays path (h.stays path hpath), ?_, List.Subset.trans h.kept h'.kept, ?_⟩
  · intro path data hv
    obtain ht | ⟨line, hline⟩ := h'.files path data hv
    · obtain hs | ⟨line, hline⟩ := h.files path data ht
      · exact .inl hs
      · exact .inr ⟨line, .inl hline⟩
    · exact .inr ⟨line, .inr hline⟩
  · intro line hv
    obtain ht | ⟨path, data, hline⟩ | hline := h'.lines line hv
    · obtain hs | ⟨path, data, hline⟩ | hline := h.lines line ht
      · exact .inl hs
      · exact .inr (.inl ⟨path, data, .inl hline⟩)
      · exact .inr (.inr (.inl hline))
    · exact .inr (.inl ⟨path, data, .inr hline⟩)
    · exact .inr (.inr (.inr hline))
  · rintro path data line (hline | hline)
    · obtain ⟨hpath, hmem⟩ := h.fetched path data line hline
      exact ⟨h'.stays path hpath, h'.kept hmem⟩
    · exact h'.fetched path data line hline

theorem Added.congr (h : Added file other s t) (hfile : ∀ path data line, file path data line ↔ file' path data line)
    (hother : ∀ line, other line ↔ other' line) : Added file' other' s t := by
  obtain rfl : file = file' := funext fun path => funext fun data => funext fun line => propext (hfile path data line)
  obtain rfl : other = other' := funext fun line => propext (hother line)
  exact h

theorem Added.put (path : Str) (data : Bytes) (line : Str) :
    Added (fun path' data' line' => .fetched path data line = Entry.fetched path' data' line')
      (fun _ => False) s ⟨s.files.put path data, s.lines ++ [line]⟩ := by
  refine ⟨?_, ?_, ?_, List.subset_append_left _ _, ?_⟩
  · intro path' data' h
    by_cases heq : path' = path
    · subst heq
      obtain rfl : data = data' := Option.some.inj ((Files.put_self ..).symm.trans h)
      exact .inr ⟨line, rfl⟩
    · exact .inl ((Files.put_of_ne _ _ heq).symm.trans h)
  · intro path' h
    by_cases heq : path' = path
    · simp [heq]
    · exact fun hnone => h ((Files.put_of_ne _ _ heq).symm.trans hnone)
  · intro line' h
    obtain h | h := List.mem_append.mp h
    · exact .inl h
    · exact .inr (.inl ⟨path, data, List.mem_singleton.mp h ▸ rfl⟩)
  · rintro path' data' line' ⟨⟩
    exact ⟨by simp, by simp⟩

theorem Added.list (line : Str) :
    Added (fun _ _ _ => False) (· = line) s { s with lines := s.lines ++ [line] } := by
  refine ⟨fun _ _ h => .inl h, fun _ h => h, ?_, List.subset_append_left _ _, fun _ _ _ h => h.elim⟩
  intro line' h
  obtain h | h := List.mem_append.mp h
  · exact .inl h
  · exact .inr (.inr (List.mem_singleton.mp h))

end Added

section Scripts

variable {answer : Call → Smb} {n : Nat} {rel : Str}

theorem fetchEntries_ended (i : Nat) (entries : List (Str × Str)) (s : Scripts) :
    (fetchEntries answer n rel i entries s).2 = false ↔
      ∃ x ∈ entries.zipIdx i, fetchEntry answer n x.2 rel x.1 = .raised := by
  induction entries generalizing i s with
  | nil => simp [fetchEntries]
  | cons e entries ih =>
    rw [List.zipIdx_cons, List.exists_mem_cons_iff, fetchEntries]
    cases hentry : fetchEntry answer n i rel e with
    | nothing => simp [ih]
    | listed line => simp [ih]
    | fetched path data line => simp [ih]
    | raised => simp

theorem added_fetchEntries (i : Nat) (entries : List (Str × Str)) (s : Scripts)
    (h : (fetchEntries answer n rel i entries s).2 = true) :
    Added (fun path data line => ∃ x ∈ entries.zipIdx i, fetchEntry answer n x.2 rel x.1 = .fetched path data line)
      (fun line => ∃ x ∈ entries.zipIdx i, fetchEntry answer n x.2 rel x.1 = .listed line) s
      (fetchEntries answer n rel i entries s).1 := by
  induction entries generalizing i s with
  | nil => exact .refl (by simp)
  | cons e entries ih =>
    simp only [List.zipIdx_cons, List.exists_mem_cons_iff]
    rw [fetchEntries] at h ⊢
    cases hentry : fetchEntry answer n i rel e with
    | nothing =>
      rw [hentry] at h
      simpa [hentry] using ih (i + 1) s h
    | listed line =>
      rw [hentry] at h
      refine ((Added.list line).trans (ih (i + 1) _ h)).congr ?_ ?_
      · simp
      · simp [eq_comm]
    | fetched path data line =>
      rw [hentry] at h
      refine ((Added.put path data line).trans (ih (i + 1) _ h)).congr ?_ ?_
      · simp
      · simp
    | raised =>
      rw [hentry] at h
      cases h

def Comes (u : Unicode) (read : ReadIni) (answer : Call → Smb) (y : Nat × Str) (x : (Str × Str) × Nat) (result : Entry) : Prop :=
  ∃ ini, fetchIni answer y.1 y.2 = .file ini ∧ x ∈ (startupEntries u read ini).zipIdx ∧
    fetchEntry answer y.1 x.2 y.2 x.1 = result

def ScriptsTimeOut (u : Unicode) (read : ReadIni) (answer : Call → Smb) (y : Nat × Str) : Prop :=
  fetchIni answer y.1 y.2 = .timeout ∨ ∃ x, Comes u read answer y x .raised

variable {u : Unicode} {read : ReadIni}

theorem fetchStartupScripts_ended (rels : List (Nat × Str)) (s : Scripts) :
    (fetchStartupScripts u read answer rels s).2 = false ↔ ∃ y ∈ rels, ScriptsTimeOut u read answer y := by
  induction rels generalizing s with
  | nil => simp [fetchStartupScripts]
  | cons y rels ih =>
    obtain ⟨n, rel⟩ := y
    rw [List.exists_mem_cons_iff, fetchStartupScripts]
    cases hini : fetchIni answer n rel with
    | timeout => simp [ScriptsTimeOut, hini]
    | nothing => simp [ScriptsTimeOut, Comes, hini, ih]
    | file data =>
      have hraised : ScriptsTimeOut u read answer (n, rel) ↔
          (fetchEntries answer n rel 0 (startupEntries u read data) s).2 = false := by
        rw [fetchEntries_ended]
        simp [ScriptsTimeOut, Comes, hini]
      simp only [hraised]
      by_cases hended : (fetchEntries answer n rel 0 (startupEntries u read data) s).2 = true
      · rw [if_pos hended, ih]
        simp [hended]
      · rw [if_neg hended]
        simp [Bool.eq_false_of_not_eq_true hended]

theorem added_fetchStartupScripts (rels : List (Nat × Str)) (s : Scripts)
    (h : (fetchStartupScripts u read answer rels s).2 = true) :
    Added (fun path data line => ∃ y ∈ rels, ∃ x, Comes u read answer y x (.fetched path data line))
      (fun line => ∃ y ∈ rels, ∃ x, Comes u read answer y x (.listed line)) s
      (fetchStartupScripts u read answer rels s).1 := by
  induction rels generalizing s with
  | nil => exact .refl (by simp)
  | cons y rels ih =>
    obtain ⟨n, rel⟩ := y
    simp only [List.exists_mem_cons_iff]
    rw [fetchStartupScripts] at h ⊢
    cases hini : fetchIni answer n rel with
    | timeout =>
      rw [hini] at h
      cases h
    | nothing =>
      rw [hini] at h
      simpa [Comes, hini] using ih s h
    | file data =>
      rw [hini] at h
      simp only at h ⊢
      by_cases hended : (fetchEntries answer n rel 0 (startupEntries u read data) s).2 = true
      · rw [if_pos hended] at h ⊢
        refine ((added_fetchEntries 0 _ s hended).trans (ih _ h)).congr ?_ ?_
        · simp [Comes, hini]
        · simp [Comes, hini]
      · rw [if_neg hended] at h
        exact absurd h hended

theorem fetchEntry_fetched {e : Str × Str} (h : fetchEntry answer n i rel e = .fetched path data line) :
    path = scriptDest n i e.1 ∧ line = scriptLine path e.2 := by
  rw [fetchEntry] at h
  split at h
  · cases h
  · cases h
  · split at h
    · cases h
    · cases h
    · cases h
      exact ⟨rfl, rfl⟩

theorem fetchEntry_listed {e : Str × Str} (h : fetchEntry answer n i rel e = .listed line) :
    line = scriptLine e.1 e.2 ∧ e.1.head? ≠ some 47 := by
  rw [fetchEntry, source] at h
  split at h
  · cases h
  · next hsource =>
    cases h
    refine ⟨rfl, fun hhead => ?_⟩
    obtain ⟨rest, hcmd⟩ := List.head?_eq_some_iff.mp hhead
    have hdrive : isDrive e.1 = false := by
      rw [hcmd]
      cases rest with
      | nil => rfl
      | cons c rest => by_cases hc : c = 58 <;> simp [isDrive, hc]
    have hunc : [92, 92].isPrefixOf e.1 = false := by
      rw [hcmd]
      rfl
    rw [hunc, hdrive] at hsource
    simp only [Bool.false_eq_true, if_false, gpoSource] at hsource
    split at hsource <;> cases hsource
  · split at h <;> cases h

end Scripts

def Placed (u : Unicode) (gpos : List Gpo) (y : Nat × Str) : Prop :=
  ∃ x ∈ gpos.zipIdx, ∃ rel, x.1.rel u = some rel ∧ y = (x.2, slashed rel)

def Provides (m : Machine) (data : Bytes) (params : Str) : Prop :=
  ∃ path lines, m.scripts path = some data ∧ m.list = some lines ∧ scriptLine path params ∈ lines

def Supplies (u : Unicode) (read : ReadIni) (answer : Call → Smb) (gpos : List Gpo) (data : Bytes) (params : Str) : Prop :=
  ∃ y x path line, Placed u gpos y ∧ Comes u read answer y x (.fetched path data line) ∧ x.1.2 = params

section Run

variable {u : Unicode} {read : ReadIni} {answer : Call → Smb} {gpos : List Gpo} {m : Machine} {data : Bytes}
  {params : Str}

theorem Placed.unique {y y' : Nat × Str} (h : Placed u gpos y) (h' : Placed u gpos y') (heq : y.1 = y'.1) : y = y' := by
  obtain ⟨x, hx, rel, hrel, rfl⟩ := h
  obtain ⟨x', hx', rel', hrel', rfl⟩ := h'
  rw [List.mem_zipIdx_iff_getElem?] at hx hx'
  simp only at heq
  rw [heq, hx'] at hx
  cases hrel'.symm.trans ((Option.some.inj hx) ▸ hrel)
  rw [heq]

theorem Comes.unique {x x' : (Str × Str) × Nat} (h : Comes u read answer y x r)
    (h' : Comes u read answer y x' r') (heq : x.2 = x'.2) : x = x' ∧ r = r' := by
  obtain ⟨ini, hini, hx, hr⟩ := h
  obtain ⟨ini', hini', hx', hr'⟩ := h'
  cases hini.symm.trans hini'
  rw [List.mem_zipIdx_iff_getElem?] at hx hx'
  rw [heq, hx'] at hx
  obtain rfl : x' = x := Prod.ext (Option.some.inj hx) heq.symm
  exact ⟨rfl, hr.symm.trans hr'⟩

theorem Supplies.provides {s : Scripts} (hadded : Added (fun path data line => ∃ y, Placed u gpos y ∧ ∃ x,
      Comes u read answer y x (.fetched path data line))
      (fun line => ∃ y, Placed u gpos y ∧ ∃ x, Comes u read answer y x (.listed line)) ⟨fun _ => none, []⟩ s) :
    Supplies u read answer gpos data params ↔
      ∃ path, s.files path = some data ∧ scriptLine path params ∈ s.lines := by
  constructor
  · rintro ⟨y, x, path, line, hy, hx, rfl⟩
    obtain ⟨hpath, hline⟩ := hadded.fetched path data line ⟨y, hy, x, hx⟩
    obtain ⟨ini, hini, hmem, hentry⟩ := id hx
    obtain ⟨hdest, rfl⟩ := fetchEntry_fetched hentry
    obtain ⟨data', hdata'⟩ := Option.ne_none_iff_exists'.mp hpath
    obtain hnone | ⟨line', y', hy', x', hx'⟩ := hadded.files path data' hdata'
    · cases hnone
    · obtain ⟨-, -, -, hentry'⟩ := id hx'
      obtain ⟨hdest', -⟩ := fetchEntry_fetched hentry'
      obtain ⟨hn, hi⟩ := scriptDest_inj (hdest.symm.trans hdest')
      obtain rfl := hy.unique hy' hn
      cases (hx.unique hx' hi).2
      exact ⟨path, hdata', hline⟩
  · rintro ⟨path, hpath, hline⟩
    obtain hnone | ⟨line, y, hy, x, hx⟩ := hadded.files path data hpath
    · cases hnone
    obtain ⟨-, -, -, hentry⟩ := id hx
    obtain ⟨hdest, -⟩ := fetchEntry_fetched hentry
    have htab : 9 ∉ path := hdest ▸ tab_notMem_scriptDest _ _ _
    obtain hnil | ⟨path', data', y', hy', x', hx'⟩ | ⟨y', hy', x', -, -, -, hentry'⟩ := hadded.lines _ hline
    · cases hnil
    · obtain ⟨-, -, -, hentry'⟩ := id hx'
      obtain ⟨hdest', hline'⟩ := fetchEntry_fetched hentry'
      obtain ⟨rfl, hparams⟩ := append_cons_inj htab (hdest' ▸ tab_notMem_scriptDest _ _ _) hline'
      obtain ⟨hn, hi⟩ := scriptDest_inj (hdest.symm.trans hdest')
      obtain rfl := hy.unique hy' hn
      obtain ⟨rfl, -⟩ := hx.unique hx' hi
      exact ⟨y, x, path, line, hy, hx, hparams.symm⟩
    · obtain ⟨hline', hhead⟩ := fetchEntry_listed hentry'
      have hslash : (scriptLine path params).head? = some 47 := by
        rw [hdest]
        rfl
      rw [hline', scriptLine] at hslash
      cases hcmd : x'.1.1 with
      | nil =>
        rw [hcmd] at hslash
        cases hslash
      | cons c rest =>
        rw [hcmd] at hslash hhead
        exact absurd hslash hhead

def GivenUp (u : Unicode) (answer : Call → Smb) (gpos : List Gpo) : Prop :=
  ∃ x ∈ gpos.zipIdx, PolicyTimesOut u answer x

def firstPass (u : Unicode) (answer : Call → Smb) (gpos : List Gpo) (m : Machine) : Pass × Bool :=
  fetchPolicies u answer 0 gpos ⟨m.policies, [], []⟩

def secondPass (u : Unicode) (read : ReadIni) (answer : Call → Smb) (gpos : List Gpo) (m : Machine) : Scripts × Bool :=
  fetchStartupScripts u read answer (firstPass u answer gpos m).1.rels ⟨fun _ => none, []⟩

theorem passed_firstPass (u : Unicode) (answer : Call → Smb) (gpos : List Gpo) (m : Machine) :
    Passed u answer gpos.zipIdx ⟨m.policies, [], []⟩ (firstPass u answer gpos m).1 (firstPass u answer gpos m).2 :=
  passed_fetchPolicies 0 gpos _

theorem gpoRun_givenUp (h : GivenUp u answer gpos) :
    gpoRun u read answer gpos m = { m with policies := (firstPass u answer gpos m).1.policies } := by
  have hended := (passed_firstPass u answer gpos m).timeout.mpr h
  exact if_neg (Bool.eq_false_iff.mp hended)

theorem firstPass_ended (h : ¬ GivenUp u answer gpos) : (firstPass u answer gpos m).2 = true :=
  Bool.eq_true_of_not_eq_false fun hfalse => h ((passed_firstPass u answer gpos m).timeout.mp hfalse)

theorem gpoRun_of_not_givenUp (h : ¬ GivenUp u answer gpos) :
    gpoRun u read answer gpos m =
      ⟨removeStale (firstPass u answer gpos m).1.keep (firstPass u answer gpos m).1.policies,
        (secondPass u read answer gpos m).1.files,
        if (secondPass u read answer gpos m).2 then some (secondPass u read answer gpos m).1.lines else none⟩ :=
  if_pos (firstPass_ended h)

theorem mem_rels_iff (h : ¬ GivenUp u answer gpos) : y ∈ (firstPass u answer gpos m).1.rels ↔ Placed u gpos y := by
  rw [(passed_firstPass u answer gpos m).rels (firstPass_ended h), or_iff_right List.not_mem_nil]
  rfl

theorem provides_gpoRun (h : ¬ GivenUp u answer gpos) :
    Provides (gpoRun u read answer gpos m) data params ↔
      (∀ y, Placed u gpos y → ¬ ScriptsTimeOut u read answer y) ∧ Supplies u read answer gpos data params := by
  have hended : (secondPass u read answer gpos m).2 = false ↔ ∃ y, Placed u gpos y ∧ ScriptsTimeOut u read answer y := by
    rw [secondPass, fetchStartupScripts_ended]
    simp only [mem_rels_iff h]
  rw [gpoRun_of_not_givenUp h]
  cases hsecond : (secondPass u read answer gpos m).2 with
  | false =>
    obtain ⟨y, hy, htimeout⟩ := hended.mp hsecond
    refine iff_of_false ?_ fun hall => hall.1 y hy htimeout
    rintro ⟨path, lines, -, hlist, -⟩
    cases hlist
  | true =>
    have hadded : Added _ _ _ (secondPass u read answer gpos m).1 := added_fetchStartupScripts _ _ hsecond
    simp only [mem_rels_iff h] at hadded
    have hnone : ∀ y, Placed u gpos y → ¬ ScriptsTimeOut u read answer y := fun y hy htimeout => by
      rw [hended.mpr ⟨y, hy, htimeout⟩] at hsecond
      cases hsecond
    rw [and_iff_right hnone, Supplies.provides hadded]
    constructor
    · rintro ⟨path, lines, hpath, ⟨⟩, hline⟩
      exact ⟨path, hpath, hline⟩
    · rintro ⟨path, hpath, hline⟩
      exact ⟨path, _, hpath, rfl, hline⟩

/-- Neither at its place nor, should it apply twice, at another is the GPO's policy fetched. -/
def PolicyUnfetched (u : Unicode) (answer : Call → Smb) (gpos : List Gpo) (name : Str) : Prop :=
  ∀ x ∈ gpos.zipIdx, x.1.name = name → ∀ data, ¬ PolicyFetched u answer x data

structure Previous where
  gpo : Str
  cmd : Str
  params : Str
  data : Bytes

def Previous.Remains (p : Previous) (u : Unicode) (read : ReadIni) (answer : Call → Smb) (gpos : List Gpo) : Prop :=
  ∀ x ∈ gpos.zipIdx, x.1.name = p.gpo → ∀ rel ini, x.1.rel u = some rel →
    fetchIni answer x.2 (slashed rel) = .file ini → (p.cmd, p.params) ∈ startupEntries u read ini

def Previous.Fetched (p : Previous) (u : Unicode) (read : ReadIni) (answer : Call → Smb) (gpos : List Gpo) : Prop :=
  ∃ x ∈ gpos.zipIdx, x.1.name = p.gpo ∧ ∃ rel i path data line, x.1.rel u = some rel ∧
    Comes u read answer (x.2, slashed rel) ((p.cmd, p.params), i) (.fetched path data line)

def Previous.Unfetched (p : Previous) (u : Unicode) (read : ReadIni) (answer : Call → Smb) (gpos : List Gpo) : Prop :=
  p.Remains u read answer gpos ∧
    ((∃ y, Placed u gpos y ∧ ScriptsTimeOut u read answer y) ∨ ¬ p.Fetched u read answer gpos)

structure Keeps (u : Unicode) (read : ReadIni) (answer : Call → Smb) (gpos : List Gpo) (m : Machine)
    (prev : List Previous) : Prop where
  policies : ∀ name ∈ gpos.map Gpo.name, PolicyUnfetched u answer gpos name →
    ∀ n data, m.policies (policyName n name) = some data →
      ∃ k, (gpoRun u read answer gpos m).policies (policyName k name) = some data
  scripts : ∀ p ∈ prev, p.gpo ∈ gpos.map Gpo.name → Provides m p.data p.params →
    p.Unfetched u read answer gpos → Provides (gpoRun u read answer gpos m) p.data p.params
  lost : ∀ name n, m.policies (policyName n name) ≠ none →
    (∀ k, (gpoRun u read answer gpos m).policies (policyName k name) = none) → name ∉ gpos.map Gpo.name

theorem policies_unfetched (h : ¬ GivenUp u answer gpos) (hname : PolicyUnfetched u answer gpos name) (k : Nat) :
    (gpoRun u read answer gpos m).policies (policyName k name) = none := by
  have hkeep : policyName k name ∉ (firstPass u answer gpos m).1.keep := by
    intro hmem
    obtain hnil | ⟨x, hx, heq, data, hdata⟩ := (passed_firstPass u answer gpos m).keep _ hmem
    · cases hnil
    · exact hname x hx (policyName_inj heq).2.symm data hdata
  rw [gpoRun_of_not_givenUp h]
  exact if_pos ⟨isDomainPolicy_policyName k name, hkeep⟩

theorem policies_fetched (h : ¬ GivenUp u answer gpos) {x : Gpo × Nat} (hx : x ∈ gpos.zipIdx)
    (hdata : PolicyFetched u answer x data) :
    (gpoRun u read answer gpos m).policies (policyName x.2 x.1.name) = some data := by
  obtain ⟨hkeep, hpolicy⟩ := (passed_firstPass u answer gpos m).installed (firstPass_ended h) x hx data hdata
  rw [gpoRun_of_not_givenUp h]
  exact (if_neg fun hstale => hstale.2 hkeep).trans hpolicy

theorem policies_givenUp (h : GivenUp u answer gpos) (hname : PolicyUnfetched u answer gpos name) (n : Nat) :
    (gpoRun u read answer gpos m).policies (policyName n name) = m.policies (policyName n name) := by
  rw [gpoRun_givenUp h]
  apply (passed_firstPass u answer gpos m).left
  rintro x hx ⟨heq, data, hdata⟩
  exact hname x hx (policyName_inj heq).2.symm data hdata

theorem keeps_givenUp (h : GivenUp u answer gpos) (prev : List Previous) : Keeps u read answer gpos m prev := by
  refine ⟨fun name _ hname n data hdata => ⟨n, by rw [policies_givenUp h hname, hdata]⟩, ?_, ?_⟩
  · intro p _ _ hprovides _
    rw [gpoRun_givenUp h]
    exact hprovides
  · intro name n hinstalled hgone
    rw [gpoRun_givenUp h] at hgone
    exact absurd (hgone n) ((passed_firstPass u answer gpos m).stays _ hinstalled)

/-- When a run keeps what it could not fetch. -/
theorem gpoRun_keeps_iff (u : Unicode) (read : ReadIni) (answer : Call → Smb) (gpos : List Gpo) (m : Machine)
    (prev : List Previous) : Keeps u read answer gpos m prev ↔
      GivenUp u answer gpos ∨
      (∀ name ∈ gpos.map Gpo.name, PolicyUnfetched u answer gpos name → ∀ n, m.policies (policyName n name) = none) ∧
      ∀ p ∈ prev, p.gpo ∈ gpos.map Gpo.name → Provides m p.data p.params → p.Unfetched u read answer gpos →
        (∀ y, Placed u gpos y → ¬ ScriptsTimeOut u read answer y) ∧ Supplies u read answer gpos p.data p.params := by
  by_cases hgiven : GivenUp u answer gpos
  · exact iff_of_true (keeps_givenUp hgiven prev) (.inl hgiven)
  rw [or_iff_right hgiven]
  constructor
  · intro h
    refine ⟨fun name hname hunfetched n => ?_, fun p hp hgpo hprovides hunfetched => ?_⟩
    · by_contra hinstalled
      obtain ⟨data, hdata⟩ := Option.ne_none_iff_exists'.mp hinstalled
      obtain ⟨k, hk⟩ := h.policies name hname hunfetched n data hdata
      cases hk.symm.trans (policies_unfetched hgiven hunfetched k)
    · exact (provides_gpoRun hgiven).mp (h.scripts p hp hgpo hprovides hunfetched)
  · rintro ⟨hpolicies, hscripts⟩
    refine ⟨fun name hname hunfetched n data hdata => ?_, fun p hp hgpo hprovides hunfetched => ?_, ?_⟩
    · cases hdata.symm.trans (hpolicies name hname hunfetched n)
    · exact (provides_gpoRun hgiven).mpr (hscripts p hp hgpo hprovides hunfetched)
    · intro name n hinstalled hgone hname
      by_cases hunfetched : PolicyUnfetched u answer gpos name
      · exact hinstalled (hpolicies name hname hunfetched n)
      · simp only [PolicyUnfetched, not_forall, not_not] at hunfetched
        obtain ⟨x, hx, rfl, data, hdata⟩ := hunfetched
        cases (policies_fetched hgiven hx hdata).symm.trans (hgone x.2)

end Run

theorem plain_guid : 47 ∉ str "\x7b31B2F340\x7d" := by decide

def defaultPolicy : Gpo := ⟨str "\x7b31B2F340\x7d", some (str "\\\\dc\\SysVol\\example\\Policies\\\x7b31B2F340\x7d"), plain_guid⟩

def oneScript (_ : Bytes) : Option (List (Str × List (Str × Str))) :=
  some [(str "Startup", [(str "0CmdLine", str "map.bat"), (str "0Parameters", str "/q")])]

def bare : Machine := ⟨fun _ => none, fun _ => none, none⟩

def refreshed : Machine := gpoRun .ascii oneScript (fun _ => .file [1]) [defaultPolicy] bare

def mapBat : Previous := ⟨defaultPolicy.name, str "map.bat", str "/q", [1]⟩

theorem unreachable_loses :
    refreshed.policies (policyName 0 defaultPolicy.name) = some [1] ∧ Provides refreshed mapBat.data mapBat.params ∧
    (gpoRun .ascii oneScript (fun _ => .nothing) [defaultPolicy] refreshed).policies
      (policyName 0 defaultPolicy.name) = none ∧
    (gpoRun .ascii oneScript (fun _ => .nothing) [defaultPolicy] refreshed).list = some [] ∧
    ¬ Keeps .ascii oneScript (fun _ => .nothing) [defaultPolicy] refreshed [mapBat] := by
  have hinstalled : refreshed.policies (policyName 0 defaultPolicy.name) = some [1] := by decide +kernel
  have hlist : (gpoRun .ascii oneScript (fun _ => .nothing) [defaultPolicy] refreshed).list = some [] := by
    decide +kernel
  have hdest : refreshed.scripts (scriptDest 0 0 mapBat.cmd) = some mapBat.data := by decide +kernel
  have hlines : refreshed.list = some [scriptLine (scriptDest 0 0 mapBat.cmd) mapBat.params] := by decide +kernel
  have hprovides : Provides refreshed mapBat.data mapBat.params :=
    ⟨_, _, hdest, hlines, List.mem_singleton_self _⟩
  refine ⟨hinstalled, hprovides, by decide +kernel, hlist, fun h => ?_⟩
  have hnothing (n : Nat) (rel : List Str) : fetchPolicy (fun _ => .nothing) n rel = .nothing := by
    simp [fetchPolicy, fetch]
  have hgiven : ¬ GivenUp .ascii (fun _ => .nothing) [defaultPolicy] := by
    rintro ⟨x, -, rel, -, htimeout⟩
    cases (hnothing x.2 rel).symm.trans htimeout
  have hunfetched : PolicyUnfetched .ascii (fun _ => .nothing) [defaultPolicy] defaultPolicy.name := by
    rintro x - - data ⟨rel, -, hfile⟩
    cases (hnothing x.2 rel).symm.trans hfile
  have hlost := h.lost defaultPolicy.name 0 (by rw [hinstalled]; exact Option.some_ne_none _)
    fun k => policies_unfetched hgiven hunfetched k
  exact hlost (List.mem_singleton_self _)

end StainedGlass.Domain.GroupPolicy
