import StainedGlass.Firewall.CommandsLaws
import StainedGlass.Firewall.Pushed

namespace StainedGlass.Firewall

open Lib

def OneLine (s : Str) : Prop := ∀ c ∈ s, c ≠ 9 ∧ c ≠ 10 ∧ c ≠ 13

structure Push.Accepted (p : Push) : Prop where
  text : OneLine p.text
  id : OneLine p.id ∨ ∃ body, p.id = body ++ [10] ∧ OneLine body

theorem oneLine_of_visible (h : ∀ c ∈ s, 32 ≤ c) : OneLine s := by
  intro c hc
  have := h c hc
  omega

variable {p : Push}

theorem accepted_of_pushChecks (h : pushChecks p.id p.text = true) : p.Accepted := by
  rw [pushChecks, Bool.and_eq_true, Bool.and_eq_true] at h
  obtain ⟨⟨hid, -⟩, htext⟩ := h
  refine ⟨fun c hc => ?_, ?_⟩
  · have hbad : ∀ d ∈ str "\t\r\n\x00", c ≠ d := by
      rintro d hd rfl
      simp only [Bool.not_eq_true', List.any_eq_false, decide_eq_true_eq] at htext
      exact htext c hc hd
    exact ⟨hbad 9 (by decide), hbad 10 (by decide), hbad 13 (by decide)⟩
  · have hbody {s : Str} (hs : (decide (1 ≤ s.length) && decide (s.length ≤ 200) &&
        s.all fun c => decide (32 ≤ c) && decide (c ≠ 124)) = true) : OneLine s := by
      simp only [Bool.and_eq_true, List.all_eq_true, decide_eq_true_eq] at hs
      exact oneLine_of_visible fun c hc => (hs.2 c hc).1
    rw [regId, dollar, Bool.or_eq_true] at hid
    obtain hid | hid := hid
    · exact .inl (hbody hid)
    · rw [Bool.and_eq_true, decide_eq_true_eq] at hid
      obtain ⟨hlast, hid⟩ := hid
      refine .inr ⟨p.id.dropLast, ?_, hbody hid⟩
      obtain ⟨front, hfront⟩ := List.getLast?_eq_some_iff.mp hlast
      rw [hfront, List.dropLast_concat]

def entry (st : Stamps) (p : Push) : List Push :=
  if p.id.getLast? = some 10 then [] else [{ p with time := st.round p.time }]

theorem ne_tab {a : Str} (ha : 9 ∉ a) : ∀ c ∈ a, decide (c ≠ 9) = true := by
  intro c hc
  rw [decide_eq_true_eq]
  rintro rfl
  exact ha hc

theorem span_tab {a : Str} (ha : 9 ∉ a) (rest : Str) :
    (a ++ 9 :: rest).span (· ≠ 9) = (a, 9 :: rest) := by
  rw [List.span_eq_takeWhile_dropWhile, List.takeWhile_append_of_pos (ne_tab ha),
    List.dropWhile_append_of_pos (ne_tab ha)]
  simp

theorem span_no_tab {a : Str} (ha : 9 ∉ a) : a.span (· ≠ 9) = (a, []) := by
  rw [List.span_eq_takeWhile_dropWhile, List.takeWhile_eq_self_iff.mpr (ne_tab ha),
    List.dropWhile_eq_nil_iff.mpr (ne_tab ha)]

theorem threeParts_three (ha : 9 ∉ a) (hb : 9 ∉ b) (c : Str) :
    threeParts (a ++ 9 :: (b ++ 9 :: c)) = some (a, b, c) := by
  rw [threeParts, span_tab ha]
  simp only [span_tab hb]

theorem threeParts_two (ha : 9 ∉ a) (hb : 9 ∉ b) : threeParts (a ++ 9 :: b) = none := by
  rw [threeParts, span_tab ha]
  simp only [span_no_tab hb]

theorem OneLine.notMem (h : OneLine s) : 9 ∉ s ∧ 10 ∉ s ∧ 13 ∉ s :=
  ⟨fun hc => (h 9 hc).1 rfl, fun hc => (h 10 hc).2.1 rfl, fun hc => (h 13 hc).2.2 rfl⟩

theorem readPushedLines_pushLine (st : Stamps) (hp : p.Accepted) (rest : Str) :
    readPushedLines st ((pushLine st p ++ rest).splitOn 10) =
      entry st p ++ readPushedLines st (rest.splitOn 10) := by
  have hstamp : OneLine (st.text p.time) := st.text_line p.time
  obtain ⟨htext9, htext10, -⟩ := hp.text.notMem
  obtain ⟨hstamp9, hstamp10, -⟩ := hstamp.notMem
  obtain hid | ⟨body, hbody, hone⟩ := hp.id
  · obtain ⟨hid9, hid10, -⟩ := hid.notMem
    have hline : pushLine st p ++ rest =
        (st.text p.time ++ 9 :: (p.id ++ 9 :: p.text)) ++ 10 :: rest := by
      simp [pushLine]
    have h10 : 10 ∉ st.text p.time ++ 9 :: (p.id ++ 9 :: p.text) := by
      simp [hstamp10, hid10, htext10]
    have hlast : p.id.getLast? ≠ some 10 := fun h => hid10 (List.mem_of_getLast? h)
    rw [hline, List.splitOn_append_cons_self_of_not_mem h10, readPushedLines,
      threeParts_three hstamp9 hid9, entry, if_neg hlast]
    simp only [st.value_text]
    rfl
  · obtain ⟨hbody9, hbody10, -⟩ := hone.notMem
    have hline : pushLine st p ++ rest =
        (st.text p.time ++ 9 :: body) ++ 10 :: ((9 :: p.text) ++ 10 :: rest) := by
      simp [pushLine, hbody]
    have h10 : 10 ∉ st.text p.time ++ 9 :: body := by simp [hstamp10, hbody10]
    have h10' : 10 ∉ 9 :: p.text := by simp [htext10]
    have hlast : p.id.getLast? = some 10 := by rw [hbody, List.getLast?_concat]
    rw [hline, List.splitOn_append_cons_self_of_not_mem h10,
      List.splitOn_append_cons_self_of_not_mem h10', readPushedLines, threeParts_two hstamp9 hbody9,
      readPushedLines, entry, if_pos hlast]
    have hsecond : threeParts (9 :: p.text) = none := threeParts_two (a := []) (by simp) htext9
    simp only [hsecond]
    rfl

theorem universalNewlines_eq_self (h : 13 ∉ s) : universalNewlines s = s := by
  induction s with
  | nil => rfl
  | cons c s ih =>
    rw [List.mem_cons, not_or] at h
    rw [universalNewlines, if_neg (Ne.symm h.1), ih h.2]
    rintro rest rfl
    exact absurd rfl h.1

theorem notMem_pushLine (st : Stamps) (hp : p.Accepted) : 13 ∉ pushLine st p := by
  have hid : 13 ∉ p.id := by
    obtain hid | ⟨body, hbody, hone⟩ := hp.id
    · exact hid.notMem.2.2
    · rw [hbody]
      simp [hone.notMem.2.2]
  simp [pushLine, hid, hp.text.notMem.2.2, (OneLine.notMem (st.text_line p.time)).2.2]

variable {ps : List Push}

theorem readPushed_pushedText (st : Stamps) (h : ∀ p ∈ ps, p.Accepted) :
    readPushed st (some (pushedText st ps)) = ps.flatMap (entry st) := by
  have h13 : 13 ∉ pushedText st ps := by
    intro hc
    obtain ⟨p, hp, hc⟩ := List.mem_flatMap.mp hc
    exact notMem_pushLine st (h p hp) hc
  rw [readPushed, universalNewlines_eq_self h13]
  clear h13
  induction ps with
  | nil => rfl
  | cons p ps ih =>
    rw [List.forall_mem_cons] at h
    rw [pushedText, List.flatMap_cons, readPushedLines_pushLine st h.1, List.flatMap_cons]
    rw [pushedText] at ih
    rw [ih h.2]

/-- What is left in the end: no push whose name ends in a newline or that is an hour older than another. -/
def survivors (st : Stamps) : List Push → List Push
  | [] => []
  | p :: ps =>
    if ∀ q ∈ ps, q.time < st.round p.time + hour then entry st p ++ survivors st ps
    else survivors st ps

theorem survivors_concat (st : Stamps) (ps : List Push) (p : Push) :
    survivors st (ps ++ [p]) =
      (survivors st ps).filter (fun q => p.time < q.time + hour) ++ entry st p := by
  induction ps with
  | nil => simp [survivors]
  | cons q ps ih =>
    rw [List.cons_append, survivors, survivors, ih]
    have hentry : (entry st q).filter (fun q => p.time < q.time + hour) =
        if p.time < st.round q.time + hour then entry st q else [] := by
      rw [entry]
      split <;> simp [List.filter_cons]
    by_cases hp : p.time < st.round q.time + hour
    · have hall : (∀ q' ∈ ps ++ [p], q'.time < st.round q.time + hour) ↔
          ∀ q' ∈ ps, q'.time < st.round q.time + hour := by
        simp [or_imp, forall_and, hp]
      simp only [hall]
      split
      · rw [List.filter_append, hentry, if_pos hp, List.append_assoc]
      · rfl
    · rw [if_neg fun hall => hp (hall p (by simp))]
      split
      · rw [List.filter_append, hentry, if_neg hp, List.nil_append]
      · rfl

variable {st : Stamps}

theorem accepted_survivors (h : ∀ p ∈ ps, p.Accepted) :
    ∀ p ∈ survivors st ps, p.Accepted ∧ entry st p = [p] := by
  have hentry {p : Push} (hp : p.Accepted) : ∀ q ∈ entry st p, q.Accepted ∧ entry st q = [q] := by
    intro q hq
    rw [entry] at hq
    split at hq
    · cases hq
    · next hlast =>
      obtain rfl := List.mem_singleton.mp hq
      refine ⟨⟨hp.text, hp.id⟩, ?_⟩
      rw [entry, if_neg hlast]
      simp only [st.round_round]
  induction ps with
  | nil => simp [survivors]
  | cons p ps ih =>
    rw [List.forall_mem_cons] at h
    rw [survivors]
    intro q hq
    split at hq
    · obtain hq | hq := List.mem_append.mp hq
      · exact hentry h.1 q hq
      · exact ih h.2 q hq
    · exact ih h.2 q hq

variable {file : Option Str}

theorem pushAll_concat
    (h : pushAll st none (ps ++ [p]) = some file) :
    ∃ before text, pushAll st none ps = some before ∧ pushRegistry st before p = some text ∧
      file = some text := by
  rw [pushAll, List.foldlM_append] at h
  obtain ⟨before, hbefore, hlast⟩ := Option.bind_eq_some_iff.mp h
  rw [List.foldlM_cons] at hlast
  obtain ⟨file', hfile', heq⟩ := Option.bind_eq_some_iff.mp hlast
  obtain ⟨text, htext, rfl⟩ := Option.map_eq_some_iff.mp hfile'
  exact ⟨before, text, hbefore, htext, (Option.some.inj heq).symm⟩

theorem pushRegistry_some (h : pushRegistry st file p = some text) : p.Accepted ∧
      text = pushedText st ((readPushed st file).filter (fun q => p.time < q.time + hour) ++ [p]) := by
  rw [pushRegistry] at h
  split at h
  · cases h
  · next hchecks =>
    simp only at h
    split at h
    · cases h
    · exact ⟨accepted_of_pushChecks (by simpa using hchecks), (Option.some.inj h).symm⟩

theorem readPushed_pushAll (ps : List Push) (h : pushAll st none ps = some file) :
    (∀ p ∈ ps, p.Accepted) ∧ readPushed st file = survivors st ps := by
  induction ps using List.reverseRecOn generalizing file with
  | nil =>
    obtain rfl := Option.some.inj h
    exact ⟨by simp, rfl⟩
  | append_singleton ps p ih =>
    obtain ⟨before, text, hbefore, hpush, rfl⟩ := pushAll_concat h
    obtain ⟨hall, hread⟩ := ih hbefore
    obtain ⟨hp, rfl⟩ := pushRegistry_some hpush
    refine ⟨fun q hq => ?_, ?_⟩
    · obtain hq | hq := List.mem_append.mp hq
      · exact hall q hq
      · rwa [List.mem_singleton.mp hq]
    · have hkept : ∀ q ∈ survivors st ps, q.Accepted ∧ entry st q = [q] := accepted_survivors hall
      rw [hread, survivors_concat, readPushed_pushedText, List.flatMap_append]
      · congr 1
        · rw [flatMap_eq_map (f := entry st) (g := id) fun q hq => (hkept q (List.mem_of_mem_filter hq)).2,
            List.map_id]
        · simp
      · intro q hq
        obtain hq | hq := List.mem_append.mp hq
        · exact (hkept q (List.mem_of_mem_filter hq)).1
        · rwa [List.mem_singleton.mp hq]

def lastOf (mtime : Nat) (ps : List Push) (n : Str) : Option Str :=
  ((ps.filter fun p => p.time > mtime && p.id = n).getLast?).map Push.text

theorem lastOf_concat (mtime : Nat) (ps : List Push) (p : Push) (n : Str) :
    lastOf mtime (ps ++ [p]) n =
      if p.time > mtime ∧ p.id = n then some p.text else lastOf mtime ps n := by
  rw [lastOf, List.filter_append]
  split
  · next h => simp [h.1, h.2]
  · next h =>
    have hnone : [p].filter (fun p => p.time > mtime && p.id = n) = [] := by
      simpa using h
    rw [hnone, List.append_nil, lastOf]

theorem effectiveRegistry_eq (own : Str → Option Str) (mtime : Nat) (ps : List Push) (hn : isSetting n = false) :
    effectiveRegistry own mtime ps n = ((lastOf mtime ps n).map ruleValue).getD (own n) := by
  induction ps using List.reverseRecOn with
  | nil => rfl
  | append_singleton ps p ih =>
    rw [lastOf_concat, effectiveRegistry, List.foldl_append, List.foldl_cons, List.foldl_nil]
    rw [effectiveRegistry] at ih
    by_cases hp : p.time > mtime ∧ p.id = n
    · obtain ⟨htime, rfl⟩ := hp
      simp [htime, hn]
    · rw [if_neg hp, ← ih]
      split
      · next hcounts => rw [Function.update_of_ne fun h => hp ⟨hcounts.1, h.symm⟩]
      · rfl

def settingId (k : Profile × Setting) : Str := str "setting:" ++ k.1.text ++ 58 :: k.2.text

theorem settingOf_settingId (k : Profile × Setting) :
    settingOf (settingId k) = some k ∧ isSetting (settingId k) = true := by
  obtain ⟨p, s⟩ := k
  cases p <;> cases s <;> decide

theorem eq_settingId {id : Str} {k : Profile × Setting} (hset : isSetting id = true)
    (h : settingOf id = some k) : id = settingId k := by
  obtain ⟨rest, rfl⟩ : ∃ rest, id = str "setting" ++ 58 :: rest := by
    obtain ⟨rest, hrest⟩ := List.isPrefixOf_iff_prefix.mp hset
    exact ⟨rest, hrest.symm⟩
  rw [settingOf, List.splitOn_append_cons_self_of_not_mem (by decide)] at h
  split at h
  · next _ p s hparts =>
    obtain ⟨-, hsplit⟩ := List.cons.inj hparts
    obtain ⟨p', hp', h⟩ := Option.bind_eq_some_iff.mp h
    obtain ⟨s', hs', rfl⟩ := Option.map_eq_some_iff.mp h
    have hp : p'.text = p := by simpa using List.find?_some hp'
    have hs : s'.text = s := by simpa using List.find?_some hs'
    have hrest : [58].intercalate (rest.splitOn 58) = rest := List.intercalate_splitOn 58
    rw [hsplit] at hrest
    rw [← hrest, settingId, hp, hs]
    simp [List.intercalate, str]
  · cases h

theorem settingId_inj (h : settingId k = settingId k') : k = k' := by
  have := congrArg settingOf h
  rwa [(settingOf_settingId k).1, (settingOf_settingId k').1, Option.some.injEq] at this

def numberOf (u : Unicode) (isDigit : Nat → Bool) (text : Str) : Option Nat :=
  if text ≠ [] ∧ text.all isDigit then digitsValue u.digit text else none

def Readable (u : Unicode) (isDigit : Nat → Bool) (text : Str) : Prop :=
  text ≠ [] → text.all isDigit = true →
    text.length ≤ 4300 ∧ (digitsValue u.digit text).isSome = true

theorem settingValue_eq (u : Unicode) (isDigit : Nat → Bool) (text : Str) :
    Readable u isDigit text ∧ settingValue u isDigit text = some (numberOf u isDigit text) ∨
      ¬ Readable u isDigit text ∧ settingValue u isDigit text = none := by
  rw [settingValue, numberOf, intOf]
  by_cases hdigits : text ≠ [] ∧ text.all isDigit = true
  · rw [if_pos hdigits, if_pos hdigits]
    by_cases hlen : text.length ≤ 4300
    · rw [if_pos hlen]
      cases hvalue : digitsValue u.digit text with
      | none =>
        refine .inr ⟨fun h => ?_, rfl⟩
        have := (h hdigits.1 hdigits.2).2
        rw [hvalue] at this
        cases this
      | some n => exact .inl ⟨fun _ _ => ⟨hlen, by rw [hvalue]; rfl⟩, rfl⟩
    · rw [if_neg hlen]
      exact .inr ⟨fun h => hlen (h hdigits.1 hdigits.2).1, rfl⟩
  · rw [if_neg hdigits, if_neg hdigits]
    exact .inl ⟨fun h₁ h₂ => absurd ⟨h₁, h₂⟩ hdigits, rfl⟩

section Settings

variable (u : Unicode) (isDigit : Nat → Bool) (own : Settings) (mtime : Nat)

def AllReadable (ps : List Push) : Prop :=
  ∀ p ∈ ps, p.time > mtime → ∀ k, p.id = settingId k → Readable u isDigit p.text

theorem applySetting_setting (settings : Settings) {p : Push} (hp : p.time > mtime) (hk : p.id = settingId k) :
    applySetting u isDigit mtime settings p =
      (settingValue u isDigit p.text).map fun v => Function.update settings k v := by
  obtain ⟨hof, hset⟩ := settingOf_settingId k
  rw [applySetting, if_pos ⟨hp, by rw [hk, hset]⟩, hk, hof]

theorem applySetting_other (settings : Settings) {p : Push}
    (h : ∀ k, ¬ (p.time > mtime ∧ p.id = settingId k)) :
    applySetting u isDigit mtime settings p = some settings := by
  rw [applySetting]
  split
  · next hcounts =>
    cases hof : settingOf p.id with
    | none => rfl
    | some k => exact absurd ⟨hcounts.1, eq_settingId hcounts.2 hof⟩ (h k)
  · rfl

theorem effectiveSettings_eq (ps : List Push) :
    AllReadable u isDigit mtime ps ∧ (∃ s, effectiveSettings u isDigit own mtime ps = some s ∧
      ∀ k, s k = ((lastOf mtime ps (settingId k)).map (numberOf u isDigit)).getD (own k)) ∨
    ¬ AllReadable u isDigit mtime ps ∧ effectiveSettings u isDigit own mtime ps = none := by
  induction ps using List.reverseRecOn with
  | nil => exact .inl ⟨by simp [AllReadable], own, rfl, fun _ => rfl⟩
  | append_singleton ps p ih =>
    have hall : AllReadable u isDigit mtime (ps ++ [p]) ↔ AllReadable u isDigit mtime ps ∧
        (p.time > mtime → ∀ k, p.id = settingId k → Readable u isDigit p.text) := by
      simp [AllReadable, or_imp, forall_and]
    rw [effectiveSettings, List.foldlM_append]
    rw [effectiveSettings] at ih
    obtain ⟨hps, s, hs, hvalue⟩ | ⟨hps, hnone⟩ := ih
    · rw [hs]
      change _ ∧ (∃ s', (applySetting u isDigit mtime s p).bind some = some s' ∧ _) ∨
        _ ∧ (applySetting u isDigit mtime s p).bind some = none
      rw [Option.bind_fun_some, hall, and_iff_right hps]
      by_cases hsetting : ∃ k, p.time > mtime ∧ p.id = settingId k
      · obtain ⟨k, htime, hk⟩ := hsetting
        rw [applySetting_setting u isDigit mtime s htime hk]
        obtain ⟨hread, hv⟩ | ⟨hread, hv⟩ := settingValue_eq u isDigit p.text
        · refine .inl ⟨fun _ _ _ => hread, Function.update s k (numberOf u isDigit p.text),
            by rw [hv]; rfl, fun k' => ?_⟩
          rw [lastOf_concat]
          by_cases hkk : k' = k
          · subst hkk
            rw [Function.update_self, if_pos ⟨htime, hk⟩]
            rfl
          · rw [Function.update_of_ne hkk, hvalue, if_neg]
            exact fun h => hkk (settingId_inj (h.2.symm.trans hk))
        · refine .inr ⟨fun h => hread (h htime k hk), by rw [hv]; rfl⟩
      · have hother := not_exists.mp hsetting
        rw [applySetting_other u isDigit mtime s hother]
        refine .inl ⟨fun htime k hk => absurd ⟨htime, hk⟩ (hother k), s, rfl, fun k => ?_⟩
        rw [lastOf_concat, if_neg (hother k), hvalue]
    · rw [hnone]
      exact .inr ⟨fun h => hps (hall.mp h).1, rfl⟩

end Settings

/-- For every name the last push after the file was written counts, else the file's own value. -/
structure LastCounts (u : Unicode) (isDigit : Nat → Bool) (own : Str → Option Str)
    (ownSettings : Settings) (mtime : Nat) (made pushed : List Push) : Prop where
  rules : ∀ n, isSetting n = false →
    effectiveRegistry own mtime pushed n = ((lastOf mtime made n).map ruleValue).getD (own n)
  settings : ∃ s, effectiveSettings u isDigit ownSettings mtime pushed = some s ∧
    ∀ k, s k = ((lastOf mtime made (settingId k)).map (numberOf u isDigit)).getD (ownSettings k)

/-- The last push of each name says the same as the last one that is left in the file. -/
structure LastKept (u : Unicode) (isDigit : Nat → Bool) (mtime : Nat) (made kept : List Push) :
    Prop where
  rules : ∀ n, isSetting n = false → lastOf mtime made n = lastOf mtime kept n
  settings : ∀ k, (lastOf mtime made (settingId k)).map (numberOf u isDigit) =
    (lastOf mtime kept (settingId k)).map (numberOf u isDigit)
  readable : AllReadable u isDigit mtime kept

theorem getD_eq_iff (a b : Option (Option α)) (x : α) : (∀ own : Option α, a.getD own = b.getD own) ↔ a = b := by
  constructor
  · intro h
    have hnone := h none
    have hsome := h (some x)
    cases a with
    | none =>
      cases b with
      | none => rfl
      | some b => exact absurd (hsome.trans hnone.symm) (Option.some_ne_none x)
    | some a =>
      cases b with
      | none => exact absurd (hsome.symm.trans hnone) (Option.some_ne_none x)
      | some b => exact congrArg some hnone
  · rintro rfl own
    rfl

theorem ruleValue_inj (h : ruleValue t = ruleValue t') : t = t' := by
  rw [ruleValue, ruleValue] at h
  split at h <;> split at h <;> simp_all

theorem lastCounts_iff (u : Unicode) (isDigit : Nat → Bool) (mtime : Nat) (made kept : List Push) :
    (∀ own ownSettings, LastCounts u isDigit own ownSettings mtime made kept) ↔
      LastKept u isDigit mtime made kept := by
  constructor
  · intro h
    refine ⟨fun n hn => ?_, fun k => ?_, ?_⟩
    · have hall : (lastOf mtime kept n).map ruleValue = (lastOf mtime made n).map ruleValue := by
        refine (getD_eq_iff _ _ []).mp fun own => ?_
        have := (h (fun _ => own) (fun _ => none)).rules n hn
        rwa [effectiveRegistry_eq _ _ _ hn] at this
      exact (Option.map_injective (fun _ _ => ruleValue_inj) hall).symm
    · refine ((getD_eq_iff _ _ 0).mp fun own => ?_).symm
      obtain ⟨s, hs, hvalue⟩ := (h (fun _ => none) (fun _ => own)).settings
      obtain ⟨-, s', hs', hvalue'⟩ | ⟨-, hnone⟩ :=
        effectiveSettings_eq u isDigit (fun _ => own) mtime kept
      · obtain rfl := Option.some.inj (hs.symm.trans hs')
        exact (hvalue' k).symm.trans (hvalue k)
      · rw [hs] at hnone
        cases hnone
    · obtain ⟨s, hs, -⟩ := (h (fun _ => none) (fun _ => none)).settings
      obtain ⟨hread, -⟩ | ⟨-, hnone⟩ :=
        effectiveSettings_eq u isDigit (fun _ => none) mtime kept
      · exact hread
      · rw [hs] at hnone
        cases hnone
  · intro h own ownSettings
    refine ⟨fun n hn => ?_, ?_⟩
    · rw [effectiveRegistry_eq _ _ _ hn, h.rules n hn]
    · obtain ⟨-, s, hs, hvalue⟩ | ⟨hread, -⟩ :=
        effectiveSettings_eq u isDigit ownSettings mtime kept
      · exact ⟨s, hs, fun k => by rw [hvalue k, h.settings k]⟩
      · exact absurd h.readable hread

def microseconds : Stamps where
  text := dec
  value s := digitsValue Unicode.ascii.digit s
  round t := t
  value_text t := digitsValue_dec (fun c h₁ h₂ => by simp [Unicode.ascii, h₁, h₂]) t
  round_round _ := rfl
  text_line t c hc := by
    have := digit_of_mem_dec hc
    omega

theorem pushes_count_iff (u : Unicode) (isDigit : Nat → Bool) (st : Stamps) (mtime : Nat)
    {made : List Push} {file : Option Str} (h : pushAll st none made = some file) :
    (∀ own ownSettings, LastCounts u isDigit own ownSettings mtime made (readPushed st file)) ↔
      LastKept u isDigit mtime made (survivors st made) := by
  rw [(readPushed_pushAll made h).2]
  exact lastCounts_iff u isDigit mtime made (survivors st made)

theorem pushes_count_twice : ∃ file,
    pushAll microseconds none [⟨1, str "a", str "x"⟩, ⟨2, str "b", []⟩] = some file ∧
    ∀ own ownSettings, LastCounts Unicode.ascii (fun _ => false) own ownSettings 0
      [⟨1, str "a", str "x"⟩, ⟨2, str "b", []⟩] (readPushed microseconds file) := by
  have hpush : pushAll microseconds none [⟨1, str "a", str "x"⟩, ⟨2, str "b", []⟩] =
      some (some (pushedText microseconds [⟨1, str "a", str "x"⟩, ⟨2, str "b", []⟩])) := by decide
  have hkept : survivors microseconds [⟨1, str "a", str "x"⟩, ⟨2, str "b", []⟩] =
      [⟨1, str "a", str "x"⟩, ⟨2, str "b", []⟩] := by decide
  refine ⟨_, hpush, (pushes_count_iff Unicode.ascii (fun _ => false) microseconds 0 hpush).mpr ?_⟩
  rw [hkept]
  refine ⟨fun _ _ => rfl, fun _ => rfl, fun p _ _ k _ htext hdigits => ?_⟩
  obtain ⟨c, hc⟩ := List.exists_mem_of_ne_nil _ htext
  cases List.all_eq_true.mp hdigits c hc

theorem push_forgotten : ∃ file,
    pushAll microseconds none [⟨1, str "a", str "x"⟩, ⟨1 + hour, str "b", str "y"⟩] = some file ∧
    effectiveRegistry (fun _ => none) 0 (readPushed microseconds file) (str "a") = none ∧
    ¬ LastCounts Unicode.ascii (fun _ => false) (fun _ => none) (fun _ => none) 0
      [⟨1, str "a", str "x"⟩, ⟨1 + hour, str "b", str "y"⟩] (readPushed microseconds file) := by
  have hread : effectiveRegistry (fun _ => none) 0
      (readPushed microseconds (some (pushedText microseconds [⟨1 + hour, str "b", str "y"⟩])))
      (str "a") = none := by decide
  refine ⟨some (pushedText microseconds [⟨1 + hour, str "b", str "y"⟩]), by decide, hread, fun h => ?_⟩
  have := h.rules (str "a") (by decide)
  rw [hread] at this
  exact absurd this (by decide)

end StainedGlass.Firewall
