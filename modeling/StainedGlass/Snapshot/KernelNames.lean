import StainedGlass.Snapshot.Kernels

namespace StainedGlass.Snapshot

open Lib

theorem endsWith_iff : endsWith s suffix = true ↔ suffix <:+ s := List.isSuffixOf_iff_suffix

def Rest (s : Str) : Prop := str ".conf" <:+ s ∨ s <:+ str ".conf"

theorem Rest.of_suffix (h : Rest s) (hts : t <:+ s) : Rest t := by
  obtain h | h := h
  · exact List.suffix_or_suffix_of_suffix h hts
  · exact .inr (hts.trans h)

theorem startsWith_hidden (h : Rest s) : startsWith (s ++ hiddenSuffix) (str ".conf") = startsWith s (str ".conf") := by
  obtain ⟨t, rfl⟩ | h := h
  · rw [startsWith, startsWith, Bool.eq_iff_iff, List.isPrefixOf_iff_prefix, List.isPrefixOf_iff_prefix]
    have hlen : (str ".conf").length ≤ (t ++ str ".conf").length := by simp
    exact ⟨fun hp => List.prefix_of_prefix_length_le hp (List.prefix_append _ _) hlen, fun hp => hp.trans (List.prefix_append _ _)⟩
  · have hmem : s ∈ (str ".conf").tails := (List.mem_tails s _).mpr h
    have hall : ∀ s ∈ (str ".conf").tails, startsWith (s ++ hiddenSuffix) (str ".conf") = startsWith s (str ".conf") := by
      decide
    exact hall s hmem

theorem hiddenSuffix_eq : hiddenSuffix = 46 :: str "sg-hidden" := by decide

variable (u : Unicode)

theorem isDigit_dot : isDigit u 46 = false := by
  rw [isDigit, u.digit_ascii (by decide)]
  rfl

theorem isDigit_letter (h : 97 ≤ c ∧ c ≤ 122) : isDigit u c = false := by
  rw [isDigit, u.digit_ascii (by omega), if_neg (by omega)]
  rfl

theorem takeWhile_hidden (s : Str) : (s ++ hiddenSuffix).takeWhile (isDigit u) = s.takeWhile (isDigit u) := by
  induction s with
  | nil =>
    rw [hiddenSuffix_eq]
    exact List.takeWhile_cons_of_neg (by simp [isDigit_dot])
  | cons c s ih =>
    rw [List.cons_append, List.takeWhile_cons, List.takeWhile_cons, ih]

theorem dropWhile_hidden (s : Str) :
    (s ++ hiddenSuffix).dropWhile (isDigit u) = s.dropWhile (isDigit u) ++ hiddenSuffix := by
  induction s with
  | nil =>
    rw [hiddenSuffix_eq]
    exact List.dropWhile_cons_of_neg (by simp [isDigit_dot])
  | cons c s ih =>
    rw [List.cons_append, List.dropWhile_cons, List.dropWhile_cons, ih]
    split
    · rfl
    · rfl

theorem head?_hidden (s : Str) : (s ++ hiddenSuffix).head?.any (isDigit u) = s.head?.any (isDigit u) := by
  cases s with
  | nil => exact isDigit_dot u
  | cons c s => rfl

variable {u} {s : Str}

theorem Rest.dropWhile (h : Rest s) (p : Nat → Bool) : Rest (s.dropWhile p) := h.of_suffix (List.dropWhile_suffix p)

theorem Rest.tail (h : Rest (c :: s)) : Rest s := h.of_suffix (List.suffix_cons c s)

theorem Rest.drop (h : Rest s) (n : Nat) : Rest (s.drop n) := h.of_suffix (List.drop_suffix n s)

theorem digitsEnd_hidden (h : Rest s) :
    ((s ++ hiddenSuffix).head?.any (isDigit u) && startsWith ((s ++ hiddenSuffix).dropWhile (isDigit u)) (str ".conf")) =
      (s.head?.any (isDigit u) && startsWith (s.dropWhile (isDigit u)) (str ".conf")) := by
  rw [head?_hidden, dropWhile_hidden, startsWith_hidden (h.dropWhile _)]

theorem triesEnd_hidden (h : Rest s) :
    (startsWith (s ++ hiddenSuffix) (str "-") && ((s ++ hiddenSuffix).drop 1).head?.any (isDigit u) &&
        startsWith (((s ++ hiddenSuffix).drop 1).dropWhile (isDigit u)) (str ".conf")) =
      (startsWith s (str "-") && (s.drop 1).head?.any (isDigit u) &&
        startsWith ((s.drop 1).dropWhile (isDigit u)) (str ".conf")) := by
  cases s with
  | nil => rfl
  | cons c s =>
    have hdash : startsWith (c :: s ++ hiddenSuffix) (str "-") = startsWith (c :: s) (str "-") := by
      simp [startsWith, str, List.isPrefixOf]
    rw [hdash, Bool.and_assoc, Bool.and_assoc, List.cons_append, List.drop_one, List.drop_one, List.tail_cons,
      List.tail_cons, digitsEnd_hidden h.tail]

theorem versionEnds_hidden (h : Rest s) : versionEnds u (s ++ hiddenSuffix) = versionEnds u s := by
  have hconf := startsWith_hidden h
  unfold versionEnds
  rw [hconf]
  cases s with
  | nil => rfl
  | cons c s =>
    by_cases hc : c = 43
    · subst hc
      simp only [List.cons_append]
      rw [head?_hidden, dropWhile_hidden, startsWith_hidden (h.tail.dropWhile _), triesEnd_hidden (h.tail.dropWhile _)]
    · simp only [List.cons_append]
      split
      · next heq => exact absurd (List.cons.inj heq).1 hc
      · split
        · next heq => exact absurd (List.cons.inj heq).1 hc
        · rfl

theorem usedUpAt_hidden (h : Rest s) : usedUpAt u (s ++ hiddenSuffix) = usedUpAt u s := by
  rcases s with _ | ⟨a, _ | ⟨b, _ | ⟨c, s⟩⟩⟩
  · rfl
  · simp [usedUpAt, startsWith, str, hiddenSuffix, List.isPrefixOf]
  · simp [usedUpAt, startsWith, str, hiddenSuffix, List.isPrefixOf]
  · have hstart : startsWith (a :: b :: c :: s ++ hiddenSuffix) (str "+0-") = startsWith (a :: b :: c :: s) (str "+0-") := by
      simp [startsWith, str, List.isPrefixOf]
    unfold usedUpAt
    rw [hstart, Bool.and_assoc, Bool.and_assoc]
    exact congrArg _ (digitsEnd_hidden (h.drop 3))

theorem versionTail_hidden (h : Rest s) : versionTail u (s ++ hiddenSuffix) = versionTail u s := by
  induction s with
  | nil => rfl
  | cons c s ih =>
    rw [List.cons_append, versionTail, versionTail, ← List.cons_append, versionEnds_hidden h, ih h.tail]

theorem versionAt_hidden (h : Rest s) : versionAt u (s ++ hiddenSuffix) = versionAt u s := by
  cases s with
  | nil => rfl
  | cons c s =>
    by_cases hc : c = 45
    · subst hc
      simp only [List.cons_append, versionAt, takeWhile_hidden, dropWhile_hidden]
      have hrest := h.tail.dropWhile (isDigit u)
      cases htake : s.takeWhile (isDigit u) with
      | nil => rfl
      | cons d major =>
        cases hdrop : s.dropWhile (isDigit u) with
        | nil =>
          simp [hiddenSuffix, str, isDigit_letter]
        | cons c t =>
          rw [hdrop] at hrest
          by_cases hc : c = 46
          · subst hc
            simp only [List.cons_append, takeWhile_hidden, dropWhile_hidden, versionTail_hidden (hrest.tail.dropWhile _)]
          · simp [hc]
    · simp [versionAt, hc]

theorem findSome?_hidden (h : Rest s) :
    (s ++ hiddenSuffix).tails.findSome? (versionAt u) = s.tails.findSome? (versionAt u) := by
  induction s with
  | nil => simp [hiddenSuffix, str, versionAt, isDigit_letter]
  | cons c s ih =>
    rw [List.cons_append, List.tails_cons, List.tails_cons, List.findSome?_cons, List.findSome?_cons, ih h.tail,
      ← List.cons_append, versionAt_hidden h]

theorem any_hidden (h : Rest s) : (s ++ hiddenSuffix).tails.any (usedUpAt u) = s.tails.any (usedUpAt u) := by
  induction s with
  | nil => rfl
  | cons c s ih =>
    rw [List.cons_append, List.tails_cons, List.tails_cons, List.any_cons, List.any_cons, ih h.tail,
      ← List.cons_append, usedUpAt_hidden h]

variable {e : BootEntry}

theorem rest_of_visible (h : e.visible) : Rest e.name := .inl (endsWith_iff.mp h)

theorem readVersion_hide (h : e.visible) : e.hide.readVersion u = e.readVersion u := by
  unfold BootEntry.readVersion
  rw [BootEntry.hide, findSome?_hidden (rest_of_visible h)]

theorem usedUp_hide (h : e.visible) : e.hide.usedUp u = e.usedUp u := any_hidden (rest_of_visible h)

theorem version_eq_readVersion (h : e.isTwin = false) : e.version u = e.readVersion u := by
  unfold BootEntry.version BootEntry.readVersion
  rw [h]
  simp

theorem isSome_version : (e.version u).isSome = (e.readVersion u).isSome := by
  unfold BootEntry.version BootEntry.readVersion
  split
  · rfl
  · rw [Option.isSome_map]

theorem isHidden_hide (e : BootEntry) : e.hide.isHidden = e.visible := by
  have hsuffix : str ".conf.sg-hidden" = str ".conf" ++ hiddenSuffix := by decide
  rw [BootEntry.isHidden, BootEntry.visible, Bool.eq_iff_iff, endsWith_iff, endsWith_iff, hsuffix, BootEntry.hide]
  exact (List.suffix_append_inj_of_length_eq rfl).trans (and_iff_left rfl)

theorem eq_hide_of_isHidden (h : e.isHidden) : ∃ e' : BootEntry, e = e'.hide ∧ e'.visible := by
  have hsuffix : str ".conf.sg-hidden" = str ".conf" ++ hiddenSuffix := by decide
  obtain ⟨t, ht⟩ := endsWith_iff.mp h
  refine ⟨⟨t ++ str ".conf", e.text⟩, ?_, endsWith_iff.mpr (List.suffix_append _ _)⟩
  rw [BootEntry.hide, List.append_assoc, ← hsuffix, ht]

theorem versionAt_ne_nil : versionAt u s ≠ some [] := by
  unfold versionAt
  split
  · split
    · split
      · simp
      · simp
    · simp
  · simp

theorem readVersion_ne_nil : e.readVersion u ≠ some [] := by
  unfold BootEntry.readVersion
  split
  · simp
  · intro h
    obtain ⟨t, -, ht⟩ := List.exists_of_findSome?_eq_some h
    exact versionAt_ne_nil ht

structure Listed (env : Env) (e : BootEntry) : Prop where
  file : e.visible ∨ e.isHidden
  own : e.isOwn env.u = false
  live : e.isLive = false
  twin : e.isTwin = false
  tries : e.usedUp env.u = false
  root : e.OfRoot env

variable {env : Env}

theorem kernelEntry_eq_some (huuid : ourPartuuid env = some partuuid)
    {k : KernelEntry} : kernelEntry env.u partuuid true e = some k ↔
      Listed env e ∧ e.readVersion env.u = some k.version ∧ k.name = e.name ∧ k.hidden = e.isHidden := by
  have hroot : e.OfRoot env ↔ (str "root=partuuid=" ++ partuuid) ∈
      words env.u (env.u.lower ((entryField env.u (str "options") e.text).getD [])) := by
    simp [BootEntry.OfRoot, huuid]
  unfold kernelEntry
  simp only
  split
  · next hfile =>
    refine iff_of_false (by simp) fun h => ?_
    have hor := h.1.file
    have hown := h.1.own
    simp only [BootEntry.visible, BootEntry.isHidden, BootEntry.isOwn] at hor hown
    simp only [hown, Bool.or_false, Bool.not_eq_true', Bool.true_and, Bool.or_eq_false_iff] at hfile
    simp [hfile] at hor
  next hfile =>
  split
  · next hkind =>
    refine iff_of_false (by simp) fun h => ?_
    have hlive := h.1.live
    have htwin := h.1.twin
    have htries := h.1.tries
    simp only [BootEntry.isLive, BootEntry.isTwin, BootEntry.usedUp] at hlive htwin htries
    simp [hlive, htwin, htries] at hkind
  next hkind =>
  split
  · next hno => exact iff_of_false (by simp) fun h => hno (hroot.mp h.1.root)
  next hof =>
  simp only [Bool.true_and, Bool.or_eq_true, Bool.not_eq_true', not_or, Bool.not_eq_false, Bool.not_eq_true] at hfile hkind
  have hlisted : Listed env e :=
    ⟨hfile.1, hfile.2, hkind.1.1, hkind.1.2, hkind.2, hroot.mpr (not_not.mp hof)⟩
  rw [and_iff_right hlisted]
  obtain ⟨version, name, hidden⟩ := k
  split
  · next c v heq =>
    have hread : e.readVersion env.u = some (c :: v) := heq
    rw [hread]
    simp [eq_comm, BootEntry.isHidden]
  · next hno =>
    refine iff_of_false (by simp) fun h => ?_
    have hread : e.readVersion env.u = some version := h.1
    cases version with
    | nil => exact readVersion_ne_nil hread
    | cons c v => exact hno c v hread

variable {entries : List BootEntry}

theorem mem_kernelEntries {k : KernelEntry} : k ∈ kernelEntries env true (some entries) ↔ ∃ e ∈ entries,
      Listed env e ∧ e.readVersion env.u = some k.version ∧ k.name = e.name ∧ k.hidden = e.isHidden := by
  unfold kernelEntries
  cases huuid : ourPartuuid env with
  | none =>
    refine iff_of_false (by simp) ?_
    rintro ⟨e, -, hlisted, -⟩
    obtain ⟨partuuid, hroot, -⟩ := hlisted.root
    simp [huuid] at hroot
  | some partuuid => simp only [List.mem_filterMap, List.mem_mergeSort, kernelEntry_eq_some huuid]

theorem visible_hide (e : BootEntry) : e.hide.visible = false := by
  rw [Bool.eq_false_iff, BootEntry.visible, ne_eq, endsWith_iff]
  intro hsuffix
  have hend : str ".conf" <:+ hiddenSuffix :=
    List.suffix_of_suffix_length_le hsuffix (List.suffix_append _ _) (by decide)
  revert hend
  decide

theorem not_visible_of_isHidden (h : e.isHidden) : e.visible = false := by
  obtain ⟨e, rfl, -⟩ := eq_hide_of_isHidden h
  exact visible_hide e

structure ToHide (env : Env) (kernels : List Str) (e : BootEntry) : Prop where
  visible : e.visible
  listed : Listed env e
  version : ∃ v, e.readVersion env.u = some v ∧ v ∉ kernels

structure ToShow (env : Env) (kernels : List Str) (e : BootEntry) : Prop where
  visible : e.visible
  listed : Listed env e.hide
  version : ∃ v ∈ kernels, e.hide.readVersion env.u = some v

def hideMove (e : BootEntry) : Str × Str := (e.name, e.hide.name)

def showMove (e : BootEntry) : Str × Str := (e.hide.name, e.name)

theorem take_hide (e : BootEntry) : e.hide.name.take (e.hide.name.length - hiddenSuffix.length) = e.name := by
  simp [BootEntry.hide]

theorem mem_entryRenames : p ∈ entryRenames env (some entries) kernels ↔
      (∃ e ∈ entries, ToHide env kernels e ∧ p = hideMove e) ∨
        ∃ e, e.hide ∈ entries ∧ ToShow env kernels e ∧ p = showMove e := by
  simp only [entryRenames, List.mem_flatMap, List.mem_filterMap, List.mem_filter, List.mem_eraseDups, List.mem_map,
    mem_kernelEntries]
  constructor
  · rintro ⟨v, -, k, ⟨⟨e, he, hlisted, hversion, hname, hhidden⟩, hk⟩, hp⟩
    have hv : k.version = v := of_decide_eq_true hk
    rw [hv] at hversion
    rw [hname, hhidden] at hp
    split at hp
    · next hmem =>
      split at hp
      · next hid =>
        obtain ⟨e, rfl, hvisible⟩ := eq_hide_of_isHidden hid
        rw [take_hide] at hp
        exact .inr ⟨e, he, ⟨hvisible, hlisted, v, hmem, hversion⟩, (Option.some.inj hp).symm⟩
      · cases hp
    · next hmem =>
      split at hp
      · cases hp
      · next hid =>
        refine .inl ⟨e, he, ⟨?_, hlisted, v, hversion, hmem⟩, (Option.some.inj hp).symm⟩
        exact hlisted.file.resolve_right hid
  · rintro (⟨e, he, ⟨hvisible, hlisted, v, hversion, hmem⟩, rfl⟩ | ⟨e, he, ⟨hvisible, hlisted, v, hmem, hversion⟩, rfl⟩)
    · have hk : e.isHidden = false := by
        rw [Bool.eq_false_iff]
        intro hid
        simp [not_visible_of_isHidden hid] at hvisible
      refine ⟨v, ⟨⟨v, e.name, e.isHidden⟩, ⟨e, he, hlisted, hversion, rfl, rfl⟩, rfl⟩, ⟨v, e.name, e.isHidden⟩,
        ⟨⟨e, he, hlisted, hversion, rfl, rfl⟩, by simp⟩, ?_⟩
      simp [hmem, hk, hideMove, BootEntry.hide]
    · have hk : e.hide.isHidden = true := (isHidden_hide e).trans hvisible
      refine ⟨v, ⟨⟨v, e.hide.name, e.hide.isHidden⟩, ⟨e.hide, he, hlisted, hversion, rfl, rfl⟩, rfl⟩,
        ⟨v, e.hide.name, e.hide.isHidden⟩, ⟨⟨e.hide, he, hlisted, hversion, rfl, rfl⟩, by simp⟩, ?_⟩
      simp only [hmem, hk, if_true, take_hide, showMove]

theorem nodup_eraseDups [BEq α] [LawfulBEq α] (l : List α) : l.eraseDups.Nodup := by
  induction hn : l.length using Nat.strong_induction_on generalizing l with
  | h n ih =>
    cases l with
    | nil => exact List.nodup_nil
    | cons a l =>
      have hlt : (l.filter fun b => !b == a).length < n := by
        rw [← hn, List.length_cons]
        exact Nat.lt_succ_of_le (List.length_filter_le _ _)
      rw [List.eraseDups_cons, List.nodup_cons]
      exact ⟨by simp, ih _ hlt _ rfl⟩

theorem map_filterMap_sublist {α β γ : Type} {f : α → Option β} {a : α → γ} {b : β → γ}
    (h : ∀ x y, f x = some y → b y = a x) (l : List α) : ((l.filterMap f).map b).Sublist (l.map a) := by
  induction l with
  | nil => exact .slnil
  | cons x l ih =>
    rw [List.filterMap_cons, List.map_cons]
    cases hx : f x with
    | none => exact ih.cons _
    | some y =>
      rw [List.map_cons, h x y hx]
      exact ih.cons_cons _

theorem nodup_kernelEntries (env : Env) (h : (entries.map BootEntry.name).Nodup) :
    ((kernelEntries env true (some entries)).map KernelEntry.name).Nodup := by
  unfold kernelEntries
  cases huuid : ourPartuuid env with
  | none => exact List.nodup_nil
  | some partuuid =>
    refine List.Nodup.sublist (map_filterMap_sublist (a := BootEntry.name) (fun e k hk => ?_) _) ?_
    · exact ((kernelEntry_eq_some huuid).mp hk).2.2.1
    · exact ((List.mergeSort_perm entries _).map BootEntry.name).nodup_iff.mpr h

theorem nodup_entryRenames {kernels : List Str}
    (h : (entries.map BootEntry.name).Nodup) : ((entryRenames env (some entries) kernels).map Prod.fst).Nodup := by
  have hnames := nodup_kernelEntries env h
  unfold entryRenames
  simp only
  generalize kernelEntries env true (some entries) = kents at hnames
  rw [List.map_flatMap, List.nodup_flatMap]
  have hsub (v : Str) := map_filterMap_sublist (a := KernelEntry.name) (b := Prod.fst)
    (f := fun e : KernelEntry => if v ∈ kernels then
        if e.hidden then some (e.name, e.name.take (e.name.length - hiddenSuffix.length)) else none
      else if e.hidden then none else some (e.name, e.name ++ hiddenSuffix)) (fun k p hp => by
        split at hp
        · split at hp
          · cases hp
            rfl
          · cases hp
        · split at hp
          · cases hp
          · cases hp
            rfl) (kents.filter (·.version = v))
  constructor
  · intro v _
    exact (hnames.sublist (List.filter_sublist.map _)).sublist (hsub v)
  · refine List.Pairwise.imp ?_ (nodup_eraseDups _)
    intro v w hne
    rw [Function.onFun, List.disjoint_left]
    intro n hv hw
    obtain ⟨k, hk, rfl⟩ := List.mem_map.mp ((hsub v).subset hv)
    obtain ⟨k', hk', hname⟩ := List.mem_map.mp ((hsub w).subset hw)
    rw [List.mem_filter] at hk hk'
    obtain rfl : k' = k := List.inj_on_of_nodup_map hnames hk'.1 hk.1 hname
    exact hne ((of_decide_eq_true hk.2).symm.trans (of_decide_eq_true hk'.2))

end StainedGlass.Snapshot
