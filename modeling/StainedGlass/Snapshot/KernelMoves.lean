import StainedGlass.Snapshot.KernelNames

namespace StainedGlass.Snapshot

open Lib

section Moves

variable {a b n t : Str} {p : Str × Str} {moves more : List (Str × Str)} {entries : List BootEntry}

def runMoves (moves : List (Str × Str)) (entries : List BootEntry) : List BootEntry :=
  moves.foldl (fun entries p => replaceIn p.1 p.2 entries) entries

theorem mem_replaceIn (h : a ≠ b) :
    ⟨n, t⟩ ∈ replaceIn a b entries ↔ (n = b ∧ ⟨a, t⟩ ∈ entries) ∨ (n ≠ b ∧ n ≠ a ∧ ⟨n, t⟩ ∈ entries) := by
  simp only [replaceIn, List.mem_map, List.mem_filter]
  constructor
  · rintro ⟨e, ⟨he, hb⟩, heq⟩
    split at heq
    · next ha =>
      cases heq
      exact .inl ⟨rfl, ha ▸ he⟩
    · next ha =>
      cases heq
      exact .inr ⟨of_decide_eq_true hb, ha, he⟩
  · rintro (⟨rfl, he⟩ | ⟨hb, ha, he⟩)
    · exact ⟨_, ⟨he, by simpa using h⟩, by simp⟩
    · exact ⟨_, ⟨he, by simpa using hb⟩, by simp [ha]⟩

theorem nodup_replaceIn (h : (entries.map BootEntry.name).Nodup) (a b : Str) :
    ((replaceIn a b entries).map BootEntry.name).Nodup := by
  have hnames : (replaceIn a b entries).map BootEntry.name =
      ((entries.map BootEntry.name).filter (· ≠ b)).map fun n => if n = a then b else n := by
    rw [replaceIn, List.map_map, List.filter_map, List.map_map]
    apply List.map_congr_left
    intro e _
    simp only [Function.comp_apply]
    split
    · rfl
    · rfl
  rw [hnames]
  refine (h.filter _).map_on fun x hx y hy hxy => ?_
  have hx' := of_decide_eq_true (List.mem_filter.mp hx).2
  have hy' := of_decide_eq_true (List.mem_filter.mp hy).2
  split at hxy
  · next hxa =>
    split at hxy
    · next hya => rw [hxa, hya]
    · exact absurd hxy.symm hy'
  · split at hxy
    · exact absurd hxy hx'
    · exact hxy

theorem nodup_runMoves (h : (entries.map BootEntry.name).Nodup) : ((runMoves moves entries).map BootEntry.name).Nodup := by
  induction moves generalizing entries with
  | nil => exact h
  | cons p moves ih => exact ih (nodup_replaceIn h p.1 p.2)

theorem runMoves_append : runMoves (moves ++ more) entries = runMoves more (runMoves moves entries) := List.foldl_append

theorem runMoves_cons : runMoves (p :: moves) entries = runMoves moves (replaceIn p.1 p.2 entries) := rfl

theorem mem_runMoves_of_away (hmoves : ∀ p ∈ moves, p.1 ≠ p.2) (haway : ∀ p ∈ moves, n ≠ p.1 ∧ n ≠ p.2) :
    ⟨n, t⟩ ∈ runMoves moves entries ↔ ⟨n, t⟩ ∈ entries := by
  induction moves generalizing entries with
  | nil => exact Iff.rfl
  | cons p moves ih =>
    rw [List.forall_mem_cons] at hmoves haway
    rw [runMoves_cons, ih hmoves.2 haway.2, mem_replaceIn hmoves.1]
    simp [haway.1]

structure Pairs (a b : Str) (moves : List (Str × Str)) : Prop where
  ne : a ≠ b
  apart : ∀ p ∈ moves, p.1 ≠ p.2
  either : ∀ p ∈ moves, p = (a, b) ∨ p = (b, a) ∨ ((a ≠ p.1 ∧ a ≠ p.2) ∧ b ≠ p.1 ∧ b ≠ p.2)
  once : (moves.map Prod.fst).Nodup

namespace Pairs

theorem symm (h : Pairs a b moves) : Pairs b a moves := by
  refine ⟨h.ne.symm, h.apart, fun p hp => ?_, h.once⟩
  obtain hab | hba | ⟨ha, hb⟩ := h.either p hp
  · exact .inr (.inl hab)
  · exact .inl hba
  · exact .inr (.inr ⟨hb, ha⟩)

theorem sublist (h : Pairs a b moves) (hsub : more.Sublist moves) : Pairs a b more :=
  ⟨h.ne, fun p hp => h.apart p (hsub.subset hp), fun p hp => h.either p (hsub.subset hp), h.once.sublist (hsub.map _)⟩

theorem front (h : Pairs a b (moves ++ p :: more)) : Pairs a b moves := h.sublist (List.sublist_append_left _ _)

theorem back (h : Pairs a b (moves ++ p :: more)) : Pairs a b more :=
  h.sublist ((List.sublist_cons_self _ _).trans (List.sublist_append_right _ _))

theorem notMem (h : Pairs a b (moves ++ p :: more)) : p ∉ moves ∧ p ∉ more := by
  have hnodup := h.once.of_map
  rw [List.nodup_middle, List.nodup_cons, List.mem_append] at hnodup
  exact not_or.mp hnodup.1

theorem mem_of_none (h : Pairs a b moves) (hab : (a, b) ∉ moves) (hba : (b, a) ∉ moves) (entries : List BootEntry)
    (t : Str) :
    (⟨a, t⟩ ∈ runMoves moves entries ↔ ⟨a, t⟩ ∈ entries) ∧ (⟨b, t⟩ ∈ runMoves moves entries ↔ ⟨b, t⟩ ∈ entries) := by
  have haway (p : Str × Str) (hp : p ∈ moves) : (a ≠ p.1 ∧ a ≠ p.2) ∧ b ≠ p.1 ∧ b ≠ p.2 := by
    obtain rfl | rfl | haway := h.either p hp
    · exact absurd hp hab
    · exact absurd hp hba
    · exact haway
  exact ⟨mem_runMoves_of_away h.apart fun p hp => (haway p hp).1, mem_runMoves_of_away h.apart fun p hp => (haway p hp).2⟩

theorem mem_of_first (h : Pairs a b (moves ++ (a, b) :: more)) (hba : (b, a) ∉ moves) (entries : List BootEntry) (t : Str) :
    ⟨a, t⟩ ∉ replaceIn a b (runMoves moves entries) ∧
      (⟨b, t⟩ ∈ replaceIn a b (runMoves moves entries) ↔ ⟨a, t⟩ ∈ entries) := by
  have hfront := h.front.mem_of_none h.notMem.1 hba entries t
  rw [mem_replaceIn h.ne, mem_replaceIn h.ne]
  simp [h.ne, hfront.1]

theorem mem_of_one (h : Pairs a b moves) (hab : (a, b) ∈ moves) (hba : (b, a) ∉ moves) (entries : List BootEntry)
    (t : Str) : ⟨a, t⟩ ∉ runMoves moves entries ∧ (⟨b, t⟩ ∈ runMoves moves entries ↔ ⟨a, t⟩ ∈ entries) := by
  obtain ⟨moves, more, rfl⟩ := List.append_of_mem hab
  rw [List.mem_append, List.mem_cons, not_or, not_or] at hba
  have hfirst := h.mem_of_first hba.1 entries t
  have hback := h.back.mem_of_none h.notMem.2 hba.2.2 (replaceIn a b (runMoves moves entries)) t
  rw [runMoves_append, runMoves_cons, hback.1, hback.2]
  exact hfirst

theorem mem_of_back (h : Pairs a b (moves ++ (a, b) :: more)) (hba : (b, a) ∈ more) (entries : List BootEntry) (t : Str) :
    ⟨b, t⟩ ∉ runMoves (moves ++ (a, b) :: more) entries ∧
      (⟨a, t⟩ ∈ runMoves (moves ++ (a, b) :: more) entries ↔ ⟨a, t⟩ ∈ entries) := by
  have hfront : (b, a) ∉ moves := by
    intro hmem
    obtain ⟨back, rest, rfl⟩ := List.append_of_mem hba
    rw [List.append_cons, ← List.append_assoc] at h
    exact h.notMem.1 (by simp [hmem])
  have hfirst := h.mem_of_first hfront entries t
  have hback := h.back.symm.mem_of_one hba h.notMem.2 (replaceIn a b (runMoves moves entries)) t
  rw [runMoves_append, runMoves_cons, hback.2, hfirst.2]
  exact ⟨hback.1, Iff.rfl⟩

theorem mem_of_both (h : Pairs a b moves) (hab : (a, b) ∈ moves) (hba : (b, a) ∈ moves) (entries : List BootEntry) :
    (∀ t, ⟨b, t⟩ ∉ runMoves moves entries ∧ (⟨a, t⟩ ∈ runMoves moves entries ↔ ⟨a, t⟩ ∈ entries)) ∨
      ∀ t, ⟨a, t⟩ ∉ runMoves moves entries ∧ (⟨b, t⟩ ∈ runMoves moves entries ↔ ⟨b, t⟩ ∈ entries) := by
  obtain ⟨moves, more, rfl⟩ := List.append_of_mem hab
  rw [List.mem_append, List.mem_cons] at hba
  obtain hba | hba | hba := hba
  · obtain ⟨front, back, rfl⟩ := List.append_of_mem hba
    rw [List.append_assoc, List.cons_append] at h ⊢
    exact .inr (h.symm.mem_of_back (by simp) entries)
  · exact absurd (Prod.ext_iff.mp hba).1.symm h.ne
  · exact .inl (h.mem_of_back hba entries)

theorem mem_or_mem (h : Pairs a b moves) (entries : List BootEntry) {t : Str}
    (hmem : ⟨a, t⟩ ∈ runMoves moves entries ∨ ⟨b, t⟩ ∈ runMoves moves entries) : ⟨a, t⟩ ∈ entries ∨ ⟨b, t⟩ ∈ entries := by
  by_cases hab : (a, b) ∈ moves
  · by_cases hba : (b, a) ∈ moves
    · obtain hboth | hboth := h.mem_of_both hab hba entries
      · exact .inl (hmem.elim (hboth t).2.mp fun hb => absurd hb (hboth t).1)
      · exact .inr (hmem.elim (fun ha => absurd ha (hboth t).1) (hboth t).2.mp)
    · have hone := h.mem_of_one hab hba entries t
      exact .inl (hmem.elim (fun ha => absurd ha hone.1) hone.2.mp)
  · by_cases hba : (b, a) ∈ moves
    · have hone := h.symm.mem_of_one hba hab entries t
      exact .inr (hmem.elim hone.2.mp fun hb => absurd hb hone.1)
    · have hnone := h.mem_of_none hab hba entries t
      exact hmem.imp hnone.1.mp hnone.2.mp

end Pairs

end Moves

section Match

variable {env : Env} {kernels : List Str} {entries : List BootEntry} {e : BootEntry}

theorem name_ne_hide (h : e.visible) (e' : BootEntry) : e.name ≠ e'.hide.name := by
  intro hname
  have hhide : e.visible = e'.hide.visible := congrArg (endsWith · _) hname
  simp [hhide, visible_hide] at h

theorem hide_name_inj {e e' : BootEntry} : e.hide.name = e'.hide.name ↔ e.name = e'.name := List.append_left_inj _

theorem hideMove_mem (he : e.visible) : hideMove e ∈ entryRenames env (some entries) kernels ↔
    ∃ t, ⟨e.name, t⟩ ∈ entries ∧ ToHide env kernels ⟨e.name, t⟩ := by
  rw [mem_entryRenames]
  constructor
  · rintro (⟨e', hmem, hhide, hp⟩ | ⟨e', -, -, hp⟩)
    · have hname : e.name = e'.name := congrArg Prod.fst hp
      rw [hname]
      exact ⟨e'.text, hmem, hhide⟩
    · exact absurd (congrArg Prod.fst hp) (name_ne_hide he e')
  · rintro ⟨t, hmem, hhide⟩
    exact .inl ⟨_, hmem, hhide, rfl⟩

theorem showMove_mem : showMove e ∈ entryRenames env (some entries) kernels ↔
    ∃ t, ⟨e.hide.name, t⟩ ∈ entries ∧ ToShow env kernels ⟨e.name, t⟩ := by
  rw [mem_entryRenames]
  constructor
  · rintro (⟨e', -, hhide, hp⟩ | ⟨e', hmem, hshow, hp⟩)
    · exact absurd (congrArg Prod.fst hp).symm (name_ne_hide hhide.visible e)
    · have hname : e.name = e'.name := congrArg Prod.snd hp
      rw [hide_name_inj.mpr hname, hname]
      exact ⟨e'.text, hmem, hshow⟩
  · rintro ⟨t, hmem, hshow⟩
    exact .inr ⟨⟨e.name, t⟩, hmem, hshow, rfl⟩

theorem pairs_entryRenames (env : Env) (kernels : List Str) (h : (entries.map BootEntry.name).Nodup) (he : e.visible) :
    Pairs e.name e.hide.name (entryRenames env (some entries) kernels) := by
  have hmove {p : Str × Str} (hp : p ∈ entryRenames env (some entries) kernels) :
      ∃ e' : BootEntry, e'.visible ∧ (p = hideMove e' ∨ p = showMove e') := by
    obtain ⟨e', -, hhide, rfl⟩ | ⟨e', -, hshow, rfl⟩ := mem_entryRenames.mp hp
    · exact ⟨e', hhide.visible, .inl rfl⟩
    · exact ⟨e', hshow.visible, .inr rfl⟩
  refine ⟨name_ne_hide he e, fun p hp => ?_, fun p hp => ?_, nodup_entryRenames h⟩
  · obtain ⟨e', he', rfl | rfl⟩ := hmove hp
    · exact name_ne_hide he' e'
    · exact (name_ne_hide he' e').symm
  · obtain ⟨e', he', hp'⟩ := hmove hp
    by_cases hname : e'.name = e.name
    · have hhide := hide_name_inj.mpr hname
      obtain rfl | rfl := hp'
      · exact .inl (Prod.ext hname hhide)
      · exact .inr (.inl (Prod.ext hhide hname))
    · have hhide : e'.hide.name ≠ e.hide.name := fun heq => hname (hide_name_inj.mp heq)
      obtain rfl | rfl := hp'
      · exact .inr (.inr ⟨⟨Ne.symm hname, name_ne_hide he e'⟩, (name_ne_hide he' e).symm, hhide.symm⟩)
      · exact .inr (.inr ⟨⟨name_ne_hide he e', Ne.symm hname⟩, hhide.symm, (name_ne_hide he' e).symm⟩)

theorem nodup_matchEntries (h : (entries.map BootEntry.name).Nodup) :
    ((matchEntries env kernels entries).map BootEntry.name).Nodup := nodup_runMoves h

theorem eq_of_name {e' : BootEntry} (h : (entries.map BootEntry.name).Nodup) (he : e ∈ entries) (he' : e' ∈ entries)
    (hname : e.name = e'.name) : e = e' := List.inj_on_of_nodup_map h he he' hname

theorem isLive_hide (e : BootEntry) : e.hide.isLive = false := by
  rw [Bool.eq_false_iff, BootEntry.isLive, ne_eq, endsWith_iff]
  intro hlive
  have hconf : e.hide.visible := endsWith_iff.mpr ((by decide : str ".conf" <:+ str "-live.conf").trans hlive)
  simp [visible_hide] at hconf

theorem isTwin_hide (e : BootEntry) : e.hide.isTwin = false := by
  rw [Bool.eq_false_iff, BootEntry.isTwin, ne_eq, endsWith_iff]
  intro htwin
  have hconf : e.hide.visible := endsWith_iff.mpr ((by decide : str ".conf" <:+ str "-recovery.conf").trans htwin)
  simp [visible_hide] at hconf

theorem isLive_of_isTwin (h : e.isTwin) : e.isLive = false := by
  rw [Bool.eq_false_iff, BootEntry.isLive, ne_eq, endsWith_iff]
  intro hlive
  have hends : str "-live.conf" <:+ str "-recovery.conf" :=
    List.suffix_of_suffix_length_le hlive (endsWith_iff.mp h) (by decide)
  revert hends
  decide

theorem toHide_iff : ToHide env kernels e ↔ Stale env kernels e ∧ e.isTwin = false ∧ e.usedUp env.u = false := by
  constructor
  · intro h
    refine ⟨⟨h.visible, h.listed.root, h.listed.own, h.listed.live, ?_⟩, h.listed.twin, h.listed.tries⟩
    rw [version_eq_readVersion h.listed.twin]
    exact h.version
  · rintro ⟨h, htwin, htries⟩
    refine ⟨h.visible, ⟨.inl h.visible, h.own, h.live, htwin, htries, h.root⟩, ?_⟩
    rw [← version_eq_readVersion htwin]
    exact h.version

theorem toShow_iff : ToShow env kernels e ↔ ComesBack env kernels e.hide := by
  constructor
  · intro h
    exact ⟨(isHidden_hide e).trans h.visible, h.listed.root, h.listed.own, h.listed.tries, h.version⟩
  · intro h
    exact ⟨(isHidden_hide e).symm.trans h.hidden,
      ⟨.inr h.hidden, h.own, isLive_hide e, isTwin_hide e, h.tries, h.root⟩, h.version⟩

end Match

end StainedGlass.Snapshot
