import StainedGlass.Snapshot.KernelMoves
import StainedGlass.Snapshot.RollbackLaws

namespace StainedGlass.Snapshot

open Lib

section Match

variable {env : Env} {kernels : List Str} {entries : List BootEntry} {e : BootEntry}

theorem not_both (hfits : Fits env kernels entries) (he : e.visible)
    (hhide : hideMove e ∈ entryRenames env (some entries) kernels) :
    showMove e ∉ entryRenames env (some entries) kernels := by
  intro hshow
  obtain ⟨t, hmem, htohide⟩ := (hideMove_mem he).mp hhide
  obtain ⟨t', hmem', htoshow⟩ := showMove_mem.mp hshow
  exact hfits.apart _ hmem _ hmem' (toHide_iff.mp htohide).1 (toShow_iff.mp htoshow) rfl

theorem Fits.hides (hfits : Fits env kernels entries) (hnodup : (entries.map BootEntry.name).Nodup)
    (he : e ∈ matchEntries env kernels entries) : ¬ Stale env kernels e := by
  intro hstale
  have hpairs := pairs_entryRenames env kernels hnodup hstale.visible
  by_cases hhide : hideMove e ∈ entryRenames env (some entries) kernels
  · exact (hpairs.mem_of_one hhide (not_both hfits hstale.visible hhide) entries e.text).1 he
  by_cases hshow : showMove e ∈ entryRenames env (some entries) kernels
  · have hmem : e.hide ∈ entries := (hpairs.symm.mem_of_one hshow hhide entries e.text).2.mp he
    obtain ⟨t, hmem', htoshow⟩ := showMove_mem.mp hshow
    cases eq_of_name hnodup hmem hmem' rfl
    exact hfits.twins e hmem (toShow_iff.mp htoshow) hstale
  · have hmem : e ∈ entries := (hpairs.mem_of_none hhide hshow entries e.text).1.mp he
    exact hhide ((hideMove_mem hstale.visible).mpr ⟨e.text, hmem, toHide_iff.mpr ⟨hstale, hfits.listed e hmem hstale⟩⟩)

theorem mem_of_toShow (hfits : Fits env kernels entries) (hnodup : (entries.map BootEntry.name).Nodup)
    (hmem : e.hide ∈ entries) (hshow : ToShow env kernels e) : e ∈ matchEntries env kernels entries := by
  have hmove : showMove e ∈ entryRenames env (some entries) kernels := showMove_mem.mpr ⟨e.text, hmem, hshow⟩
  have hnot : hideMove e ∉ entryRenames env (some entries) kernels := fun hhide =>
    not_both hfits hshow.visible hhide hmove
  exact ((pairs_entryRenames env kernels hnodup hshow.visible).symm.mem_of_one hmove hnot entries e.text).2.mpr hmem

theorem starts_of_toShow (hlower : LowersStart env.u) (hfits : Fits env kernels entries) (hmem : e.hide ∈ entries)
    (hshow : ToShow env kernels e) : ∃ v ∈ kernels, e.version env.u = some v := by
  obtain ⟨v, hv, hversion⟩ := hshow.version
  rw [readVersion_hide hshow.visible] at hversion
  cases htwin : e.isTwin with
  | false => exact ⟨v, hv, (version_eq_readVersion htwin).trans hversion⟩
  | true =>
    have hsome : (e.version env.u).isSome := by rw [isSome_version, hversion, Option.isSome_some]
    obtain ⟨w, hw⟩ := Option.isSome_iff_exists.mp hsome
    refine ⟨w, ?_, hw⟩
    by_contra hnot
    refine hfits.twins e hmem (toShow_iff.mp hshow) ⟨hshow.visible, hshow.listed.root, ?_, isLive_of_isTwin htwin, w, hw, hnot⟩
    rw [← hlower e hshow.visible]
    exact hshow.listed.own

theorem Fits.starts (hfits : Fits env kernels entries) (hlower : LowersStart env.u)
    (hnodup : (entries.map BootEntry.name).Nodup)
    (hkernel : ∃ k ∈ kernels, k ∈ (kernelEntries env true (some entries)).map KernelEntry.version) :
    ∃ e ∈ matchEntries env kernels entries, e.visible ∧ e.OfRoot env ∧ ∃ v ∈ kernels, e.version env.u = some v := by
  obtain ⟨v, hv, hmem⟩ := hkernel
  obtain ⟨k, hk, rfl⟩ := List.mem_map.mp hmem
  obtain ⟨e, he, hlisted, hversion, -, -⟩ := mem_kernelEntries.mp hk
  obtain hvisible | hhidden := hlisted.file
  · have hhide : hideMove e ∉ entryRenames env (some entries) kernels := by
      intro hhide
      obtain ⟨t, hmem, htohide⟩ := (hideMove_mem hvisible).mp hhide
      rw [← eq_of_name hnodup he hmem rfl] at htohide
      obtain ⟨w, hw, hnot⟩ := htohide.version
      exact hnot (Option.some.inj (hversion.symm.trans hw) ▸ hv)
    by_cases hshow : showMove e ∈ entryRenames env (some entries) kernels
    · obtain ⟨t, hmem, htoshow⟩ := showMove_mem.mp hshow
      exact ⟨_, mem_of_toShow hfits hnodup hmem htoshow, htoshow.visible, htoshow.listed.root,
        starts_of_toShow hlower hfits hmem htoshow⟩
    · have hmem := (pairs_entryRenames env kernels hnodup hvisible).mem_of_none hhide hshow entries e.text
      exact ⟨e, hmem.1.mpr he, hvisible, hlisted.root, k.version, hv, (version_eq_readVersion hlisted.twin).trans hversion⟩
  · obtain ⟨e, rfl, hvisible⟩ := eq_hide_of_isHidden hhidden
    have htoshow : ToShow env kernels e := ⟨hvisible, hlisted, k.version, hv, hversion⟩
    exact ⟨e, mem_of_toShow hfits hnodup he htoshow, hvisible, hlisted.root, starts_of_toShow hlower hfits he htoshow⟩

structure Alone (entries : List BootEntry) (e : BootEntry) (hidden : Prop) : Prop where
  nodup : (entries.map BootEntry.name).Nodup
  shown : ∀ t, ⟨e.name, t⟩ ∈ entries ↔ ¬ hidden ∧ t = e.text
  hid : ∀ t, ⟨e.hide.name, t⟩ ∈ entries ↔ hidden ∧ t = e.text

theorem listed_hide (hlower : LowersStart env.u) (hvisible : e.visible) (h : Listed env e) : Listed env e.hide :=
  ⟨.inr ((isHidden_hide e).trans hvisible), (hlower e hvisible).trans h.own, isLive_hide e, isTwin_hide e,
    (usedUp_hide hvisible).trans h.tries, h.root⟩

theorem Alone.match (hlower : LowersStart env.u) (hvisible : e.visible) (hlisted : Listed env e)
    (hversion : e.readVersion env.u = some v) {hidden : Prop} (h : Alone entries e hidden) (kernels : List Str) :
    Alone (matchEntries env kernels entries) e (v ∉ kernels) := by
  have hpairs := pairs_entryRenames env kernels h.nodup hvisible
  have hhide : hideMove e ∈ entryRenames env (some entries) kernels ↔ ¬ hidden ∧ v ∉ kernels := by
    rw [hideMove_mem hvisible]
    constructor
    · rintro ⟨t, hmem, htohide⟩
      obtain ⟨hnot, rfl⟩ := (h.shown t).mp hmem
      obtain ⟨w, hw, hw'⟩ := htohide.version
      exact ⟨hnot, Option.some.inj (hw.symm.trans hversion) ▸ hw'⟩
    · rintro ⟨hnot, hv⟩
      exact ⟨e.text, (h.shown _).mpr ⟨hnot, rfl⟩, hvisible, hlisted, v, hversion, hv⟩
  have hshow : showMove e ∈ entryRenames env (some entries) kernels ↔ hidden ∧ v ∈ kernels := by
    rw [showMove_mem]
    constructor
    · rintro ⟨t, hmem, htoshow⟩
      obtain ⟨hid, rfl⟩ := (h.hid t).mp hmem
      obtain ⟨w, hw, hw'⟩ := htoshow.version
      have hread : e.readVersion env.u = some w := (readVersion_hide hvisible).symm.trans hw'
      exact ⟨hid, Option.some.inj (hread.symm.trans hversion) ▸ hw⟩
    · rintro ⟨hid, hv⟩
      exact ⟨e.text, (h.hid _).mpr ⟨hid, rfl⟩, hvisible, listed_hide hlower hvisible hlisted, v, hv,
        (readVersion_hide hvisible).trans hversion⟩
  have hboth (t : Str) : (⟨e.name, t⟩ ∈ matchEntries env kernels entries ↔ v ∈ kernels ∧ t = e.text) ∧
      (⟨e.hide.name, t⟩ ∈ matchEntries env kernels entries ↔ v ∉ kernels ∧ t = e.text) := by
    by_cases hid : hidden
    · have hno : hideMove e ∉ entryRenames env (some entries) kernels := fun hmem => (hhide.mp hmem).1 hid
      by_cases hv : v ∈ kernels
      · have hone := hpairs.symm.mem_of_one (hshow.mpr ⟨hid, hv⟩) hno entries t
        exact ⟨hone.2.trans ((h.hid t).trans (by simp [hid, hv])), iff_of_false hone.1 (by simp [hv])⟩
      · have hnone := hpairs.mem_of_none hno (fun hmem => hv (hshow.mp hmem).2) entries t
        exact ⟨hnone.1.trans ((h.shown t).trans (by simp [hid, hv])), hnone.2.trans ((h.hid t).trans (by simp [hid, hv]))⟩
    · have hno : showMove e ∉ entryRenames env (some entries) kernels := fun hmem => hid (hshow.mp hmem).1
      by_cases hv : v ∈ kernels
      · have hnone := hpairs.mem_of_none (fun hmem => (hhide.mp hmem).2 hv) hno entries t
        exact ⟨hnone.1.trans ((h.shown t).trans (by simp [hid, hv])), hnone.2.trans ((h.hid t).trans (by simp [hid, hv]))⟩
      · have hone := hpairs.mem_of_one (hhide.mpr ⟨hid, hv⟩) hno entries t
        exact ⟨iff_of_false hone.1 (by simp [hv]), hone.2.trans ((h.shown t).trans (by simp [hid, hv]))⟩
  refine ⟨nodup_matchEntries h.nodup, fun t => ?_, fun t => (hboth t).2⟩
  rw [not_not]
  exact (hboth t).1

theorem Fits.alone (hfits : Fits env kernels entries) (hnodup : (entries.map BootEntry.name).Nodup) (he : e ∈ entries)
    (hstale : Stale env kernels e) : Alone (matchEntries env kernels entries) e True := by
  have htohide := toHide_iff.mpr ⟨hstale, hfits.listed e he hstale⟩
  have hhide : hideMove e ∈ entryRenames env (some entries) kernels :=
    (hideMove_mem hstale.visible).mpr ⟨e.text, he, htohide⟩
  have hone (t : Str) := (pairs_entryRenames env kernels hnodup hstale.visible).mem_of_one hhide
    (not_both hfits hstale.visible hhide) entries t
  refine ⟨nodup_matchEntries hnodup, fun t => iff_of_false (hone t).1 (by simp), fun t => (hone t).2.trans ⟨fun hmem => ?_, ?_⟩⟩
  · exact ⟨trivial, congrArg BootEntry.text (eq_of_name hnodup hmem he rfl)⟩
  · rintro ⟨-, rfl⟩
    exact he

theorem Fits.again (hfits : Fits env kernels entries) (hlower : LowersStart env.u)
    (hnodup : (entries.map BootEntry.name).Nodup) (he : e ∈ entries) (hstale : Stale env kernels e)
    (between : List (List Str)) {kernels' : List Str} (hkernels : ∃ v ∈ kernels', e.version env.u = some v) :
    e ∈ matchEntries env kernels'
      (between.foldl (fun entries k => matchEntries env k entries) (matchEntries env kernels entries)) := by
  have htohide := toHide_iff.mpr ⟨hstale, hfits.listed e he hstale⟩
  obtain ⟨v, hv, hversion⟩ := hkernels
  rw [version_eq_readVersion htohide.listed.twin] at hversion
  have hrun (entries : List BootEntry) {hidden : Prop} (h : Alone entries e hidden) :
      ∃ hidden, Alone (between.foldl (fun entries k => matchEntries env k entries) entries) e hidden := by
    induction between generalizing entries hidden with
    | nil => exact ⟨hidden, h⟩
    | cons k between ih => exact ih _ (h.match hlower htohide.visible htohide.listed hversion k)
  obtain ⟨hidden, halone⟩ := hrun _ (hfits.alone hnodup he hstale)
  have hlast := halone.match hlower htohide.visible htohide.listed hversion kernels'
  exact (hlast.shown e.text).mpr ⟨not_not.mpr hv, rfl⟩

theorem Follows.hide_mem (h : Follows env kernels entries (matchEntries env kernels entries))
    (hnodup : (entries.map BootEntry.name).Nodup) (he : e ∈ entries) (hstale : Stale env kernels e) :
    e.hide ∈ matchEntries env kernels entries := by
  obtain ⟨v, hv, -⟩ := hstale.version
  have hagain := h.again e he hstale [] [v] ⟨v, .head _, hv⟩
  have hafter : ((matchEntries env kernels entries).map BootEntry.name).Nodup := nodup_matchEntries hnodup
  have hpairs := pairs_entryRenames env [v] hafter hstale.visible
  obtain hshown | hhidden := hpairs.mem_or_mem _ (.inl hagain)
  · exact absurd hstale (h.hides e hshown)
  · exact hhidden

theorem Follows.toHide (h : Follows env kernels entries (matchEntries env kernels entries))
    (hnodup : (entries.map BootEntry.name).Nodup) (he : e ∈ entries) (hstale : Stale env kernels e) :
    ToHide env kernels e := by
  have hhide : hideMove e ∈ entryRenames env (some entries) kernels := by
    by_contra hhide
    have hpairs := pairs_entryRenames env kernels hnodup hstale.visible
    by_cases hshow : showMove e ∈ entryRenames env (some entries) kernels
    · exact (hpairs.symm.mem_of_one hshow hhide entries e.text).1 (h.hide_mem hnodup he hstale)
    · exact h.hides e ((hpairs.mem_of_none hhide hshow entries e.text).1.mpr he) hstale
  obtain ⟨t, hmem, htohide⟩ := (hideMove_mem hstale.visible).mp hhide
  rwa [← eq_of_name hnodup he hmem rfl] at htohide

theorem Follows.apart (h : Follows env kernels entries (matchEntries env kernels entries))
    (hnodup : (entries.map BootEntry.name).Nodup) (he : e ∈ entries) (hstale : Stale env kernels e)
    (hmem : ⟨e.hide.name, t⟩ ∈ entries) : ¬ ComesBack env kernels ⟨e.hide.name, t⟩ := by
  intro hback
  have htohide := h.toHide hnodup he hstale
  have hhide := (hideMove_mem hstale.visible).mpr ⟨e.text, he, htohide⟩
  have hshow : showMove e ∈ entryRenames env (some entries) kernels :=
    showMove_mem.mpr ⟨t, hmem, toShow_iff.mpr hback⟩
  have hkept := h.hide_mem hnodup he hstale
  obtain hboth | hboth :=
    (pairs_entryRenames env kernels hnodup hstale.visible).mem_of_both hhide hshow entries
  · exact (hboth e.text).1 hkept
  · have hsame : e.hide = ⟨e.hide.name, t⟩ := eq_of_name hnodup ((hboth e.text).2.mp hkept) hmem rfl
    rw [← hsame] at hback
    obtain ⟨v, hv, hversion⟩ := hback.version
    obtain ⟨w, hw, hnot⟩ := htohide.version
    rw [readVersion_hide hstale.visible, hw] at hversion
    exact hnot (Option.some.inj hversion ▸ hv)

theorem Follows.fits (h : Follows env kernels entries (matchEntries env kernels entries))
    (hnodup : (entries.map BootEntry.name).Nodup) : Fits env kernels entries := by
  refine ⟨fun e he hstale => (toHide_iff.mp (h.toHide hnodup he hstale)).2, ?_, fun e he hback hstale => ?_⟩
  · rintro e he ⟨name, t⟩ he' hstale hback hname
    cases hname
    exact h.apart hnodup he hstale he' hback
  · have hshow : showMove e ∈ entryRenames env (some entries) kernels :=
      showMove_mem.mpr ⟨e.text, he, toShow_iff.mpr hback⟩
    have hhide : hideMove e ∉ entryRenames env (some entries) kernels := by
      intro hhide
      obtain ⟨t, hmem, htohide⟩ := (hideMove_mem hstale.visible).mp hhide
      exact h.apart hnodup hmem (toHide_iff.mp htohide).1 he hback
    have hpairs := pairs_entryRenames env kernels hnodup hstale.visible
    exact h.hides e ((hpairs.symm.mem_of_one hshow hhide entries e.text).2.mpr he) hstale

end Match

theorem entries_foldl_replaceEntry (renames : List (Str × Str)) (s : System) :
    (renames.foldl (fun s p => s.replaceEntry p.1 p.2) s).entries = s.entries.map (runMoves renames) := by
  induction renames generalizing s with
  | nil => exact Option.map_id'.symm
  | cons p renames ih =>
    rw [List.foldl_cons, ih, System.replaceEntry, Option.map_map]
    rfl

theorem ends_matchKernels (env : Env) (kernels : List Str) (s : System) :
    (matchKernels env kernels).Ends s (fun _ s' => s'.entries = s.entries.map (matchEntries env kernels)) (fun _ _ => True) := by
  rw [matchKernels, Act.ends_bind, Act.ends_get]
  refine (Act.ends_each_op _ _ _ s).mono (fun _ s' hs' => ?_) fun _ _ h => h
  rw [hs']
  refine (entries_foldl_replaceEntry _ s).trans ?_
  cases s.entries with
  | none => rfl
  | some entries => rfl

theorem keeps_take (h : ∀ s d, I s → I (s.putDir d)) {label : Str} {kind : Kind}
    {changes : List Change} {source : Option String} : (take env label kind changes source).Keeps I := by
  apply Act.Keeps.get.bind
  intro s
  split
  · exact .fail _
  · apply Act.Keeps.bind (env.keeps_op fun s hs => h s _ hs)
    intro _
    apply Act.Keeps.bind env.keeps_source
    intro root
    apply Act.Keeps.bind (Act.Keeps.op fun s hs => h s _ hs)
    intro _
    apply Act.Keeps.bind (env.keeps_op fun s hs => h s _ hs)
    intro _
    apply Act.Keeps.bind (env.keeps_op fun s hs => h s _ hs)
    exact fun _ => .pure _

theorem keeps_takeUndo (h : ∀ s d, I s → I (s.putDir d)) : (takeUndo env info sid).Keeps I := by
  apply Act.Keeps.get.bind
  intro s
  split
  · exact (keeps_take h).bind fun _ => .pure _
  · exact .pure _

theorem ends_goBackTo_entries (env : Env) (info : PointInfo) (sid : Sid) (s : System) :
    (goBackTo env info sid).Ends s (fun _ s' => s'.entries = s.entries.map (matchEntries env info.kernels))
      (fun _ _ => True) := by
  let I : System → Prop := fun s' => s'.entries = s.entries
  let J : System → Prop := fun s' => s'.entries = s.entries.map (matchEntries env info.kernels)
  have hreplace : (replaceSystem env sid).Keeps I := keeps_replaceSystem (fun _ _ _ h => h) fun _ _ h => h
  have hdefault : (makeDefault env).Keeps I := keeps_makeDefault fun s n h => (System.entries_setDefault s n).trans h
  have hprefs : (writePrefs env info sid).Keeps I := keeps_writePrefs fun _ _ h => h
  refine Act.Keeps.ends_bind (keeps_takeUndo (I := I) fun _ _ h => h) rfl fun undo s₁ hs₁ => ?_
  refine Act.Keeps.ends_bind hreplace hs₁ fun _ s₂ hs₂ => ?_
  refine Act.Keeps.ends_bind hdefault hs₂ fun _ s₃ hs₃ => ?_
  refine Act.Keeps.ends_bind hprefs hs₃ fun _ s₄ hs₄ => ?_
  rw [Act.ends_bind, followUp]
  refine Act.Keeps.ends_bind (I := I) (env.keeps_op fun _ h => h) hs₄ fun _ s₅ hs₅ => ?_
  rw [Act.ends_bind]
  refine (ends_matchKernels env info.kernels s₅).mono (fun _ s₆ hs₆ => ?_) fun _ _ h => h
  have hs₅' : s₅.entries = s.entries := hs₅
  rw [hs₅'] at hs₆
  have hrest : (do pruneAll env (sid :: undo.toList); tell env : Cmd Unit).Keeps J := by
    apply Act.Keeps.bind
    · intro s' hs'
      apply (shrinks_pruneAll env _ s').mono
      · exact fun _ s'' h => h.entries.trans hs'
      · exact fun _ s'' h => h.entries.trans hs'
    · exact fun _ => keeps_tell env J
  exact (hrest s₆ hs₆).mono (fun _ _ h => h) fun _ _ _ => trivial

theorem entries_cmdRollback {s s' : System} (h : cmdRollback env sid s = (.ok reply, s')) :
    ∃ info, Accepted env s sid info ∧ s'.entries = s.entries.map (matchEntries env info.kernels) := by
  obtain ⟨e, hcmd, -⟩ | ⟨info, hacc, hcmd⟩ := cmdRollback_cases env s sid
  · rw [hcmd] at h
    cases h
  · refine ⟨info, hacc, ?_⟩
    have hends := ends_goBackTo_entries env info sid s
    rw [Act.Ends, ← hcmd, h] at hends
    exact hends

/-- When a going back that succeeds leaves the boot entries with the point's kernels. -/
theorem rollback_follows_iff {env : Env} {s s' : System} {sid : Sid} {info : PointInfo} {reply : List String}
    {before after : List BootEntry} (hlower : LowersStart env.u) (hbefore : s.entries = some before)
    (hnodup : (before.map BootEntry.name).Nodup) (hpoint : s.points.lookup sid = some info)
    (h : cmdRollback env sid s = (.ok reply, s')) (hafter : s'.entries = some after) :
    Follows env info.kernels before after ↔ Fits env info.kernels before := by
  obtain ⟨info', hacc, hentries⟩ := entries_cmdRollback h
  obtain rfl : info' = info := Option.some.inj (hacc.point.symm.trans hpoint)
  rw [hbefore, hafter, Option.map_some] at hentries
  obtain rfl := Option.some.inj hentries
  have hkernel := hacc.kernel
  rw [hbefore] at hkernel
  refine ⟨fun hfollows => hfollows.fits hnodup, fun hfits => ⟨hfits.starts hlower hnodup hkernel, ?_, ?_⟩⟩
  · exact fun e he => hfits.hides hnodup he
  · exact fun e he hstale between _ hkernels => hfits.again hlower hnodup he hstale between hkernels

theorem lowersStart_ascii : LowersStart .ascii := by
  intro e he
  have hlen : (str "sg-").length ≤ (e.name.map asciiLower).length := by
    have hconf := (endsWith_iff.mp he).length_le
    rw [List.length_map]
    exact le_trans (by decide) hconf
  have hlower : Unicode.ascii.lower e.hide.name = e.name.map asciiLower ++ hiddenSuffix.map asciiLower := List.map_append
  rw [BootEntry.isOwn, BootEntry.isOwn, hlower, startsWith, startsWith, Bool.eq_iff_iff, List.isPrefixOf_iff_prefix,
    List.isPrefixOf_iff_prefix]
  exact ⟨fun hp => List.prefix_of_prefix_length_le hp (List.prefix_append _ _) hlen,
    fun hp => hp.trans (List.prefix_append _ _)⟩

def kernelFile (name version : String) : BootEntry :=
  ⟨str name, str "version " ++ str version ++ str "\noptions root=PARTUUID=ab"⟩

/-- A point with one kernel, and another kernel with its recovery twin on the boot partition. -/
def System.withTwin : System :=
  { System.onePoint with
    entries := some [kernelFile "a.conf" "6.1", kernelFile "b.conf" "6.2", kernelFile "b-recovery.conf" "6.2"] }

def goingBack : Env := .small 400 fun _ => none

theorem listed_first : Listed goingBack (kernelFile "a.conf" "6.1") :=
  ⟨by decide, by decide, by decide, by decide, by decide, str "ab", by decide, by decide⟩

theorem accepted_first {s : System} (hentries : s.entries = some entries)
    (hmem : kernelFile "a.conf" "6.1" ∈ entries) (hpoint : s.points.lookup "20260101-000000" = some fooUpdate) :
    Accepted goingBack s "20260101-000000" fooUpdate := by
  refine ⟨by decide, by decide, by decide, hpoint, str "6.1", by decide, ?_⟩
  rw [hentries]
  have hkernel : ⟨str "6.1", str "a.conf", false⟩ ∈ kernelEntries goingBack true (some entries) :=
    mem_kernelEntries.mpr ⟨_, hmem, listed_first, by decide, by decide, by decide⟩
  exact List.mem_map_of_mem hkernel

theorem stale_twin : Stale goingBack fooUpdate.kernels (kernelFile "b-recovery.conf" "6.2") :=
  ⟨by decide, ⟨str "ab", by decide, by decide⟩, by decide, by decide, str "6.2", by decide, by decide⟩

theorem twin_stays_visible : ∃ reply s' after,
    cmdRollback goingBack "20260101-000000" .withTwin = (.ok reply, s') ∧
      System.withTwin.points.lookup "20260101-000000" = some fooUpdate ∧ s'.entries = some after ∧
      kernelFile "b-recovery.conf" "6.2" ∈ after ∧
      Stale goingBack fooUpdate.kernels (kernelFile "b-recovery.conf" "6.2") := by
  have hpoint : System.withTwin.points.lookup "20260101-000000" = some fooUpdate := lookup_points_onePoint
  have hacc := accepted_first (s := .withTwin) rfl (.head _) hpoint
  have hundo : System.onePoint.freshId goingBack = some "20260101-000500" := by decide
  obtain ⟨reply, s', hcmd⟩ := cmdRollback_returns hacc (fun _ => rfl) hundo rfl rfl
  obtain ⟨info, hacc', hentries⟩ := entries_cmdRollback hcmd
  cases hacc.unique hacc'
  refine ⟨reply, s', _, hcmd, hpoint, hentries, ?_, stale_twin⟩
  have hnodup : ((kernelFile "a.conf" "6.1" :: kernelFile "b.conf" "6.2" :: [kernelFile "b-recovery.conf" "6.2"]).map
      BootEntry.name).Nodup := by decide
  have hpairs := pairs_entryRenames goingBack fooUpdate.kernels hnodup stale_twin.visible
  refine (hpairs.mem_of_none (fun hhide => ?_) (fun hshow => ?_) _ _).1.mpr (.tail _ (.tail _ (.head _)))
  · obtain ⟨t, -, htohide⟩ := (hideMove_mem stale_twin.visible).mp hhide
    exact absurd htohide.listed.twin (by decide : (kernelFile "b-recovery.conf" "6.2").isTwin ≠ false)
  · obtain ⟨t, hmem, -⟩ := showMove_mem.mp hshow
    have hname : (kernelFile "b-recovery.conf" "6.2").hide.name ∈ List.map BootEntry.name
        [kernelFile "a.conf" "6.1", kernelFile "b.conf" "6.2", kernelFile "b-recovery.conf" "6.2"] :=
      List.mem_map.mpr ⟨_, hmem, rfl⟩
    revert hname
    decide

def System.withNewer : System :=
  { System.onePoint with entries := some [kernelFile "a.conf" "6.1", kernelFile "b.conf" "6.2"] }

theorem stale_newer : Stale goingBack fooUpdate.kernels (kernelFile "b.conf" "6.2") :=
  ⟨by decide, ⟨str "ab", by decide, by decide⟩, by decide, by decide, str "6.2", by decide, by decide⟩

theorem newer_kernel_follows : ∃ reply s' before after,
    System.withNewer.points.lookup "20260101-000000" = some fooUpdate ∧ System.withNewer.entries = some before ∧
      (∃ e ∈ before, Stale goingBack fooUpdate.kernels e) ∧
      cmdRollback goingBack "20260101-000000" .withNewer = (.ok reply, s') ∧ s'.entries = some after ∧
      Follows goingBack fooUpdate.kernels before after := by
  have hpoint : System.withNewer.points.lookup "20260101-000000" = some fooUpdate := lookup_points_onePoint
  have hacc := accepted_first (s := .withNewer) rfl (.head _) hpoint
  have hundo : System.onePoint.freshId goingBack = some "20260101-000500" := by decide
  obtain ⟨reply, s', hcmd⟩ := cmdRollback_returns hacc (fun _ => rfl) hundo rfl rfl
  obtain ⟨info, hacc', hentries⟩ := entries_cmdRollback hcmd
  cases hacc.unique hacc'
  have hplain : ∀ e ∈ [kernelFile "a.conf" "6.1", kernelFile "b.conf" "6.2"],
      e.visible = true ∧ e.isHidden = false ∧ e.isTwin = false ∧ e.usedUp goingBack.u = false := by decide
  have hfits : Fits goingBack fooUpdate.kernels [kernelFile "a.conf" "6.1", kernelFile "b.conf" "6.2"] := by
    refine ⟨fun e he _ => (hplain e he).2.2, fun _ _ e' he' _ hback => ?_, fun e he _ _ => ?_⟩
    · exact absurd hback.hidden (by simp [(hplain e' he').2.1])
    · exact absurd (hplain _ he).1 (by simp [visible_hide])
  refine ⟨reply, s', _, _, hpoint, rfl, ⟨_, .tail _ (.head _), stale_newer⟩, hcmd, hentries, ?_⟩
  exact (rollback_follows_iff lowersStart_ascii rfl (by decide) hpoint hcmd hentries).mpr hfits

end StainedGlass.Snapshot
