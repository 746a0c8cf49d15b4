import StainedGlass.Snapshot.Starts
import StainedGlass.Snapshot.GrowthLaws

namespace StainedGlass.Snapshot

open Lib

def Dir.AsSaved (d : Dir) : Prop := d.boot = none ∨ d.boot = d.snapshot

def Sound (used : List Sid) (s : System) : Prop :=
  ∀ d ∈ s.dirs, d.AsSaved ∨ d.name ∈ used ∧ d.isPoint ∧ d.isDue

variable {s : System}

theorem Sound.mono (h : Sound used s) (hused : used ⊆ used') : Sound used' s := by
  intro d hd
  obtain hsaved | ⟨hname, hdue⟩ := h d hd
  · exact .inl hsaved
  · exact .inr ⟨hused hname, hdue⟩

variable {used : List Sid}

theorem Sound.points (h : Sound used s) : Sound (s.points.map Prod.fst) s := by
  intro d hd
  obtain hsaved | ⟨-, hpoint, hdue⟩ := h d hd
  · exact .inl hsaved
  · refine .inr ⟨?_, hpoint, hdue⟩
    exact List.mem_map.mpr ⟨(d.name, d.info), System.mem_points.mpr ⟨d, hd, hpoint, rfl, rfl⟩, rfl⟩

theorem Sound.putDir (h : Sound used s) {d : Dir} (hd : d.AsSaved) :
    Sound (used.filter (· ≠ d.name)) (s.putDir d) := by
  intro x hx
  obtain rfl | ⟨hx, hne⟩ := System.mem_dirs_putDir.mp hx
  · exact .inl hd
  · obtain hsaved | ⟨hname, hdue⟩ := h x hx
    · exact .inl hsaved
    · exact .inr ⟨List.mem_filter.mpr ⟨hname, by simpa using hne⟩, hdue⟩

variable {sid : Sid}

theorem Sound.drop (h : Sound used s)
    (hsid : ∀ d ∈ s.dirs, d.name = sid → d.AsSaved) : Sound (used.filter (· ≠ sid)) s := by
  intro d hd
  obtain hsaved | ⟨hname, hdue⟩ := h d hd
  · exact .inl hsaved
  · by_cases heq : d.name = sid
    · exact .inl (hsid d hd heq)
    · exact .inr ⟨List.mem_filter.mpr ⟨hname, by simpa using heq⟩, hdue⟩

theorem Sound.grows (h : Sound used s) (own : PointInfo → Prop) (hgrows : Grows own s s') : Sound used s' := by
  intro d hd
  obtain ⟨y, hy, -, -, rfl | hboot⟩ | ⟨-, -, hsaved⟩ := hgrows d hd
  · exact h d hy
  · exact .inl (.inl hboot)
  · exact .inl hsaved

theorem Sound.setInfo (h : Sound used s) (sid : Sid) (info : PointInfo) : Sound used (s.setInfo sid info) := by
  intro d hd
  obtain ⟨x, hx, rfl⟩ := List.mem_map.mp hd
  split
  · exact h x hx
  · exact h x hx

theorem Sound.carryOut (h : Sound used s) (env : Env)
    (changes : List Change) (source : Option String) (dec : Decision) :
    Sound used (carryOut env changes source dec s).2 := by
  cases dec with
  | crash => exact h
  | merge sid info =>
    apply Act.Ends.state (P := Sound used)
    rw [Snapshot.carryOut, Act.ends_bind, Env.ends_op]
    have hset := h.setInfo sid (mergedInfo env info changes source)
    simp [h, hset]
  | take => exact h.grows (fun _ => True) (grows_carryOut_take fun _ _ => trivial)

theorem Sound.after (h : Sound used s) (env : Env) (e : Event) : Sound used (s.after env e) := by
  cases e with
  | before r =>
    by_cases hheeded : r.Heeded env
    · have hafter : s.after env (.before r) = _ := congrArg Prod.snd (before_of_heeded hheeded s)
      rw [hafter]
      exact h.carryOut env _ _ _
    · have hafter : s.after env (.before r) = s := before_of_not_heeded hheeded s
      rwa [hafter]
  | create label kind => exact h.grows (fun _ => True) (grows_cmdCreate fun _ _ => trivial)
  | delete sid => exact h.grows (fun _ => True) grows_cmdDelete
  | goBack sid => exact h.grows (fun _ => True) (grows_cmdRollback fun _ _ _ => trivial)

theorem System.editBoot_editBoot (s : System) (sid : Sid) (f g : Root → Root) :
    (s.editBoot sid f).editBoot sid g = s.editBoot sid (g ∘ f) := by
  cases hdir : s.dir? sid with
  | none => simp [editBoot, hdir]
  | some d =>
    obtain ⟨-, hname⟩ := dir?_eq_some hdir
    have hdir' : (s.putDir { d with boot := d.boot.map f }).dir? sid =
        some { d with boot := d.boot.map f } := by
      simp [dir?, putDir, hname]
    simp only [editBoot, hdir, hdir']
    rw [putDir_putDir]
    · simp
    · rfl

theorem Sound.editBoot (h : Sound used s) (hid : matchesIdRe sid)
    (hfirst : sid ∉ used) (hf : ∀ root, ((f root).files markerFile).isSome) :
    Sound (sid :: used) (s.editBoot sid f) := by
  rw [System.editBoot]
  split
  · exact h.mono (List.subset_cons_self _ _)
  · next d hdir =>
    obtain ⟨hd, rfl⟩ := System.dir?_eq_some hdir
    intro x hx
    obtain rfl | ⟨hx, -⟩ := System.mem_dirs_putDir.mp hx
    · obtain (hboot | hboot) | ⟨hname, -⟩ := h d hd
      · exact .inl (.inl (by simp [hboot]))
      · cases hcopy : d.boot with
        | none => exact .inl (.inl rfl)
        | some copy =>
          have hpoint : d.isPoint := by simp [Dir.isPoint, hid, ← hboot, hcopy]
          exact .inr ⟨.head _, hpoint, by simp [Dir.isDue, hf]⟩
      · exact absurd hname hfirst
    · exact h.mono (List.subset_cons_self _ _) x hx

structure Start.Marks (b : Start) : Prop where
  live : b.env.live = false
  layout : b.env.layoutKind = .btrfs
  mount : b.env.fails .mount = none
  marker : b.env.fails .marker = none
  late : ∀ root, (root.files markerFile).isSome → ((b.late root).files markerFile).isSome

variable {env : Env}

theorem cmdBoot_ofPoint (hsid : env.bootedSnapshot = some sid)
    (hlive : env.live = false) (hlayout : env.layoutKind = .btrfs) (hmount : env.fails .mount = none)
    (hmarker : env.fails .marker = none) (s : System) :
    (cmdBoot env s).2 = s.editBoot sid (Root.write markerFile (str (sid ++ "\n"))) := by
  apply Act.Ends.state (P := fun s' => s' = s.editBoot sid (Root.write markerFile (str (sid ++ "\n"))))
  have htell := keeps_tell env
    (fun s' => s' = s.editBoot sid (Root.write markerFile (str (sid ++ "\n")))) _ rfl
  simp only [cmdBoot, hlive, hlayout, hsid]
  simpa [hmount, hmarker] using htell

theorem Sound.start_ofPoint (h : Sound used s) {b : Start}
    (hsid : b.env.bootedSnapshot = some sid) (hfirst : sid ∉ used) (hmarks : b.Marks) :
    Sound (sid :: used) (s.start b) := by
  have hid : matchesIdRe sid := (Option.filter_eq_some_iff.mp hsid).2
  rw [System.start, cmdBoot_ofPoint hsid hmarks.live hmarks.layout hmarks.mount hmarks.marker]
  simp only [System.editRunning, hsid, System.editBoot_editBoot]
  apply h.editBoot hid hfirst
  intro root
  apply hmarks.late
  simp [Root.write]

def Env.Raises (env : Env) (o : Op) : Prop := ∃ e, env.fails o = some e ∧ ∀ message, e ≠ .fail message

theorem Env.not_raises (h : env.fails o = none) : ¬ env.Raises o := by
  rintro ⟨e, he, -⟩
  exact absurd (h.symm.trans he) (by simp)

theorem Env.ends_attempt (hdone : env.fails o = none → Q () (f s))
    (hnot : env.fails o ≠ none → Q () s) (hraised : env.Raises o → ∀ e, E e s) : (env.attempt o f).Ends s Q E := by
  rw [attempt, Act.ends_handle, Env.ends_op]
  refine ⟨hdone, ?_⟩
  intro e he
  cases e with
  | fail message => exact hnot (by simp [he])
  | os => exact hraised ⟨.os, he, by simp⟩ _
  | stuck => exact hraised ⟨.stuck, he, by simp⟩ _

theorem sound_makeCopy (h : Sound used s) (hsid : ∀ d ∈ s.dirs, d.name = sid → d.boot = none) :
    (makeCopy env sid).Ends s (fun _ s' => Sound (used.filter (· ≠ sid)) s')
      (fun _ s' => Sound used s' ∧ env.Raises (.remake sid)) := by
  have hdrop := h.drop fun d hd hname => .inl (hsid d hd hname)
  rw [makeCopy, Act.ends_bind, Act.ends_get]
  cases hdir : s.dir? sid with
  | none => exact hdrop
  | some d =>
    obtain ⟨hd, rfl⟩ := System.dir?_eq_some hdir
    apply Env.ends_attempt
    · intro _
      apply h.putDir
      exact .inr (by simp [Dir.withCopy, hsid d hd rfl])
    · exact fun _ => hdrop
    · exact fun hraises _ => ⟨h, hraises⟩

theorem sound_remakeCopy (hdelete : env.fails (.delete sid .boot) = none) (h : Sound used s) :
    (remakeCopy env sid).Ends s (fun _ s' => Sound (used.filter (· ≠ sid)) s')
      (fun _ s' => Sound used s' ∧ env.Raises (.remake sid)) := by
  rw [remakeCopy, Act.ends_bind, Act.ends_get]
  cases hdir : s.dir? sid with
  | none =>
    apply h.drop
    intro d hd hname
    exact absurd (hname ▸ hdir) (by simp [System.dir?_of_mem hd])
  | some d =>
    obtain ⟨hd, rfl⟩ := System.dir?_eq_some hdir
    have hone {x : Dir} (hx : x ∈ s.dirs) (hname : x.name = d.name) : x = d :=
      List.inj_on_of_nodup_map s.nodup hx hd hname
    cases hdue : d.isDue with
    | false =>
      simp only [hdue, Bool.false_eq_true, if_false]
      apply h.drop
      intro x hx hname
      obtain hsaved | ⟨-, -, hdue'⟩ := h x hx
      · exact hsaved
      · exact absurd (hone hx hname ▸ hdue') (by simp [hdue])
    | true =>
      cases hboot : d.boot with
      | none =>
        simp only [hdue, hboot, Option.isSome_none, Bool.false_eq_true, if_true, if_false]
        apply sound_makeCopy h
        intro x hx hname
        rw [hone hx hname, hboot]
      | some copy =>
        have hbare := h.putDir (d := { d with boot := none }) (.inl rfl)
        have hgone : ∀ x ∈ (s.putDir { d with boot := none }).dirs, x.name = d.name → x.boot = none := by
          intro x hx hname
          obtain rfl | ⟨-, hne⟩ := System.mem_dirs_putDir.mp hx
          · rfl
          · exact absurd hname hne
        simp only [hdue, hboot, Option.isSome_some, if_true, Act.ends_bind]
        apply Env.ends_attempt
        · intro _
          apply (sound_makeCopy hbare hgone).mono
          · exact fun _ s' hs' => hs'.mono (List.filter_subset_self _)
          · exact fun _ s' hs' => ⟨hs'.1.mono (List.filter_subset_self _), hs'.2⟩
        · exact fun hfails => absurd hdelete hfails
        · exact fun hraises => absurd hraises (Env.not_raises hdelete)

theorem sound_each_remakeCopy (hdelete : ∀ sid, env.fails (.delete sid .boot) = none)
    {used sids : List Sid} (h : Sound used s) :
    (Act.each (remakeCopy env) sids).Ends s (fun _ s' => Sound (used.filter (· ∉ sids)) s')
      (fun _ s' => Sound used s' ∧ ∃ sid, env.Raises (.remake sid)) := by
  induction sids generalizing used s with
  | nil => exact h.mono (by simp)
  | cons sid sids ih =>
    rw [Act.each, Act.ends_bind]
    apply (sound_remakeCopy (hdelete sid) h).mono
    · intro _ s' hs'
      apply (ih hs').mono
      · intro _ s'' hs''
        apply hs''.mono
        intro x hx
        simp only [List.mem_filter, decide_eq_true_eq] at hx ⊢
        simp [hx]
      · exact fun _ s'' hs'' => ⟨hs''.1.mono (List.filter_subset_self _), hs''.2⟩
    · exact fun _ s' hs' => ⟨hs'.1, sid, hs'.2⟩

structure Env.Clears (env : Env) : Prop where
  live : env.live = false
  layout : env.layoutKind = .btrfs
  mount : env.fails .mount = none
  old : ¬ env.Raises .deleteOld
  remake : ∀ sid, ¬ env.Raises (.remake sid)

theorem sound_refresh (hdelete : ∀ sid, env.fails (.delete sid .boot) = none) (h : Sound used s) :
    (refresh env).Ends s (fun _ s' => Sound [] s')
      (fun _ s' => Sound used s' ∧ (env.Raises .deleteOld ∨ ∃ sid, env.Raises (.remake sid))) := by
  have hloop (s : System) (h : Sound used s) :
      (Act.each (remakeCopy env) (s.points.map Prod.fst)).Ends s (fun _ s' => Sound [] s')
        (fun _ s' => Sound used s' ∧ (env.Raises .deleteOld ∨ ∃ sid, env.Raises (.remake sid))) := by
    apply ((sound_each_remakeCopy hdelete h.points).and (sound_each_remakeCopy hdelete h)).mono
    · exact fun _ s' hs' => hs'.1.mono (by simp)
    · exact fun _ s' hs' => ⟨hs'.2.1, .inr hs'.2.2⟩
  rw [refresh, Act.ends_bind]
  apply Env.ends_attempt
  · exact fun _ => hloop s.deleteOld h
  · exact fun _ => hloop s h
  · exact fun hraises _ => ⟨h, .inl hraises⟩

theorem Sound.cmdBoot (h : Sound used s)
    (hsid : env.bootedSnapshot = none) (hdelete : ∀ sid, env.fails (.delete sid .boot) = none) :
    Sound used (cmdBoot env s).2 := by
  apply Act.Ends.state (P := Sound used)
  rw [Snapshot.cmdBoot]
  split
  · exact h
  · split
    · rw [hsid, Act.ends_bind, Env.ends_op]
      refine ⟨fun _ => ?_, fun _ _ => h⟩
      rw [Act.ends_bind]
      apply (sound_refresh hdelete h).mono
      · intro _ s' hs'
        rw [Act.ends_bind]
        exact keeps_tell env (Sound used) s' (hs'.mono (List.nil_subset _))
      · exact fun _ _ hs' => hs'.1
    · simp [h]
    · simp [h]

theorem Sound.cmdBoot_of_clears (h : Sound used s)
    (hsid : env.bootedSnapshot = none) (hdelete : ∀ sid, env.fails (.delete sid .boot) = none)
    (hclears : env.Clears) : Sound [] (Snapshot.cmdBoot env s).2 := by
  apply Act.Ends.state (P := Sound [])
  simp only [Snapshot.cmdBoot, hclears.live, hclears.layout, hsid, Bool.false_eq_true, if_false]
  rw [Act.ends_bind, Env.ends_op]
  refine ⟨fun _ => ?_, fun e he => absurd (hclears.mount.symm.trans he) (by simp)⟩
  rw [Act.ends_bind]
  apply (sound_refresh hdelete h).mono
  · intro _ s' hs'
    rw [Act.ends_bind]
    exact keeps_tell env (Sound []) s' hs'
  · rintro _ _ ⟨-, hold | ⟨sid, hremake⟩⟩
    · exact absurd hold hclears.old
    · exact absurd hremake (hclears.remake sid)

/-- Happenings after which every copy outside `used` is as saved. -/
inductive Orderly : List Sid → List Happening → Prop
  | nil {used : List Sid} : Orderly used []
  | command {used : List Sid} {env : Env} {e : Event} {hs : List Happening} (rest : Orderly used hs) :
    Orderly used (.command env e :: hs)
  | ofPoint {used : List Sid} {b : Start} {sid : Sid} {hs : List Happening}
    (booted : b.env.bootedSnapshot = some sid) (first : sid ∉ used) (marks : b.Marks)
    (rest : Orderly (sid :: used) hs) : Orderly used (.start b :: hs)
  | ordinary {used : List Sid} {b : Start} {hs : List Happening} (booted : b.env.bootedSnapshot = none)
    (deletes : ∀ sid, b.env.fails (.delete sid .boot) = none) (rest : Orderly used hs) :
    Orderly used (.start b :: hs)
  | clearing {used : List Sid} {b : Start} {hs : List Happening} (booted : b.env.bootedSnapshot = none)
    (deletes : ∀ sid, b.env.fails (.delete sid .boot) = none) (clears : b.env.Clears)
    (rest : Orderly [] hs) : Orderly used (.start b :: hs)

theorem Sound.beginsAsSaved (h : Sound used s) {b : Start}
    (hsid : b.env.bootedSnapshot = some sid) (hfirst : sid ∉ used) : BeginsAsSaved s b := by
  intro sid' hsid' d hd hname copy hcopy
  cases hsid.symm.trans hsid'
  obtain (hboot | hboot) | ⟨hused, -⟩ := h d hd
  · exact absurd (hboot.symm.trans hcopy) (by simp)
  · exact hboot.symm.trans hcopy
  · exact absurd (hname ▸ hused) hfirst

/-- Every start of a restore point in such a sequence begins from what its snapshot holds. -/
theorem every_start_begins_as_saved {used : List Sid} {s : System} {hs : List Happening}
    (hsound : Sound used s) (horderly : Orderly used hs) :
    ∀ p ∈ starts s hs, BeginsAsSaved p.1 p.2 := by
  induction horderly generalizing s with
  | nil => simp [starts]
  | @command used env e hs rest ih => exact ih (hsound.after env e)
  | ofPoint booted first marks rest ih =>
    rw [starts, List.forall_mem_cons]
    exact ⟨hsound.beginsAsSaved booted first, ih (hsound.start_ofPoint booted first marks)⟩
  | @ordinary used b hs booted deletes rest ih =>
    rw [starts, List.forall_mem_cons]
    have hnone : BeginsAsSaved s b := by simp [BeginsAsSaved, booted]
    refine ⟨hnone, ih ?_⟩
    simp only [System.next, System.start, System.editRunning, booted]
    exact Sound.cmdBoot (s := s.editRoot "@" b.early) hsound booted deletes
  | @clearing used b hs booted deletes clears rest ih =>
    rw [starts, List.forall_mem_cons]
    have hnone : BeginsAsSaved s b := by simp [BeginsAsSaved, booted]
    refine ⟨hnone, ih ?_⟩
    simp only [System.next, System.start, System.editRunning, booted]
    exact Sound.cmdBoot_of_clears (s := s.editRoot "@" b.early) hsound booted deletes clears

def Start.noting (fsroot : String) (cmdline : List String) : Start where
  env := { Env.ofNewYear cmdline 400 with fsroot }
  early := id
  late := Root.write "root/note" (str "x")

def Start.ofNewYear : Start :=
  .noting "/@snapshots/20260101-000000/boot" ["quiet", "sg.snapshot=20260101-000000"]

theorem bootedSnapshot_ofNewYear : Start.ofNewYear.env.bootedSnapshot = some "20260101-000000" := by
  decide

theorem marks_ofNewYear : Start.ofNewYear.Marks where
  live := by decide
  layout := by decide
  mount := rfl
  marker := rfl
  late root h := by
    simpa [Start.ofNewYear, Start.noting, Root.write, markerFile, Function.update] using h

theorem starts_apart_begin_as_saved :
    (starts .onePoint [.start .ofNewYear, .start (.noting "/@" []), .start .ofNewYear]).Forall
      fun p => BeginsAsSaved p.1 p.2 := by
  have hsound : Sound [] System.onePoint := by
    simp [Sound, System.onePoint, Dir.AsSaved, wholeDir]
  have hclears : (Start.noting "/@" []).env.Clears :=
    ⟨by decide, by decide, rfl, Env.not_raises rfl, fun _ => Env.not_raises rfl⟩
  rw [List.forall_iff_forall_mem]
  apply every_start_begins_as_saved hsound
  apply Orderly.ofPoint bootedSnapshot_ofNewYear (List.not_mem_nil) marks_ofNewYear
  apply Orderly.clearing (by decide) (fun _ => rfl) hclears
  exact .ofPoint bootedSnapshot_ofNewYear (List.not_mem_nil) marks_ofNewYear .nil

theorem second_start_in_a_row_finds_note :
    ∃ p ∈ starts .onePoint [.start .ofNewYear, .start .ofNewYear], ¬ BeginsAsSaved p.1 p.2 := by
  refine ⟨(System.onePoint.start .ofNewYear, .ofNewYear), .tail _ (.head _), ?_⟩
  intro hsaved
  rw [System.start, cmdBoot_ofPoint bootedSnapshot_ofNewYear marks_ofNewYear.live marks_ofNewYear.layout
    rfl rfl] at hsaved
  simp only [System.editRunning, bootedSnapshot_ofNewYear, System.editBoot_editBoot] at hsaved
  have hcopy := hsaved _ bootedSnapshot_ofNewYear _ (.head _) rfl _ rfl
  have hnote := congrArg (fun root : Option Root => root.bind (·.files "root/note")) hcopy
  exact absurd hnote (by decide)

end StainedGlass.Snapshot
