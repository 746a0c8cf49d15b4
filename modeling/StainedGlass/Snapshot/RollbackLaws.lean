import StainedGlass.Snapshot.Rollback
import StainedGlass.Snapshot.HookLaws

namespace StainedGlass.Snapshot

open Lib

section Steps

variable {env : Env} {s : System} {sid : Sid} {info : PointInfo} {undo : Option Sid}

variable {src dst : String} {E : Error → System → Prop} {Q : Unit → System → Prop} {o : Op}

theorem ends_renameSubvol
    (hE : ∀ e, E e s) :
    (renameSubvol env o src dst).Ends s Q E ↔
      ((s.subvols src).isSome → s.subvols dst = none → env.fails o = none → Q () (s.rename src dst)) := by
  rw [renameSubvol, Act.ends_bind, Act.ends_get]
  cases hsrc : s.subvols src with
  | none => simp [hE]
  | some v =>
    cases hdst : s.subvols dst with
    | none => simp [hE]
    | some w => simp [hE]

theorem ends_renameSubvol_of_some (hsrc : (s.subvols src).isSome) (hdst : s.subvols dst = none) :
    (renameSubvol env o src dst).Ends s Q E ↔
      (env.fails o = none → Q () (s.rename src dst)) ∧ ∀ e, env.fails o = some e → E e s := by
  obtain ⟨v, hv⟩ := Option.isSome_iff_exists.mp hsrc
  simp [renameSubvol, hv, hdst]

theorem System.rename_rename (hne : src ≠ dst) (h : s.subvols dst = none) :
    (s.rename src dst).rename dst src = s := by
  ext1 <;> try rfl
  funext name
  simp only [System.rename]
  by_cases hdst : name = dst
  · subst hdst
    simp [h]
  · by_cases hsrc : name = src
    · subst hsrc
      simp [Function.update_of_ne hne, Function.update_of_ne (Ne.symm hne)]
    · simp [Function.update_of_ne, hsrc, hdst]

theorem subvols_rename_src (s : System) (src dst : String) : (s.rename src dst).subvols src = none := by
  simp [System.rename]

theorem subvols_rename_dst (hne : src ≠ dst) : (s.rename src dst).subvols dst = s.subvols src := by
  simp [System.rename, Function.update_of_ne (Ne.symm hne)]

theorem subvols_editRoot_of_ne (s : System) (f : Root → Root)
    (h : other ≠ name) : (s.editRoot name f).subvols other = s.subvols other := by
  simp [System.editRoot, h]

theorem subvols_putSubvol_of_ne (s : System) (root : Root) (h : other ≠ name) :
    (s.putSubvol name root).subvols other = s.subvols other := by
  simp [System.putSubvol, h]

theorem subvols_putSubvol (s : System) (name : String) (root : Root) :
    (s.putSubvol name root).subvols name = some ⟨s.nextId, root⟩ := by
  simp [System.putSubvol]

theorem at_ne_oldName (env : Env) : "@" ≠ oldName env := by
  intro h
  have := congrArg (fun t => t.toList.length) h
  simp [oldName] at this

theorem ends_replaceSystem {snap : Root} (hroot : s.root?.isSome) (hsnap : s.pointRoot? sid = some snap)
    (hE : ∀ e, E e s) :
    (replaceSystem env sid).Ends s Q E ↔
      (s.subvols (oldName env) = none → env.fails .rename = none →
        match env.fails .snapshot with
        | none => Q () ((s.rename "@" (oldName env)).putSubvol "@" snap)
        | some (.fail _) => ∀ e, env.fails .renameBack = some e → E e (s.rename "@" (oldName env))
        | some e => E e (s.rename "@" (oldName env))) := by
  have hsome : (s.subvols "@").isSome := by simpa [System.root?] using hroot
  rw [replaceSystem, Act.ends_bind, ends_renameSubvol hE]
  simp only [hsome, true_implies]
  apply imp_congr_right
  intro hold
  apply imp_congr_right
  intro _
  rw [Act.ends_bind, Act.ends_handle, Env.ends_source]
  have hsnap' : (s.rename "@" (oldName env)).pointRoot? sid = some snap := hsnap
  cases hfail : env.fails .snapshot with
  | none => simp [hsnap']
  | some e =>
    cases e with
    | fail message =>
      have hback : ((s.rename "@" (oldName env)).subvols (oldName env)).isSome := by
        rwa [subvols_rename_dst (at_ne_oldName env)]
      have hrestore := System.rename_rename (at_ne_oldName env) hold
      simp [ends_renameSubvol_of_some hback (subvols_rename_src s _ _), hrestore, hE]
    | os => simp
    | stuck => simp

theorem System.surplus_congr {s s' : System} (h : s'.dirs = s.dirs) (keepIds : List Sid) :
    s'.surplus env keepIds = s.surplus env keepIds := by
  have hdrive : s'.drive = s.drive := by
    simp only [System.drive, h]
  rw [System.surplus, System.surplus, hdrive]

theorem deleteOps_congr {s s' : System} (h : s'.dirs = s.dirs) (sids : List Sid) :
    deleteOps s' sids = deleteOps s sids := by
  induction sids generalizing s s' with
  | nil => rfl
  | cons sid sids ih =>
    have hdir : s'.dir? sid = s.dir? sid := by rw [System.dir?, System.dir?, h]
    have hrest : (s'.removeDir sid).dirs = (s.removeDir sid).dirs := by
      simp only [System.removeDir, h]
    rw [deleteOps, deleteOps, hdir, ih hrest]

variable {f : System → System}

@[simp] theorem Env.works_op : (env.op o f).Works s ↔ env.fails o = none := Act.works_op _ _

variable {g : Unit → Cmd α}

@[simp] theorem Env.works_op_bind :
    (env.op o f >>= g).Works s ↔ env.fails o = none ∧ (g ()).Works (f s) := Act.works_op_bind _ _ _

theorem works_tell : (tell env).Works s ↔
    (s.entries.isSome → env.fails .menu = none) ∧ env.fails .publish = none := by
  rw [tell, Act.works_get_bind]
  cases s.entries with
  | none => simp
  | some entries => simp

theorem works_pruneAll_tell : (do pruneAll env keepIds; tell env : Cmd Unit).Works s ↔
      (∀ o ∈ deleteOps s (s.surplus env keepIds), env.fails o = none) ∧
        (s.entries.isSome → env.fails .menu = none) ∧ env.fails .publish = none := by
  have hprune : (pruneAll env keepIds).Works s ↔
      ∀ o ∈ deleteOps s (s.surplus env keepIds), env.fails o = none := by
    rw [Act.works_iff_not, ends_pruneAll (fun _ _ _ => trivial)]
    simp
  have hentries : (s.removeDirs (s.surplus env keepIds)).entries = s.entries :=
    (shrinks_removeDirs (fun sid hsid => notMem_keepIds_of_mem_deleted hsid) s).entries
  rw [Act.works_bind, hprune, ends_pruneAll (fun _ _ _ => trivial), works_tell, hentries]
  apply and_congr_right
  intro hops
  exact ⟨fun h => h hops, fun h _ => h⟩

theorem dirs_foldl_replaceEntry (renames : List (Str × Str)) (s : System) :
    (renames.foldl (fun s p => s.replaceEntry p.1 p.2) s).dirs = s.dirs := by
  induction renames generalizing s with
  | nil => rfl
  | cons p renames ih => exact ih _

theorem isSome_entries_foldl_replaceEntry (renames : List (Str × Str)) (s : System) :
    (renames.foldl (fun s p => s.replaceEntry p.1 p.2) s).entries.isSome = s.entries.isSome := by
  induction renames generalizing s with
  | nil => rfl
  | cons p renames ih => simpa [System.replaceEntry] using ih (s.replaceEntry p.1 p.2)

theorem works_matchKernels_bind : (matchKernels env kernels >>= g).Works s ↔
      (∀ p ∈ entryRenames env s.entries kernels, env.fails (.entry p.1) = none) ∧
        (g ()).Works ((entryRenames env s.entries kernels).foldl (fun s p => s.replaceEntry p.1 p.2) s) :=
  Act.works_each_op_bind _ _ _ _

theorem works_writePrefs_bind : (writePrefs env info sid >>= g).Works s ↔
      match wentBackPrefs info.changes (whyWentBack info sid) with
      | some text => env.fails .prefs = none ∧
        (g ()).Works (s.editRoot "@" (Root.write prefsFile text))
      | none => (g ()).Works s := by
  rw [writePrefs]
  cases wentBackPrefs info.changes (whyWentBack info sid) with
  | none => exact Iff.rfl
  | some text => exact Env.works_op_bind

theorem works_pure_bind {m : Cmd Unit} : (do m; pure a).Works s ↔ m.Works s := by
  rw [Act.works_bind]
  apply and_iff_left_of_imp
  intro h
  apply h.mono
  · exact fun _ _ _ => Act.works_pure a
  · exact fun _ _ h => h.elim

def followUpOps (env : Env) (s : System) (info : PointInfo) (sid : Sid) (undo : Option Sid) : List Op :=
  .wentBack :: (entryRenames env s.entries info.kernels).map (fun p => .entry p.1) ++
    deleteOps s (s.surplus env (sid :: undo.toList)) ++
    (if s.entries.isSome then [.menu] else []) ++ [.publish]

theorem works_followUp {s' : System} (hdirs : s'.dirs = s.dirs) (hentries : s'.entries = s.entries) :
    (followUp env info sid undo).Works s' ↔
      ∀ o ∈ followUpOps env s info sid undo, env.fails o = none := by
  have hmenu : (∀ o ∈ if s.entries.isSome then [Op.menu] else [], env.fails o = none) ↔
      (s.entries.isSome → env.fails .menu = none) := by
    cases s.entries <;> simp
  have hdirs' (f : Root → Root) (renames : List (Str × Str)) :=
    (dirs_foldl_replaceEntry renames (s'.editRoot "@" f)).trans hdirs
  have hentries' (f : Root → Root) : (s'.editRoot "@" f).entries = s.entries := hentries
  rw [followUp, Env.works_op_bind, works_matchKernels_bind, works_pruneAll_tell,
    isSome_entries_foldl_replaceEntry, System.surplus_congr (hdirs' _ _),
    deleteOps_congr (hdirs' _ _), hentries', followUpOps]
  simp only [List.forall_mem_append, List.forall_mem_cons, List.forall_mem_map, hmenu]
  simp [and_assoc]

def settleOps (env : Env) (s : System) (info : PointInfo) (sid : Sid) (undo : Option Sid) : List Op :=
  (if (wentBackPrefs info.changes (whyWentBack info sid)).isSome then [.prefs] else []) ++
    followUpOps env s info sid undo

theorem works_settle {s' : System} (hdirs : s'.dirs = s.dirs) (hentries : s'.entries = s.entries) :
    (do writePrefs env info sid; followUp env info sid undo; pure reply : Cmd α).Works s' ↔
      ∀ o ∈ settleOps env s info sid undo, env.fails o = none := by
  rw [works_writePrefs_bind, settleOps, List.forall_mem_append]
  cases wentBackPrefs info.changes (whyWentBack info sid) with
  | none => simp [works_pure_bind, works_followUp hdirs hentries]
  | some text =>
    have hdirs' (f : Root → Root) : (s'.editRoot "@" f).dirs = s.dirs := hdirs
    have hentries' (f : Root → Root) : (s'.editRoot "@" f).entries = s.entries := hentries
    simp [works_pure_bind, works_followUp (hdirs' _) (hentries' _)]

variable {I : System → Prop}

theorem Env.keeps_op (hf : ∀ s, I s → I (f s)) : (env.op o f).Keeps I := Act.Keeps.op hf

theorem keeps_followUp
    (hnote : ∀ s text, I s → I (s.editRoot "@" (Root.write wentBackFile text)))
    (hentry : ∀ s src dst, I s → I (s.replaceEntry src dst))
    (hprune : ∀ s s', Shrinks (sid :: undo.toList) s s' → I s → I s') :
    (followUp env info sid undo).Keeps I := by
  apply Act.Keeps.bind (env.keeps_op fun s hs => hnote s _ hs)
  intro _
  apply Act.Keeps.bind
  · apply Act.Keeps.get.bind
    intro s
    apply Act.Keeps.each
    intro p
    exact env.keeps_op fun s hs => hentry s _ _ hs
  · intro _
    apply Act.Keeps.bind
    · intro s hs
      apply (shrinks_pruneAll env _ s).mono
      · exact fun _ s' h => hprune s s' h hs
      · exact fun _ s' h => hprune s s' h hs
    · exact fun _ => keeps_tell env I

theorem keeps_writePrefs (hprefs : ∀ s text, I s → I (s.editRoot "@" (Root.write prefsFile text))) :
    (writePrefs env info sid).Keeps I := by
  rw [writePrefs]
  cases wentBackPrefs info.changes (whyWentBack info sid) with
  | none => exact .pure ()
  | some text => exact env.keeps_op fun s hs => hprefs s text hs

theorem Env.keeps_source {src : System → Option Root} : (env.source o src).Keeps I := by
  intro s hs
  rw [Env.ends_source]
  exact ⟨fun _ => ⟨fun _ _ => hs, fun _ => hs⟩, fun _ _ => hs⟩

theorem keeps_renameSubvol
    (h : ∀ s, I s → I (s.rename src dst)) : (renameSubvol env o src dst).Keeps I := by
  apply Act.Keeps.get.bind
  intro s
  split
  · exact .fail _
  · exact env.keeps_op h

theorem keeps_replaceSystem (hrename : ∀ s src dst, I s → I (s.rename src dst))
    (hput : ∀ s root, I s → I (s.putSubvol "@" root)) : (replaceSystem env sid).Keeps I := by
  apply Act.Keeps.bind (keeps_renameSubvol fun s h => hrename s _ _ h)
  intro _
  apply Act.Keeps.bind
  · apply Act.Keeps.handle env.keeps_source
    intro e
    cases e with
    | fail message =>
      apply Act.Keeps.bind (keeps_renameSubvol fun s h => hrename s _ _ h)
      exact fun _ => .fail _
    | os => exact .fail _
    | stuck => exact .fail _
  · intro root
    apply Act.Keeps.op
    exact fun s h => hput s root h

theorem System.dirs_setDefault (s : System) (n : Nat) : (s.setDefault n).dirs = s.dirs := by
  rw [System.setDefault]
  split
  · rfl
  · rfl

theorem System.entries_setDefault (s : System) (n : Nat) : (s.setDefault n).entries = s.entries := by
  rw [System.setDefault]
  split
  · rfl
  · rfl

theorem System.subvols_setDefault (s : System) (n : Nat) : (s.setDefault n).subvols = s.subvols := by
  rw [System.setDefault]
  split
  · rfl
  · rfl

theorem keeps_makeDefault (h : ∀ s n, I s → I (s.setDefault n)) :
    (makeDefault env).Keeps I := by
  apply Act.Keeps.bind (env.keeps_op fun _ h => h)
  intro _
  apply Act.Keeps.get.bind
  intro s
  cases s.subvols "@" with
  | none => exact .fail _
  | some v => exact env.keeps_op fun s' hs' => h s' _ hs'

end Steps

structure Accepted (env : Env) (s : System) (sid : Sid) (info : PointInfo) : Prop where
  id : matchesIdRe sid
  layout : env.layoutKind = .btrfs
  mount : env.fails .mount = none
  point : s.points.lookup sid = some info
  kernel : ∃ k ∈ info.kernels, k ∈ (kernelEntries env true s.entries).map KernelEntry.version

theorem cmdRollback_cases (env : Env) (s : System) (sid : Sid) :
    (∃ e, cmdRollback env sid s = (.error e, s) ∧ ∀ info, ¬ Accepted env s sid info) ∨
      ∃ info, Accepted env s sid info ∧ cmdRollback env sid s = goBackTo env info sid s := by
  by_cases hid : matchesIdRe sid
  · by_cases hlayout : env.layoutKind = .btrfs
    · cases hmount : env.fails .mount with
      | some e =>
        refine .inl ⟨e, ?_, fun info h => absurd (hmount.symm.trans h.mount) (by simp)⟩
        simp [cmdRollback, hid, hlayout, Env.op, hmount, Act.op, bind]
      | none =>
        have hcmd : cmdRollback env sid s = goBackIfFit env sid s.entries (s.points.lookup sid) s := by
          simp [cmdRollback, hid, hlayout, Env.op, hmount, Act.op, bind, Act.get]
        cases hpoint : s.points.lookup sid with
        | none =>
          refine .inl ⟨noSuchPoint sid, ?_, fun info h => absurd (hpoint.symm.trans h.point) (by simp)⟩
          rw [hcmd, hpoint]
          rfl
        | some info =>
          rw [hpoint] at hcmd
          by_cases hkernel :
              ∀ k ∈ info.kernels, k ∉ (kernelEntries env true s.entries).map KernelEntry.version
          · refine .inl ⟨_, hcmd.trans (congrFun (if_pos hkernel) s), ?_⟩
            intro info' h
            cases hpoint.symm.trans h.point
            obtain ⟨k, hk, hmem⟩ := h.kernel
            exact hkernel k hk hmem
          · refine .inr ⟨info, ⟨hid, hlayout, hmount, hpoint, ?_⟩, hcmd.trans (congrFun (if_neg hkernel) s)⟩
            simpa using hkernel
    · refine .inl ⟨noPoints env, ?_, fun info h => hlayout h.layout⟩
      simp [cmdRollback, hid, hlayout, Act.fail]
  · refine .inl ⟨.fail (str "usage: rollback ID"), ?_, fun info h => hid h.id⟩
    simp only [cmdRollback, hid]
    rfl

/-- The next ordinary start finds the same, and nothing else has changed but that there may
be one point more. -/
structure SameNextStart (env : Env) (s s' : System) : Prop where
  root : s'.root? = s.root?
  default : s'.default = s.default
  kernels : kernelEntries env false s'.entries = kernelEntries env false s.entries
  subvols : s'.subvols = s.subvols
  dirs : s'.dirs = s.dirs ∨ ∃ d, d.name ∉ s.names ∧ s'.dirs = d :: s.dirs

namespace SameNextStart

variable {env : Env} {s : System}

theorem refl (env : Env) (s : System) : SameNextStart env s s := ⟨rfl, rfl, rfl, rfl, .inl rfl⟩

theorem putDir {d : Dir} (h : d.name ∉ s.names) : SameNextStart env s (s.putDir d) :=
  ⟨rfl, rfl, rfl, rfl, .inr ⟨d, h, System.dirs_putDir h⟩⟩

end SameNextStart

def undoDir (info : PointInfo) (sid undo : Sid) (root : Root) : Dir :=
  wholeDir undo root (newInfo (undoLabel info sid) .manual [] none root)

/-- It stops before the system is set aside, or the system takes its place again, or nothing fails. -/
def Recovers (env : Env) (s : System) (sid : Sid) : Prop :=
  ∀ info undo root, Accepted env s sid info → s.freshId env = some undo → s.root? = some root →
    (∀ o ∈ takeOps, env.fails o = none) → s.subvols (oldName env) = none → env.fails .rename = none →
    match env.fails .snapshot with
    | none => ∀ o ∈ .rootId :: .setDefault ::
        settleOps env (s.putDir (undoDir info sid undo root)) info sid (some undo), env.fails o = none
    | some (.fail _) => env.fails .renameBack = none
    | some _ => False

theorem System.dir?_of_mem {s : System} {d : Dir} (h : d ∈ s.dirs) : s.dir? d.name = some d := by
  cases hdir : s.dir? d.name with
  | none => simpa using List.find?_eq_none.mp hdir d h
  | some d' =>
    obtain ⟨hd', hname⟩ := System.dir?_eq_some hdir
    rw [List.inj_on_of_nodup_map s.nodup hd' h hname]

theorem System.mem_points_of_lookup {s : System} (h : s.points.lookup sid = some info) : (sid, info) ∈ s.points := by
  obtain ⟨before, after, hsplit, -⟩ := List.lookup_eq_some_iff.mp h
  simp [hsplit]

theorem System.pointRoot?_of_lookup {s : System}
    (h : s.points.lookup sid = some info) : sid ∈ s.names ∧ ∃ snap, s.pointRoot? sid = some snap := by
  obtain ⟨d, hd, hpoint, rfl, -⟩ := System.mem_points.mp (System.mem_points_of_lookup h)
  rw [Dir.isPoint, Bool.and_eq_true] at hpoint
  obtain ⟨snap, hsnap⟩ := Option.isSome_iff_exists.mp hpoint.2
  refine ⟨List.mem_map_of_mem hd, snap, ?_⟩
  rw [System.pointRoot?, System.dir?_of_mem hd]
  exact hsnap

theorem System.pointRoot?_putDir {s : System} {d : Dir} (hd : d.name ∉ s.names)
    (hsid : sid ∈ s.names) : (s.putDir d).pointRoot? sid = s.pointRoot? sid := by
  have hne : d.name ≠ sid := fun h => hd (h ▸ hsid)
  rw [System.pointRoot?, System.dir?, System.dirs_putDir hd, List.find?_cons_of_neg (by simpa using hne)]
  rfl

theorem works_makeDefault_bind {env : Env} {s : System} {v : Subvol} (h : s.subvols "@" = some v) :
    (makeDefault env >>= g).Works s ↔
      env.fails .rootId = none ∧ env.fails .setDefault = none ∧ (g ()).Works (s.setDefault v.id) := by
  rw [Act.works_bind]
  cases hroot : env.fails .rootId with
  | some e => simp [makeDefault, Act.Works, hroot]
  | none =>
    cases hset : env.fails .setDefault with
    | some e => simp [makeDefault, Act.Works, hroot, hset, h]
    | none => simp [makeDefault, Act.Works, hroot, hset, h]

theorem cmdRollback_returns {env : Env} {s : System} (hacc : Accepted env s sid info) (hworks : ∀ o, env.fails o = none)
    (hundo : s.freshId env = some undo) (hroot : s.root?.isSome) (hold : s.subvols (oldName env) = none) :
    ∃ reply s', cmdRollback env sid s = (.ok reply, s') := by
  obtain ⟨e, -, hnot⟩ | ⟨info, hacc, hcmd⟩ := cmdRollback_cases env s sid
  · exact absurd hacc (hnot info)
  · obtain ⟨hsid, snap, hsnap⟩ := System.pointRoot?_of_lookup hacc.point
    obtain ⟨root, hroot⟩ := Option.isSome_iff_exists.mp hroot
    have hsome : (s.subvols "@").isSome := by simpa [System.root?] using Option.isSome_of_mem hroot
    have hfree : (undoDir info sid undo root).name ∉ s.names := System.freshId_notMem hundo
    have hsnap₁ : ((s.putDir (undoDir info sid undo root)).rename "@" (oldName env)).pointRoot? sid =
        some snap := (System.pointRoot?_putDir hfree hsid).trans hsnap
    have hgo : (goBackTo env info sid).Works s := by
      rw [goBackTo, Act.Works, Act.ends_bind, takeUndo, Act.ends_bind, Act.ends_get, hroot]
      simp only [Option.isSome_some, if_true]
      rw [Act.ends_bind, ends_take_of_works hundo hroot (fun o _ => hworks o), Act.ends_pure,
        Act.ends_bind, replaceSystem, Act.ends_bind]
      apply (ends_renameSubvol_of_some (s := s.putDir (undoDir info sid undo root)) hsome hold).mpr
      refine ⟨fun _ => ?_, fun e he => absurd ((hworks _).symm.trans he) (by simp)⟩
      rw [Act.ends_bind, Act.ends_handle, Env.ends_source]
      refine ⟨fun _ => ⟨?_, ?_⟩, fun e he => absurd ((hworks _).symm.trans he) (by simp)⟩
      · intro root' hroot'
        rw [Act.ends_op]
        refine ⟨fun _ => ?_, fun _ he => absurd he (by simp)⟩
        apply (works_makeDefault_bind (subvols_putSubvol _ _ _)).mpr
        refine ⟨hworks _, hworks _, ?_⟩
        apply (works_settle rfl rfl).mpr
        exact fun o _ => hworks o
      · intro hnone
        exact absurd (hsnap₁.symm.trans hnone) (by simp)
    rw [hcmd]
    exact hgo.exists_ok

theorem keeps_aside (env : Env) (info : PointInfo) (sid : Sid) (undo : Option Sid) (reply : α)
    (v : Option Subvol) : (do
      makeDefault env
      writePrefs env info sid
      followUp env info sid undo
      pure reply : Cmd α).Keeps (fun s' => s'.subvols (oldName env) = v) := by
  have hedit (s : System) (f : Root → Root) (h : s.subvols (oldName env) = v) :
      (s.editRoot "@" f).subvols (oldName env) = v := by
    rwa [subvols_editRoot_of_ne s f (at_ne_oldName env).symm]
  apply Act.Keeps.bind
  · apply keeps_makeDefault
    intro s n h
    rwa [System.subvols_setDefault]
  · intro _
    apply Act.Keeps.bind (keeps_writePrefs fun s text h => hedit s _ h)
    intro _
    apply Act.Keeps.bind
    · apply keeps_followUp
      · exact fun s text h => hedit s _ h
      · exact fun s src dst h => h
      · exact fun s s' hshrinks h => hshrinks.subvols ▸ h
    · exact fun _ => .pure reply

theorem not_sameNextStart_of_aside {s s' : System} (hroot : s.root?.isSome)
    (hold : s.subvols (oldName env) = none) (h : s'.subvols (oldName env) = s.subvols "@") :
    ¬ SameNextStart env s s' := by
  intro hsame
  rw [hsame.subvols, hold] at h
  simp [System.root?, ← h] at hroot

theorem ends_settling_iff {env : Env} {s s₁ : System} (hsubvols : s₁.subvols = s.subvols)
    {sid undo : Sid} {info : PointInfo} {snap : Root} {reply : α}
    (hroot : s.root?.isSome) (hold : s.subvols (oldName env) = none) :
    (do
      makeDefault env
      writePrefs env info sid
      followUp env info sid (some undo)
      pure reply : Cmd α).Ends ((s₁.rename "@" (oldName env)).putSubvol "@" snap)
        (fun _ _ => True) (fun _ s' => SameNextStart env s s') ↔
      ∀ o ∈ .rootId :: .setDefault :: settleOps env s₁ info sid (some undo), env.fails o = none := by
  have haside : ((s₁.rename "@" (oldName env)).putSubvol "@" snap).subvols (oldName env) =
      s.subvols "@" := by
    rw [subvols_putSubvol_of_ne _ _ (at_ne_oldName env).symm, subvols_rename_dst (at_ne_oldName env),
      hsubvols]
  have hnever := (keeps_aside env info sid (some undo) reply _ _ haside).mono
    (fun _ _ _ => trivial) (fun _ _ h => not_sameNextStart_of_aside hroot hold h)
  rw [Act.ends_iff_works hnever, works_makeDefault_bind (subvols_putSubvol _ _ _)]
  rw [List.forall_mem_cons, List.forall_mem_cons]
  apply and_congr_right
  intro _
  apply and_congr_right
  intro _
  apply works_settle
  · exact System.dirs_setDefault _ _
  · exact System.entries_setDefault _ _

theorem Accepted.unique (h : Accepted env s sid info) (h' : Accepted env s sid info') : info' = info :=
  Option.some.inj (h'.point.symm.trans h.point)

theorem goBackTo_sameNextStart_iff {info : PointInfo} (h : Accepted env s sid info) :
    (goBackTo env info sid).Ends s (fun _ _ => True) (fun _ s' => SameNextStart env s s') ↔ Recovers env s sid := by
  rw [goBackTo, Act.ends_bind, takeUndo, Act.ends_bind, Act.ends_get]
  cases hroot : s.root? with
  | none =>
    have hnone : s.subvols "@" = none := by simpa [System.root?] using hroot
    have hrecovers : Recovers env s sid := fun _ _ _ _ _ hsome =>
      absurd (hroot.symm.trans hsome) (by simp)
    simp only [Option.isSome_none, Bool.false_eq_true, if_false, Act.ends_pure, Act.ends_bind,
      hrecovers, iff_true]
    rw [replaceSystem, Act.ends_bind, ends_renameSubvol (fun _ => .refl env s)]
    intro hsome
    simp [hnone] at hsome
  | some root =>
    obtain ⟨hsid, snap, hsnap⟩ := System.pointRoot?_of_lookup h.point
    simp only [Option.isSome_some, if_true]
    rw [Act.ends_bind, ends_take (fun _ => .refl env s) (fun _ d hd _ _ => .putDir hd)]
    -- both sides ask the same of every way the taking can work
    have hstep (undo : Sid) (hundo : s.freshId env = some undo) :
        (replaceSystem env sid >>= fun _ => do
          makeDefault env
          writePrefs env info sid
          followUp env info sid (some undo)
          pure ["PENDING " ++ sid]).Ends (s.putDir (undoDir info sid undo root)) (fun _ _ => True)
            (fun _ s' => SameNextStart env s s') ↔
          (s.subvols (oldName env) = none → env.fails .rename = none →
            match env.fails .snapshot with
            | none => ∀ o ∈ .rootId :: .setDefault ::
                settleOps env (s.putDir (undoDir info sid undo root)) info sid (some undo),
                env.fails o = none
            | some (.fail _) => env.fails .renameBack = none
            | some _ => False) := by
      have hfree : (undoDir info sid undo root).name ∉ s.names := System.freshId_notMem hundo
      have hsome : s.root?.isSome := by simp [hroot]
      rw [Act.ends_bind, ends_replaceSystem (s := s.putDir (undoDir info sid undo root)) hsome
        ((System.pointRoot?_putDir hfree hsid).trans hsnap) (fun _ => .putDir hfree)]
      apply imp_congr_right
      intro hold
      apply imp_congr_right
      intro _
      have hgone : ¬ SameNextStart env s
          ((s.putDir (undoDir info sid undo root)).rename "@" (oldName env)) := by
        apply not_sameNextStart_of_aside hsome hold
        exact subvols_rename_dst (at_ne_oldName env)
      cases hsnapshot : env.fails .snapshot with
      | none =>
        have hsubvols : (s.putDir (undoDir info sid undo root)).subvols = s.subvols := rfl
        exact ends_settling_iff hsubvols hsome hold
      | some e =>
        cases e with
        | fail message =>
          simp only [hgone, imp_false]
          exact Option.eq_none_iff_forall_ne_some.symm
        | os => simp only [hgone]
        | stuck => simp only [hgone]
    constructor
    · intro hends info' undo root' hacc hundo hroot' hops
      cases hroot.symm.trans hroot'
      cases h.unique hacc
      exact (hstep undo hundo).mp (hends undo root hundo hroot hops)
    · intro hrec undo root' hundo hroot' hops
      cases hroot.symm.trans hroot'
      exact (hstep undo hundo).mpr (hrec info undo root h hundo hroot hops)

theorem cmdRollback_sameNextStart_iff (env : Env) (s : System) (sid : Sid) :
    (cmdRollback env sid).Ends s (fun _ _ => True) (fun _ s' => SameNextStart env s s') ↔
      Recovers env s sid := by
  obtain ⟨e, hcmd, hnot⟩ | ⟨info, hacc, hcmd⟩ := cmdRollback_cases env s sid
  · have hrec : Recovers env s sid := fun info _ _ hacc => absurd hacc (hnot info)
    rw [Act.Ends, hcmd]
    exact iff_of_true (.refl env s) hrec
  · rw [← goBackTo_sameNextStart_iff hacc, Act.Ends, hcmd]
    rfl

/-- When an error leaves the next ordinary start as it was. -/
theorem rollback_error_harmless_iff (env : Env) (s : System) (sid : Sid) :
    (∀ e s', cmdRollback env sid s = (.error e, s') → SameNextStart env s s') ↔
      Recovers env s sid := by
  rw [← cmdRollback_sameNextStart_iff, Act.Ends]
  rcases cmdRollback env sid s with ⟨a | e, s'⟩ <;> simp

def fooUpdate : PointInfo :=
  { kind := some .auto, kernels := [str "6.1"], changes := [⟨str "foo", str "1", str "2"⟩] }

def System.onePoint : System where
  dirs := [wholeDir "20260101-000000" ⟨fun _ => none, [str "6.1"]⟩ fooUpdate]
  subvols name := if name = "@" then some ⟨256, ⟨fun _ => none, [str "6.1"]⟩⟩ else none
  default := 256
  nextId := 257
  entries := some [⟨str "a.conf", str "version 6.1\noptions root=PARTUUID=ab"⟩]
  nodup := List.nodup_singleton _
  default_lt := first_lt_next

def Env.small (now : Int) (fails : Op → Option Error) : Env :=
  { Env.ofNewYear [] now with fails, kernelCmdline := str "root=PARTUUID=ab" }

theorem accepted_small (hmount : fails .mount = none)
    {s : System} {info : PointInfo} (hpoint : s.points.lookup "20260101-000000" = some info)
    (hkernels : info.kernels = [str "6.1"]) (hentries : s.entries = System.onePoint.entries) :
    Accepted (.small now fails) s "20260101-000000" info := by
  have hentry : kernelEntry .ascii (str "ab") true
      ⟨str "a.conf", str "version 6.1\noptions root=PARTUUID=ab"⟩ =
        some ⟨str "6.1", str "a.conf", false⟩ := by decide
  have huuid : ourPartuuid (.small 0 fun _ => none) = some (str "ab") := by decide
  have hkents : kernelEntries (.small now fails) true s.entries = [⟨str "6.1", str "a.conf", false⟩] := by
    unfold kernelEntries
    rw [show ourPartuuid (.small now fails) = some (str "ab") from huuid, hentries]
    simp [System.onePoint, Env.small, Env.ofNewYear, hentry]
  have hlayout : (Env.small 0 fun _ => none).layoutKind = .btrfs := by decide
  refine ⟨by decide, hlayout, hmount, hpoint, str "6.1", ?_, ?_⟩
  · rw [hkernels]
    exact .head _
  · rw [hkents]
    exact .head _

theorem lookup_points_onePoint :
    System.onePoint.points.lookup "20260101-000000" = some fooUpdate := by
  have hid : matchesIdRe "20260101-000000" := by decide
  simp [System.points, System.onePoint, Dir.isPoint, wholeDir, hid]

theorem rollback_without_note_changes_default :
    let env := Env.small 400 fun o => if o = .wentBack then some .os else none
    let after := cmdRollback env "20260101-000000" .onePoint
    after.1 = .error .os ∧ after.2.default = 257 ∧ System.onePoint.default = 256 := by
  intro env after
  have hacc : Accepted env .onePoint "20260101-000000" fooUpdate :=
    accepted_small (by decide) lookup_points_onePoint rfl rfl
  obtain ⟨e, -, hnot⟩ | ⟨info, hacc', hcmd⟩ := cmdRollback_cases env .onePoint "20260101-000000"
  · exact absurd hacc (hnot _)
  · cases hacc.unique hacc'
    have hafter : after = goBackTo env fooUpdate "20260101-000000" .onePoint := hcmd
    rw [hafter]
    exact ⟨rfl, rfl, rfl⟩

end StainedGlass.Snapshot
