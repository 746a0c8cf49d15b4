import StainedGlass.Snapshot.Hook
import StainedGlass.Snapshot.SystemLaws

namespace StainedGlass.Snapshot

open Lib

variable {s : System}

theorem System.mem_points {p : Sid × PointInfo} :
    p ∈ s.points ↔ ∃ d ∈ s.dirs, d.isPoint ∧ d.name = p.1 ∧ d.info = p.2 := by
  rw [System.points, List.mem_mergeSort, List.mem_map]
  constructor
  · rintro ⟨d, hd, rfl⟩
    exact ⟨d, List.mem_of_mem_filter hd, (List.mem_filter.mp hd).2, rfl, rfl⟩
  · rintro ⟨d, hd, hpoint, hname, hinfo⟩
    exact ⟨d, List.mem_filter.mpr ⟨hd, hpoint⟩, Prod.ext hname hinfo⟩

theorem System.mem_points_setInfo (h : (sid, info) ∈ s.points)
    (info' : PointInfo) : (sid, info') ∈ (s.setInfo sid info').points := by
  obtain ⟨d, hd, hpoint, hname, -⟩ := System.mem_points.mp h
  refine System.mem_points.mpr ⟨{ d with info := info' }, ?_, hpoint, hname, rfl⟩
  exact List.mem_map.mpr ⟨d, hd, if_pos hname⟩

theorem keeps_tell (env : Env) (I : System → Prop) : (tell env).Keeps I := by
  intro s hs
  rw [tell, Act.ends_bind, Act.ends_get]
  cases s.entries with
  | none => simp [hs]
  | some entries => simp [hs]

theorem shrinks_clearUp (env : Env) (sid : Sid) (s : System) :
    (clearUp env sid).Ends s (fun _ s' => Shrinks [sid] s s') (fun _ s' => Shrinks [sid] s s') := by
  rw [clearUp, Act.ends_bind]
  apply (shrinks_pruneAll env [sid] s).mono
  · intro _ s' hs'
    rw [Act.ends_bind]
    apply (keeps_tell env (Shrinks [sid] s) s' hs').mono
    · exact fun _ _ h => h
    · exact fun _ _ h => h
  · exact fun _ _ h => h

structure Request.Heeded (env : Env) (r : Request) : Prop where
  changes : r.changes env.u ≠ []
  layout : env.layoutKind = .btrfs
  booted : env.bootedSnapshot = none
  current : hasPrefix env.fsroot "/@old-" = false
  live : env.live = false
  undoing : r.undoing = false
  mount : env.fails .mount = none

variable {env : Env}

theorem before_of_heeded {r : Request} (h : r.Heeded env) (s : System) :
    before env r s = carryOut env (r.changes env.u) r.source (s.decision env r.source) s := by
  simp only [before, beforeChanges, h.live, h.undoing, h.changes, h.layout, h.booted, h.current,
    Env.op, h.mount]
  rfl

theorem before_of_not_heeded {r : Request} (h : ¬ r.Heeded env) (s : System) : (before env r s).2 = s := by
  rw [before]
  split
  · rfl
  · next hlive =>
    rw [beforeChanges]
    split
    · rfl
    · next hchanges =>
      split
      · rfl
      · next hlayout =>
        split
        · rfl
        · next hplace =>
          simp only [not_or, Bool.not_eq_true, Option.isSome_eq_false_iff, Option.isNone_iff_eq_none,
            not_not] at hlive hplace hlayout
          cases hmount : env.fails .mount with
          | none => exact absurd ⟨hchanges, hlayout, hplace.1, hplace.2, hlive.1, hlive.2, hmount⟩ h
          | some e =>
            simp only [Env.op, hmount]
            rfl

theorem decision_eq_merge {info : PointInfo} (h : s.decision env source = .merge sid info) :
    s.points.getLast? = some (sid, info) ∧ info.kind = some .auto ∧ info.source = source ∧
      ∃ t, env.cal.mktime sid = some t ∧ env.clock .merge - t < 300 := by
  rw [System.decision] at h
  split at h
  · cases h
  · next newest info' hlast =>
    split at h
    · next hkind =>
      split at h
      · cases h
      · next t ht =>
        split at h
        · next hclock =>
          cases h
          exact ⟨hlast, hkind.1, hkind.2, t, ht, hclock⟩
        · cases h
    · cases h

theorem decision_eq_crash (h : s.decision env source = .crash) :
    ∃ p ∈ s.points.getLast?, env.cal.mktime p.1 = none := by
  rw [System.decision] at h
  split at h
  · cases h
  · next newest info hlast =>
    split at h
    · split at h
      · next ht => exact ⟨(newest, info), hlast, ht⟩
      · split at h <;> cases h
    · cases h

end StainedGlass.Snapshot
