import StainedGlass.Snapshot.ChangesLaws
import StainedGlass.Snapshot.RollbackLaws

namespace StainedGlass.Snapshot

open Lib

abbrev Born := Sid → Int

def bornAfter (born : Born) (s s' : System) (time : Int) : Born := fun sid =>
  if sid ∈ s'.names ∧ sid ∉ s.names then time else born sid

structure Moment where
  system : System
  born : Born
  timed : Timed

def Moment.after (m : Moment) : System := m.system.after m.timed.env m.timed.event

def moments (s : System) (born : Born) : List Timed → List Moment
  | [] => []
  | t :: ts =>
    let s' := s.after t.env t.event
    ⟨s, born, t⟩ :: moments s' (bornAfter born s s' t.time) ts

/-- A run of apt for which nothing fails, with a clock that has moved on as time has. -/
structure Moment.Fit (m : Moment) (r : Request) : Prop where
  heeded : r.Heeded m.timed.env
  root : m.system.root?.isSome
  works : ∀ o ∈ .mergeInfo :: takeOps, m.timed.env.fails o = none
  free : ∃ k sid, tried m.timed.env.cal (m.timed.env.cal.newId (m.timed.env.clock .take)) k = some sid ∧
    sid ∉ m.system.names
  clock : ∀ p ∈ m.system.points.getLast?, ∃ t, m.timed.env.cal.mktime p.1 = some t ∧
    m.timed.time - m.born p.1 ≤ m.timed.env.clock .merge - t

def Moment.TakenFor (m : Moment) (r : Request) : Prop :=
  ∃ d ∈ m.after.dirs, d.isPoint ∧ d.name ∉ m.system.names ∧ d.snapshot = m.system.root? ∧
    d.info.kind = some .auto ∧ d.info.source = r.source ∧ d.info.changes = r.changes m.timed.env.u

def Moment.MergedInto (m : Moment) (r : Request) (sid : Sid) : Prop :=
  ∃ info info', (sid, info) ∈ m.system.points ∧ (sid, info') ∈ m.after.points ∧
    info.kind = some .auto ∧ info.source = r.source ∧
    info'.kind = info.kind ∧ info'.source = info.source ∧
    info'.changes = mergeChanges info.changes (r.changes m.timed.env.u) ∧
    ∀ c, Last c (r.changes m.timed.env.u) → ∃ d ∈ info'.changes, d.name = c.name ∧ d.new = c.new

variable {m : Moment} {r : Request}

theorem Moment.Fit.freshId (h : m.Fit r) : ∃ sid, m.system.freshId m.timed.env = some sid := by
  obtain ⟨k, found, hk, hfree⟩ := h.free
  exact Option.isSome_iff_exists.mp (freshId_isSome hk hfree)

theorem Moment.Fit.takenFor (h : m.Fit r)
    (hafter : m.after = (carryOut m.timed.env (r.changes m.timed.env.u) r.source .take m.system).2) :
    m.TakenFor r := by
  obtain ⟨sid, hsid⟩ := h.freshId
  obtain ⟨root, hroot⟩ := Option.isSome_iff_exists.mp h.root
  have hops : ∀ o ∈ takeOps, m.timed.env.fails o = none := fun o ho => h.works o (.tail _ ho)
  let d := wholeDir sid root
    (newInfo (label m.timed.env.ours r.source (r.changes m.timed.env.u)) .auto (r.changes m.timed.env.u)
      r.source root)
  have hmem : d ∈ m.after.dirs := by
    rw [hafter]
    apply Act.Ends.state (P := fun s' : System => d ∈ s'.dirs)
    rw [carryOut, Act.ends_bind, ends_take_of_works hsid hroot hops, Act.ends_bind, Env.ends_op]
    have hd : d ∈ (m.system.putDir d).dirs := System.mem_dirs_putDir.mpr (.inl rfl)
    constructor
    · intro _
      apply (shrinks_clearUp m.timed.env sid _).mono
      · exact fun _ s' hs' => hs'.kept d hd (.head _)
      · exact fun _ s' hs' => hs'.kept d hd (.head _)
    · exact fun _ _ => hd
  have hpoint : d.isPoint := by
    simpa [Dir.isPoint, d, wholeDir] using System.matchesIdRe_freshId hsid
  exact ⟨d, hmem, hpoint, System.freshId_notMem hsid, hroot.symm, rfl, rfl, rfl⟩

theorem Moment.Fit.mergedInto (h : m.Fit r) (hdec : m.system.decision m.timed.env r.source = .merge sid info)
    (hafter : m.after = (carryOut m.timed.env (r.changes m.timed.env.u) r.source (.merge sid info) m.system).2) :
    m.MergedInto r sid ∧ m.timed.time - m.born sid ≤ 300 := by
  obtain ⟨hlast, hkind, hsource, t, ht, hclock⟩ := decision_eq_merge hdec
  have hmem : (sid, info) ∈ m.system.points := List.mem_of_getLast? hlast
  refine ⟨⟨info, mergedInfo m.timed.env info (r.changes m.timed.env.u) r.source, hmem, ?_, hkind,
    hsource, rfl, rfl, rfl, ?_⟩, ?_⟩
  · rw [hafter]
    apply Act.Ends.state (P := fun s' : System => _ ∈ s'.points)
    have hworks := h.works .mergeInfo (.head _)
    have hmerged := System.mem_points_setInfo hmem
      (mergedInfo m.timed.env info (r.changes m.timed.env.u) r.source)
    simp [carryOut, hworks, hmerged]
  · rintro c ⟨before, after, hsplit, hlater⟩
    obtain ⟨d, hd, hname, hnew, -⟩ := exists_mem_mergeChanges hlater info.changes before
    exact ⟨d, hsplit ▸ hd, hname, hnew⟩
  · obtain ⟨t', ht', hpassed⟩ := h.clock _ hlast
    cases ht.symm.trans ht'
    change m.timed.time - m.born sid ≤ m.timed.env.clock .merge - t at hpassed
    omega

theorem Moment.Fit.covered (h : m.Fit r) (hr : m.timed.event = .before r) :
    m.TakenFor r ∨ ∃ sid, m.MergedInto r sid ∧ m.timed.time - m.born sid ≤ 300 := by
  have hafter : m.after = (carryOut m.timed.env (r.changes m.timed.env.u) r.source
      (m.system.decision m.timed.env r.source) m.system).2 := by
    rw [← before_of_heeded h.heeded, Moment.after, System.after, hr]
    rfl
  cases hdec : m.system.decision m.timed.env r.source with
  | crash =>
    obtain ⟨p, hp, hnone⟩ := decision_eq_crash hdec
    obtain ⟨t, ht, -⟩ := h.clock p hp
    exact absurd (hnone.symm.trans ht) (by simp)
  | merge sid info =>
    rw [hdec] at hafter
    exact .inr ⟨sid, h.mergedInto hdec hafter⟩
  | take =>
    rw [hdec] at hafter
    exact .inl (h.takenFor hafter)

def Moment.Takes (m : Moment) (sid : Sid) : Prop :=
  sid ∉ m.system.names ∧ sid ∈ m.after.names

theorem born_moments {s : System} (h : moments s born ts = pre ++ m :: post) (hsid : sid ∈ m.system.names) :
    (∃ m' ∈ pre, m'.Takes sid ∧ m.born sid = m'.timed.time) ∨ sid ∈ s.names ∧ m.born sid = born sid := by
  induction ts generalizing s born pre with
  | nil => simp [moments] at h
  | cons t ts ih =>
    cases pre with
    | nil =>
      obtain ⟨rfl, -⟩ := List.cons_eq_cons.mp h
      exact .inr ⟨hsid, rfl⟩
    | cons first pre =>
      obtain ⟨rfl, htail⟩ := List.cons_eq_cons.mp h
      obtain ⟨m', hm', htakes, hborn⟩ | ⟨hsid', hborn⟩ := ih htail
      · exact .inl ⟨m', .tail _ hm', htakes, hborn⟩
      · rw [bornAfter] at hborn
        split at hborn
        · next hnew => exact .inl ⟨_, .head _, ⟨hnew.2, hnew.1⟩, hborn⟩
        · next hold => exact .inr ⟨by_contra fun hs => hold ⟨hsid', hs⟩, hborn⟩

theorem System.mem_names_of_mem_points {s : System} {p : Sid × PointInfo} (h : p ∈ s.points) :
    p.1 ∈ s.names := by
  obtain ⟨d, hd, -, hname, -⟩ := System.mem_points.mp h
  exact hname ▸ List.mem_map_of_mem hd

/-- Every run of a history has a restore point of its own kind, at most 300 seconds old. -/
theorem run_relies_on_recent_point {s : System} {born : Born} {ts : List Timed}
    {pre post : List Moment} {m : Moment} (h : moments s born ts = pre ++ m :: post) {r : Request}
    (hr : m.timed.event = .before r) (hfit : m.Fit r) :
    m.TakenFor r ∨ ∃ sid, m.MergedInto r sid ∧
      ((∃ m' ∈ pre, m'.Takes sid ∧ m.timed.time - m'.timed.time ≤ 300) ∨
        sid ∈ s.names ∧ m.timed.time - born sid ≤ 300) := by
  obtain htaken | ⟨sid, hmerged, hrecent⟩ := hfit.covered hr
  · exact .inl htaken
  · refine .inr ⟨sid, hmerged, ?_⟩
    obtain ⟨info, -, hpoint, -⟩ := hmerged
    obtain ⟨m', hm', htakes, hborn⟩ | ⟨hsid, hborn⟩ :=
      born_moments h (System.mem_names_of_mem_points hpoint)
    · exact .inl ⟨m', hm', htakes, hborn ▸ hrecent⟩
    · exact .inr ⟨hsid, hborn ▸ hrecent⟩

def upgradeOf (name old new : String) : Request :=
  .hook (str "VERSION 3\n\n" ++
    str (name ++ " " ++ old ++ " amd64 none < " ++ new ++ " amd64 none x.deb\n")) false false

theorem carryOut_merge {env : Env} {s : System} (h : env.fails .mergeInfo = none)
    {changes : List Change} {source : Option String} {sid : Sid} {info : PointInfo} :
    (carryOut env changes source (.merge sid info) s).2 =
      s.setInfo sid (mergedInfo env info changes source) := by
  apply Act.Ends.state (P := fun s' => s' = _)
  simp [carryOut, h]

theorem getLast?_points_onePoint : System.onePoint.points.getLast? = some ("20260101-000000", fooUpdate) := by
  have hid : matchesIdRe "20260101-000000" := by decide
  simp [System.points, System.onePoint, Dir.isPoint, wholeDir, hid]

-- The sample calendar names two moments, so a point taken would be of the second of them.
def secondRun : Timed where
  env := { Env.small 10 fun _ => none with clock := fun tick => if tick = .take then 300 else 10 }
  time := 10
  event := .before (upgradeOf "foo" "2" "3")

theorem changes_secondRun : (upgradeOf "foo" "2" "3").changes secondRun.env.u = [⟨str "foo", str "2", str "3"⟩] := by
  decide

theorem heeded_secondRun : (upgradeOf "foo" "2" "3").Heeded secondRun.env :=
  ⟨by decide, by decide, by decide, by decide, by decide, by decide, rfl⟩

theorem decision_secondRun : System.onePoint.decision secondRun.env none = .merge "20260101-000000" fooUpdate := by
  rw [System.decision, getLast?_points_onePoint]
  rfl

def mergedUpdate : PointInfo := mergedInfo secondRun.env fooUpdate [⟨str "foo", str "2", str "3"⟩] none

theorem after_secondRun : System.onePoint.after secondRun.env secondRun.event =
    System.onePoint.setInfo "20260101-000000" mergedUpdate := by
  have hbefore := congrArg Prod.snd (before_of_heeded heeded_secondRun .onePoint)
  rw [changes_secondRun, show (upgradeOf "foo" "2" "3").source = none from rfl, decision_secondRun,
    carryOut_merge rfl] at hbefore
  exact hbefore

theorem second_upgrade_is_merged :
    (Moment.mk .onePoint (fun _ => 0) secondRun).MergedInto (upgradeOf "foo" "2" "3") "20260101-000000" ∧
      secondRun.time - 0 ≤ 300 := by
  have hroot : System.onePoint.root?.isSome := by simp [System.root?, System.onePoint]
  have hfit : (Moment.mk .onePoint (fun _ => 0) secondRun).Fit (upgradeOf "foo" "2" "3") :=
    { heeded := heeded_secondRun
      root := hroot
      works := fun _ _ => rfl
      free := ⟨0, _, rfl, by decide⟩
      clock := by
        rw [getLast?_points_onePoint]
        rintro p ⟨⟩
        exact ⟨0, rfl, le_rfl⟩ }
  have hnames : (Moment.mk .onePoint (fun _ => 0) secondRun).after.names = ["20260101-000000"] := by
    rw [Moment.after, after_secondRun]
    rfl
  obtain ⟨d, hd, -, hnew, -⟩ | ⟨sid, hmerged, ⟨m', hm', -⟩ | ⟨hsid, hrecent⟩⟩ :=
    @run_relies_on_recent_point .onePoint (fun _ => 0) [secondRun] [] [] _ rfl _ rfl hfit
  · have hmem : d.name ∈ (Moment.mk .onePoint (fun _ => 0) secondRun).after.names := List.mem_map_of_mem hd
    rw [hnames] at hmem
    exact absurd hmem hnew
  · cases hm'
  · obtain rfl : sid = "20260101-000000" := by simpa [System.names, System.onePoint, wholeDir] using hsid
    exact ⟨hmerged, hrecent⟩

theorem upgrade_in_restore_point_has_none :
    let t : Timed :=
      ⟨.ofNewYear ["sg.snapshot=20260101-000000"] 10, 10, .before (upgradeOf "foo" "1" "2")⟩
    let m : Moment := ⟨.bare, fun _ => 0, t⟩
    (upgradeOf "foo" "1" "2").changes .ascii = [⟨str "foo", str "1", str "2"⟩] ∧
      (t.event.cmd t.env m.system).1 = .ok [] ∧
      ¬ m.TakenFor (upgradeOf "foo" "1" "2") ∧ ∀ sid, ¬ m.MergedInto (upgradeOf "foo" "1" "2") sid := by
  intro t m
  have hcmd : t.event.cmd t.env m.system = (.ok [], m.system) := rfl
  have hafter : m.after = .bare := congrArg Prod.snd hcmd
  refine ⟨by decide, congrArg Prod.fst hcmd, ?_, ?_⟩
  · rintro ⟨d, hd, -⟩
    rw [hafter] at hd
    exact absurd hd List.not_mem_nil
  · rintro sid ⟨info, -, hpoint, -⟩
    simp [m, System.points, System.bare] at hpoint

end StainedGlass.Snapshot
