import StainedGlass.Snapshot.HistoryLaws
import StainedGlass.Snapshot.GrowthLaws

namespace StainedGlass.Snapshot

open Lib

/-- The runs each restore point stands for, in their order: its own, and those merged into it. -/
abbrev Ledger := Sid → List (List Change)

def Merges (env : Env) (s : System) (r : Request) (sid : Sid) : Prop :=
  r.Heeded env ∧ env.fails .mergeInfo = none ∧ ∃ info, s.decision env r.source = .merge sid info

open Classical in
noncomputable def ledgerAfter (ledger : Ledger) (s : System) (env : Env) (e : Event) : Ledger := fun sid =>
  if sid ∈ s.names then
    match e with
    | .before r => if Merges env s r sid then ledger sid ++ [r.changes env.u] else ledger sid
    | _ => ledger sid
  else
    match e with
    | .before r =>
      -- a point that could not be told of stands for no run
      if ∃ d ∈ (s.after env e).dirs, d.name = sid ∧ d.info.kind = some .auto then [r.changes env.u]
      else [[]]
    | _ => [[]]

def Ledger.Kept (ledger : Ledger) (s : System) : Prop :=
  ∀ d ∈ s.dirs, ledger d.name ≠ [] ∧ d.info.changes = mergeRuns (ledger d.name)

theorem Ledger.Kept.grows {ledger ledger' : Ledger} {s s' : System}
    (h : ledger.Kept s) (hgrows : Grows own s s') (hold : ∀ sid ∈ s.names, ledger' sid = ledger sid)
    (hnew : ∀ d ∈ s'.dirs, d.name ∉ s.names → own d.info →
      ledger' d.name ≠ [] ∧ d.info.changes = mergeRuns (ledger' d.name)) : ledger'.Kept s' := by
  intro d hd
  obtain ⟨y, hy, hname, hinfo, -⟩ | ⟨hfree, hown, -⟩ := hgrows d hd
  · rw [hname, hinfo, hold _ (List.mem_map_of_mem hy)]
    exact h y hy
  · exact hnew d hd hfree hown

theorem Begun.changes_eq {label : Str} {source : Option String}
    {info : PointInfo} (h : Begun label kind changes source info) :
    info.kind = some kind ∧ info.changes = changes ∨ info.kind = none ∧ info.changes = [] := by
  obtain rfl | ⟨root, rfl⟩ := h
  · exact .inr ⟨rfl, rfl⟩
  · exact .inl ⟨rfl, rfl⟩

theorem Begun.changes_nil {label : Str} {info : PointInfo}
    (h : Begun label kind [] source info) : info.changes = [] := by
  obtain ⟨-, h⟩ | ⟨-, h⟩ := h.changes_eq
  · exact h
  · exact h

theorem Ledger.Kept.unrun {ledger ledger' : Ledger} {s s' : System} (h : ledger.Kept s)
    (hgrows : Grows (fun info => info.changes = []) s s')
    (hold : ∀ sid ∈ s.names, ledger' sid = ledger sid) (hnew : ∀ sid ∉ s.names, ledger' sid = [[]]) :
    ledger'.Kept s' := by
  apply h.grows hgrows hold
  intro d _ hfree hown
  rw [hnew _ hfree]
  exact ⟨List.cons_ne_nil _ _, hown⟩

theorem Ledger.Kept.same {ledger ledger' : Ledger} {s : System} (h : ledger.Kept s)
    (hold : ∀ sid ∈ s.names, ledger' sid = ledger sid) : ledger'.Kept s := by
  intro d hd
  rw [hold _ (List.mem_map_of_mem hd)]
  exact h d hd

theorem Ledger.Kept.setInfo {ledger ledger' : Ledger} {s : System} (h : ledger.Kept s) {sid : Sid}
    {info info' : PointInfo} (hpoint : (sid, info) ∈ s.points) {changes : List Change}
    (hinfo : info'.changes = mergeChanges info.changes changes)
    (hsid : ledger' sid = ledger sid ++ [changes])
    (hold : ∀ other ∈ s.names, other ≠ sid → ledger' other = ledger other) :
    ledger'.Kept (s.setInfo sid info') := by
  obtain ⟨y, hy, -, rfl, hyinfo⟩ := System.mem_points.mp hpoint
  intro d hd
  obtain ⟨x, hx, rfl⟩ := List.mem_map.mp hd
  split
  · next hname =>
    obtain rfl : x = y := List.inj_on_of_nodup_map s.nodup hx hy hname
    obtain ⟨hne, hchanges⟩ := h x hx
    change ledger' x.name ≠ [] ∧ info'.changes = mergeRuns (ledger' x.name)
    rw [hsid, hinfo, mergeRuns_append hne, ← hchanges, hyinfo]
    exact ⟨by simp, rfl⟩
  · next hname =>
    rw [hold _ (List.mem_map_of_mem hx) hname]
    exact h x hx

theorem merges_eq {s : System} {r : Request}
    (hdec : s.decision env r.source = .merge sid info) (h : Merges env s r sid') : sid' = sid := by
  obtain ⟨-, -, info', hdec'⟩ := h
  cases hdec.symm.trans hdec'
  rfl

theorem Ledger.Kept.before {ledger : Ledger} {s : System} (h : ledger.Kept s) (env : Env) (r : Request) :
    (ledgerAfter ledger s env (.before r)).Kept (s.after env (.before r)) := by
  have hunmerged {sid : Sid} (hsid : sid ∈ s.names) (hnot : ¬ Merges env s r sid) :
      ledgerAfter ledger s env (.before r) sid = ledger sid := by
    rw [ledgerAfter, if_pos hsid]
    exact if_neg hnot
  by_cases hheeded : r.Heeded env
  · have hafter : s.after env (.before r) =
        (carryOut env (r.changes env.u) r.source (s.decision env r.source) s).2 :=
      congrArg Prod.snd (before_of_heeded hheeded s)
    cases hdec : s.decision env r.source with
    | crash =>
      rw [hafter, hdec]
      apply h.same
      intro sid hsid
      apply hunmerged hsid
      rintro ⟨-, -, info, hmerge⟩
      exact absurd (hdec.symm.trans hmerge) (by simp)
    | merge sid info =>
      rw [hafter, hdec]
      cases hfails : env.fails .mergeInfo with
      | some e =>
        have hsame : (carryOut env (r.changes env.u) r.source (.merge sid info) s).2 = s := by
          simp [carryOut, Env.op, hfails, Act.op, bind]
        rw [hsame]
        apply h.same
        intro sid hsid
        apply hunmerged hsid
        rintro ⟨-, hnone, -⟩
        exact absurd (hfails.symm.trans hnone) (by simp)
      | none =>
        have hpoint : (sid, info) ∈ s.points := List.mem_of_getLast? (decision_eq_merge hdec).1
        have hmem : sid ∈ s.names := System.mem_names_of_mem_points hpoint
        rw [carryOut_merge hfails]
        apply h.setInfo hpoint rfl
        · rw [ledgerAfter, if_pos hmem]
          exact if_pos ⟨hheeded, hfails, info, hdec⟩
        · intro other hother hne
          exact hunmerged hother fun hmerges => hne (merges_eq hdec hmerges)
    | take =>
      have hgrows : Grows (fun info => info.kind = some .auto ∧ info.changes = r.changes env.u ∨
          info.kind = none ∧ info.changes = []) s (s.after env (.before r)) := by
        rw [hafter, hdec]
        exact grows_carryOut_take fun _ hb => hb.changes_eq
      apply h.grows hgrows
      · intro sid hsid
        apply hunmerged hsid
        rintro ⟨-, -, info, hmerge⟩
        exact absurd (hdec.symm.trans hmerge) (by simp)
      · intro d hd hfree hown
        rw [ledgerAfter, if_neg hfree]
        obtain ⟨hkind, hchanges⟩ | ⟨hkind, hchanges⟩ := hown
        · rw [if_pos ⟨d, hd, rfl, hkind⟩]
          exact ⟨List.cons_ne_nil _ _, hchanges⟩
        · rw [if_neg]
          · exact ⟨List.cons_ne_nil _ _, hchanges⟩
          · rintro ⟨x, hx, hname, hauto⟩
            rw [List.inj_on_of_nodup_map (s.after env (.before r)).nodup hx hd hname, hkind] at hauto
            exact absurd hauto (by simp)
  · have hsame : s.after env (.before r) = s := before_of_not_heeded hheeded s
    rw [hsame]
    apply h.same
    intro sid hsid
    exact hunmerged hsid fun hmerges => hheeded hmerges.1

theorem Ledger.Kept.step {ledger : Ledger} {s : System} (h : ledger.Kept s) (env : Env) (e : Event) :
    (ledgerAfter ledger s env e).Kept (s.after env e) := by
  cases e with
  | before r => exact h.before env r
  | create label kind =>
    apply h.unrun (grows_cmdCreate fun _ hb => hb.changes_nil)
    · exact fun sid hsid => if_pos hsid
    · exact fun sid hsid => if_neg hsid
  | delete sid =>
    apply h.unrun grows_cmdDelete
    · exact fun sid hsid => if_pos hsid
    · exact fun sid hsid => if_neg hsid
  | goBack sid =>
    apply h.unrun (grows_cmdRollback fun _ _ hb => hb.changes_nil)
    · exact fun sid hsid => if_pos hsid
    · exact fun sid hsid => if_neg hsid

noncomputable def history (s : System) (ledger : Ledger) : List Timed → System × Ledger
  | [] => (s, ledger)
  | t :: ts => history (s.after t.env t.event) (ledgerAfter ledger s t.env t.event) ts

def System.ledger (s : System) : Ledger := fun sid =>
  [((s.dir? sid).map fun d => d.info.changes).getD []]

theorem kept_ledger (s : System) : s.ledger.Kept s := by
  intro d hd
  rw [System.ledger, System.dir?_of_mem hd]
  exact ⟨List.cons_ne_nil _ _, rfl⟩

theorem kept_history {s : System} {ledger : Ledger} (h : ledger.Kept s) (ts : List Timed) :
    (history s ledger ts).2.Kept (history s ledger ts).1 := by
  induction ts generalizing s ledger with
  | nil => exact h
  | cons t ts ih => exact ih (h.step t.env t.event)

theorem newline_notMem_take (h : matchesIdRe sid) : 10 ∉ (str sid).take 15 := by
  simp only [matchesIdRe, Bool.and_eq_true, beq_iff_eq, List.all_eq_true] at h
  obtain ⟨⟨⟨⟨⟨-, hday⟩, hdash⟩, -⟩, htime⟩, -⟩ := h
  have hdigit {c : Char} (hc : isAsciiDigit c = true) : c.toNat ≠ 10 := by
    rintro heq
    rw [isAsciiDigit, Bool.and_eq_true, decide_eq_true_eq] at hc
    exact absurd (show ('0').toNat ≤ c.toNat from hc.1) (by rw [heq]; decide)
  rw [str, ← List.map_take, List.mem_map]
  rintro ⟨c, hc, heq⟩
  rw [show 15 = 8 + (1 + 6) from rfl, List.take_add, List.take_add, List.mem_append, List.mem_append,
    List.drop_drop] at hc
  obtain hc | hc | hc := hc
  · exact hdigit (hday c hc) heq
  · rw [List.take_one, List.head?_drop, hdash] at hc
    obtain rfl : c = '-' := by simpa using hc
    exact absurd heq (by decide)
  · exact hdigit (htime c hc) heq

theorem newline_notMem_whyWentBack {sid : Sid} (h : matchesIdRe sid) (info : PointInfo) :
    10 ∉ whyWentBack info sid := by
  have hpiece {i n : Nat} (hle : i + n ≤ 15) : 10 ∉ ((str sid).drop i).take n := by
    intro hmem
    rw [List.take_drop] at hmem
    have hsub := List.take_subset_take_left (str sid) hle
    exact newline_notMem_take h (hsub (List.mem_of_mem_drop hmem))
  have hhuman : 10 ∉ human sid := by
    have h₀ := hpiece (i := 0) (n := 4) (by decide)
    rw [List.drop_zero] at h₀
    simp only [human, List.mem_append, not_or]
    refine ⟨⟨⟨⟨⟨⟨⟨⟨h₀, by decide⟩, hpiece (by decide)⟩, by decide⟩, hpiece (by decide)⟩, by decide⟩,
      hpiece (by decide)⟩, by decide⟩, hpiece (by decide)⟩
  have happend {a b : Str} (ha : 10 ∉ a) (hb : 10 ∉ b) : 10 ∉ a ++ b := by simp [ha, hb]
  have hwhich : 10 ∉ whichPoint info sid := by
    rw [whichPoint, beforeWhat]
    split
    · exact happend (by decide) hhuman
    · split
      · exact happend (by decide) hhuman
      · exact happend (by decide) hhuman
  exact happend (by decide) hwhich

def System.prefs? (s : System) : Option (Option Str) := s.root?.map fun root => root.files prefsFile

theorem System.root?_congr {s s' : System} (h : s'.subvols = s.subvols) : s'.root? = s.root? := by
  rw [System.root?, System.root?, h]

theorem System.root?_editRoot (s : System) (f : Root → Root) :
    (s.editRoot "@" f).root? = s.root?.map f := by
  simp [System.root?, System.editRoot, Function.comp_def]

theorem System.prefs?_note (s : System) (text : Str) :
    (s.editRoot "@" (Root.write wentBackFile text)).prefs? = s.prefs? := by
  have hne : prefsFile ≠ wentBackFile := by decide
  simp [System.prefs?, System.root?_editRoot, Function.comp_def, Root.write,
    Function.update_of_ne hne]

theorem ends_prefs {env : Env} {s : System} {sid : Sid} {info : PointInfo} {undo : Option Sid}
    {snap : Root} (h : s.root? = some snap) :
    (do
      makeDefault env
      writePrefs env info sid
      followUp env info sid undo
      pure ["PENDING " ++ sid] : Cmd (List String)).Ends s
        (fun _ s' => s'.prefs? =
          some ((wentBackPrefs info.changes (whyWentBack info sid)).or (snap.files prefsFile)))
        (fun _ _ => True) := by
  have hrest (x : Option (Option Str)) : (do
      followUp env info sid undo
      pure ["PENDING " ++ sid] : Cmd (List String)).Keeps (fun s' => s'.prefs? = x) := by
    apply Act.Keeps.bind
    · apply keeps_followUp
      · exact fun s text h => (s.prefs?_note text).trans h
      · exact fun _ _ _ h => h
      · intro s s' hshrinks h
        rwa [System.prefs?, System.root?_congr hshrinks.subvols]
    · exact fun _ => .pure _
  have hdefault : (makeDefault env).Keeps (fun s' => s'.root? = some snap) := by
    apply keeps_makeDefault
    intro s n h
    rwa [System.root?_congr (s.subvols_setDefault n)]
  rw [Act.ends_bind]
  apply (hdefault s h).mono
  · intro _ s' hs'
    rw [Act.ends_bind, writePrefs]
    cases wentBackPrefs info.changes (whyWentBack info sid) with
    | none =>
      rw [Act.ends_pure, Option.none_or]
      apply (hrest _ s' _).mono (fun _ _ h => h) fun _ _ _ => trivial
      simp [System.prefs?, hs']
    | some text =>
      rw [Env.ends_op, Option.some_or]
      refine ⟨fun _ => ?_, fun _ _ => trivial⟩
      apply (hrest _ _ _).mono (fun _ _ h => h) fun _ _ _ => trivial
      simp [System.prefs?, System.root?_editRoot, hs', Root.write]
  · exact fun _ _ _ => trivial

theorem ends_goBackTo {env : Env} {s : System} {sid : Sid} {info : PointInfo} {snap : Root}
    (hsid : sid ∈ s.names) (hsnap : s.pointRoot? sid = some snap) :
    (goBackTo env info sid).Ends s
      (fun _ s' => s'.prefs? =
        some ((wentBackPrefs info.changes (whyWentBack info sid)).or (snap.files prefsFile)))
      (fun _ _ => True) := by
  have hundo : (takeUndo env info sid).Ends s (fun _ s' => s'.pointRoot? sid = some snap)
      (fun _ _ => True) := by
    rw [takeUndo, Act.ends_bind, Act.ends_get]
    split
    · rw [Act.ends_bind, ends_take (fun _ => trivial) (fun _ _ _ _ _ => trivial)]
      intro undo root hfresh _ _
      exact (System.pointRoot?_putDir (System.freshId_notMem hfresh) hsid).trans hsnap
    · exact hsnap
  rw [goBackTo, Act.ends_bind]
  apply hundo.mono
  · intro undo s₁ hsnap₁
    rw [Act.ends_bind]
    cases hroot : s₁.root? with
    | none =>
      have hnone : s₁.subvols "@" = none := by simpa [System.root?] using hroot
      rw [replaceSystem, Act.ends_bind, ends_renameSubvol (fun _ => trivial)]
      intro hsome
      simp [hnone] at hsome
    | some root =>
      rw [ends_replaceSystem (by simp [hroot]) hsnap₁ (fun _ => trivial)]
      intro _ _
      split
      · apply ends_prefs
        simp [System.root?, subvols_putSubvol]
      · exact fun _ _ => trivial
      · trivial
  · exact fun _ _ _ => trivial

theorem mem_pins_of_last {runs : List (List Change)} {c : Change} (hlast : Last c runs.flatten)
    (hold : c.old ≠ noVersion) (hfirst : firstOld c.name runs.flatten ≠ some noVersion)
    (hname : validName c.name) (hnew : validVersion c.new) {why : Str} (hwhy : 10 ∉ why) :
    ∃ text, wentBackPrefs (mergeRuns runs) why = some text ∧ (c.name, c.new) ∈ pins text := by
  obtain ⟨m, hm, hmname, hmnew, hmold⟩ := hlast.mem_mergeRuns
  have hkept : m.Kept := by
    refine ⟨?_, hmname ▸ hname, hmnew ▸ hnew⟩
    intro hnone
    obtain hmold | hmold := hmold
    · exact hold (hmold.symm.trans hnone)
    · exact hfirst (hnone ▸ hmold)
  cases hprefs : wentBackPrefs (mergeRuns runs) why with
  | none => exact absurd hkept (wentBackPrefs_eq_none hprefs m hm)
  | some text =>
    refine ⟨text, rfl, ?_⟩
    rw [pins_wentBackPrefs hwhy hprefs, List.mem_flatMap]
    exact ⟨m, hm, by simp [Change.pins, hkept, hmname, hmnew]⟩

theorem changed_of_mem_pins {runs : List (List Change)} {why text : Str} (hwhy : 10 ∉ why)
    (hprefs : wentBackPrefs (mergeRuns runs) why = some text) {p : Str × Str} (hp : p ∈ pins text) :
    ∃ c ∈ runs.flatten, c.name = p.1 := by
  rw [pins_wentBackPrefs hwhy hprefs, List.mem_flatMap] at hp
  obtain ⟨m, hm, hp⟩ := hp
  obtain ⟨c, hc, hname⟩ := name_mem_mergeRuns hm
  rw [Change.pins] at hp
  split at hp
  · rw [List.mem_singleton.mp hp]
    exact ⟨c, hc, hname.symm⟩
  · exact absurd hp List.not_mem_nil

/-- A going back keeps from apt the last version that each package was brought to, and nothing else. -/
theorem going_back_keeps_last_versions {s₀ s s' : System} {ts : List Timed} {ledger : Ledger}
    (hhistory : history s₀ s₀.ledger ts = (s, ledger)) {env : Env} {sid : Sid} {reply : List String}
    (h : cmdRollback env sid s = (.ok reply, s')) :
    ∃ snap root, s.pointRoot? sid = some snap ∧ s'.root? = some root ∧
      (∀ c, Last c (ledger sid).flatten → c.old ≠ noVersion →
        firstOld c.name (ledger sid).flatten ≠ some noVersion → validName c.name → validVersion c.new →
        ∃ text, root.files prefsFile = some text ∧ (c.name, c.new) ∈ pins text) ∧
      (root.files prefsFile ≠ snap.files prefsFile →
        ∃ text, root.files prefsFile = some text ∧
          ∀ p ∈ pins text, ∃ c ∈ (ledger sid).flatten, c.name = p.1) := by
  obtain ⟨e, hcmd, -⟩ | ⟨info, hacc, hcmd⟩ := cmdRollback_cases env s sid
  · exact absurd (hcmd.symm.trans h) (by simp)
  · obtain ⟨hsid, snap, hsnap⟩ := System.pointRoot?_of_lookup hacc.point
    have hprefs : s'.prefs? =
        some ((wentBackPrefs info.changes (whyWentBack info sid)).or (snap.files prefsFile)) := by
      have hends := @ends_goBackTo env s sid info snap hsid hsnap
      rw [Act.Ends, ← hcmd, h] at hends
      exact hends
    obtain ⟨root, hroot, hfile⟩ := Option.map_eq_some_iff.mp hprefs
    have hchanges : info.changes = mergeRuns (ledger sid) := by
      have hkept := kept_history (kept_ledger s₀) ts
      rw [hhistory] at hkept
      obtain ⟨d, hd, -, rfl, rfl⟩ := System.mem_points.mp (System.mem_points_of_lookup hacc.point)
      exact (hkept d hd).2
    have hwhy := newline_notMem_whyWentBack hacc.id info
    rw [hchanges] at hfile
    refine ⟨snap, root, hsnap, hroot, ?_, ?_⟩
    · intro c hlast hold hfirst hname hnew
      obtain ⟨text, htext, hpin⟩ := mem_pins_of_last hlast hold hfirst hname hnew hwhy
      exact ⟨text, by rw [hfile, htext, Option.some_or], hpin⟩
    · intro hchanged
      cases htext : wentBackPrefs (mergeRuns (ledger sid)) (whyWentBack info sid) with
      | none => exact absurd (by rw [hfile, htext, Option.none_or]) hchanged
      | some text =>
        exact ⟨text, by rw [hfile, htext, Option.some_or], fun p hp => changed_of_mem_pins hwhy htext hp⟩

theorem update_of_foo_is_kept :
    ∃ reply s' root text,
      cmdRollback (.small 400 fun _ => none) "20260101-000000" .onePoint = (.ok reply, s') ∧
        s'.root? = some root ∧ root.files prefsFile = some text ∧ (str "foo", str "2") ∈ pins text := by
  have hacc : Accepted (.small 400 fun _ => none) .onePoint "20260101-000000" fooUpdate :=
    accepted_small rfl lookup_points_onePoint rfl rfl
  have hundo : System.onePoint.freshId (.small 400 fun _ => none) = some "20260101-000500" := rfl
  have hold : System.onePoint.subvols (oldName (.small 400 fun _ => none)) = none := by
    simp [System.onePoint, (at_ne_oldName _).symm]
  have hroot : System.onePoint.root?.isSome := by simp [System.root?, System.onePoint]
  obtain ⟨reply, s', hcmd⟩ := cmdRollback_returns hacc (fun _ => rfl) hundo hroot hold
  obtain ⟨snap, root, -, hroot, hkept, -⟩ :=
    @going_back_keeps_last_versions .onePoint _ _ [] _ rfl _ _ _ hcmd
  have hlast : Last ⟨str "foo", str "1", str "2"⟩
      (System.onePoint.ledger "20260101-000000").flatten := ⟨[], [], rfl, by simp⟩
  obtain ⟨text, htext, hpin⟩ := hkept _ hlast (by decide) (by decide) (by decide) (by decide)
  exact ⟨reply, s', root, text, hcmd, hroot, htext, hpin⟩

theorem version_between_is_not_kept : ∃ s ledger reply s' root text,
    history .onePoint System.onePoint.ledger [secondRun] = (s, ledger) ∧
    ledger "20260101-000000" = [[⟨str "foo", str "1", str "2"⟩], [⟨str "foo", str "2", str "3"⟩]] ∧
    cmdRollback (.small 400 fun _ => none) "20260101-000000" s = (.ok reply, s') ∧
    s'.root? = some root ∧ root.files prefsFile = some text ∧ pins text = [(str "foo", str "3")] := by
  have hledger : ledgerAfter System.onePoint.ledger .onePoint secondRun.env secondRun.event "20260101-000000" =
      [[⟨str "foo", str "1", str "2"⟩], [⟨str "foo", str "2", str "3"⟩]] := by
    have hmem : "20260101-000000" ∈ System.onePoint.names := .head _
    have hmerges : Merges secondRun.env .onePoint (upgradeOf "foo" "2" "3") "20260101-000000" :=
      ⟨heeded_secondRun, rfl, fooUpdate, decision_secondRun⟩
    refine (if_pos hmem).trans ((if_pos hmerges).trans ?_)
    rw [changes_secondRun]
    rfl
  have hpoint : (System.onePoint.setInfo "20260101-000000" mergedUpdate).points.lookup "20260101-000000" =
      some mergedUpdate := by
    have hid : matchesIdRe "20260101-000000" := by decide
    simp [System.points, System.onePoint, System.setInfo, Dir.isPoint, wholeDir, hid]
  have hacc : Accepted (.small 400 fun _ => none) (System.onePoint.setInfo "20260101-000000" mergedUpdate)
      "20260101-000000" mergedUpdate := accepted_small rfl hpoint rfl rfl
  have hundo : (System.onePoint.setInfo "20260101-000000" mergedUpdate).freshId (.small 400 fun _ => none) =
      some "20260101-000500" := rfl
  have hroot : System.onePoint.root?.isSome := by simp [System.root?, System.onePoint]
  have hold : System.onePoint.subvols (oldName (.small 400 fun _ => none)) = none := by
    simp [System.onePoint, (at_ne_oldName _).symm]
  obtain ⟨reply, s', hcmd⟩ := cmdRollback_returns hacc (fun _ => rfl) hundo hroot hold
  have hwhy := newline_notMem_whyWentBack hacc.id mergedUpdate
  obtain ⟨text, htext, -⟩ := @mem_pins_of_last [mergedUpdate.changes] ⟨str "foo", str "1", str "3"⟩
    ⟨[], [], rfl, by simp⟩ (by decide) (by decide) (by decide) (by decide) _ hwhy
  have hprefs : s'.prefs? = some (some text) := by
    obtain ⟨e, -, hnot⟩ | ⟨info', hacc', hgo⟩ := cmdRollback_cases (.small 400 fun _ => none)
      (System.onePoint.setInfo "20260101-000000" mergedUpdate) "20260101-000000"
    · exact absurd hacc (hnot mergedUpdate)
    · cases hacc.unique hacc'
      have hends := @ends_goBackTo (.small 400 fun _ => none)
        (System.onePoint.setInfo "20260101-000000" mergedUpdate) "20260101-000000" mergedUpdate
        ⟨fun _ => none, [str "6.1"]⟩ (.head _) rfl
      rw [Act.Ends, ← hgo, hcmd] at hends
      exact hends.trans (congrArg (fun t => some (t.or none)) htext)
  obtain ⟨root, hroot', hfile⟩ := Option.map_eq_some_iff.mp hprefs
  refine ⟨_, _, reply, s', root, text, rfl, hledger, after_secondRun ▸ hcmd, hroot', hfile, ?_⟩
  rw [pins_wentBackPrefs hwhy htext]
  decide

end StainedGlass.Snapshot
