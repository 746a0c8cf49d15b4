import StainedGlass.Firewall.DaemonLaws
import StainedGlass.Firewall.RulesetLaws

namespace StainedGlass.Firewall

open Lib

inductive Event where
  | notice (now inode : Nat) (msg : Str) (sender : Process)
  | tick (s : Scene)

def daemonStep (u : Unicode) (st : Daemon × Option Str) : Event → Daemon × Option Str
  | .notice now inode msg sender => (st.1.notice u now inode msg sender, st.2)
  | .tick s => st.1.tick u s st.2

def Process.shows (program : Str) (p : Process) : Prop :=
  if isWine p.path then p.argv.head?.filter winPath = some program else p.program = program

def Event.shows (u : Unicode) (program : Str) : Event → Prop
  | .notice _ _ msg sender => noticeProgram u msg sender = some program
  | .tick s => ∃ sock ∈ s.sockets, ∃ p ∈ s.processes sock.inode, p.shows program

variable {P : Str → Prop}

theorem owner_program (a : Accounts) (hbest : ∀ f ∈ best, ∀ p ∈ f.program, P p)
    (hprocs : ∀ proc ∈ procs, ∀ p, proc.shows p → P p) : ∀ f ∈ owner a best procs, ∀ p ∈ f.program, P p := by
  induction procs generalizing best with
  | nil => exact hbest
  | cons proc procs ih =>
    rw [List.forall_mem_cons] at hprocs
    rw [owner]
    split
    · refine ih (fun f hf => ?_) hprocs.2
      cases best with
      | none =>
        obtain rfl := Option.some.inj hf
        exact nofun
      | some f' => exact hbest f hf
    · split
      · next hwine =>
        split
        · next prog hprog =>
          rintro f ⟨⟩ p ⟨⟩
          exact hprocs.1 _ ((if_pos hwine).mpr hprog)
        · rintro f ⟨⟩ p ⟨⟩
      · next hwine =>
        rintro f ⟨⟩ p ⟨⟩
        exact hprocs.1 _ ((if_neg hwine).mpr rfl)

theorem identify_program  (hhints : ∀ h ∈ hints, P h.2.program) (hcache : ∀ o ∈ cache, ∀ p ∈ o.2.program, P p)
    (hprocs : ∀ s ∈ sockets, ∀ proc ∈ procs s.inode, ∀ p, proc.shows p → P p) :
    (∀ l ∈ (identify a hints procs cache sockets).1, ∀ p ∈ l.program, P p) ∧
      ∀ o ∈ (identify a hints procs cache sockets).2, ∀ p ∈ o.2.program, P p := by
  have hlookup {β : Type} {xs : List (Nat × β)} {k : Nat} {v : β} (h : xs.lookup k = some v) :
      (k, v) ∈ xs := by
    obtain ⟨front, back, rfl, -⟩ := List.lookup_eq_some_iff.mp h
    simp
  induction sockets generalizing cache with
  | nil => exact ⟨nofun, hcache⟩
  | cons s sockets ih =>
    rw [List.forall_mem_cons] at hprocs
    have hone : (∀ p ∈ (identifyOne a hints procs cache s).1.program, P p) ∧
        ∀ o ∈ (identifyOne a hints procs cache s).2, ∀ p ∈ o.2.program, P p := by
      rw [identifyOne]
      split
      · next h hh =>
        refine ⟨?_, hcache⟩
        rintro p ⟨⟩
        exact hhints _ (hlookup hh)
      · split
        · next f hf => exact ⟨fun p hp => hcache _ (hlookup hf) p hp, hcache⟩
        · split
          · next f hf =>
            have hnone : ∀ f ∈ (none : Option Found), ∀ p ∈ f.program, P p := nofun
            have howner := owner_program a hnone hprocs.1 f hf
            exact ⟨howner, List.forall_mem_cons.mpr ⟨howner, hcache⟩⟩
          · exact ⟨nofun, hcache⟩
    obtain ⟨hl, hrest⟩ := ih hone.2 hprocs.2
    exact ⟨List.forall_mem_cons.mpr ⟨hone.1, hl⟩, hrest⟩

theorem ask_decideListener (u : Unicode) (groups rules : List Rule) (acc : Plan × List (Int × Str))
    (l : Listener) : ∀ x ∈ (decideListener u groups rules acc l).1.ask, x ∈ acc.1.ask ∨ x = l := by
  obtain ⟨plan, asked⟩ := acc
  unfold decideListener
  dsimp only
  split
  · exact fun x hx => .inl hx
  · split
    · split
      · exact fun x hx => .inl hx
      · exact fun x hx => (List.mem_append.mp hx).imp_right List.mem_singleton.mp
    · exact fun x hx => .inl hx

theorem ask_evaluate (u : Unicode) (conf : Config) (rules : List Rule) (listeners : List Listener) :
    ∀ l ∈ (evaluate u conf rules listeners).ask, l ∈ listeners := by
  have hfold (listeners : List Listener) (acc : Plan × List (Int × Str)) :
      ∀ x ∈ (listeners.foldl (decideListener u (groupRules u conf) rules) acc).1.ask,
        x ∈ acc.1.ask ∨ x ∈ listeners := by
    induction listeners generalizing acc with
    | nil => exact fun x hx => .inl hx
    | cons l listeners ih =>
      intro x hx
      obtain hx | hx := ih _ x hx
      · refine (ask_decideListener u _ rules acc l x hx).imp_right ?_
        rintro rfl
        exact .head _
      · exact .inr (.tail _ hx)
  intro l hl
  obtain hl | hl := hfold listeners _ l hl
  · rw [(foldl_portRule_rest rules .empty).2] at hl
    cases hl
  · exact hl

theorem mem_addAsks : ∀ q ∈ addAsks writable want asks, q ∈ want ∨ q ∈ asks := by
  induction want generalizing asks with
  | nil => exact fun q hq => .inr hq
  | cons q' want ih =>
    intro q hq
    rw [addAsks] at hq
    split at hq
    · exact (ih q hq).imp_left (.tail _)
    · split at hq
      · exact .inr hq
      · obtain hq | hq := ih q hq
        · exact .inl (.tail _ hq)
        · refine (List.mem_append.mp hq).symm.imp_left fun h => ?_
          obtain rfl := List.mem_singleton.mp h
          exact .head _

variable {u : Unicode}

theorem mem_wanted {plan : Plan} {q : Ask} (hq : q ∈ wanted u a seat plan) : ∃ l ∈ plan.ask, q.program ∈ l.program := by
  obtain ⟨l, hl, hq⟩ := List.mem_filterMap.mp hq
  split at hq
  · next p uid hp _ =>
    cases hq
    exact ⟨l, hl, (Option.filter_eq_some_iff.mp hp).1⟩
  · cases hq

theorem mem_updateAsks {q : Ask} (hq : q ∈ updateAsks u a seat writable silent plan rules asks) :
    (∃ l ∈ plan.ask, q.program ∈ l.program) ∨ q ∈ asks := by
  obtain hq | hq := mem_addAsks q hq
  · split at hq
    · cases hq
    · exact .inl (mem_wanted hq)
  · exact .inr (List.mem_of_mem_filter hq)

structure Daemon.Knows (P : Str → Prop) (d : Daemon) : Prop where
  hints : ∀ h ∈ d.hints, P h.2.program
  owners : ∀ o ∈ d.owners, ∀ p ∈ o.2.program, P p
  asks : ∀ q ∈ d.asks, P q.program

theorem Daemon.Knows.start (P : Str → Prop) : Daemon.start.Knows P := by
  constructor <;> exact List.forall_mem_nil _

theorem Daemon.Knows.tick {d : Daemon} (hd : d.Knows P) (u : Unicode)
    (hs : ∀ p, (Event.tick s).shows u p → P p) (file : Option Str) : (d.tick u s file).1.Knows P := by
  rw [Daemon.tick]
  split
  · exact ⟨hd.hints, hd.owners, hd.asks⟩
  · have hfound := identify_program (a := s.accounts) hd.hints hd.owners
      fun sock hsock proc hproc p hp => hs p ⟨sock, hsock, proc, hproc, hp⟩
    refine ⟨fun h hh => hd.hints h (List.mem_of_mem_filter hh),
      fun o ho => hfound.2 o (List.mem_of_mem_filter ho), fun q hq => ?_⟩
    obtain ⟨l, hl, hprogram⟩ | hq := mem_updateAsks hq
    · exact hfound.1 l (ask_evaluate u _ _ _ l hl) q.program hprogram
    · exact hd.asks q hq

theorem Daemon.Knows.notice {d : Daemon} (hd : d.Knows P) (u : Unicode) 
    (hmsg : ∀ p, noticeProgram u msg sender = some p → P p) : (d.notice u now inode msg sender).Knows P := by
  rw [Daemon.notice]
  split
  · next program hprogram =>
    exact ⟨List.forall_mem_cons.mpr ⟨hmsg program hprogram, fun h hh =>
      hd.hints h (List.mem_of_mem_filter hh)⟩, hd.owners, hd.asks⟩
  · exact hd

theorem Daemon.Knows.step {st : Daemon × Option Str} (hd : st.1.Knows P) (u : Unicode)
    {e : Event} (he : ∀ p, e.shows u p → P p) : (daemonStep u st e).1.Knows P := by
  cases e with
  | notice now inode msg sender => exact hd.notice u he
  | tick s => exact hd.tick u he st.2

theorem run_knows_shown (u : Unicode) (events : List Event) (file : Option Str) :
    (events.foldl (daemonStep u) (.start, file)).1.Knows fun p => ∃ e ∈ events, e.shows u p :=
  List.foldlRecOn (motive := fun st : Daemon × Option Str => st.1.Knows _) events _ (.start _)
    fun _ hst e he => hst.step u fun _ hp => ⟨e, he, hp⟩

theorem Config.written_printable (u : Unicode) (c : Config) : (c.written u).Printable u := by
  have hclean (s : Str) : ∀ x ∈ clean u s, u.printable x = true := by
    intro x hx
    obtain ⟨y, -, rfl⟩ := List.mem_map.mp hx
    split
    · next h => exact (Bool.and_eq_true_iff.mp h).1
    · exact u.printable_ascii (by decide)
  refine ⟨fun n hn => ?_, fun r hr => ?_⟩
  · obtain ⟨n', -, rfl⟩ := List.mem_map.mp hn
    exact hclean _
  · obtain ⟨r', -, rfl⟩ := List.mem_map.mp hr
    exact hclean _

/-- Only rules more that block programs of `P`; everything else as the file shows it. -/
def Blocked (u : Unicode) (P : Str → Prop) (before after : Config) : Prop :=
  ∃ added : List Rule, (∀ r ∈ added, r.action = .block ∧ ∃ p ∈ r.program, P p) ∧
    ∃ c ∈ [before, before.written u], after = { c with rules := c.rules ++ added }

theorem Blocked.refl (u : Unicode) (P : Str → Prop) (c : Config) : Blocked u P c c :=
  ⟨[], nofun, c, .head _, by rw [List.append_nil]⟩

theorem Framed.blocked {program : Str} (h : Framed u before after program) (hp : P program) : Blocked u P before after := by
  obtain ⟨added, -, hadded, hafter⟩ := h
  exact ⟨added, fun r hr => ⟨(hadded r hr).1, program, (hadded r hr).2, hp⟩, hafter⟩

theorem Blocked.trans (h₁₂ : Blocked u P c₁ c₂) (h₂₃ : Blocked u P c₂ c₃) : Blocked u P c₁ c₃ := by
  obtain ⟨added₁, hadded₁, c, hc, rfl⟩ := h₁₂
  obtain ⟨added₂, hadded₂, c', hc', rfl⟩ := h₂₃
  simp only [List.mem_cons, List.not_mem_nil, or_false] at hc'
  obtain rfl | rfl := hc'
  · exact ⟨added₁ ++ added₂, List.forall_mem_append.mpr ⟨hadded₁, hadded₂⟩, c, hc,
      by rw [List.append_assoc]⟩
  · refine ⟨added₁.map (Rule.written u) ++ added₂,
      List.forall_mem_append.mpr ⟨List.forall_mem_map.mpr hadded₁, hadded₂⟩, c₁.written u,
      .tail _ (.head _), ?_⟩
    have hwritten : c.written u = c₁.written u := by
      simp only [List.mem_cons, List.not_mem_nil, or_false] at hc
      obtain rfl | rfl := hc
      · rfl
      · exact (c₁.written_printable u).written
    rw [← hwritten]
    simp [Config.written]

theorem answers_blocked (hP : ∀ p, P p → Plain p ∧ p ≠ str "*") (answer : Ask → Option Answer) (token : Ask → Token)
    (hasks : ∀ q ∈ asks, P q.program) (file : Option Str) :
    Blocked u P (readConfig u file) (readConfig u (answers u answer token asks file).1) := by
  induction asks generalizing file with
  | nil => exact .refl _ _ _
  | cons q asks ih =>
    rw [List.forall_mem_cons] at hasks
    rw [answers]
    split
    · next text _ =>
      split
      · exact ih hasks.2 file
      · next hne =>
        have hplain := hP q.program hasks.1
        have hharmless := (harmless_unbroken_iff u
          (blockRule u (token q) q.program (answerName u text)).name fun c hc => (hplain.1 c hc).2).mpr
            hplain
        have hframed := (cancel_framed (token q) hne hharmless file).blocked (P := P) hasks.1
        split
        · next file' hcancel =>
          rw [hcancel] at hframed
          exact hframed.trans (ih hasks.2 file')
        · exact .refl _ _ _
    · exact ih hasks.2 file

theorem reloaded_blocked (u : Unicode) (P : Str → Prop) (seen : Bool) (file : Option Str) :
    Blocked u P (readConfig u file) (readConfig u (reloaded u seen file)) := by
  rw [reloaded]
  split
  · next hgone =>
    obtain rfl : file = none := by simp_all
    rw [writeConfig]
    split
    · exact .refl _ _ _
    · rw [readConfig_some, parseConfig_written u (readConfig_carried u none)]
      exact ⟨[], List.forall_mem_nil _, _, .tail _ (.head _), by rw [List.append_nil]⟩
  · exact .refl _ _ _

theorem daemonStep_blocked (hP : ∀ p, P p → Plain p ∧ p ≠ str "*")
    {st : Daemon × Option Str} (hst : st.1.Knows P) (e : Event) :
    Blocked u P (readConfig u st.2) (readConfig u (daemonStep u st e).2) := by
  cases e with
  | notice now inode msg sender => exact .refl _ _ _
  | tick s =>
    have hanswers := (reloaded_blocked u P st.1.seen st.2).trans
      (answers_blocked hP s.answer s.token hst.asks _)
    rw [daemonStep, Daemon.tick]
    split
    · next h =>
      rw [h] at hanswers
      exact hanswers
    · next h =>
      rw [h] at hanswers
      exact hanswers

theorem run_blocked {events : List Event}
    (hplain : ∀ e ∈ events, ∀ p, e.shows u p → Plain p ∧ p ≠ str "*") (file : Option Str) :
    Blocked u (fun p => ∃ e ∈ events, e.shows u p) (readConfig u file)
      (readConfig u (events.foldl (daemonStep u) (.start, file)).2) := by
  set P : Str → Prop := fun p => ∃ e ∈ events, e.shows u p
  have hP (p : Str) : P p → Plain p ∧ p ≠ str "*" := fun ⟨e, he, hp⟩ => hplain e he p hp
  suffices h : Daemon.Knows P (events.foldl (daemonStep u) (.start, file)).1 ∧
      Blocked u P (readConfig u file) (readConfig u (events.foldl (daemonStep u) (.start, file)).2) from
    h.2
  refine List.foldlRecOn (motive := fun st : Daemon × Option Str => st.1.Knows P ∧
    Blocked u P (readConfig u file) (readConfig u st.2)) events _
    ⟨.start P, .refl _ _ _⟩ fun st hst e he => ?_
  exact ⟨hst.1.step u fun p hp => ⟨e, he, hp⟩, hst.2.trans (daemonStep_blocked hP hst.1 e)⟩

def gameNotice : Event := .notice 0 7 (str "SGFW1\nC:\\game.exe") ⟨str "/usr/bin/wine64-preloader", [], 1000⟩

theorem gameNotice_shown : gameNotice.shows .ascii (str "C:\\game.exe") := by
  change noticeProgram .ascii _ _ = _
  decide

def gameScene : Scene where
  now := 1
  sockets := [⟨.udp, 27015, 7, 1000, by decide⟩]
  processes _ := []
  accounts := ⟨-2, fun _ => false⟩
  registry := []
  settings _ _ := none
  inUse := []
  seat := some 1000
  writable _ := true
  answer _ := none
  token _ := zeroToken

def gameEvents : List Event :=
  [gameNotice, .tick gameScene, .tick { gameScene with answer := fun _ => some (.cancel none) }]

theorem gameNotice_blocked :
    Blocked .ascii (fun p => ∃ e ∈ gameEvents, e.shows .ascii p) (readConfig .ascii none)
      (readConfig .ascii (gameEvents.foldl (daemonStep .ascii) (.start, none)).2) ∧
    (readConfig .ascii (gameEvents.foldl (daemonStep .ascii) (.start, none)).2).rules.map Rule.program =
      [some (str "C:\\game.exe")] := by
  refine ⟨run_blocked (fun e he p hp => ?_) none, by decide +kernel⟩
  simp only [gameEvents, List.mem_cons, List.not_mem_nil, or_false] at he
  obtain rfl | rfl | rfl := he
  · obtain rfl : p = str "C:\\game.exe" := Option.some.inj (hp.symm.trans gameNotice_shown)
    exact ⟨by decide, by decide⟩
  · obtain ⟨sock, -, proc, hproc, -⟩ := hp
    exact absurd hproc List.not_mem_nil
  · obtain ⟨sock, -, proc, hproc, -⟩ := hp
    exact absurd hproc List.not_mem_nil

end StainedGlass.Firewall
