import StainedGlass.Greeter.LockdLaws
import StainedGlass.Lib.Segments

namespace StainedGlass.Greeter

open Lib
open Broker (Accounts Connection)

def Event.locks : Event → Bool
  | .event ev => ev = .ofString "locked" ∨ ev = .ofString "OK locked"
  | _ => false

def Event.unlocks : Event → Bool
  | .event ev => ev = .ofString "unlocked" ∨ ev = .ofString "OK unlocked"
  | .told text => text = ascii "SUCCESS"
  | _ => false

def sasEvent : Event := .event (.ofString "sas")

def LockedSince (trace : List Event) : Prop :=
  Since (fun _ e => e.locks = true) (fun e => e.unlocks = false) trace

def SecuredSince (trace : List Event) : Prop :=
  Since (fun pre e => e = sasEvent ∧ (view pre).ui = none)
    (fun e => e.locks = false ∧ e.unlocks = false) trace

structure Asks (trace : List Event) (kind : Option Bool) : Prop where
  lock : kind = some false ↔ LockedSince trace
  security : kind = some true ↔ SecuredSince trace

section Asks

variable {trace events : List Event} {kind : Option Bool} {e : Event}

theorem asks_nil : Asks [] none :=
  ⟨by simp [LockedSince], by simp [SecuredSince]⟩

theorem unlocks_eq_false_of_locks (h : e.locks = true) : e.unlocks = false := by
  cases e with
  | event ev =>
    simp only [Event.locks, decide_eq_true_eq] at h
    obtain rfl | rfl := h <;> decide
  | _ => cases h

theorem asks_locks (h : e.locks = true) : Asks (trace ++ [e]) (some false) := by
  refine ⟨by simp [LockedSince, since_concat, h], ?_⟩
  have hne : e ≠ sasEvent := by
    rintro rfl
    exact absurd h (by decide)
  simp [SecuredSince, since_concat, h, hne]

theorem asks_unlocks (h : e.unlocks = true) : Asks (trace ++ [e]) none := by
  have hlocks : e.locks = false := by
    by_contra hl
    rw [unlocks_eq_false_of_locks (Bool.eq_true_of_not_eq_false hl)] at h
    cases h
  have hne : e ≠ sasEvent := by
    rintro rfl
    exact absurd h (by decide)
  exact ⟨by simp [LockedSince, since_concat, h, hlocks], by simp [SecuredSince, since_concat, h, hne]⟩

def Event.neutral (e : Event) : Prop := e.locks = false ∧ e.unlocks = false ∧ e ≠ sasEvent

theorem Asks.neutral (h : Asks trace kind) (he : e.neutral) : Asks (trace ++ [e]) kind := by
  obtain ⟨hlocks, hunlocks, hne⟩ := he
  refine ⟨h.lock.trans ?_, h.security.trans ?_⟩
  · simp [LockedSince, since_concat, hlocks, hunlocks]
  · simp [SecuredSince, since_concat, hlocks, hunlocks, hne]

theorem Asks.neutrals (h : Asks trace kind) (he : ∀ e ∈ events, e.neutral) :
    Asks (trace ++ events) kind := by
  induction events generalizing trace with
  | nil => rwa [List.append_nil]
  | cons e events ih =>
    rw [List.forall_mem_cons] at he
    rw [← List.singleton_append, ← List.append_assoc]
    exact ih (h.neutral he.1) he.2

theorem Asks.sas (h : Asks trace kind) (hview : (view trace).ui.map Prod.fst = kind) :
    Asks (trace ++ [sasEvent]) (if kind = none then some true else kind) := by
  have hlocks : sasEvent.locks = false := by decide
  have hunlocks : sasEvent.unlocks = false := by decide
  have hidle : (view trace).ui = none ↔ kind = none := by rw [← hview, Option.map_eq_none_iff]
  split
  · next hkind =>
    have hlock := h.lock
    refine ⟨?_, by simp [SecuredSince, since_concat, hidle, hkind]⟩
    rw [hkind] at hlock
    simpa [LockedSince, since_concat, hlocks, hunlocks] using hlock
  · next hkind =>
    refine ⟨h.lock.trans ?_, h.security.trans ?_⟩
    · simp [LockedSince, since_concat, hlocks, hunlocks]
    · simp [SecuredSince, since_concat, hlocks, hunlocks, hidle, hkind]

end Asks

theorem neutral_command (cmd : CString) : (Event.command cmd).neutral :=
  ⟨rfl, rfl, Event.noConfusion⟩

theorem neutral_checked (user pass : CString) (accepted : Bool) : (Event.checked user pass accepted).neutral :=
  ⟨rfl, rfl, Event.noConfusion⟩

theorem neutral_stopped : Event.stopped.neutral := ⟨rfl, rfl, Event.noConfusion⟩

theorem neutral_line (line : CString) : (Event.line line).neutral := ⟨rfl, rfl, Event.noConfusion⟩

theorem neutral_started (sas : Bool) (output : Bytes) : (Event.started sas output).neutral :=
  ⟨rfl, rfl, Event.noConfusion⟩

theorem neutral_told (h : text ≠ ascii "SUCCESS") : (Event.told text).neutral :=
  ⟨rfl, by simp [Event.unlocks, h], Event.noConfusion⟩

theorem neutral_prompt (user : CString) : (prompt user).neutral := by
  apply neutral_told
  intro h
  have hprefix : ascii "PROMPT_SECRET Password for " <+: ascii "SUCCESS" :=
    ⟨user.bytes ++ ascii ":", by rw [← h, List.append_assoc]⟩
  exact absurd hprefix (by decide)

theorem neutral_controlCommand {e : Event} (h : e ∈ (controlCommand cmd c).1) : e.neutral :=
  mem_controlCommand h ▸ neutral_command cmd

theorem Asks.uiLine {trace : List Event} {sas : Bool} (h : Asks trace (some sas)) (user line : CString) (p : Poll) :
    Asks (trace ++ (Greeter.uiLine sas user line p).2)
      (if (Greeter.uiLine sas user line p).1 then none else some sas) := by
  cases sas with
  | true =>
    rw [Greeter.uiLine, if_pos rfl]
    cases sasCommand line with
    | none => exact h.neutrals (by simp)
    | some cmd => exact h.neutrals fun e => neutral_controlCommand
  | false =>
    rw [Greeter.uiLine, if_neg (by simp), lockLine]
    by_cases hhello : ascii "HELLO" <+: line.bytes
    · rw [if_pos hhello]
      exact h.neutral (neutral_prompt user)
    rw [if_neg hhello]
    by_cases hreply : ascii "REPLY " <+: line.bytes
    · rw [if_pos hreply]
      simp only
      have hchecked (ok : Bool) := h.neutral (neutral_checked user (.ofBuffer (line.bytes.drop 6)) ok)
      by_cases hcheck : checkPassword user (.ofBuffer (line.bytes.drop 6)) p.monitor = true
      · rw [if_pos hcheck]
        have hsent : Asks ((trace ++ [.checked user (.ofBuffer (line.bytes.drop 6)) true]) ++
            (controlCommand unlockCommand p.control).1) (some false) :=
          (hchecked true).neutrals fun e => neutral_controlCommand
        cases (controlCommand unlockCommand p.control).2.filter fun r => ascii "OK unlocked" <+: r.bytes with
        | none =>
          have htold : (Event.told (ascii "FAILURE The session could not be unlocked.")).neutral :=
            neutral_told (by decide)
          simpa using hsent.neutral htold
        | some r =>
          have htold : Asks (((trace ++ [.checked user (.ofBuffer (line.bytes.drop 6)) true]) ++
              (controlCommand unlockCommand p.control).1) ++ [.told (ascii "SUCCESS")]) none :=
            asks_unlocks (by decide)
          simpa using htold
      · rw [if_neg hcheck]
        have htold : (Event.told (ascii "FAILURE The password is incorrect.")).neutral :=
          neutral_told (by decide)
        simpa using ((hchecked false).neutral htold).neutral (neutral_prompt user)
    · rw [if_neg hreply]
      exact h.neutrals (by simp)

structure Shows (trace : List Event) (s : Session) : Prop where
  asks : Asks trace (s.ui.map Ui.sas)
  runs : (view trace).ui.map Prod.fst = s.ui.map Ui.sas

section Shows

variable {trace : List Event} {s : Session} {db : Accounts}

theorem view_concat (trace : List Event) (e : Event) : view (trace ++ [e]) = (view trace).after e := by
  rw [view_append, List.foldl_cons, List.foldl_nil]

theorem Asks.uiStop (h : Asks trace kind) (s : Session) : Asks (trace ++ s.uiStop.2) kind := by
  rw [Session.uiStop]
  cases s.ui with
  | none => rwa [List.append_nil]
  | some ui => exact h.neutral neutral_stopped

theorem ui_uiStop (s : Session) : s.uiStop.1.ui = none := by
  rw [Session.uiStop]
  cases h : s.ui with
  | none => exact h
  | some ui => rfl

theorem runs_uiStop (h : (view trace).ui.map Prod.fst = s.ui.map Ui.sas) :
    (view (trace ++ s.uiStop.2)).ui = none := by
  rw [Session.uiStop]
  cases hui : s.ui with
  | none =>
    rw [hui] at h
    rwa [List.append_nil, ← Option.map_eq_none_iff (f := Prod.fst)]
  | some ui =>
    rw [view_concat]
    rfl

theorem Shows.uiStart (h : Asks trace (some sas)) (s : Session) (output : Bytes) :
    Shows (trace ++ (s.uiStart sas (some output)).2) (s.uiStart sas (some output)).1 := by
  refine ⟨h.neutral (neutral_started sas output), ?_⟩
  rw [Session.uiStart, view_concat]
  rfl

theorem Shows.uiStop (h : Asks trace none) (hruns : (view trace).ui.map Prod.fst = s.ui.map Ui.sas) :
    Shows (trace ++ s.uiStop.2) s.uiStop.1 := by
  refine ⟨?_, ?_⟩
  · rw [ui_uiStop]
    exact h.uiStop s
  · rw [ui_uiStop, runs_uiStop hruns]
    rfl

theorem Shows.event (h : Shows trace s)
    (hlock : ¬ ((ev = .ofString "locked" ∨ ev = .ofString "OK locked") ∧ s.ui.all (·.sas) = true))
    (hsas : ¬ (ev = .ofString "sas" ∧ s.ui.isNone = true))
    (hunlock : ¬ (ev = .ofString "unlocked" ∨ ev = .ofString "OK unlocked")) :
    Asks (trace ++ [.event ev]) (s.ui.map Ui.sas) := by
  by_cases hev : ev = .ofString "locked" ∨ ev = .ofString "OK locked"
  · have hrunning : s.ui.map Ui.sas = some false := by
      cases hui : s.ui with
      | none => simp [hui, hev] at hlock
      | some ui => simpa [hui, hev] using hlock
    rw [hrunning]
    exact asks_locks (by simp [Event.locks, hev])
  by_cases hev' : ev = .ofString "sas"
  · have hrunning : s.ui.map Ui.sas ≠ none := by
      rw [ne_eq, Option.map_eq_none_iff]
      intro hui
      exact hsas ⟨hev', by rw [hui]; rfl⟩
    have hasks := h.asks.sas h.runs
    rwa [if_neg hrunning, sasEvent, ← hev'] at hasks
  · refine h.asks.neutral ⟨?_, ?_, ?_⟩
    · simp [Event.locks, hev]
    · simp [Event.unlocks, hunlock]
    · simp [sasEvent, hev']

theorem Shows.onEvent (h : Shows trace s)
    (hs : s.onEvent (some output) = some (s', events)) : Shows (trace ++ events) s' := by
  rw [Session.onEvent] at hs
  cases hread : readLine 63 s.watch with
  | none =>
    rw [hread] at hs
    cases hs
  | some r =>
    obtain ⟨b, watch⟩ := r
    rw [hread] at hs
    simp only at hs
    have hruns : (view (trace ++ [.event (.ofBuffer b)])).ui.map Prod.fst = s.ui.map Ui.sas := by
      rw [view_concat, View.after_event, h.runs]
    split at hs
    · next hlock =>
      cases hs
      have hasks : Asks (trace ++ [.event (.ofBuffer b)]) (some false) :=
        asks_locks (by simp [Event.locks, hlock.1])
      simpa using Shows.uiStart (hasks.uiStop { s with watch }) _ output
    next hlock =>
    split at hs
    · next hsas =>
      cases hs
      have hidle : s.ui.map Ui.sas = none := by rw [Option.isNone_iff_eq_none.mp hsas.2]; rfl
      have hasks := h.asks.sas h.runs
      rw [if_pos hidle, sasEvent, ← hsas.1] at hasks
      simpa using Shows.uiStart hasks { s with watch } output
    next hsas =>
    split at hs
    · next hunlock =>
      cases hs
      have hasks : Asks (trace ++ [.event (.ofBuffer b)]) none :=
        asks_unlocks (by simp [Event.unlocks, hunlock])
      have hstop := Shows.uiStop (s := { s with watch }) hasks hruns
      simpa using hstop
    · next hunlock =>
      cases hs
      exact ⟨h.event hlock hsas hunlock, hruns⟩

theorem Shows.onUi (h : Shows trace s) {p : Poll} (hrestart : p.restart = some output) :
    Shows (trace ++ (s.onUi p).2) (s.onUi p).1 := by
  rw [Session.onUi]
  cases hui : s.ui with
  | none => simpa using h
  | some ui =>
    have hasks : Asks trace (some ui.sas) := by simpa [hui] using h.asks
    simp only
    cases hread : readLine (maxField + 15) ui.output with
    | none =>
      rw [hrestart]
      simpa using Shows.uiStart (hasks.uiStop s) s.uiStop.1 output
    | some r =>
      obtain ⟨b, rest⟩ := r
      simp only
      have hline := (hasks.neutral (neutral_line (.ofBuffer b))).uiLine s.user (.ofBuffer b) p
      have hview : view ((trace ++ [.line (.ofBuffer b)]) ++ (uiLine ui.sas s.user (.ofBuffer b) p).2) = view trace := by
        rw [view_append, foldl_after_silent (fun _ => uiLine_silent), view_concat, View.after_line]
      have hruns : (view trace).ui.map Prod.fst = some ui.sas := by rw [h.runs, hui]; rfl
      by_cases hunlocked : (uiLine ui.sas s.user (.ofBuffer b) p).1 = true
      · rw [if_pos hunlocked] at hline ⊢
        have hstop := Shows.uiStop (s := { s with ui := some { ui with output := rest } }) hline (hview ▸ hruns)
        simpa using hstop
      · rw [if_neg hunlocked] at hline ⊢
        have hsplit : trace ++ (.line (.ofBuffer b) :: (uiLine ui.sas s.user (.ofBuffer b) p).2 ++ []) =
            (trace ++ [.line (.ofBuffer b)]) ++ (uiLine ui.sas s.user (.ofBuffer b) p).2 := by simp
        rw [hsplit]
        exact ⟨hline, by rw [hview]; exact hruns⟩

def Poll.Starts (p : Poll) : Prop := p.start.isSome ∧ p.restart.isSome

theorem Shows.poll (h : Shows trace s) {p : Poll} (hstarts : p.Starts)
    (hs : s.poll p = (some s', events)) : Shows (trace ++ events) s' := by
  obtain ⟨output, hstart⟩ := Option.isSome_iff_exists.mp hstarts.1
  obtain ⟨output', hrestart⟩ := Option.isSome_iff_exists.mp hstarts.2
  have hturn {t : Session} {events' : List Event} (ht : Shows (trace ++ events') t)
      (hs : (if p.ui = true ∧ s.ui.isSome = true then (some (t.onUi p).1, events' ++ (t.onUi p).2)
        else (some t, events')) = (some s', events)) : Shows (trace ++ events) s' := by
    split at hs
    · cases hs
      rw [← List.append_assoc]
      exact ht.onUi hrestart
    · cases hs
      exact ht
  rw [Session.poll, hstart] at hs
  cases hevent : p.event with
  | false =>
    simp only [hevent, Bool.false_eq_true, if_false] at hs
    exact hturn (by rwa [List.append_nil]) hs
  | true =>
    simp only [hevent, if_true] at hs
    cases hnext : s.onEvent (some output) with
    | none =>
      rw [hnext] at hs
      cases hs
    | some r =>
      obtain ⟨t, events'⟩ := r
      rw [hnext] at hs
      exact hturn (h.onEvent hnext) hs

theorem run_none_polls (db : Accounts) (ps : List Poll) : run db none (ps.map .poll) = (none, []) := by
  induction ps with
  | nil => rfl
  | cons p ps ih =>
    rw [List.map_cons, run, step]
    simp only [ih, List.append_nil]
    rintro uid watch ⟨⟩

theorem Shows.run (h : Shows trace s) {ps : List Poll} (hstarts : ∀ p ∈ ps, p.Starts)
    (hrun : Greeter.run db (some s) (ps.map .poll) = (some s', events)) : Shows (trace ++ events) s' := by
  induction ps generalizing trace s events with
  | nil =>
    cases hrun
    rwa [List.append_nil]
  | cons p ps ih =>
    rw [List.forall_mem_cons] at hstarts
    rw [List.map_cons, Greeter.run, step] at hrun
    cases hpoll : s.poll p with
    | mk next events' =>
      rw [hpoll] at hrun
      cases next with
      | none =>
        simp only [run_none_polls] at hrun
        cases hrun
      | some t =>
        cases hlast : Greeter.run db (some t) (ps.map .poll) with
        | mk last events'' =>
          simp only [hlast] at hrun
          cases hrun
          rw [← List.append_assoc]
          exact ih (h.poll hstarts.1 hpoll) hstarts.2 hlast

end Shows

/-- No line is left in the output. -/
def Ui.Ended (ui : Ui) : Prop := 10 ∉ ui.output ∧ (ui.output.filter (· ≠ 13)).length < maxField + 15

theorem readLine_ended (hnewline : 10 ∉ bytes) (hlen : (bytes.filter (· ≠ 13)).length < n) : readLine n bytes = none := by
  induction bytes generalizing n with
  | nil =>
    cases n with
    | zero => cases hlen
    | succ n => rfl
  | cons c bytes ih =>
    rw [List.mem_cons, not_or] at hnewline
    cases n with
    | zero => cases hlen
    | succ n =>
      rw [readLine, if_neg (Ne.symm hnewline.1)]
      by_cases hc : c = 13
      · rw [if_pos hc, ih hnewline.2 (by simpa [hc] using hlen)]
      · rw [if_neg hc, ih hnewline.2 (by simpa [hc] using hlen)]
        rfl

/-- In a turn that reads a UI whose output has ended, it is stopped and one of its kind started. -/
def Session.Replaces (s : Session) (p : Poll) : Prop :=
  ∀ t events ui, (if p.event then s.onEvent p.start else some (s, [])) = some (t, events) →
    p.ui = true → s.ui.isSome → t.ui = some ui → ui.Ended →
    ∃ output, s.poll p =
      (some { t with ui := some ⟨ui.sas, output⟩ }, events ++ [.stopped, .started ui.sas output])

theorem Poll.Starts.replaces {p : Poll} (h : p.Starts) (s : Session) : s.Replaces p := by
  intro t events ui hevent hread hsome hui hended
  obtain ⟨output, houtput⟩ := Option.isSome_iff_exists.mp h.2
  refine ⟨output, ?_⟩
  rw [Session.poll, hevent]
  simp [hread, hsome, Session.onUi, hui, readLine_ended hended.1 hended.2, houtput, Session.uiStop, Session.uiStart]

/-- While one compositor stays and the UIs come up, the UI that runs is told by the locks, unlocks and
`sas` events so far, and one that dies is replaced by one of its kind. -/
theorem run_screen (db : Accounts) {s s' : Session} (hidle : s.ui = none) {ps : List Poll}
    (hstarts : ∀ p ∈ ps, p.Starts) {trace : List Event}
    (hrun : run db (some s) (ps.map .poll) = (some s', trace)) :
    (s'.ui.map Ui.sas = some false ↔ LockedSince trace) ∧
    (s'.ui.map Ui.sas = some true ↔ SecuredSince trace) ∧
    (s'.ui = none ↔ ¬ LockedSince trace ∧ ¬ SecuredSince trace) ∧
    ∀ before p after t, ps = before ++ p :: after → (run db (some s) (before.map .poll)).1 = some t → t.Replaces p := by
  have hfresh : Shows [] s := ⟨by rw [hidle]; exact asks_nil, by rw [hidle]; rfl⟩
  obtain ⟨hasks, -⟩ := hfresh.run hstarts hrun
  rw [List.nil_append] at hasks
  refine ⟨hasks.lock, hasks.security, ?_, ?_⟩
  · rw [← hasks.lock, ← hasks.security]
    cases s'.ui with
    | none => simp
    | some ui => cases hsas : ui.sas <;> simp [hsas]
  · rintro before p after t rfl -
    exact (hstarts p (by simp)).replaces t

def shortTurn (event ui : Bool) : Poll := ⟨event, ui, some [], some [], none, .refused⟩

theorem shortTurn_starts (event ui : Bool) : (shortTurn event ui).Starts := ⟨rfl, rfl⟩

theorem lockedFromSecurity_screen : ∃ trace,
    run accounts (some ⟨.ofString "user", ascii "sas\nlocked\n", none⟩)
        ([shortTurn true false, shortTurn true true].map .poll) =
      (some ⟨.ofString "user", [], some ⟨false, []⟩⟩, trace) ∧ LockedSince trace := by
  have hstarts : ∀ p ∈ [shortTurn true false, shortTurn true true], p.Starts := by
    simp [shortTurn_starts]
  have hrun : run accounts (some ⟨.ofString "user", ascii "sas\nlocked\n", none⟩)
      ([shortTurn true false, shortTurn true true].map .poll) =
        (some ⟨.ofString "user", [], some ⟨false, []⟩⟩,
          [sasEvent, .started true [], .event (.ofString "locked"), .stopped, .started false [],
            .stopped, .started false []]) := by decide
  exact ⟨_, hrun, (run_screen accounts rfl hstarts hrun).1.mp rfl⟩

end StainedGlass.Greeter
