import StainedGlass.Greeter.Lockd

namespace StainedGlass.Greeter

open Lib
open Broker (Accounts Passwd Connection)

theorem readLine_eq_some {n : Nat} {b line rest : Bytes} (h : readLine n b = some (line, rest)) :
    ∃ raw, 10 ∉ raw ∧ line = raw.filter (· ≠ 13) ∧
      (b = raw ++ 10 :: rest ∧ line.length < n ∨ b = raw ++ rest ∧ line.length = n) := by
  induction b generalizing n line with
  | nil =>
    cases n with
    | zero =>
      cases h
      exact ⟨[], List.not_mem_nil, rfl, .inr ⟨rfl, rfl⟩⟩
    | succ n => cases h
  | cons c b ih =>
    cases n with
    | zero =>
      cases h
      exact ⟨[], List.not_mem_nil, rfl, .inr ⟨rfl, rfl⟩⟩
    | succ n =>
      rw [readLine] at h
      split at h
      · next hc =>
        cases h
        exact ⟨[], List.not_mem_nil, rfl, .inl ⟨by rw [hc]; rfl, Nat.succ_pos n⟩⟩
      · next hc =>
        split at h
        · next hcr =>
          obtain ⟨raw, hraw, hline, hb⟩ := ih h
          refine ⟨c :: raw, by simpa [Ne.symm hc] using hraw, by rw [hline]; simp [hcr], ?_⟩
          obtain ⟨rfl, hlen⟩ | ⟨rfl, hlen⟩ := hb
          · exact .inl ⟨rfl, hlen⟩
          · exact .inr ⟨rfl, hlen⟩
        · next hcr =>
          obtain ⟨⟨line', rest'⟩, hr, heq⟩ := Option.map_eq_some_iff.mp h
          cases heq
          obtain ⟨raw, hraw, hline, hb⟩ := ih hr
          refine ⟨c :: raw, by simpa [Ne.symm hc] using hraw, by rw [hline]; simp [hcr], ?_⟩
          obtain ⟨rfl, hlen⟩ | ⟨rfl, hlen⟩ := hb
          · exact .inl ⟨rfl, Nat.succ_lt_succ hlen⟩
          · exact .inr ⟨rfl, congrArg Nat.succ hlen⟩

theorem readLine_append {text : Bytes} (hlf : 10 ∉ text) (hcr : 13 ∉ text)
    (rest : Bytes) (h : text.length = n) : readLine n (text ++ rest) = some (text, rest) := by
  induction text generalizing n with
  | nil =>
    cases h
    rw [List.length_nil, readLine, List.nil_append]
  | cons c text ih =>
    cases h
    rw [List.mem_cons, not_or] at hlf hcr
    rw [List.cons_append, List.length_cons, readLine, if_neg (Ne.symm hlf.1),
      if_neg (Ne.symm hcr.1), ih hlf.2 hcr.2 rfl]
    rfl

def AtLine (before : Bytes) : Prop := before = [] ∨ before.getLast? = some 10

structure LineOf (output text : Bytes) (before cr after : Bytes) : Prop where
  output_eq : output = before ++ (text ++ cr ++ 10 :: after)
  atLine : AtLine before
  cr_eq : cr = [] ∨ cr = [13]

structure Clean (output : Bytes) : Prop where
  nul_free : 0 ∉ output
  short : output = before ++ (raw ++ 10 :: after) → AtLine before → 10 ∉ raw →
    ∃ text cr, raw = text ++ cr ∧ (cr = [] ∨ cr = [13]) ∧ 13 ∉ text ∧ text.length ≤ maxField + 15

def Reached (output rest : Bytes) : Prop :=
  ∃ before, output = before ++ rest ∧
    (AtLine before ∨ (∃ cr after, rest = cr ++ 10 :: after ∧ (cr = [] ∨ cr = [13])) ∨ 10 ∉ rest)

theorem Reached.start (output : Bytes) : Reached output output := ⟨[], rfl, .inl (.inl rfl)⟩

theorem atLine_snoc (before raw : Bytes) : AtLine (before ++ (raw ++ [10])) := by
  simp [AtLine, List.getLast?_append]

theorem filter_append_cr {text cr : Bytes} (htext : 13 ∉ text) (hcr : cr = [] ∨ cr = [13]) :
    (text ++ cr).filter (· ≠ 13) = text := by
  have hself : text.filter (· ≠ 13) = text := by
    rw [List.filter_eq_self]
    intro c hc
    simpa using ne_of_mem_of_not_mem hc htext
  obtain rfl | rfl := hcr
  · rw [List.append_nil, hself]
  · rw [List.filter_append, hself]
    exact List.append_nil text

theorem eq_cr_of_full {text cr raw raw' : Bytes} (h : raw ++ raw' = text ++ cr)
    (hcr : cr = [] ∨ cr = [13]) (htext : 13 ∉ text)
    (hlen : text.length ≤ (raw.filter (· ≠ 13)).length) : raw' = [] ∨ raw' = [13] := by
  have hfilter := congrArg (fun l => (l.filter (· ≠ (13 : UInt8))).length) h
  have hcount := congrArg (List.count (13 : UInt8)) h
  simp only [filter_append_cr htext hcr, List.filter_append, List.length_append] at hfilter
  rw [List.count_append, List.count_append, List.count_eq_zero.mpr htext] at hcount
  have hnone : raw'.filter (· ≠ 13) = [] := List.eq_nil_of_length_eq_zero (by omega)
  have hall : ∀ c ∈ raw', c = 13 := by simpa using hnone
  have hone : raw'.length ≤ 1 := by
    have hself : raw'.count 13 = raw'.length := List.count_eq_length.mpr fun c hc => (hall c hc).symm
    obtain rfl | rfl := hcr
    · rw [List.count_nil] at hcount
      omega
    · rw [List.count_singleton_self] at hcount
      omega
  match raw', hone, hall with
  | [], _, _ => exact .inl rfl
  | [c], _, hall => exact .inr (by rw [hall c (.head _)])

theorem prefix_of_prefix_append {c : UInt8} {raw cr after : Bytes} (h : raw <+: cr ++ c :: after)
    (hraw : c ∉ raw) : raw <+: cr := by
  induction raw generalizing cr with
  | nil => exact List.nil_prefix
  | cons x raw ih =>
    rw [List.mem_cons, not_or] at hraw
    cases cr with
    | nil => exact absurd (List.cons_prefix_cons.mp h).1.symm hraw.1
    | cons y cr =>
      obtain ⟨hxy, h⟩ := List.cons_prefix_cons.mp h
      exact List.cons_prefix_cons.mpr ⟨hxy, ih h hraw.2⟩

theorem Reached.readLine {output rest line rest' : Bytes} (hclean : Clean output)
    (h : Reached output rest) (hread : readLine (maxField + 15) rest = some (line, rest')) :
    Reached output rest' ∧ 0 ∉ line ∧
      (line = [] ∨ line.length = maxField + 15 ∨ ∃ before cr, LineOf output line before cr rest') := by
  obtain ⟨before, houtput, hplace⟩ := h
  obtain ⟨raw, hraw, hline, ⟨hrest, hlen⟩ | ⟨hrest, hlen⟩⟩ := readLine_eq_some hread
  · have hnul : 0 ∉ line := by
      rw [hline, List.mem_filter]
      intro hmem
      exact hclean.nul_free (by simp [houtput, hrest, hmem.1])
    have hat : Reached output rest' := by
      refine ⟨before ++ (raw ++ [10]), by simp [houtput, hrest], .inl (atLine_snoc before raw)⟩
    refine ⟨hat, hnul, ?_⟩
    obtain hbefore | ⟨cr, after, hcr, hcr'⟩ | hnone := hplace
    · rw [hrest] at houtput
      obtain ⟨text, cr, htext, hcr, hfree, -⟩ := hclean.short houtput hbefore hraw
      rw [htext, filter_append_cr hfree hcr] at hline
      exact .inr (.inr ⟨before, cr, by rw [houtput, htext, hline], hbefore, hcr⟩)
    · have hcrlf : 10 ∉ cr := by obtain rfl | rfl := hcr' <;> decide
      obtain rfl : raw = cr := by
        have := cut_append hraw rest'
        rw [← hrest, hcr, cut_append hcrlf after] at this
        exact (congrArg Prod.fst (Option.some.inj this)).symm
      exact .inl (by rw [hline]; obtain rfl | rfl := hcr' <;> rfl)
    · exact absurd (by simp [hrest]) hnone
  · have hnul : 0 ∉ line := by
      rw [hline, List.mem_filter]
      intro hmem
      exact hclean.nul_free (by simp [houtput, hrest, hmem.1])
    refine ⟨⟨before ++ raw, by simp [houtput, hrest], .inr ?_⟩, hnul, .inr (.inl hlen)⟩
    obtain hbefore | ⟨cr, after, hcr, hcr'⟩ | hnone := hplace
    · by_cases hlf : 10 ∈ rest'
      · obtain ⟨raw', after, hafter, hraw'⟩ := List.eq_append_cons_of_mem hlf
        have hsplit : output = before ++ ((raw ++ raw') ++ 10 :: after) := by
          simp [houtput, hrest, hafter]
        obtain ⟨text, cr, htext, hcr, hfree, hshort⟩ :=
          hclean.short hsplit hbefore (by simp [hraw, hraw'])
        exact .inl ⟨raw', after, hafter, eq_cr_of_full htext hcr hfree (by rw [← hline]; omega)⟩
      · exact .inr hlf
    · have hprefix : raw <+: cr ++ 10 :: after := ⟨rest', by rw [← hrest, hcr]⟩
      have hshort := (prefix_of_prefix_append hprefix hraw).length_le
      have hle : line.length ≤ raw.length := by rw [hline]; exact List.length_filter_le _ _
      have hcrlen : cr.length ≤ 1 := by obtain rfl | rfl := hcr' <;> decide
      rw [maxField] at hlen
      omega
    · exact .inr fun hlf => hnone (by simp [hrest, hlf])

structure View where
  session : Option UInt32
  ui : Option (Bool × Bytes)

def View.after (v : View) : Event → View
  | .watching uid => { v with session := some uid }
  | .gone => { v with session := none }
  | .started sas output => { v with ui := some (sas, output) }
  | .stopped => { v with ui := none }
  | _ => v

@[simp] theorem View.after_watching (v : View) (uid : UInt32) :
    v.after (.watching uid) = { v with session := some uid } := rfl

@[simp] theorem View.after_gone (v : View) : v.after .gone = { v with session := none } := rfl

@[simp] theorem View.after_event (v : View) (ev : CString) : v.after (.event ev) = v := rfl

@[simp] theorem View.after_line (v : View) (line : CString) : v.after (.line line) = v := rfl

def view (trace : List Event) : View := trace.foldl View.after ⟨none, none⟩

@[simp] theorem view_append (trace events : List Event) :
    view (trace ++ events) = events.foldl View.after (view trace) := List.foldl_append

def Event.silent : Event → Bool
  | .watching _ => false
  | .gone => false
  | .started .. => false
  | .stopped => false
  | _ => true

theorem foldl_after_silent {events : List Event} (h : ∀ e ∈ events, e.silent) (v : View) :
    events.foldl View.after v = v := by
  induction events with
  | nil => rfl
  | cons e events ih =>
    have he : v.after e = v := by
      have hsilent := h e (.head _)
      cases e <;> first | rfl | cases hsilent
    rw [List.foldl_cons, he, ih fun e he => h e (.tail _ he)]

/-- The check, just made, of a complete reply of the lock UI that runs, for the session's user. -/
def Authorised (db : Accounts) (trace : List Event) : Prop :=
  ∃ pre line pass uid pw output before cr after,
    trace = pre ++ [.line line, .checked pw.name pass true] ∧
    line.bytes = ascii "REPLY " ++ pass.bytes ∧
    (view trace).session = some uid ∧ db.getpwuid uid = some pw ∧
    (view trace).ui = some (false, output) ∧
    LineOf output (ascii "REPLY " ++ pass.bytes) before cr after

def UnlocksOk (db : Accounts) (trace events : List Event) : Prop :=
  ∀ pre post, events = pre ++ .command unlockCommand :: post → Authorised db (trace ++ pre)

theorem UnlocksOk.of_notMem (h : .command unlockCommand ∉ events) : UnlocksOk db trace events := by
  rintro pre post rfl
  exact absurd (by simp) h

theorem UnlocksOk.append (h : UnlocksOk db trace events) (h' : UnlocksOk db (trace ++ events) events') :
    UnlocksOk db trace (events ++ events') := by
  intro pre post heq
  obtain ⟨mid, rfl, hmid⟩ | ⟨mid, hpre, hmid⟩ := List.append_eq_append_iff.mp heq
  · rw [← List.append_assoc]
    exact h' mid post hmid
  · cases mid with
    | nil =>
      rw [List.append_nil] at hpre
      have := h' [] post hmid.symm
      rwa [List.append_nil, hpre] at this
    | cons e mid =>
      cases hmid
      exact h pre mid hpre

theorem uiStop_silent (s : Session) : .command unlockCommand ∉ s.uiStop.2 := by
  rw [Session.uiStop]
  cases s.ui <;> simp

theorem uiStart_silent (s : Session) (sas : Bool) (output : Option Bytes) :
    .command unlockCommand ∉ (s.uiStart sas output).2 := by
  cases output <;> simp [Session.uiStart]

variable {e : Event}

theorem mem_controlCommand (h : e ∈ (controlCommand cmd c).1) : e = .command cmd := by
  cases c with
  | refused => cases h
  | silent => exact List.mem_singleton.mp h
  | replied b => cases b <;> exact List.mem_singleton.mp h

theorem sasCommand_ne_unlock (h : sasCommand line = some cmd) : cmd ≠ unlockCommand := by
  rw [sasCommand] at h
  split at h
  · cases h
    decide
  · split at h
    · next hline =>
      cases h
      obtain rfl | rfl | rfl := hline <;> decide
    · cases h

variable {user line : CString}

theorem uiLine_silent (h : e ∈ (uiLine sas user line p).2) : e.silent := by
  have hcommand {cmd : CString} (h : e ∈ (controlCommand cmd p.control).1) : e.silent := by
    rw [mem_controlCommand h]
    rfl
  rw [uiLine] at h
  split at h
  · split at h
    · exact hcommand h
    · cases h
  · rw [lockLine] at h
    split at h
    · obtain rfl := List.mem_singleton.mp h
      rfl
    split at h
    · simp only at h
      split at h
      · split at h <;>
        · simp only [List.cons_append, List.mem_cons, List.mem_append, List.not_mem_nil,
            or_false] at h
          obtain rfl | h | rfl := h
          · rfl
          · exact hcommand h
          · rfl
      · simp only [List.mem_cons, List.not_mem_nil, or_false] at h
        obtain rfl | rfl | rfl := h <;> rfl
    · cases h

variable {pre post : List Event}

theorem singleton_of_unlock (he : e ≠ .command unlockCommand)
    (h : e :: (controlCommand unlockCommand c).1 ++ [.told text] =
      pre ++ .command unlockCommand :: post) : pre = [e] := by
  have hsent : (controlCommand unlockCommand c).1 = [] ∨
      (controlCommand unlockCommand c).1 = [.command unlockCommand] := by
    cases c with
    | refused => exact .inl rfl
    | silent => exact .inr rfl
    | replied b => cases b <;> exact .inr rfl
  match pre with
  | [] => exact absurd (List.cons.inj h).1 he
  | [_] => rw [(List.cons.inj h).1]
  | _ :: b :: pre =>
    have htail := (List.cons.inj h).2
    have hlen := congrArg List.length htail
    obtain hsent | hsent := hsent
    · simp [hsent] at hlen
    · simp only [hsent] at htail
      cases pre with
      | nil => cases htail
      | cons => simp [hsent] at hlen

theorem lockLine_unlock (h : (lockLine user line p).2 = pre ++ .command unlockCommand :: post) :
    ∃ pass : CString, line.bytes = ascii "REPLY " ++ pass.bytes ∧
      pass.bytes.length < maxField ∧ pre = [.checked user pass true] := by
  have hnone {events : List Event} (hno : .command unlockCommand ∉ events) :
      events ≠ pre ++ .command unlockCommand :: post := by
    rintro rfl
    simp at hno
  rw [lockLine] at h
  split at h
  · exact absurd h (hnone (by simp [prompt]))
  split at h
  · next hreply =>
    simp only at h
    split at h
    · next hcheck =>
      obtain ⟨t, ht⟩ := hreply
      have hdrop : line.bytes.drop 6 = t := by rw [← ht]; rfl
      have hnul : 0 ∉ t := fun h0 => line.nul_free (by rw [← ht]; exact List.mem_append_right _ h0)
      have hpass : (CString.ofBuffer (line.bytes.drop 6)).bytes = t := by
        rw [hdrop]
        exact cstr_eq_self hnul
      refine ⟨.ofBuffer (line.bytes.drop 6), by rw [hpass, ht], ?_, ?_⟩
      · simp only [checkPassword, Bool.and_eq_true, decide_eq_true_eq] at hcheck
        exact hcheck.1.2
      · have hne : Event.checked user (.ofBuffer (line.bytes.drop 6)) true ≠
            .command unlockCommand := by simp
        split at h <;> exact singleton_of_unlock hne h
    · exact absurd h (hnone (by simp [prompt]))
  · exact absurd h (hnone List.not_mem_nil)

theorem uiLine_unlock (h : (uiLine sas user line p).2 = pre ++ .command unlockCommand :: post) :
    sas = false ∧ ∃ pass : CString, line.bytes = ascii "REPLY " ++ pass.bytes ∧
      pass.bytes.length < maxField ∧ pre = [.checked user pass true] := by
  cases sas with
  | false => exact ⟨rfl, lockLine_unlock h⟩
  | true =>
    have hmem : .command unlockCommand ∈ (uiLine true user line p).2 := by simp [h]
    simp only [uiLine, if_true] at hmem
    split at hmem
    · next cmd hcmd =>
      cases mem_controlCommand hmem
      exact absurd rfl (sasCommand_ne_unlock hcmd)
    · cases hmem

structure Known (db : Accounts) (s : Session) (v : View) : Prop where
  session : ∃ uid pw, v.session = some uid ∧ db.getpwuid uid = some pw ∧ s.user = pw.name
  idle : s.ui = none → v.ui = none
  running : s.ui = some ui →
    ∃ output, v.ui = some (ui.sas, output) ∧ Clean output ∧ Reached output ui.output

section Known

variable {db : Accounts} {s : Session} {v : View} {trace : List Event}

theorem Known.uiStop (h : Known db s v) :
    Known db s.uiStop.1 (s.uiStop.2.foldl View.after v) ∧ s.uiStop.1.ui = none := by
  rw [Session.uiStop]
  cases hui : s.ui with
  | none => exact ⟨h, hui⟩
  | some ui => exact ⟨⟨h.session, fun _ => rfl, nofun⟩, rfl⟩

theorem Known.uiStart (h : Known db s v) (sas : Bool) (hclean : ∀ b ∈ output, Clean b) :
    Known db (s.uiStart sas output).1 ((s.uiStart sas output).2.foldl View.after v) := by
  cases output with
  | none => exact h
  | some output =>
    refine ⟨h.session, nofun, ?_⟩
    rintro ui ⟨⟩
    exact ⟨output, rfl, hclean output rfl, Reached.start output⟩

theorem Known.onEvent (h : Known db s v) (hclean : ∀ b ∈ start, Clean b)
    {events : List Event} (hs : s.onEvent start = some (s', events)) :
    Known db s' (events.foldl View.after v) ∧ .command unlockCommand ∉ events := by
  rw [Session.onEvent] at hs
  split at hs
  · cases hs
  next b watch hread =>
  have hwatch : Known db { s with watch } v := ⟨h.session, h.idle, h.running⟩
  simp only at hs
  split at hs
  · cases hs
    have hstop := hwatch.uiStop.1
    refine ⟨?_, ?_⟩
    · simpa using hstop.uiStart false hclean
    · simp [uiStop_silent, uiStart_silent]
  split at hs
  · cases hs
    exact ⟨hwatch.uiStart true hclean, by simp [uiStart_silent]⟩
  split at hs
  · cases hs
    exact ⟨hwatch.uiStop.1, by simp [uiStop_silent]⟩
  · cases hs
    exact ⟨hwatch, by simp⟩

theorem Known.unlocksOk_line (h : Known db s (view trace)) {ui : Ui} (hui : s.ui = some ui)
    (hread : readLine (maxField + 15) ui.output = some (b, rest)) (p : Poll) :
    UnlocksOk db trace (.line (.ofBuffer b) :: (uiLine ui.sas s.user (.ofBuffer b) p).2) := by
  intro pre post heq
  cases pre with
  | nil => cases heq
  | cons e pre =>
    obtain ⟨rfl, hevents⟩ := List.cons.inj heq
    obtain ⟨hsas, pass, hline, hpass, rfl⟩ := uiLine_unlock hevents
    obtain ⟨uid, pw, hsession, hpw, huser⟩ := h.session
    obtain ⟨output, hview, hout, hreached⟩ := h.running hui
    obtain ⟨-, hnul, hwhole⟩ := hreached.readLine hout hread
    have hb : b = ascii "REPLY " ++ pass.bytes := (cstr_eq_self hnul).symm.trans hline
    have hviews : view (trace ++ [.line (.ofBuffer b), .checked s.user pass true]) = view trace :=
      view_append ..
    obtain hempty | hfull | ⟨before, cr, hof⟩ := hwhole
    · rw [hb] at hempty
      cases hempty
    · rw [hb, List.length_append, show (ascii "REPLY ").length = 6 by rfl] at hfull
      omega
    · refine ⟨trace, .ofBuffer b, pass, uid, pw, output, before, cr, rest, by rw [huser], hline, ?_,
        hpw, ?_, hb ▸ hof⟩
      · rw [hviews, hsession]
      · rw [hviews, hview, hsas]

theorem Known.onUi (h : Known db s (view trace)) {p : Poll} (hclean : ∀ b ∈ p.restart, Clean b) :
    Known db (s.onUi p).1 (view (trace ++ (s.onUi p).2)) ∧ UnlocksOk db trace (s.onUi p).2 := by
  rw [view_append, Session.onUi]
  cases hui : s.ui with
  | none => exact ⟨h, .of_notMem List.not_mem_nil⟩
  | some ui =>
    simp only
    cases hread : readLine (maxField + 15) ui.output with
    | none =>
      refine ⟨?_, .of_notMem (by simp [uiStop_silent, uiStart_silent])⟩
      simpa using h.uiStop.1.uiStart ui.sas hclean
    | some r =>
      obtain ⟨b, rest⟩ := r
      obtain ⟨output, hview, hout, hreached⟩ := h.running hui
      have hnext : Known db { s with ui := some { ui with output := rest } } (view trace) := by
        refine ⟨h.session, nofun, ?_⟩
        rintro ui' ⟨⟩
        exact ⟨output, hview, hout, (hreached.readLine hout hread).1⟩
      have hunlocks := h.unlocksOk_line hui hread p
      have hsilent (v : View) : (uiLine ui.sas s.user (.ofBuffer b) p).2.foldl View.after v = v :=
        foldl_after_silent (fun _ => uiLine_silent) v
      simp only [List.cons_append, List.foldl_cons, List.foldl_append, View.after_line, hsilent]
      split
      · exact ⟨hnext.uiStop.1, hunlocks.append (.of_notMem (uiStop_silent _))⟩
      · exact ⟨hnext, by simpa using hunlocks⟩

theorem Known.ended (h : Known db s (view trace)) :
    view (trace ++ (s.uiStop.2 ++ [.gone])) = ⟨none, none⟩ := by
  obtain ⟨hknown, hui⟩ := h.uiStop
  rw [view_append, List.foldl_append, List.foldl_cons, List.foldl_nil, View.after_gone,
    hknown.idle hui]

end Known

def Inv (db : Accounts) (trace : List Event) : Option Session → Prop
  | none => view trace = ⟨none, none⟩
  | some s => Known db s (view trace)

/-- Every UI writes lines that can be read in one piece, and the user's name fits its buffer. -/
def Input.Clean (db : Accounts) : Input → Prop
  | .connect uid _ => ∀ pw, db.getpwuid uid = some pw → pw.name.bytes.length < maxField
  | .poll p => (∀ b ∈ p.start, Greeter.Clean b) ∧ ∀ b ∈ p.restart, Greeter.Clean b
  | .broken => True

section Runs

variable {db : Accounts} {trace : List Event}

theorem inv_poll {s : Session} (h : Known db s (view trace)) (hclean : (Input.poll p).Clean db) :
    Inv db (trace ++ (s.poll p).2) (s.poll p).1 ∧ UnlocksOk db trace (s.poll p).2 := by
  have hend : .command unlockCommand ∉ s.uiStop.2 ++ [.gone] := by simp [uiStop_silent]
  have hafter {s' : Session} {events : List Event} (hs' : Known db s' (view (trace ++ events)))
      (hno : .command unlockCommand ∉ events) :
      Inv db (trace ++ (events ++ (s'.onUi p).2)) (some (s'.onUi p).1) ∧
        UnlocksOk db trace (events ++ (s'.onUi p).2) := by
    obtain ⟨hknown, hunlocks⟩ := hs'.onUi hclean.2
    rw [← List.append_assoc]
    exact ⟨hknown, .append (.of_notMem hno) hunlocks⟩
  have hturn {s' : Session} {events : List Event} (hs' : Known db s' (view (trace ++ events)))
      (hno : .command unlockCommand ∉ events) :
      let r := if p.ui ∧ s.ui.isSome then
        (some (s'.onUi p).1, events ++ (s'.onUi p).2) else (some s', events)
      Inv db (trace ++ r.2) r.1 ∧ UnlocksOk db trace r.2 := by
    split
    · exact hafter hs' hno
    · exact ⟨hs', .of_notMem hno⟩
  rw [Session.poll]
  cases hevent : p.event with
  | false => exact hturn (by simpa using h) List.not_mem_nil
  | true =>
    cases hs : s.onEvent p.start with
    | none => exact ⟨h.ended, .of_notMem hend⟩
    | some r =>
      obtain ⟨hknown, hno⟩ := h.onEvent hclean.1 hs
      exact hturn (by rwa [view_append]) hno

theorem inv_step (h : Inv db trace s) {i : Input} (hclean : i.Clean db) :
    Inv db (trace ++ (step db s i).2) (step db s i).1 ∧ UnlocksOk db trace (step db s i).2 := by
  have hstays : Inv db (trace ++ []) s ∧ UnlocksOk db trace [] :=
    ⟨by rwa [List.append_nil], .of_notMem List.not_mem_nil⟩
  match s, i with
  | none, .connect uid watch =>
    rw [step]
    split
    · exact hstays
    · next pw hpw =>
      refine ⟨⟨⟨uid, pw, by simp, hpw, ?_⟩, fun _ => ?_, nofun⟩, .of_notMem (by simp)⟩
      · have hlen := hclean pw hpw
        rw [maxField] at hlen
        rw [maxField, List.take_of_length_le (by omega), CString.ofBuffer_bytes]
      · rw [view_append, show view trace = ⟨none, none⟩ from h]
        rfl
  | none, .poll _ => exact hstays
  | none, .broken => exact hstays
  | some s, .poll p => exact inv_poll h hclean
  | some s, .broken =>
    rw [step]
    exact ⟨Known.ended h, .of_notMem (by simp [uiStop_silent])⟩
  | some s, .connect _ _ => exact hstays

theorem inv_run (h : Inv db trace s) (hclean : ∀ i ∈ is, i.Clean db) : UnlocksOk db trace (run db s is).2 := by
  induction is generalizing s trace with
  | nil => exact .of_notMem List.not_mem_nil
  | cons i is ih =>
    obtain ⟨hinv, hunlocks⟩ := inv_step h (hclean i (.head _))
    exact hunlocks.append (ih hinv fun i hi => hclean i (.tail _ hi))

end Runs

/-- Each `UNLOCK` comes directly after the accepted check of a complete reply of the lock UI that runs. -/
theorem run_unlock_authorised {db : Accounts} {is : List Input} (hclean : ∀ i ∈ is, i.Clean db)
    {pre post : List Event} (h : (run db none is).2 = pre ++ .command unlockCommand :: post) :
    Authorised db pre := by
  have hinit : Inv db [] none := rfl
  exact inv_run hinit hclean pre post h

section Samples

def account : Passwd :=
  ⟨.ofString "user", 1000, 1000, .ofString "/home/user", .ofString "/bin/sh"⟩

def accounts : Accounts where
  getpwnam n := if n = account.name then some account else none
  getpwuid u := if u = account.uid then some account else none
  getgrnam _ := none
  name_of_getpwnam h := by split at h <;> simp_all
  uid_of_getpwuid h := by split at h <;> simp_all

theorem eq_nil_of_atLine {before rest : Bytes} (h : (before ++ rest).count 10 = 1)
    (hrest : 10 ∈ rest) (hat : AtLine before) : before = [] := by
  obtain hnil | hlast := hat
  · exact hnil
  · have hpos : 0 < before.count 10 := List.count_pos_iff.mpr (List.mem_of_getLast? hlast)
    have hpos' : 0 < rest.count 10 := List.count_pos_iff.mpr hrest
    rw [List.count_append] at h
    omega

theorem count_line {text : Bytes} (h : 10 ∉ text) : (text ++ [10]).count 10 = 1 := by
  rw [List.count_append, List.count_eq_zero.mpr h, List.count_singleton_self]

theorem clean_line {text : Bytes} (hnul : 0 ∉ text) (hlf : 10 ∉ text) (hcr : 13 ∉ text)
    (hlen : text.length ≤ maxField + 15) : Clean (text ++ [10]) where
  nul_free := by simpa using hnul
  short := by
    intro before raw after heq hat hraw
    have hbefore := eq_nil_of_atLine (heq ▸ count_line hlf) (by simp) hat
    have hcut := cut_append hlf []
    rw [heq, hbefore, List.nil_append, cut_append hraw] at hcut
    obtain rfl : raw = text := congrArg Prod.fst (Option.some.inj hcut)
    exact ⟨raw, [], (List.append_nil raw).symm, .inl rfl, hcr, hlen⟩

def lockTurn (output : Bytes) : Poll := ⟨true, false, some output, none, none, .refused⟩

def lineTurn : Poll :=
  ⟨false, true, none, none, some 1, .replied (ascii "OK unlocked\n")⟩

def lockedRun (output : Bytes) (lines : Nat) : List Input :=
  .connect 1000 (ascii "locked\n") :: .poll (lockTurn output) ::
    List.replicate lines (.poll lineTurn)

theorem step_connect : step accounts none (.connect 1000 (ascii "locked\n")) =
    (some ⟨.ofString "user", ascii "locked\n", none⟩, [.watching 1000]) := by decide

theorem poll_lockTurn (output : Bytes) :
    Session.poll ⟨.ofString "user", ascii "locked\n", none⟩ (lockTurn output) =
      (some ⟨.ofString "user", [], some ⟨false, output⟩⟩,
        [.event (.ofString "locked"), .started false output]) := by
  have hread : readLine 63 (ascii "locked\n") = some (ascii "locked", []) := by decide
  have hlocked : CString.ofBuffer (ascii "locked") = .ofString "locked" := rfl
  simp [Session.poll, lockTurn, Session.onEvent, hread, hlocked, Session.uiStop, Session.uiStart]

theorem poll_lineTurn (h : readLine (maxField + 15) output = some (b, rest)) :
    Session.poll ⟨user, watch, some ⟨false, output⟩⟩ lineTurn = let r := lockLine user (.ofBuffer b) lineTurn
      if r.1 then (some ⟨user, watch, none⟩, .line (.ofBuffer b) :: r.2 ++ [.stopped])
      else (some ⟨user, watch, some ⟨false, rest⟩⟩, .line (.ofBuffer b) :: r.2) := by
  have hpoll (s : Session) (hs : s.ui.isSome) : s.poll lineTurn =
      (some (s.onUi lineTurn).1, (s.onUi lineTurn).2) := by
    simp [Session.poll, lineTurn, hs]
  rw [hpoll _ rfl, Session.onUi]
  simp only [h, uiLine, Bool.false_eq_true, if_false]
  generalize lockLine user (.ofBuffer b) lineTurn = r
  obtain ⟨unlocked, events⟩ := r
  cases unlocked <;> simp [Session.uiStop]

theorem run_lockedRun (output : Bytes) (lines : Nat) :
    (run accounts none (lockedRun output lines)).2 =
      [.watching 1000, .event (.ofString "locked"), .started false output] ++
        (run accounts (some ⟨.ofString "user", [], some ⟨false, output⟩⟩)
          (List.replicate lines (.poll lineTurn))).2 := by
  have hstep : step accounts (some ⟨.ofString "user", ascii "locked\n", none⟩)
      (.poll (lockTurn output)) = _ := poll_lockTurn output
  simp only [lockedRun, run, step_connect, hstep]
  rfl

theorem run_lineTurn (s : Session) (is : List Input) :
    (run accounts (some s) (.poll lineTurn :: is)).2 =
      (s.poll lineTurn).2 ++ (run accounts (s.poll lineTurn).1 is).2 := rfl

def secretLine : CString := .ofString "REPLY secret"

theorem lockLine_secret : lockLine (.ofString "user") secretLine lineTurn =
    (true, [.checked (.ofString "user") (.ofString "secret") true, .command unlockCommand,
      .told (ascii "SUCCESS")]) := by decide

theorem run_secret : (run accounts (some ⟨.ofString "user", [], some ⟨false, secretLine.bytes ++ [10]⟩⟩)
    [.poll lineTurn]).2 =
      [.line secretLine, .checked (.ofString "user") (.ofString "secret") true] ++
        .command unlockCommand :: [.told (ascii "SUCCESS"), .stopped] := by
  have hread : readLine (maxField + 15) (secretLine.bytes ++ [10]) = some (secretLine.bytes, []) := by
    decide
  rw [run_lineTurn, poll_lineTurn hread, CString.ofBuffer_bytes, lockLine_secret]
  rfl

theorem run_unlock_authorised_secret :
    Authorised accounts [.watching 1000, .event (.ofString "locked"),
      .started false (secretLine.bytes ++ [10]), .line secretLine,
      .checked (.ofString "user") (.ofString "secret") true] := by
  have hclean : ∀ i ∈ lockedRun (secretLine.bytes ++ [10]) 1, i.Clean accounts := by
    intro i hi
    simp only [lockedRun, List.replicate_one, List.mem_cons, List.not_mem_nil, or_false] at hi
    obtain rfl | rfl | rfl := hi
    · intro pw hpw
      cases hpw
      decide
    · refine ⟨?_, nofun⟩
      rintro b ⟨⟩
      exact clean_line (by decide) (by decide) (by decide) (by decide)
    · exact ⟨nofun, nofun⟩
  exact run_unlock_authorised hclean (by rw [run_lockedRun, List.replicate_one, run_secret]; rfl)

def longReply : CString where
  bytes := ascii "REPLY " ++ List.replicate 521 120
  nul_free := by
    rw [List.mem_append, List.mem_replicate]
    decide

theorem lockLine_longReply : lockLine (.ofString "user") longReply lineTurn =
    (false, [.checked (.ofString "user") (.ofBuffer (longReply.bytes.drop 6)) false,
      .told (ascii "FAILURE The password is incorrect."), prompt (.ofString "user")]) := by
  have hhello : ¬ ascii "HELLO" <+: longReply.bytes := fun h => nomatch (List.cons_prefix_cons.mp h).1
  have hreply : ascii "REPLY " <+: longReply.bytes := ⟨_, rfl⟩
  have hpass : (CString.ofBuffer (longReply.bytes.drop 6)).bytes = List.replicate 521 120 := by
    change cstr (List.replicate 521 120) = _
    exact cstr_eq_self (by rw [List.mem_replicate]; decide)
  have hcheck : checkPassword (.ofString "user") (.ofBuffer (longReply.bytes.drop 6))
      lineTurn.monitor = false := by
    rw [checkPassword, hpass, List.length_replicate]
    decide
  rw [lockLine, if_neg hhello, if_pos hreply]
  simp only [hcheck, Bool.false_eq_true, if_false]

def longOutput : Bytes := longReply.bytes ++ (secretLine.bytes ++ [10])

theorem run_longOutput : (run accounts none (lockedRun longOutput 2)).2 =
    [.watching 1000, .event (.ofString "locked"), .started false longOutput, .line longReply,
      .checked (.ofString "user") (.ofBuffer (longReply.bytes.drop 6)) false,
      .told (ascii "FAILURE The password is incorrect."), prompt (.ofString "user"),
      .line secretLine, .checked (.ofString "user") (.ofString "secret") true] ++
        .command unlockCommand :: [.told (ascii "SUCCESS"), .stopped] := by
  have hread : readLine (maxField + 15) longOutput =
      some (longReply.bytes, secretLine.bytes ++ [10]) := by
    apply readLine_append
    · rw [longReply, List.mem_append, List.mem_replicate]
      decide
    · rw [longReply, List.mem_append, List.mem_replicate]
      decide
    · rw [longReply, List.length_append, List.length_replicate]
      rfl
  rw [run_lockedRun, List.replicate_succ, run_lineTurn, poll_lineTurn hread,
    CString.ofBuffer_bytes, lockLine_longReply]
  simp only [Bool.false_eq_true, if_false, List.replicate_one, run_secret, List.cons_append,
    List.nil_append]

theorem unlock_by_cut_reply :
    ∃ pre post, (run accounts none (lockedRun longOutput 2)).2 =
      pre ++ .command unlockCommand :: post ∧ ¬ Authorised accounts pre := by
  refine ⟨_, _, run_longOutput, ?_⟩
  rintro ⟨pre, line, pass, uid, pw, output, before, cr, after, htrace, -, -, -, hui, hof⟩
  have hlast := congrArg List.getLast? htrace
  rw [List.getLast?_append] at hlast
  obtain rfl : CString.ofString "secret" = pass := by injection hlast with hlast; injection hlast
  obtain rfl : longOutput = output := by injection hui with hui; injection hui
  have hcount : longOutput.count 10 = 1 := by
    rw [longOutput, ← List.append_assoc]
    apply count_line
    rw [longReply, List.mem_append, List.mem_append, List.mem_replicate]
    decide
  have hbefore := eq_nil_of_atLine (hof.output_eq ▸ hcount) (by simp) hof.atLine
  have hseventh := congrArg (fun b => b[6]?) hof.output_eq
  rw [hbefore] at hseventh
  cases hseventh

end Samples

end StainedGlass.Greeter
