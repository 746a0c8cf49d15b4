import StainedGlass.Broker.Consent

namespace StainedGlass.Broker

open Lib

def ConsentEvent.isLine : ConsentEvent → Bool
  | .line _ => true
  | _ => false

def ConsentEvent.isCheck : ConsentEvent → Bool
  | .checked .. => true
  | _ => false

def ConsentEvent.isCommand : ConsentEvent → Bool
  | .command .. => true
  | _ => false

/-- The last line decides: yes from an administrator, or one whose password was accepted after it. -/
def Authorised (db : Accounts) (cfg : Config) (requesterAdmin : Bool) (trace : List ConsentEvent) :
    Prop :=
  ∃ pre line post, trace = pre ++ .line line :: post ∧ (∀ e ∈ post, e.isLine = false) ∧
    ((requesterAdmin = true ∧ line = .ofString "ALLOW") ∨
      (requesterAdmin = false ∧ ∃ user pass : CString,
        line.bytes = ascii "CRED " ++ (user.bytes ++ 9 :: pass.bytes) ∧
          isAdminName db cfg user = true ∧ .checked user pass true ∈ post))

theorem Authorised.append (h : Authorised db cfg admin trace) (front back : List ConsentEvent)
    (hback : ∀ e ∈ back, e.isLine = false) : Authorised db cfg admin (front ++ trace ++ back) := by
  obtain ⟨pre, line, post, rfl, hpost, hyes⟩ := h
  refine ⟨front ++ pre, line, post ++ back, by simp, ?_, ?_⟩
  · intro e he
    exact (List.mem_append.mp he).elim (hpost e) (hback e)
  · refine hyes.imp_right ?_
    rintro ⟨hadmin, user, pass, hline, hname, hmem⟩
    exact ⟨hadmin, user, pass, hline, hname, List.mem_append_left _ hmem⟩

theorem tryCredentials_ok {user : CString} (htext : 0 ∉ text)
    (h : (tryCredentials db cfg wholen text monitor).ok = some user) :
    ∃ pass : CString, text = user.bytes ++ 9 :: pass.bytes ∧ isAdminName db cfg user = true ∧
      (tryCredentials db cfg wholen text monitor).trace = [.checked user pass true] := by
  rw [tryCredentials] at h ⊢
  split at h
  · cases h
  · next name pass hcut =>
    obtain ⟨rfl, -⟩ := eq_of_cut hcut
    rw [List.mem_append, List.mem_cons, not_or, not_or] at htext
    split at h
    · next hlen =>
      simp only at h
      simp only [hlen, if_true]
      split at h
      · next hgood =>
        obtain rfl := Option.some.inj h
        rw [Bool.and_eq_true] at hgood
        refine ⟨.ofBuffer pass, ?_, hgood.1, ?_⟩
        · simp only [CString.ofBuffer, cstr_eq_self htext.1, cstr_eq_self htext.2.2]
        · simp [hgood.1, hgood.2]
      · cases h
    · cases h

structure Quiet (trace : List ConsentEvent) : Prop where
  lines : ∀ e ∈ trace, e.isLine = false
  commands : ∀ e ∈ trace, e.isCommand = false
  checks : trace.countP ConsentEvent.isCheck ≤ 1

theorem quiet_audited (account : CString) : Quiet [.audited account] :=
  ⟨by simp [ConsentEvent.isLine], by simp [ConsentEvent.isCommand], by simp [ConsentEvent.isCheck]⟩

theorem quiet_tryCredentials (db : Accounts) (cfg : Config) (wholen : Nat) (text : Bytes)
    (monitor : List (Option UInt8)) : Quiet (tryCredentials db cfg wholen text monitor).trace := by
  rw [tryCredentials]
  split
  · exact quiet_audited _
  · split
    · simp only
      split <;> exact ⟨by simp [ConsentEvent.isLine], by simp [ConsentEvent.isCommand],
        by simp [List.countP_cons, ConsentEvent.isCheck]⟩
    · exact quiet_audited _

structure LoopSpec (db : Accounts) (cfg : Config) (admin : Bool) (attempts : Nat) (c : Consent) :
    Prop where
  authorised : c.allowed = true → Authorised db cfg admin c.trace
  checks : attempts + c.trace.countP ConsentEvent.isCheck ≤ 3
  commands : ∀ e ∈ c.trace, e.isCommand = false

section

variable {db : Accounts} {cfg : Config} {admin : Bool} {attempts : Nat}

theorem LoopSpec.line {line : CString} {trace : List ConsentEvent} (hquiet : Quiet trace)
    (h : attempts < 3) (allowed : Bool) (who : Option CString)
    (hyes : allowed = true → Authorised db cfg admin (.line line :: trace)) :
    LoopSpec db cfg admin attempts ⟨allowed, who, .line line :: trace⟩ where
  authorised := hyes
  checks := by
    have := hquiet.checks
    simp only [List.countP_cons, ConsentEvent.isCheck, Bool.false_eq_true, if_false]
    omega
  commands := by simpa [ConsentEvent.isCommand] using hquiet.commands

theorem LoopSpec.after {line : CString} {trace : List ConsentEvent} {c : Consent}
    (hc : LoopSpec db cfg admin (attempts + 1) c) (hquiet : Quiet trace) :
    LoopSpec db cfg admin attempts (c.after (.line line :: trace ++ [.failure])) where
  authorised h := by
    have := (hc.authorised h).append (.line line :: trace ++ [.failure]) [] (by simp)
    rwa [List.append_nil] at this
  checks := by
    have h₁ := hquiet.checks
    have h₂ := hc.checks
    simp only [Consent.after, List.countP_append, List.countP_cons, ConsentEvent.isCheck,
      Bool.false_eq_true, if_false, List.countP_nil]
    omega
  commands e he := by
    simp only [Consent.after, List.mem_append, List.mem_cons, List.not_mem_nil, or_false] at he
    obtain ((rfl | he) | rfl) | he := he
    · rfl
    · exact hquiet.commands e he
    · rfl
    · exact hc.commands e he

theorem consentLoop_spec (requester : CString) (wholen : Nat) (monitor : List (Option UInt8))
    (ui : List UiEvent) (h : attempts < 3) :
    LoopSpec db cfg admin attempts
      (consentLoop db cfg admin requester wholen attempts monitor ui) := by
  fun_induction consentLoop db cfg admin requester wholen attempts monitor ui with
  | case1 => exact ⟨nofun, by simp; omega, by simp⟩
  | case2 attempts monitor ui line rest hread hallow =>
    refine .line ⟨by simp, by simp, by simp⟩ h _ _ fun _ => ?_
    exact ⟨[], line, [], rfl, by simp, .inl (by simpa using hallow)⟩
  | case3 attempts monitor ui line rest hread hallow hcred tried user huser =>
    refine .line (quiet_tryCredentials ..) h _ _ fun _ => ?_
    have hnul : 0 ∉ line.bytes.drop 5 := fun h0 => line.nul_free (List.mem_of_mem_drop h0)
    obtain ⟨pass, htext, hname, htrace⟩ := tryCredentials_ok hnul huser
    refine ⟨[], line, tried.trace, rfl, (quiet_tryCredentials ..).lines, .inr ?_⟩
    refine ⟨by simpa using hcred.1, user, pass, ?_, hname, by rw [htrace]; exact .head _⟩
    rw [← htext]
    exact (List.prefix_iff_eq_append.mp hcred.2).symm
  | case4 => exact .line (quiet_tryCredentials ..) h _ _ nofun
  | case5 attempts monitor ui line rest hread hallow hcred tried huser hlast ih =>
    exact (ih (by omega)).after (quiet_tryCredentials ..)
  | case6 => exact .line ⟨by simp, by simp, by simp⟩ h _ _ nofun

end

def ConsentWorld.granted (w : ConsentWorld) : Prop :=
  w.surface.isSome ∧ surfaceCommand w.secure = some (.ofString "OK secure")

/-- Who may say yes, how often a password is checked, and that a granted surface is given back. -/
theorem obtainConsent_spec (db : Accounts) (cfg : Config) (env : ConsentEnv) (w : ConsentWorld)
    (admin : Bool) (requester : CString) (wholen : Nat) (htest : env.test = false) :
    let c := obtainConsent db cfg env w admin requester wholen
    (c.allowed = true → Authorised db cfg admin c.trace) ∧
      c.trace.countP ConsentEvent.isCheck ≤ 3 ∧
      (w.granted → ∃ mid, c.trace =
        .command "SECURE\n" w.secure :: mid ++ [.command "RELEASE\n" w.release] ∧
          ∀ e ∈ mid, e.isCommand = false) ∧
      (¬ w.granted → c.allowed = false ∧ ∀ came, .command "RELEASE\n" came ∉ c.trace) := by
  intro c
  have hc : c = obtainConsent db cfg env w admin requester wholen := rfl
  rw [obtainConsent, htest] at hc
  cases hsurface : w.surface with
  | none =>
    simp only [hsurface, Bool.false_eq_true, if_false] at hc
    rw [hc]
    exact ⟨nofun, by simp, fun hg => by simp [ConsentWorld.granted, hsurface] at hg, by simp⟩
  | some control =>
    simp only [hsurface, Bool.false_eq_true, if_false] at hc
    by_cases hgrant : surfaceCommand w.secure = some (.ofString "OK secure")
    · have hspec : LoopSpec db cfg admin 0 (if w.uiStarts
          then consentLoop db cfg admin requester wholen 0 w.monitor w.ui else ⟨false, none, []⟩) := by
        split
        · exact consentLoop_spec requester wholen w.monitor w.ui (by decide)
        · exact ⟨nofun, by simp, by simp⟩
      rw [if_neg (by simpa using hgrant)] at hc
      rw [hc]
      refine ⟨fun hyes => ?_, ?_, fun _ => ⟨_, rfl, hspec.commands⟩, fun hg => ?_⟩
      · exact (hspec.authorised hyes).append _ _ (by simp [ConsentEvent.isLine])
      · have := hspec.checks
        simpa [List.countP_append, List.countP_cons, ConsentEvent.isCheck] using this
      · exact absurd ⟨by simp [hsurface], hgrant⟩ hg
    · rw [if_pos (by simpa using hgrant)] at hc
      rw [hc]
      refine ⟨nofun, by simp [ConsentEvent.isCheck], fun hg => absurd hg.2 hgrant, fun _ => ?_⟩
      simp

section Samples

def noAccounts : Accounts := ⟨fun _ => none, fun _ => none, fun _ => none, nofun, nofun⟩

def secured (release : Connection) : ConsentWorld where
  surface := some (.ofString "/run/stained-glass-seat/seat0/1000/control.sock")
  secure := .replied (ascii "OK secure\n")
  uiStarts := true
  ui := (ascii "ALLOW\n").map .char
  monitor := []
  release := release

theorem obtainConsent_spec_secured :
    ∃ mid, (obtainConsent noAccounts {} ⟨false, none, none, none⟩ (secured .silent) true
        (.ofString "user") 256).trace =
      .command "SECURE\n" (.replied (ascii "OK secure\n")) :: mid ++
        [.command "RELEASE\n" .silent] ∧ ∀ e ∈ mid, e.isCommand = false :=
  (obtainConsent_spec noAccounts {} ⟨false, none, none, none⟩ (secured .silent) true
    (.ofString "user") 256 rfl).2.2.1 (by simp only [ConsentWorld.granted]; decide)

theorem consent_without_line :
    obtainConsent noAccounts {} ⟨true, some (.ofString "yes"), none, none⟩ (secured .silent) true
        (.ofString "user") 256 = ⟨true, some (.ofString "user"), []⟩ ∧
      (secured .refused).granted ∧
      ∀ came ≠ .refused, .command "RELEASE\n" came ∉
        (obtainConsent noAccounts {} ⟨false, none, none, none⟩ (secured .refused) true
          (.ofString "user") 256).trace := by
  refine ⟨by decide, by simp only [ConsentWorld.granted]; decide, ?_⟩
  have htrace : (obtainConsent noAccounts {} ⟨false, none, none, none⟩ (secured .refused) true
      (.ofString "user") 256).trace = [.command "SECURE\n" (.replied (ascii "OK secure\n")),
        .line (.ofString "ALLOW"), .command "RELEASE\n" .refused] := by
    rw [obtainConsent, consentLoop]
    decide
  rw [htrace]
  intro came hcame hmem
  simp at hmem
  exact hcame hmem

end Samples

end StainedGlass.Broker
