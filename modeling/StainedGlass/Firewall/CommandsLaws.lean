import StainedGlass.Lib.Action
import StainedGlass.Firewall.Commands
import StainedGlass.Firewall.ConfigLaws

namespace StainedGlass.Firewall

open Lib

def Unbroken (s : Str) : Prop := ∀ c ∈ s, c ∉ [10, 0x85, 0x2028, 0x2029]

instance (s : Str) : Decidable (Unbroken s) := inferInstanceAs (Decidable (∀ c ∈ s, _))

variable {s : Str}

theorem Unbroken.plain (h : Unbroken s) (hvisible : ∀ c ∈ s, 32 ≤ c) : Plain s := by
  intro c hc
  have hc₁ := h c hc
  have hc₂ := hvisible c hc
  simp only [List.mem_cons, List.not_mem_nil, or_false] at hc₁
  refine ⟨by omega, ?_⟩
  simp only [isBreak, List.mem_cons, List.not_mem_nil, or_false, decide_eq_false_iff_not]
  omega

theorem Unbroken.of_dollar (h : Unbroken s) (hs : dollar pattern s = true) : pattern s = true := by
  simp only [dollar, Bool.or_eq_true, Bool.and_eq_true, decide_eq_true_eq] at hs
  obtain hs | ⟨hlast, -⟩ := hs
  · exact hs
  · exact absurd (.head _) (h 10 (List.mem_of_mem_getLast? hlast))

theorem noControl_le (h : noControl s = true) : ∀ c ∈ s, 32 ≤ c := by
  simpa [noControl] using h

theorem Unbroken.plain_winPath (h : Unbroken s) (hs : winPath s = true) : Plain s := by
  have hs := h.of_dollar hs
  split at hs
  · exact h.plain (List.forall_mem_cons.mpr ⟨by decide, List.forall_mem_cons.mpr
      ⟨by decide, noControl_le hs⟩⟩)
  · next d rest =>
    simp only [Bool.and_eq_true, isLetter, Bool.or_eq_true, decide_eq_true_eq] at hs
    exact h.plain (List.forall_mem_cons.mpr ⟨by omega, List.forall_mem_cons.mpr
      ⟨by decide, List.forall_mem_cons.mpr ⟨by decide, noControl_le hs.2⟩⟩⟩)
  · cases hs

theorem Unbroken.plain_linuxPath (h : Unbroken s) (hs : linuxPath s = true) : Plain s := by
  have hs := h.of_dollar hs
  split at hs
  · exact h.plain (List.forall_mem_cons.mpr ⟨by decide, noControl_le hs⟩)
  · cases hs

theorem Unbroken.plain_regId (h : Unbroken s) (hs : regId s = true) : Plain s := by
  have hs := h.of_dollar hs
  simp only [Bool.and_eq_true, List.all_eq_true, decide_eq_true_eq] at hs
  exact h.plain fun c hc => (hs.2 c hc).1

theorem Unbroken.plain_networkUuid (h : Unbroken s) (hs : networkUuid s = true) : Plain s := by
  have hs := h.of_dollar hs
  simp only [Bool.and_eq_true, List.all_eq_true, decide_eq_true_eq, Bool.or_eq_true, isLetter] at hs
  exact h.plain fun c hc => by
    have := hs.2 c hc
    omega

theorem checkProgram_ok (h : checkProgram p = .ok prog) (hp : Unbroken p) :
    ∀ q ∈ prog, Plain q ∧ q ≠ [] ∧ q ≠ str "*" := by
  unfold checkProgram checkText at h
  split at h
  · cases h
    exact nofun
  · next hne =>
    simp only [List.mem_cons, List.not_mem_nil, or_false, not_or] at hne
    split at h
    · cases h
    · next q hq =>
      split at hq
      · cases hq
      · cases hq
        split at h
        · next hpath =>
          cases h
          rintro q ⟨⟩
          refine ⟨?_, hne⟩
          obtain hwin | hlinux := Bool.or_eq_true _ _ ▸ hpath
          · exact hp.plain_winPath hwin
          · exact hp.plain_linuxPath hlinux
        · cases h

theorem forall_updateFirst {P : Rule → Prop} (hf : ∀ r, P r → P (f r)) {rules rules' : List Rule} {x : Rule}
    (h : updateFirst p f rules = some (x, rules')) (hrules : ∀ r ∈ rules, P r) : ∀ r ∈ rules', P r := by
  induction rules generalizing rules' with
  | nil => cases h
  | cons r rules ih =>
    rw [List.forall_mem_cons] at hrules
    rw [updateFirst] at h
    split at h
    · cases h
      exact List.forall_mem_cons.mpr ⟨hf r hrules.1, hrules.2⟩
    · obtain ⟨⟨y, rest⟩, hrest, heq⟩ := Option.map_eq_some_iff.mp h
      cases heq
      exact List.forall_mem_cons.mpr ⟨hrules.1, ih hrest hrules.2⟩

theorem Token.plain (t : Token) : Plain t.text := plain_of_ascii fun c hc => by
  have := t.hex c hc
  omega

def Invocation.verbatim (i : Invocation) : List Str :=
  match i.command, i.args with
  | .ruleAdd, _ :: _ :: _ :: _ :: program :: _ => [program]
  | .ruleSet, rid :: _ => (registryId rid).toList
  | .ruleRemove, rid :: _ => (registryId rid).toList
  | .network, uuid :: _ => [uuid]
  | _, _ => []

theorem addRule_carried (u : Unicode) (token : Token) {c : Config} (hc : c.Carried) (action : Action)
    (prof : Finset Profile) (proto : Option Proto) (ports : Option Ports) {prog : Option Str}
    (hprog : ∀ p ∈ prog, Plain p ∧ p ≠ [] ∧ p ≠ str "*") (name : Str)
    (hsource : Plain source) : (addRule u token c action prof proto ports prog name source).1.Carried := by
  unfold addRule
  dsimp only
  split
  · next r rules h =>
    split at h
    · exact hc.setRules (forall_updateFirst (fun r hr => ⟨hr.id, hr.program, hr.source⟩) h hc.rules)
    · cases h
  · refine hc.setRules fun r hr => ?_
    obtain hr | hr := List.mem_append.mp hr
    · exact hc.rules r hr
    · rw [List.mem_singleton.mp hr]
      exact ⟨token.plain, hprog, hsource⟩

variable {token : Token} {u : Unicode}

variable {c c' : Config} {a out : List Str}

theorem cmdRuleAdd_carried
    (hc : c.Carried) (h : cmdRuleAdd u token c a = .ok (c', out))
    (ha : ∀ s ∈ (Invocation.mk .ruleAdd a token).verbatim, Unbroken s) : c'.Carried := by
  unfold cmdRuleAdd at h
  split at h
  · next action profiles proto ports program name rest =>
    split_ifs at h
    split at h
    · cases h
    · next action haction =>
      split at h
      · cases h
      next proto hproto =>
        dsimp only at h
        split_ifs at h with hsource
        obtain ⟨prof, -, h⟩ := bind_eq_ok h
        obtain ⟨p, -, h⟩ := bind_eq_ok h
        obtain ⟨prog, hprog, h⟩ := bind_eq_ok h
        split_ifs at h
        obtain ⟨name, -, h⟩ := bind_eq_ok h
        have hplain : ∀ s ∈ sources, Plain s := by decide
        injection h with h
        have hadd := addRule_carried u token hc action prof proto p
          (checkProgram_ok hprog (ha program (.head _))) name (hplain _ hsource)
        rwa [h] at hadd
  · cases h

theorem setRule_carried {rid : Str} {prof : Finset Profile} {out : List Str} (hc : c.Carried)
    (h : setRule c rid on action prof = .ok (c', out)) (hrid : ∀ s ∈ registryId rid, Unbroken s) : c'.Carried := by
  unfold setRule at h
  split at h
  · next rid' hreg =>
    split_ifs at h with hre
    cases h
    exact hc.setOverride ((hrid rid' hreg).plain_regId hre) _
  · dsimp only at h
    split at h
    · next r rules hfirst =>
      cases h
      exact hc.setRules (forall_updateFirst (fun r hr => ⟨hr.id, hr.program, hr.source⟩) hfirst hc.rules)
    · cases h

theorem cmdRuleSet_carried
    (hc : c.Carried) (h : cmdRuleSet u c a = .ok (c', out))
    (ha : ∀ s ∈ (Invocation.mk .ruleSet a token).verbatim, Unbroken s) : c'.Carried := by
  unfold cmdRuleSet at h
  split at h
  · split at h
    · cases h
    · obtain ⟨prof, -, h⟩ := bind_eq_ok h
      exact setRule_carried hc h fun s hs => ha s (Option.mem_toList.mpr hs)
  · cases h

theorem cmdRuleRemove_carried
    (hc : c.Carried) (h : cmdRuleRemove c a = .ok (c', out))
    (ha : ∀ s ∈ (Invocation.mk .ruleRemove a token).verbatim, Unbroken s) : c'.Carried := by
  unfold cmdRuleRemove at h
  split at h
  · next rid =>
    split at h
    · next rid' hreg =>
      split_ifs at h with hre
      cases h
      exact hc.setOverride ((ha rid' (Option.mem_toList.mpr hreg)).plain_regId hre) _
    · dsimp only at h
      split_ifs at h
      cases h
      exact hc.setRules fun r hr => hc.rules r (List.mem_of_mem_filter hr)
  · cases h

theorem cmdNetwork_carried
    (hc : c.Carried) (h : cmdNetwork c a = .ok (c', out))
    (ha : ∀ s ∈ (Invocation.mk .network a token).verbatim, Unbroken s) : c'.Carried := by
  unfold cmdNetwork at h
  dsimp only at h
  split at h
  · next uuid category rest =>
    split at h
    · cases h
    · split_ifs at h with huuid
      obtain ⟨name, -, h⟩ := bind_eq_ok h
      cases h
      exact hc.setNetwork ((ha uuid (.head _)).plain_networkUuid huuid) _
  · cases h

theorem exec_carried {i : Invocation} (hc : c.Carried) (h : i.command.exec u i.token c i.args = .ok (c', out))
    (hi : ∀ s ∈ i.verbatim, Unbroken s) : c'.Carried := by
  obtain ⟨command, a, token⟩ := i
  cases command with
  | ruleAdd => exact cmdRuleAdd_carried hc h hi
  | ruleSet => exact cmdRuleSet_carried hc h hi
  | ruleRemove => exact cmdRuleRemove_carried hc h hi
  | group =>
    simp only [Command.exec, cmdGroup] at h
    split at h
    · split at h
      · cases h
      · obtain ⟨prof, -, h⟩ := bind_eq_ok h
        cases h
        exact ⟨hc.networks, hc.rules, hc.overrides, hc.settings⟩
    · cases h
  | profile =>
    simp only [Command.exec, cmdProfile] at h
    split at h
    · split at h
      · cases h
      · cases h
        exact ⟨hc.networks, hc.rules, hc.overrides, hc.settings⟩
    · cases h
  | network => exact cmdNetwork_carried hc h hi

theorem Invocation.run_reads {i : Invocation} {c : Config}
    (h : i.run u file = some (c, text)) (hi : ∀ s ∈ i.verbatim, Unbroken s) :
    readConfig u (some text) = c.written u := by
  unfold Invocation.run at h
  split at h
  · cases h
  · next c' out hexec =>
    obtain ⟨text', htext, heq⟩ := Option.map_eq_some_iff.mp h
    cases heq
    simp only [writeConfig] at htext
    split_ifs at htext
    cases htext
    rw [readConfig_some, parseConfig_written u (exec_carried (readConfig_carried u file) hexec hi)]

/-- Commands that all succeeded, one after the other, each with what it meant to write and the
text it left in the file. -/
inductive Run (u : Unicode) : Option Str → List (Invocation × Config × Str) → Prop where
  | nil (file : Option Str) : Run u file []
  | cons {file : Option Str} {i : Invocation} {c : Config} {text : Str}
    {steps : List (Invocation × Config × Str)} (h : i.run u file = some (c, text))
    (hsteps : Run u (some text) steps) : Run u file ((i, c, text) :: steps)

/-- Each command's configuration reads back as it was meant, as long as no end of a line slips through. -/
theorem run_reads_back {u : Unicode} {file : Option Str} {steps : List (Invocation × Config × Str)}
    (hrun : Run u file steps) (h : ∀ s ∈ steps, ∀ a ∈ s.1.verbatim, Unbroken a) :
    ∀ s ∈ steps, readConfig u (some s.2.2) = s.2.1.written u := by
  induction hrun with
  | nil file => exact nofun
  | cons hi hsteps ih =>
    rw [List.forall_mem_cons] at h
    exact List.forall_mem_cons.mpr ⟨Invocation.run_reads hi h.1, ih h.2⟩

def zeroToken : Token := ⟨str "00000000", by decide, by decide⟩

def networkCommand (uuid name : Str) : Invocation := ⟨.network, [uuid, str "private", name], zeroToken⟩

def blockCommand (program : Str) : Invocation :=
  ⟨.ruleAdd, [str "block", str "all", str "any", str "*", program, str "App"], zeroToken⟩

theorem run_reads_back_network :
    ∃ c text, (networkCommand (str "a-b") (str "Home")).run .ascii none = some (c, text) ∧
      readConfig .ascii (some text) = c.written .ascii := by
  have hrun : ((networkCommand (str "a-b") (str "Home")).run .ascii none).isSome = true := by
    decide +kernel
  have hplain : ∀ a ∈ (networkCommand (str "a-b") (str "Home")).verbatim, Unbroken a := by decide
  obtain ⟨⟨c, text⟩, hrun⟩ := Option.isSome_iff_exists.mp hrun
  exact ⟨c, text, hrun, run_reads_back (.cons hrun (.nil _))
    (List.forall_mem_singleton.mpr hplain) _ (.head _)⟩

theorem commands_not_read_back :
    (∃ x ∈ (networkCommand (str "a-b") (str "Home\x01")).run .ascii none,
      (readConfig .ascii (some x.2)).networks ≠ x.1.networks) ∧
    ∃ x ∈ (blockCommand (str "/a\u0085b")).run .ascii none,
      x.1.rules.length = 1 ∧ (readConfig .ascii (some x.2)).rules = [] := by
  decide +kernel

end StainedGlass.Firewall
