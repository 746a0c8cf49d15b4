import StainedGlass.Firewall.BlockLaws

namespace StainedGlass.Firewall

open Lib

theorem ruleMatches_iff {r : Rule} {l : Listener} : ruleMatches u r l = true ↔
    (r.proto = none ∨ r.proto = some l.proto) ∧ portIn r.ports l.port = true ∧ ∃ program, r.program = some program ∧
        l.program.map (programKey u) = some (programKey u program) := by
  rw [ruleMatches]
  split
  · next h => simp [h.1, h.2]
  · next h =>
    rw [not_and_or, not_not, not_not] at h
    cases hport : portIn r.ports l.port with
    | false => simp
    | true =>
      cases hprogram : r.program with
      | none => simp
      | some program => simp [h]

theorem mem_allowedOn (u : Unicode) (conf : Config) (rules : List Rule) (l : Listener)
    (p : Profile) :
    p ∈ allowedOn u (groupRules u conf) rules l ↔
      (p ∈ groupsOpen u conf l ∨ l.named.isSome = true ∧ ∃ r ∈ rules, RuleOn u l .allow p r) ∧
        ¬ (l.named.isSome = true ∧ ∃ r ∈ rules, RuleOn u l .block p r) := by
  rw [allowedOn]
  cases hnamed : l.named with
  | none => simp [groupsOpen]
  | some program =>
    obtain ⟨hallowed, hblocked⟩ := mem_programRules u l p rules (groupsOpen u conf l, ∅)
    simp only [groupsOpen] at hallowed hblocked ⊢
    rw [Finset.mem_sdiff, hallowed, hblocked, or_iff_right (Finset.notMem_empty p)]
    simp only [Option.isSome_some, true_and]

def question (u : Unicode) (rules : List Rule) (l : Listener) : Option Str :=
  if l.kind = .windows ∨ l.kind = .linuxUser then
    l.named.filter fun p => !knownProgram u rules p && (l.proto = .tcp || l.port < ephemeral)
  else none

def stateOf (u : Unicode) (conf : Config) (rules : List Rule) (l : Listener) : State :=
  if allowedOn u (groupRules u conf) rules l ≠ ∅ then .allowed
  else if (question u rules l).isSome then .ask
  else .blocked

def askKey (u : Unicode) (l : Listener) : Int × Option Str :=
  (l.ownerUid, l.named.map (programKey u))

theorem named_of_question {l : Listener} (h : question u rules l = some p) : l.named = some p := by
  rw [question] at h
  split at h
  · exact (Option.filter_eq_some_iff.mp h).1
  · cases h

def Asked (u : Unicode) (acc : Plan × List (Int × Str)) : Prop :=
  ∀ owner key, (owner, key) ∈ acc.2 ↔ ∃ l ∈ acc.1.ask, askKey u l = (owner, some key)

structure Decided (u : Unicode) (conf : Config) (rules : List Rule) (l : Listener)
    (acc acc' : Plan × List (Int × Str)) : Prop where
  decisions : acc'.1.decisions = acc.1.decisions ++
    [⟨l, allowedOn u (groupRules u conf) rules l, stateOf u conf rules l⟩]
  asked : Asked u acc'
  questions : ∀ k, (∃ l' ∈ acc'.1.ask, askKey u l' = k) ↔
    (∃ l' ∈ acc.1.ask, askKey u l' = k) ∨ stateOf u conf rules l = .ask ∧ askKey u l = k

theorem decided_decideListener (u : Unicode) (conf : Config) (rules : List Rule) (l : Listener) (h : Asked u acc) :
    Decided u conf rules l acc (decideListener u (groupRules u conf) rules acc l) := by
  obtain ⟨plan, asked⟩ := acc
  have hquestion : (if l.kind = .windows ∨ l.kind = .linuxUser then
      l.named.filter fun p => !knownProgram u rules p && (l.proto = .tcp || l.port < ephemeral)
    else none) = question u rules l := rfl
  rw [decideListener]
  simp only [hquestion]
  by_cases hallowed : allowedOn u (groupRules u conf) rules l ≠ ∅
  · have hstate : stateOf u conf rules l = .allowed := by rw [stateOf, if_pos hallowed]
    rw [if_pos hallowed]
    exact ⟨by rw [hstate], h, fun k => by simp [hstate]⟩
  · rw [if_neg hallowed]
    cases hq : question u rules l with
    | none =>
      have hstate : stateOf u conf rules l = .blocked := by
        rw [stateOf, if_neg hallowed, hq]
        rfl
      exact ⟨by rw [hstate], h, fun k => by simp [hstate]⟩
    | some p =>
      have hstate : stateOf u conf rules l = .ask := by
        rw [stateOf, if_neg hallowed, hq]
        rfl
      have hkey : askKey u l = (l.ownerUid, some (programKey u p)) := by
        rw [askKey, named_of_question hq]
        rfl
      simp only
      split
      · next hmem =>
        refine ⟨by rw [hstate], h, fun k => ?_⟩
        obtain ⟨l', hl', hk'⟩ := (h l.ownerUid (programKey u p)).mp hmem
        rw [and_iff_right hstate, or_iff_left_of_imp]
        rintro rfl
        exact ⟨l', hl', hk'.trans hkey.symm⟩
      · refine ⟨by rw [hstate], fun owner key => ?_, fun k => ?_⟩
        · simp only [List.mem_cons, Prod.mk.injEq, List.mem_append, List.not_mem_nil, or_false,
            or_and_right, exists_or, exists_eq_left, hkey, h owner key, Option.some.injEq]
          rw [or_comm, eq_comm (a := owner), eq_comm (a := key)]
        · simp [or_and_right, exists_or, hstate]

theorem decided_foldl (u : Unicode) (conf : Config) (rules : List Rule) (listeners : List Listener) (h : Asked u acc) :
    let plan := (listeners.foldl (decideListener u (groupRules u conf) rules) acc).1
    plan.decisions = acc.1.decisions ++ listeners.map (fun l =>
      ⟨l, allowedOn u (groupRules u conf) rules l, stateOf u conf rules l⟩) ∧
    ∀ k, (∃ l ∈ plan.ask, askKey u l = k) ↔ (∃ l ∈ acc.1.ask, askKey u l = k) ∨
      ∃ l ∈ listeners, stateOf u conf rules l = .ask ∧ askKey u l = k := by
  induction listeners generalizing acc with
  | nil => simp
  | cons l listeners ih =>
    have hl := decided_decideListener u conf rules l h
    obtain ⟨hd, hq⟩ := ih hl.asked
    refine ⟨?_, fun k => ?_⟩
    · rw [List.foldl_cons, hd, hl.decisions]
      simp
    · rw [List.foldl_cons, hq, hl.questions]
      simp only [List.mem_cons, exists_eq_or_imp, or_assoc]

theorem asked_start (u : Unicode) (rules : List Rule) : Asked u (rules.foldl portRule .empty, []) := by
  intro owner key
  have hask : (rules.foldl portRule .empty).ask = [] := (foldl_portRule_rest rules .empty).2
  simp [hask]

section Evaluate

variable (u : Unicode) (conf : Config) (rules : List Rule) (listeners : List Listener)

theorem evaluate_decisions :
    (evaluate u conf rules listeners).decisions = listeners.map fun l =>
      ⟨l, allowedOn u (groupRules u conf) rules l, stateOf u conf rules l⟩ := by
  have h := (decided_foldl u conf rules listeners (asked_start u rules)).1
  rwa [(foldl_portRule_rest rules .empty).1] at h

theorem evaluate_questions (k : Int × Option Str) :
    (∃ l ∈ (evaluate u conf rules listeners).ask, askKey u l = k) ↔
      ∃ l ∈ listeners, stateOf u conf rules l = .ask ∧ askKey u l = k := by
  have hask : (rules.foldl portRule .empty).ask = [] := (foldl_portRule_rest rules .empty).2
  refine ((decided_foldl u conf rules listeners (asked_start u rules)).2 k).trans
    (or_iff_right ?_)
  simp [hask]

end Evaluate

section Order

variable {u : Unicode} {conf : Config} {rules rules' : List Rule}

def SameRules (rules rules' : List Rule) : Prop := ∀ r, r ∈ rules ↔ r ∈ rules'

theorem allowedOn_congr (h : SameRules rules rules') (l : Listener) :
    allowedOn u (groupRules u conf) rules l = allowedOn u (groupRules u conf) rules' l := by
  ext p
  rw [mem_allowedOn, mem_allowedOn]
  simp only [h _]

theorem knownProgram_congr (h : SameRules rules rules') (p : Str) :
    knownProgram u rules p = knownProgram u rules' p := by
  rw [Bool.eq_iff_iff, knownProgram, knownProgram, List.any_eq_true, List.any_eq_true]
  exact exists_congr fun r => and_congr_left' (h r)

theorem stateOf_congr (h : SameRules rules rules') (l : Listener) :
    stateOf u conf rules l = stateOf u conf rules' l := by
  have hquestion : question u rules l = question u rules' l := by
    simp only [question, knownProgram_congr h]
  rw [stateOf, stateOf, allowedOn_congr h, hquestion]

structure SamePlan (u : Unicode) (plan plan' : Plan) : Prop where
  sets : ∀ action p proto x, x ∈ plan.sets action p proto ↔ x ∈ plan'.sets action p proto
  decisions : plan.decisions.Perm plan'.decisions
  questions : ∀ k, (∃ l ∈ plan.ask, askKey u l = k) ↔ ∃ l ∈ plan'.ask, askKey u l = k

theorem samePlan_evaluate (h : SameRules rules rules') {listeners listeners' : List Listener}
    (hl : listeners.Perm listeners') :
    SamePlan u (evaluate u conf rules listeners) (evaluate u conf rules' listeners') := by
  refine ⟨fun action p proto x => ?_, ?_, fun k => ?_⟩
  · cases action with
    | block =>
      rw [(mem_evaluate u conf rules listeners p proto x).1,
        (mem_evaluate u conf rules' listeners' p proto x).1]
      simp only [h _]
    | allow =>
      rw [(mem_evaluate u conf rules listeners p proto x).2,
        (mem_evaluate u conf rules' listeners' p proto x).2]
      simp only [h _, hl.mem_iff, allowedOn_congr h]
  · rw [evaluate_decisions, evaluate_decisions]
    simp only [allowedOn_congr h, stateOf_congr h]
    exact hl.map _
  · rw [evaluate_questions, evaluate_questions]
    simp only [hl.mem_iff, stateOf_congr h]

end Order

def AllowsMore (plan plan' : Plan) : Prop :=
  List.Forall₂ (fun d d' => d.listener = d'.listener ∧ d.allowed ⊆ d'.allowed)
    plan.decisions plan'.decisions

structure Opens (plan plan' : Plan) : Prop where
  opens : ∀ p proto, plan.opens p proto ⊆ plan'.opens p proto
  listeners : AllowsMore plan plan'
  blocks : ∀ p proto x, x ∈ plan'.blocks p proto ↔ x ∈ plan.blocks p proto

structure Closes (plan plan' : Plan) : Prop where
  opens : ∀ p proto, plan'.opens p proto ⊆ plan.opens p proto
  listeners : AllowsMore plan' plan
  blocks : ∀ p proto, plan.blocks p proto ⊆ plan'.blocks p proto

section OneMore

variable {u : Unicode} {conf : Config} {rules rules' : List Rule} {r : Rule}

theorem allowsMore_evaluate (h : ∀ l,
    allowedOn u (groupRules u conf) rules l ⊆ allowedOn u (groupRules u conf) rules' l) :
    AllowsMore (evaluate u conf rules listeners) (evaluate u conf rules' listeners) := by
  rw [AllowsMore, evaluate_decisions, evaluate_decisions]
  induction listeners with
  | nil => exact .nil
  | cons l listeners ih => exact .cons ⟨rfl, h l⟩ ih

theorem mem_of_action_ne (hmem : ∀ q, q ∈ rules' ↔ q = r ∨ q ∈ rules) (hq : q ∈ rules') (hne : q.action ≠ r.action) :
    q ∈ rules :=
  ((hmem q).mp hq).resolve_left fun heq => hne (heq ▸ rfl)

theorem allowedOn_subset_of_allow (hmem : ∀ q, q ∈ rules' ↔ q = r ∨ q ∈ rules)
    (hallow : r.action = .allow) (l : Listener) :
    allowedOn u (groupRules u conf) rules l ⊆ allowedOn u (groupRules u conf) rules' l := by
  intro p
  rw [mem_allowedOn, mem_allowedOn]
  rintro ⟨hopen, hblocked⟩
  constructor
  · refine hopen.imp id ?_
    rintro ⟨hn, q, hq, hon⟩
    exact ⟨hn, q, (hmem q).mpr (.inr hq), hon⟩
  · rintro ⟨hn, q, hq, hon⟩
    exact hblocked ⟨hn, q, mem_of_action_ne hmem hq (by simp [hallow, hon.2.2.1]), hon⟩

theorem allowedOn_subset_of_block (hmem : ∀ q, q ∈ rules' ↔ q = r ∨ q ∈ rules)
    (hblock : r.action = .block) (l : Listener) :
    allowedOn u (groupRules u conf) rules' l ⊆ allowedOn u (groupRules u conf) rules l := by
  intro p
  rw [mem_allowedOn, mem_allowedOn]
  rintro ⟨hopen, hblocked⟩
  constructor
  · refine hopen.imp id ?_
    rintro ⟨hn, q, hq, hon⟩
    exact ⟨hn, q, mem_of_action_ne hmem hq (by simp [hblock, hon.2.2.1]), hon⟩
  · rintro ⟨hn, q, hq, hon⟩
    exact hblocked ⟨hn, q, (hmem q).mpr (.inr hq), hon⟩

theorem opens_evaluate (hmem : ∀ q, q ∈ rules' ↔ q = r ∨ q ∈ rules) (hallow : r.action = .allow)
    (listeners : List Listener) :
    Opens (evaluate u conf rules listeners) (evaluate u conf rules' listeners) := by
  have hsub : ∀ l, allowedOn u (groupRules u conf) rules l ⊆
      allowedOn u (groupRules u conf) rules' l := allowedOn_subset_of_allow hmem hallow
  refine ⟨fun p proto x => ?_, allowsMore_evaluate hsub, fun p proto x => ?_⟩
  · refine fun hx => (mem_evaluate u conf rules' listeners p proto x).2.mpr ?_
    obtain ⟨q, hq, hrule⟩ | ⟨l, hl, hproto, hport, hp⟩ :=
      (mem_evaluate u conf rules listeners p proto x).2.mp hx
    · exact .inl ⟨q, (hmem q).mpr (.inr hq), hrule⟩
    · exact .inr ⟨l, hl, hproto, hport, hsub l hp⟩
  · refine (mem_evaluate u conf rules' listeners p proto x).1.trans
      (Iff.trans ?_ (mem_evaluate u conf rules listeners p proto x).1.symm)
    constructor
    · rintro ⟨q, hq, hrule, hx⟩
      exact ⟨q, mem_of_action_ne hmem hq (by simp [hallow, hrule.action_eq]), hrule, hx⟩
    · rintro ⟨q, hq, hrule⟩
      exact ⟨q, (hmem q).mpr (.inr hq), hrule⟩

theorem closes_evaluate (hmem : ∀ q, q ∈ rules' ↔ q = r ∨ q ∈ rules) (hblock : r.action = .block)
    (listeners : List Listener) :
    Closes (evaluate u conf rules listeners) (evaluate u conf rules' listeners) := by
  have hsub : ∀ l, allowedOn u (groupRules u conf) rules' l ⊆
      allowedOn u (groupRules u conf) rules l := allowedOn_subset_of_block hmem hblock
  refine ⟨fun p proto x => ?_, allowsMore_evaluate hsub, fun p proto x => ?_⟩
  · refine fun hx => (mem_evaluate u conf rules listeners p proto x).2.mpr ?_
    obtain ⟨q, hq, hrule, hmemx⟩ | ⟨l, hl, hproto, hport, hp⟩ :=
      (mem_evaluate u conf rules' listeners p proto x).2.mp hx
    · exact .inl ⟨q, mem_of_action_ne hmem hq (by simp [hblock, hrule.action_eq]), hrule, hmemx⟩
    · exact .inr ⟨l, hl, hproto, hport, hsub l hp⟩
  · refine fun hx => (mem_evaluate u conf rules' listeners p proto x).1.mpr ?_
    obtain ⟨q, hq, hrule⟩ := (mem_evaluate u conf rules listeners p proto x).1.mp hx
    exact ⟨q, (hmem q).mpr (.inr hq), hrule⟩

end OneMore

/-- The plan does not depend on any order; a rule that allows closes nothing, one that blocks opens
nothing. -/
theorem evaluate_rules (u : Unicode) (conf : Config) (rules rules' : List Rule)
    (listeners listeners' : List Listener) :
    (rules.Perm rules' → listeners.Perm listeners' →
      SamePlan u (evaluate u conf rules listeners) (evaluate u conf rules' listeners')) ∧
    (∀ r : Rule, r.enabled = true → r.action = .allow → rules'.Perm (r :: rules) →
      Opens (evaluate u conf rules listeners) (evaluate u conf rules' listeners)) ∧
    (∀ r : Rule, r.enabled = true → r.action = .block → rules'.Perm (r :: rules) →
      Closes (evaluate u conf rules listeners) (evaluate u conf rules' listeners)) := by
  refine ⟨fun hr hl => samePlan_evaluate (fun q => hr.mem_iff) hl, fun r _ hallow hr => ?_,
    fun r _ hblock hr => ?_⟩
  · exact opens_evaluate (fun q => hr.mem_iff.trans List.mem_cons) hallow listeners
  · exact closes_evaluate (fun q => hr.mem_iff.trans List.mem_cons) hblock listeners

def allowGame : Rule :=
  ⟨str "4e5f6a7b", true, .allow, {.priv, .pub}, none, none, some (str "/home/ada/game"), str "Game", str "user"⟩

def gameListener : Listener :=
  ⟨.udp, 27015, 4243, some (str "/home/ada/game"), .linuxUser, 1000, Nat.le_of_ble_eq_true rfl⟩

theorem evaluate_rules_server :
    SamePlan .ascii (evaluate .ascii .default [blockServer, allowGame] [serverListener, gameListener])
        (evaluate .ascii .default [allowGame, blockServer] [gameListener, serverListener]) ∧
      Opens (evaluate .ascii .default [blockServer] [serverListener, gameListener])
        (evaluate .ascii .default [blockServer, allowGame] [serverListener, gameListener]) ∧
      Closes (evaluate .ascii .default [allowGame] [serverListener, gameListener])
        (evaluate .ascii .default [blockServer, allowGame] [serverListener, gameListener]) :=
  ⟨(evaluate_rules .ascii .default [blockServer, allowGame] [allowGame, blockServer]
      [serverListener, gameListener] [gameListener, serverListener]).1 (.swap _ _ _) (.swap _ _ _),
    (evaluate_rules .ascii .default [blockServer] [blockServer, allowGame]
      [serverListener, gameListener] []).2.1 allowGame rfl rfl (.swap _ _ _),
    (evaluate_rules .ascii .default [allowGame] [blockServer, allowGame]
      [serverListener, gameListener] []).2.2 blockServer rfl rfl (.refl _)⟩

end StainedGlass.Firewall
