import StainedGlass.Firewall.Ruleset

namespace StainedGlass.Firewall

open Lib

theorem mem_foldl_insert (ranges rs : List (Nat × Nat)) (x : Nat × Nat) :
    x ∈ ranges.foldl (fun rs r => rs.insert r) rs ↔ x ∈ ranges ∨ x ∈ rs := by
  induction ranges generalizing rs with
  | nil => simp
  | cons r ranges ih =>
    rw [List.foldl_cons, ih, List.mem_insert_iff, List.mem_cons]
    grind

theorem Sets.mem_add (s : Sets) (profiles : Finset Profile) (protos : List Proto)
    (ranges : List (Nat × Nat)) (p : Profile) (proto : Proto) (x : Nat × Nat) :
    x ∈ s.add profiles protos ranges p proto ↔
      (p ∈ profiles ∧ proto ∈ protos ∧ x ∈ ranges) ∨ x ∈ s p proto := by
  rw [Sets.add]
  split
  · next h => simp [mem_foldl_insert, h.1, h.2]
  · next h => grind

structure PortRule (r : Rule) (action : Action) (p : Profile) (proto : Proto) : Prop where
  enabled : r.enabled = true
  no_program : r.program = none
  action_eq : r.action = action
  profile : p ∈ r.profiles
  proto_mem : proto ∈ r.protos

def Rule.covers (r : Rule) (port : Nat) : Prop := Covers r.ranges port

theorem mem_sets_portRule (plan : Plan) (r : Rule) (action : Action) (p : Profile) (proto : Proto)
    (x : Nat × Nat) :
    x ∈ (portRule plan r).sets action p proto ↔
      (PortRule r action p proto ∧ x ∈ r.ranges) ∨ x ∈ plan.sets action p proto := by
  rw [portRule]
  split
  · next hskip =>
    have hnot : ¬ PortRule r action p proto := by
      intro h
      simp [h.enabled, h.no_program] at hskip
    simp [hnot]
  · next hgo =>
    simp only [Bool.not_eq_true', not_or, Bool.not_eq_false, Option.not_isSome_iff_eq_none] at hgo
    have hrule : PortRule r action p proto ↔ r.action = action ∧ p ∈ r.profiles ∧ proto ∈ r.protos :=
      ⟨fun h => ⟨h.action_eq, h.profile, h.proto_mem⟩,
        fun h => ⟨hgo.1, hgo.2, h.1, h.2.1, h.2.2⟩⟩
    rw [hrule]
    cases haction : r.action <;> cases action <;>
      simp [Plan.sets, Sets.mem_add, and_assoc]

theorem mem_sets_foldl_portRule (rules : List Rule) (plan : Plan) (action : Action) (p : Profile)
    (proto : Proto) (x : Nat × Nat) :
    x ∈ (rules.foldl portRule plan).sets action p proto ↔
      (∃ r ∈ rules, PortRule r action p proto ∧ x ∈ r.ranges) ∨ x ∈ plan.sets action p proto := by
  induction rules generalizing plan with
  | nil => simp
  | cons r rules ih =>
    rw [List.foldl_cons, ih, mem_sets_portRule]
    simp only [List.mem_cons, exists_eq_or_imp]
    grind

theorem decideListener_eq (u : Unicode) (groups rules : List Rule) (acc : Plan × List (Int × Str))
    (l : Listener) :
    ∃ state, let plan := (decideListener u groups rules acc l).1
      plan.opens = acc.1.opens.add (allowedOn u groups rules l) [l.proto] [(l.port, l.port)] ∧
      plan.blocks = acc.1.blocks ∧
      plan.decisions = acc.1.decisions ++ [⟨l, allowedOn u groups rules l, state⟩] := by
  obtain ⟨plan, asked⟩ := acc
  rw [decideListener]
  simp only
  split
  · exact ⟨_, rfl, rfl, rfl⟩
  split
  · split <;> exact ⟨_, rfl, rfl, rfl⟩
  · exact ⟨_, rfl, rfl, rfl⟩

theorem foldl_decideListener (u : Unicode) (groups rules : List Rule) (listeners : List Listener)
    (acc : Plan × List (Int × Str)) :
    let plan := (listeners.foldl (decideListener u groups rules) acc).1
    plan.blocks = acc.1.blocks ∧
    (∀ p proto x, x ∈ plan.opens p proto ↔ x ∈ acc.1.opens p proto ∨
      ∃ l ∈ listeners, l.proto = proto ∧ x = (l.port, l.port) ∧ p ∈ allowedOn u groups rules l) ∧
    plan.decisions.map (fun d => (d.listener, d.allowed)) =
      acc.1.decisions.map (fun d => (d.listener, d.allowed)) ++
        listeners.map fun l => (l, allowedOn u groups rules l) := by
  induction listeners generalizing acc with
  | nil => simp
  | cons l listeners ih =>
    obtain ⟨state, hopens, hblocks, hdecisions⟩ := decideListener_eq u groups rules acc l
    obtain ⟨hb, ho, hd⟩ := ih (decideListener u groups rules acc l)
    refine ⟨hb.trans hblocks, fun p proto x => ?_, ?_⟩
    · rw [List.foldl_cons, ho, hopens, Sets.mem_add, List.mem_singleton, List.mem_singleton]
      simp only [List.mem_cons, exists_eq_or_imp]
      constructor
      · rintro ((⟨hp, rfl, hx⟩ | hx) | hx)
        · exact .inr (.inl ⟨rfl, hx, hp⟩)
        · exact .inl hx
        · exact .inr (.inr hx)
      · rintro (hx | ⟨rfl, hx, hp⟩ | hx)
        · exact .inl (.inr hx)
        · exact .inl (.inl ⟨hp, rfl, hx⟩)
        · exact .inr hx
    · rw [List.foldl_cons, hd, hdecisions]
      simp

theorem foldl_portRule_rest (rules : List Rule) (plan : Plan) :
    (rules.foldl portRule plan).decisions = plan.decisions ∧
      (rules.foldl portRule plan).ask = plan.ask := by
  induction rules generalizing plan with
  | nil => exact ⟨rfl, rfl⟩
  | cons r rules ih =>
    rw [List.foldl_cons, (ih _).1, (ih _).2, portRule]
    split
    · exact ⟨rfl, rfl⟩
    · cases r.action <;> exact ⟨rfl, rfl⟩

section Evaluate

variable (u : Unicode) (conf : Config) (rules : List Rule) (listeners : List Listener) (p : Profile)
  (proto : Proto)

theorem mem_evaluate (x : Nat × Nat) :
    (x ∈ (evaluate u conf rules listeners).sets .block p proto ↔
      ∃ r ∈ rules, PortRule r .block p proto ∧ x ∈ r.ranges) ∧
    (x ∈ (evaluate u conf rules listeners).sets .allow p proto ↔
      (∃ r ∈ rules, PortRule r .allow p proto ∧ x ∈ r.ranges) ∨ ∃ l ∈ listeners,
        l.proto = proto ∧ x = (l.port, l.port) ∧ p ∈ allowedOn u (groupRules u conf) rules l) := by
  have hbase := mem_sets_foldl_portRule rules .empty
  have hempty (action : Action) (x : Nat × Nat) : ¬ x ∈ Plan.empty.sets action p proto := by
    cases action <;> exact List.not_mem_nil
  obtain ⟨hblocks, hopens, -⟩ := foldl_decideListener u (groupRules u conf) rules listeners
    (rules.foldl portRule .empty, [])
  refine ⟨?_, (hopens p proto x).trans (or_congr_left ?_)⟩
  · have hsets : (evaluate u conf rules listeners).sets .block =
        (rules.foldl portRule .empty).sets .block := hblocks
    rw [hsets, hbase .block p proto x, or_iff_left (hempty .block x)]
  · exact (hbase .allow p proto x).trans (or_iff_left (hempty .allow x))

theorem decisions_evaluate :
    (evaluate u conf rules listeners).decisions.map (fun d => (d.listener, d.allowed)) =
      listeners.map fun l => (l, allowedOn u (groupRules u conf) rules l) := by
  have h := (foldl_decideListener u (groupRules u conf) rules listeners
    (rules.foldl portRule .empty, [])).2.2
  rwa [(foldl_portRule_rest rules .empty).1] at h

theorem exists_decision_iff (port : Nat) :
    (∃ d ∈ (evaluate u conf rules listeners).decisions, d.listener ∈ listeners ∧
      d.listener.proto = proto ∧ d.listener.port = port ∧ p ∈ d.allowed) ↔
    ∃ l ∈ listeners, l.proto = proto ∧ l.port = port ∧
      p ∈ allowedOn u (groupRules u conf) rules l := by
  have hdecisions := decisions_evaluate u conf rules listeners
  constructor
  · rintro ⟨d, hd, -, hproto, hport, hp⟩
    have hmem := hdecisions ▸ List.mem_map_of_mem (f := fun d : Decision => (d.listener, d.allowed)) hd
    obtain ⟨l, hl, heq⟩ := List.mem_map.mp hmem
    rw [Prod.mk.injEq] at heq
    exact ⟨l, hl, heq.1 ▸ hproto, heq.1 ▸ hport, heq.2 ▸ hp⟩
  · rintro ⟨l, hl, hproto, hport, hp⟩
    have hmem : (l, allowedOn u (groupRules u conf) rules l) ∈ listeners.map fun l =>
      (l, allowedOn u (groupRules u conf) rules l) := List.mem_map.mpr ⟨l, hl, rfl⟩
    rw [← hdecisions] at hmem
    obtain ⟨d, hd, heq⟩ := List.mem_map.mp hmem
    rw [Prod.mk.injEq] at heq
    exact ⟨d, hd, heq.1 ▸ hl, heq.1 ▸ hproto, heq.1 ▸ hport, heq.2 ▸ hp⟩

theorem covers_evaluate_block (port : Nat) :
    Covers ((evaluate u conf rules listeners).sets .block p proto) port ↔
      ∃ r ∈ rules, PortRule r .block p proto ∧ r.covers port := by
  simp only [Covers, Rule.covers, (mem_evaluate u conf rules listeners p proto _).1]
  grind

theorem covers_evaluate_allow (port : Nat) :
    Covers ((evaluate u conf rules listeners).sets .allow p proto) port ↔
      (∃ r ∈ rules, PortRule r .allow p proto ∧ r.covers port) ∨
      ∃ l ∈ listeners, l.proto = proto ∧ l.port = port ∧
        p ∈ allowedOn u (groupRules u conf) rules l := by
  simp only [Covers, Rule.covers, (mem_evaluate u conf rules listeners p proto _).2]
  constructor
  · rintro ⟨x, ⟨r, hr, hrule, hx⟩ | ⟨l, hl, hproto, rfl, hp⟩, hlo, hhi⟩
    · exact .inl ⟨r, hr, hrule, x, hx, hlo, hhi⟩
    · exact .inr ⟨l, hl, hproto, Nat.le_antisymm hlo hhi, hp⟩
  · rintro (⟨r, hr, hrule, x, hx, hlo, hhi⟩ | ⟨l, hl, hproto, rfl, hp⟩)
    · exact ⟨x, .inl ⟨r, hr, hrule, hx⟩, hlo, hhi⟩
    · exact ⟨(l.port, l.port), .inr ⟨l, hl, hproto, rfl, hp⟩, Nat.le_refl _, Nat.le_refl _⟩

theorem Rule.ranges_le (r : Rule) : ∀ x ∈ r.ranges, x.1 ≤ x.2 ∧ x.2 ≤ 65535 := by
  intro x hx
  rw [Rule.ranges] at hx
  split at hx
  · obtain ⟨range, -, rfl⟩ := List.mem_map.mp hx
    exact ⟨range.le, range.hi_le⟩
  · obtain rfl := List.mem_singleton.mp hx
    decide

theorem evaluate_le (action : Action) :
    ∀ x ∈ (evaluate u conf rules listeners).sets action p proto, x.1 ≤ x.2 ∧ x.2 ≤ 65535 := by
  intro x hx
  have hmem := mem_evaluate u conf rules listeners p proto x
  cases action with
  | block =>
    obtain ⟨r, -, -, hr⟩ := hmem.1.mp hx
    exact r.ranges_le x hr
  | allow =>
    obtain ⟨r, -, -, hr⟩ | ⟨l, -, -, rfl, -⟩ := hmem.2.mp hx
    · exact r.ranges_le x hr
    · exact ⟨Nat.le_refl _, l.port_le⟩

end Evaluate

theorem covers_merge (ranges : List (Nat × Nat)) (x : Nat) :
    Covers (merge ranges) x ↔ Covers ranges x := by
  have hsorted : (ranges.mergeSort rangeLe).Pairwise fun a b => a.1 ≤ b.1 := by
    refine (List.pairwise_mergeSort ?_ ?_ ranges).imp ?_
    · intro a b c
      simp only [rangeLe, Bool.or_eq_true, Bool.and_eq_true, decide_eq_true_eq]
      omega
    · intro a b
      simp only [rangeLe, Bool.or_eq_true, Bool.and_eq_true, decide_eq_true_eq]
      omega
    · intro a b
      simp only [rangeLe, Bool.or_eq_true, Bool.and_eq_true, decide_eq_true_eq]
      omega
  rw [merge, covers_coalesce hsorted]
  exact covers_congr (fun r => (ranges.mergeSort_perm rangeLe).mem_iff) x

theorem merge_le {ranges : List (Nat × Nat)} (h : ∀ x ∈ ranges, x.1 ≤ x.2 ∧ x.2 ≤ 65535) :
    ∀ x ∈ merge ranges, x.1 ≤ x.2 ∧ x.2 ≤ 65535 :=
  le_of_mem_coalesce fun x hx => h x ((ranges.mergeSort_perm rangeLe).mem_iff.mp hx)

theorem merge_eq_nil_iff (ranges : List (Nat × Nat)) (h : ∀ x ∈ ranges, x.1 ≤ x.2 ∧ x.2 ≤ 65535) :
    merge ranges = [] ↔ ranges = [] := by
  constructor
  · intro hnil
    cases ranges with
    | nil => rfl
    | cons r ranges =>
      have hcover : Covers (merge (r :: ranges)) r.1 :=
        (covers_merge _ _).mpr ⟨r, .head _, Nat.le_refl _, (h r (.head _)).1⟩
      rw [hnil] at hcover
      exact absurd hcover (not_covers_nil _)
  · rintro rfl
    rw [merge, List.mergeSort_nil]
    rfl

end StainedGlass.Firewall
