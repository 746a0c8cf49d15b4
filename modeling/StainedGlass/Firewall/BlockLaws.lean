import StainedGlass.Firewall.RulesetText

namespace StainedGlass.Firewall

open Lib

def defaultVerdict (conf : Config) (p : Profile) : Nft.Verdict :=
  if conf.settings p .defaultInboundAction = some 0 then .accept else .drop

def echoStatements (conf : Config) (p : Profile) : List Nft.Statement :=
  if allowsEcho conf p then
    [.icmpType (str "icmp") (str "echo-request") .accept,
      .icmpType (str "icmpv6") (str "echo-request") .accept]
  else []

def onStatements (conf : Config) (p : Profile) : List Nft.Statement :=
  echoStatements conf p ++
  if noExceptions conf p then [.comment, .always .drop]
  else
    [.dport (str "tcp") (setName p .block .tcp) .drop, .dport (str "udp") (setName p .block .udp) .drop,
      .dport (str "tcp") (setName p .allow .tcp) .accept,
      .dport (str "udp") (setName p .allow .udp) .accept, .always (defaultVerdict conf p)]

theorem readStatement_on {conf : Config} (hon : conf.profiles p = true) :
    (chainBody conf p).mapM Nft.readStatement = some (onStatements conf p) := by
  rw [chainBody, onStatements, echoStatements, defaultVerdict, hon]
  by_cases hdefault : conf.settings p .defaultInboundAction = some 0
  · rw [if_pos hdefault, if_pos hdefault]
    cases p <;> cases allowsEcho conf _ <;> cases noExceptions conf _ <;> decide
  · rw [if_neg hdefault, if_neg hdefault]
    cases p <;> cases allowsEcho conf _ <;> cases noExceptions conf _ <;> decide

theorem text_inj {proto proto' : Proto} : proto.text = proto'.text ↔ proto = proto' := by
  cases proto <;> cases proto' <;> decide

theorem runChain_dport {lines : List Str} {set : Str} {rs : List (Nat × Nat)}
    (hread : Nft.readSet lines set = some rs) (proto proto' : Proto) (port : Nat) (v : Nft.Verdict)
    (rest : List Nft.Statement) :
    Nft.runChain lines (.transport proto.text port) (.dport proto'.text set v :: rest) =
      if proto' = proto ∧ Covers rs port then some v
      else Nft.runChain lines (.transport proto.text port) rest := by
  rw [Nft.runChain, Nft.Statement.applies, hread, Option.map_some]
  by_cases h : proto' = proto ∧ Covers rs port
  · rw [if_pos h, decide_eq_true (by rwa [text_inj])]
    rfl
  · rw [if_neg h, decide_eq_false (by rwa [text_inj])]

theorem runChain_echo (conf : Config) (p : Profile) (lines : List Str) (proto : Str) (port : Nat)
    (rest : List Nft.Statement) :
    Nft.runChain lines (.transport proto port) (echoStatements conf p ++ rest) =
      Nft.runChain lines (.transport proto port) rest := by
  rw [echoStatements]
  split <;> rfl

theorem runChain_on (conf : Config) {plan : Plan} (ifaces : Dict Str Profile) (p : Profile)
    (proto : Proto) (port : Nat)
    (h : ∀ kind proto, ∀ x ∈ plan.sets kind p proto, x.1 ≤ x.2 ∧ x.2 ≤ 65535) :
    Nft.runChain ((ruleset conf plan ifaces).splitOn 10) (.transport proto.text port)
        (onStatements conf p) =
      some (if noExceptions conf p then .drop
        else if Covers (plan.sets .block p proto) port then .drop
        else if Covers (plan.sets .allow p proto) port then .accept
        else defaultVerdict conf p) := by
  have hread (kind : Action) (proto : Proto) :=
    readSet_ruleset conf ifaces p kind proto (h kind proto)
  generalize (ruleset conf plan ifaces).splitOn 10 = lines at hread
  rw [onStatements, runChain_echo]
  cases noExceptions conf p with
  | true => rfl
  | false =>
    simp only [Bool.false_eq_true, if_false]
    change Nft.runChain lines (.transport proto.text port)
      [.dport (Proto.text .tcp) (setName p .block .tcp) .drop,
        .dport (Proto.text .udp) (setName p .block .udp) .drop,
        .dport (Proto.text .tcp) (setName p .allow .tcp) .accept,
        .dport (Proto.text .udp) (setName p .allow .udp) .accept,
        .always (defaultVerdict conf p)] = _
    rw [runChain_dport (hread .block .tcp), runChain_dport (hread .block .udp),
      runChain_dport (hread .allow .tcp), runChain_dport (hread .allow .udp)]
    simp only [covers_merge, apply_ite some]
    cases proto <;> simp [Nft.runChain, Nft.Statement.applies, Nft.Statement.verdict]

theorem verdict_on (u : Unicode) {conf : Config} (rules : List Rule) (listeners : List Listener)
    (ifaces : Dict Str Profile) {p : Profile} (proto : Proto) (port : Nat)
    (hon : conf.profiles p = true) :
    Nft.verdict (ruleset conf (evaluate u conf rules listeners) ifaces) p.text
        (.transport proto.text port) =
      some (if noExceptions conf p then .drop
        else if Covers ((evaluate u conf rules listeners).sets .block p proto) port then .drop
        else if Covers ((evaluate u conf rules listeners).sets .allow p proto) port then .accept
        else defaultVerdict conf p) := by
  rw [Nft.verdict, ← runChain_on conf ifaces p proto port
    fun kind proto => evaluate_le u conf rules listeners p proto kind]
  simp only [body_chain, Option.bind_some, readStatement_on hon]

def RuleOn (u : Unicode) (l : Listener) (action : Action) (p : Profile) (r : Rule) : Prop :=
  r.enabled = true ∧ ruleMatches u r l = true ∧ r.action = action ∧ p ∈ r.profiles

theorem mem_programRules (u : Unicode) (l : Listener) (p : Profile) (rules : List Rule)
    (sets : Finset Profile × Finset Profile) :
    (p ∈ (programRules u rules l sets).1 ↔ p ∈ sets.1 ∨ ∃ r ∈ rules, RuleOn u l .allow p r) ∧
      (p ∈ (programRules u rules l sets).2 ↔ p ∈ sets.2 ∨ ∃ r ∈ rules, RuleOn u l .block p r) := by
  induction rules generalizing sets with
  | nil => simp [programRules]
  | cons r rules ih =>
    rw [programRules, List.foldl_cons]
    change (p ∈ (programRules u rules l _).1 ↔ _) ∧ (p ∈ (programRules u rules l _).2 ↔ _)
    rw [(ih _).1, (ih _).2]
    obtain ⟨allowed, blocked⟩ := sets
    by_cases hr : r.enabled = true ∧ ruleMatches u r l = true
    · cases haction : r.action <;> simp [hr, haction, or_assoc, RuleOn]
    · simp only [hr, if_false, List.mem_cons, exists_eq_or_imp, RuleOn]
      grind

def groupsOpen (u : Unicode) (conf : Config) (l : Listener) : Finset Profile :=
  if l.kind = .system then groupAllowed (groupRules u conf) l else ∅

theorem notMem_allowedOn_iff {l : Listener} {r : Rule} (hr : r ∈ rules) (henabled : r.enabled = true)
    (hmatch : ruleMatches u r l = true) (haction : r.action = .block) (hp : p ∈ r.profiles) :
    p ∉ allowedOn u (groupRules u conf) rules l ↔ l.named ≠ none ∨ p ∉ groupsOpen u conf l := by
  rw [allowedOn]
  cases hnamed : l.named with
  | none => simp [groupsOpen]
  | some program =>
    have hblocked := (mem_programRules u l p rules (groupsOpen u conf l, ∅)).2.mpr
      (.inr ⟨r, hr, henabled, hmatch, haction, hp⟩)
    simpa [groupsOpen] using fun _ => hblocked

/-- When a packet to a listener whose program a rule blocks is dropped. -/
theorem blocked_program_dropped_iff (u : Unicode) {conf : Config} {rules : List Rule}
    {listeners : List Listener} (ifaces : Dict Str Profile) {p : Profile} {l : Listener} {r : Rule}
    (hon : conf.profiles p = true) (hl : l ∈ listeners)
    (halone : ∀ l' ∈ listeners, l'.proto = l.proto → l'.port = l.port → l' = l)
    (hr : r ∈ rules) (henabled : r.enabled = true) (hmatch : ruleMatches u r l = true)
    (haction : r.action = .block) (hp : p ∈ r.profiles)
    (hport : ¬ ∃ r ∈ rules, PortRule r .allow p l.proto ∧ r.covers l.port) :
    Nft.verdict (ruleset conf (evaluate u conf rules listeners) ifaces) p.text
        (.transport l.proto.text l.port) = some .drop ↔
      noExceptions conf p = true ∨
      (∃ r ∈ rules, PortRule r .block p l.proto ∧ r.covers l.port) ∨
      conf.settings p .defaultInboundAction ≠ some 0 ∧
        (l.named ≠ none ∨ p ∉ groupsOpen u conf l) := by
  have hallow : Covers ((evaluate u conf rules listeners).sets .allow p l.proto) l.port ↔
      p ∈ allowedOn u (groupRules u conf) rules l := by
    rw [covers_evaluate_allow, or_iff_right hport]
    constructor
    · rintro ⟨l', hl', hproto, hport', hp'⟩
      rwa [← halone l' hl' hproto hport']
    · intro hp'
      exact ⟨l, hl, rfl, rfl, hp'⟩
  rw [verdict_on u rules listeners ifaces l.proto l.port hon, ← covers_evaluate_block u conf rules listeners,
    ← notMem_allowedOn_iff hr henabled hmatch haction hp, ← hallow, defaultVerdict]
  cases noExceptions conf p <;> simp only [Bool.false_eq_true, if_false, if_true, true_or, false_or]
  grind

def serverListener : Listener where
  proto := .tcp
  port := 8080
  inode := 4242
  program := some (str "/home/ada/server")
  kind := .linuxUser
  ownerUid := 1000
  port_le := Nat.le_of_ble_eq_true rfl

def blockServer : Rule :=
  ⟨str "0a1b2c3d", true, .block, {.priv}, none, none, some (str "/home/ada/server"), str "Server",
    str "user"⟩

theorem blocked_server_dropped :
    Config.default.profiles .priv = true ∧ ruleMatches .ascii blockServer serverListener = true ∧
    Nft.verdict (ruleset .default (evaluate .ascii .default [blockServer] [serverListener]) .empty)
      Profile.priv.text (.transport serverListener.proto.text serverListener.port) = some .drop := by
  refine ⟨rfl, by decide, (blocked_program_dropped_iff .ascii .empty (p := .priv) (l := serverListener)
    (r := blockServer) rfl (.head _) ?_ (.head _) rfl (by decide) rfl (by decide) ?_).mpr
    (.inr (.inr ⟨by decide, .inl (by decide)⟩))⟩
  · intro l' hl' _ _
    exact List.mem_singleton.mp hl'
  · rintro ⟨r, hr, hrule, -⟩
    obtain rfl := List.mem_singleton.mp hr
    exact absurd hrule.no_program (by decide)

def letIn : Config :=
  { Config.default with
    settings := fun p s => if p = .priv ∧ s = .defaultInboundAction then some 0 else none }

theorem blocked_server_let_in :
    letIn.profiles .priv = true ∧ ruleMatches .ascii blockServer serverListener = true ∧
    blockServer.enabled = true ∧ blockServer.action = .block ∧ Profile.priv ∈ blockServer.profiles ∧
    Nft.verdict (ruleset letIn (evaluate .ascii letIn [blockServer] [serverListener]) .empty)
      Profile.priv.text (.transport serverListener.proto.text serverListener.port) = some .accept := by
  refine ⟨rfl, by decide, rfl, rfl, by decide, ?_⟩
  rw [verdict_on .ascii [blockServer] [serverListener] .empty serverListener.proto
    serverListener.port rfl]
  decide

end StainedGlass.Firewall
