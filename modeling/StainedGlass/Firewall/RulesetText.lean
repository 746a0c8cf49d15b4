import StainedGlass.Firewall.RulesetLaws

namespace StainedGlass.Firewall

open Lib

def setBlock (plan : Plan) (p : Profile) (kind : Action) (proto : Proto) : Nft.Block :=
  ⟨Nft.setHeader (setName p kind proto), setBody (plan.sets kind p proto)⟩

def chainBlock (conf : Config) (p : Profile) : Nft.Block :=
  ⟨Nft.chainHeader p.text, chainBody conf p⟩

def setBlocks (plan : Plan) : List Nft.Block :=
  profileOrder.flatMap fun p => [Action.allow, .block].flatMap fun kind =>
    [Proto.tcp, .udp].map fun proto => setBlock plan p kind proto

def rulesetBlocks (conf : Config) (plan : Plan) (ifaces : Dict Str Profile) : List Nft.Block :=
  setBlocks plan ++ ⟨Nft.chainHeader (str "input"), inputBody ifaces⟩ ::
    profileOrder.map (chainBlock conf)

def rulesetHead : List Str :=
  [str "table inet sg_firewall \x7b",
    str "\tcomment \"Stained Glass Firewall (sg-firewall): made by the program, changes here are replaced\""]

variable (conf : Config) (plan : Plan) (ifaces : Dict Str Profile) (p : Profile)

theorem rulesetLines_eq : rulesetLines conf plan ifaces =
      rulesetHead ++ (rulesetBlocks conf plan ifaces).flatMap Nft.Block.lines ++ [str "\x7d"] := by
  simp [rulesetLines, rulesetBlocks, setBlocks, profileSets, profileOrder, setBlock, setLines,
    chainBlock, chainLines, rulesetHead, Nft.Block.lines, Nft.setHeader, Nft.chainHeader, Nft.close]

theorem setBlock_mem
    (kind : Action) (proto : Proto) : setBlock plan p kind proto ∈ rulesetBlocks conf plan ifaces := by
  refine List.mem_append_left _ ?_
  simp only [setBlocks, List.mem_flatMap, List.mem_map]
  exact ⟨p, by cases p <;> decide, kind, by cases kind <;> decide, proto,
    by cases proto <;> decide, rfl⟩

theorem chainBlock_mem : chainBlock conf p ∈ rulesetBlocks conf plan ifaces :=
  List.mem_append_right _ (.tail _ (List.mem_map_of_mem (by cases p <;> decide)))

def rulesetHeaders : List Str :=
  (profileOrder.flatMap fun p => [Action.allow, .block].flatMap fun kind =>
    [Proto.tcp, .udp].map fun proto => Nft.setHeader (setName p kind proto)) ++
    Nft.chainHeader (str "input") :: profileOrder.map fun p => Nft.chainHeader p.text

theorem headers_rulesetBlocks : (rulesetBlocks conf plan ifaces).map Nft.Block.header = rulesetHeaders := rfl

theorem nodup_rulesetHeaders : rulesetHeaders.Nodup := by decide

def InnerLine (l : Str) : Prop := Nft.isInner l = true ∧ 10 ∉ l

instance (l : Str) : Decidable (InnerLine l) := inferInstanceAs (Decidable (_ ∧ _))

theorem innerLine_setBody (src : List (Nat × Nat)) : ∀ l ∈ setBody src, InnerLine l := by
  have hfront : ∀ l ∈ [str "\t\ttype inet_service", str "\t\tflags interval"], InnerLine l := by decide
  have helements : InnerLine (str "\t\telements = \x7b " ++ elements src ++ str " \x7d") := by
    refine ⟨rfl, ?_⟩
    rw [List.mem_append, List.mem_append]
    rintro ((h | h) | h)
    · exact absurd h (by decide)
    · exact Nft.notMem_elementsText (by decide) (by decide) _ h
    · exact absurd h (by decide)
  intro l hl
  rw [setBody, List.mem_append] at hl
  obtain hl | hl := hl
  · exact hfront l hl
  · split at hl
    · exact absurd hl List.not_mem_nil
    · exact List.mem_singleton.mp hl ▸ helements

theorem notMem_nftQuote (s : Str) : 10 ∉ nftQuote s := by
  have hmap : 10 ∉ s.map fun c => if isPlainName c then c else 95 := by
    rw [List.mem_map]
    rintro ⟨c, -, hc⟩
    split at hc
    · next hplain => exact absurd (hc ▸ hplain) (by decide)
    · exact absurd hc (by decide)
  simp [nftQuote, hmap]

theorem innerLine_vmapLine : InnerLine (vmapLine ifaces) := by
  refine ⟨rfl, ?_⟩
  rw [vmapLine, List.mem_append, List.mem_append]
  rintro ((h | h) | h)
  · exact absurd h (by decide)
  · refine notMem_intercalate (by decide) (fun s hs => ?_) h
    obtain ⟨⟨i, p⟩, -, rfl⟩ := List.mem_map.mp hs
    have hgoto : 10 ∉ str " : goto " ++ p.text := by cases p <;> decide
    change 10 ∉ nftQuote i ++ str " : goto " ++ p.text
    rw [List.append_assoc, List.mem_append]
    exact fun h => h.elim (notMem_nftQuote i) hgoto
  · exact absurd h (by decide)

theorem innerLine_inputBody : ∀ l ∈ inputBody ifaces, InnerLine l := by
  intro l hl
  rw [inputBody, List.mem_append, List.mem_append] at hl
  obtain (hl | hl) | hl := hl
  · revert l
    repeat rw [str_ofList]
    decide +kernel
  · split at hl
    · exact absurd hl List.not_mem_nil
    · exact List.mem_singleton.mp hl ▸ innerLine_vmapLine ifaces
  · exact List.mem_singleton.mp hl ▸ by decide

theorem innerLine_chainBody : ∀ l ∈ chainBody conf p, InnerLine l := by
  rw [chainBody]
  cases p <;> split_ifs <;> decide

theorem innerLine_rulesetBlocks : ∀ b ∈ rulesetBlocks conf plan ifaces, ∀ l ∈ b.body, InnerLine l := by
  intro b hb
  simp only [rulesetBlocks, setBlocks, List.mem_append, List.mem_flatMap, List.mem_cons,
    List.mem_map] at hb
  obtain ⟨p, -, kind, -, proto, -, rfl⟩ | rfl | ⟨p, -, rfl⟩ := hb
  · exact innerLine_setBody _
  · exact innerLine_inputBody ifaces
  · exact innerLine_chainBody conf p

theorem splitOn_ruleset : (ruleset conf plan ifaces).splitOn 10 =
      rulesetHead ++ (rulesetBlocks conf plan ifaces).flatMap Nft.Block.lines ++ [str "\x7d", []] := by
  rw [ruleset, splitOn_joinLines]
  · rw [rulesetLines_eq]
    simp
  · rw [rulesetLines_eq]
    simp
  · intro l hl
    rw [rulesetLines_eq, List.mem_append, List.mem_append, List.mem_flatMap] at hl
    obtain (hl | ⟨b, hb, hl⟩) | hl := hl
    · revert l
      rw [rulesetHead, str_ofList, str_ofList]
      decide +kernel
    · have hheader : b.header ∈ rulesetHeaders :=
        headers_rulesetBlocks conf plan ifaces ▸ List.mem_map_of_mem hb
      have hheaders : ∀ l ∈ rulesetHeaders, 10 ∉ l := by decide
      simp only [Nft.Block.lines, List.cons_append, List.mem_cons, List.mem_append,
        List.not_mem_nil, or_false] at hl
      obtain rfl | hl | rfl := hl
      · exact hheaders _ hheader
      · exact (innerLine_rulesetBlocks conf plan ifaces b hb l hl).2
      · decide
    · exact List.mem_singleton.mp hl ▸ by decide

theorem body_ruleset {b : Nft.Block} (hb : b ∈ rulesetBlocks conf plan ifaces) :
    Nft.body b.header ((ruleset conf plan ifaces).splitOn 10) = some b.body := by
  have hheader : b.header ∈ rulesetHeaders :=
    headers_rulesetBlocks conf plan ifaces ▸ List.mem_map_of_mem hb
  have hheaders : ∀ l ∈ rulesetHeaders,
      l ∉ rulesetHead ∧ Nft.isInner l = false ∧ l ≠ Nft.close := by decide
  obtain ⟨hhead, hinner, hclose⟩ := hheaders _ hheader
  rw [splitOn_ruleset]
  exact Nft.body_blocks hb hhead
    (fun b hb l hl => (innerLine_rulesetBlocks conf plan ifaces b hb l hl).1) hinner hclose
    (headers_rulesetBlocks conf plan ifaces ▸ nodup_rulesetHeaders)

theorem body_chain : Nft.body (Nft.chainHeader p.text) ((ruleset conf plan ifaces).splitOn 10) =
      some (chainBody conf p) :=
  body_ruleset (b := chainBlock conf p) conf plan ifaces (chainBlock_mem conf plan ifaces p)

theorem readSet_ruleset {plan : Plan}
    (kind : Action) (proto : Proto) (h : ∀ x ∈ plan.sets kind p proto, x.1 ≤ x.2 ∧ x.2 ≤ 65535) :
    Nft.readSet ((ruleset conf plan ifaces).splitOn 10) (setName p kind proto) =
      some (merge (plan.sets kind p proto)) := by
  have hbody := body_ruleset conf plan ifaces (setBlock_mem conf plan ifaces p kind proto)
  have hset : setBody (plan.sets kind p proto) =
      [str "\t\ttype inet_service", str "\t\tflags interval"] ++
        if merge (plan.sets kind p proto) = [] then []
        else [Nft.elementsLine (merge (plan.sets kind p proto))] := by
    simp only [merge_eq_nil_iff _ h]
    rfl
  exact Nft.readSet_eq (hbody.trans (congrArg some hset)) (by decide) (merge_le h)

def chainStatements (conf : Config) (p : Profile) : List Nft.Statement :=
  (if allowsEcho conf p then
    [.icmpType (str "icmp") (str "echo-request") .accept,
      .icmpType (str "icmpv6") (str "echo-request") .accept] else []) ++
  [.dport (str "tcp") (setName p .block .tcp) .drop, .dport (str "udp") (setName p .block .udp) .drop,
    .dport (str "tcp") (setName p .allow .tcp) .accept,
    .dport (str "udp") (setName p .allow .udp) .accept, .always .drop]

theorem readStatement_chainBody {conf : Config} {p : Profile} (hon : conf.profiles p = true)
    (hexceptions : noExceptions conf p = false)
    (hdefault : conf.settings p .defaultInboundAction ≠ some 0) :
    (chainBody conf p).mapM Nft.readStatement = some (chainStatements conf p) := by
  rw [chainBody, chainStatements, hon, hexceptions, if_neg hdefault]
  cases p <;> cases allowsEcho conf _ <;> decide

theorem runChain_chainStatements {plan : Plan} (proto : Proto) (port : Nat)
    (h : ∀ kind proto, ∀ x ∈ plan.sets kind p proto, x.1 ≤ x.2 ∧ x.2 ≤ 65535) :
    Nft.runChain ((ruleset conf plan ifaces).splitOn 10) (.transport proto.text port)
        (chainStatements conf p) = some .accept ↔
      ¬ Covers (plan.sets .block p proto) port ∧ Covers (plan.sets .allow p proto) port := by
  have hread (kind : Action) (proto : Proto) :=
    readSet_ruleset conf ifaces p kind proto (h kind proto)
  have hne : str "tcp" ≠ str "udp" := by decide
  rw [← covers_merge (plan.sets .block p proto), ← covers_merge (plan.sets .allow p proto)]
  generalize (ruleset conf plan ifaces).splitOn 10 = lines at hread
  cases proto <;> cases hecho : allowsEcho conf p <;>
    simp [chainStatements, hecho, Nft.runChain, Nft.Statement.applies, hread, Proto.text, hne, hne.symm,
      Nft.Statement.verdict] <;> grind

/-- When a new packet is accepted in a network's chain. -/
theorem ruleset_accepts_iff (u : Unicode) (conf : Config) (rules : List Rule)
    (listeners : List Listener) (ifaces : Dict Str Profile) (p : Profile) (proto : Proto) (port : Nat)
    (hon : conf.profiles p = true) (hexceptions : noExceptions conf p = false)
    (hdefault : conf.settings p .defaultInboundAction ≠ some 0) :
    Nft.verdict (ruleset conf (evaluate u conf rules listeners) ifaces) p.text
        (.transport proto.text port) = some .accept ↔
      (¬ ∃ r ∈ rules, PortRule r .block p proto ∧ r.covers port) ∧
      ((∃ r ∈ rules, PortRule r .allow p proto ∧ r.covers port) ∨
        ∃ d ∈ (evaluate u conf rules listeners).decisions, d.listener ∈ listeners ∧
          d.listener.proto = proto ∧ d.listener.port = port ∧ p ∈ d.allowed) := by
  rw [exists_decision_iff, ← covers_evaluate_block u conf rules listeners p proto port,
    ← covers_evaluate_allow u conf rules listeners p proto port,
    ← runChain_chainStatements conf ifaces p proto port
      (fun kind proto => evaluate_le u conf rules listeners p proto kind),
    Nft.verdict]
  simp only [body_chain, Option.bind_some, readStatement_chainBody hon hexceptions hdefault]

def webRule : Rule :=
  ⟨str "0a1b2c3d", true, .allow, {.priv}, some .tcp, some ⟨⟨80, 80, by decide, by decide, by decide⟩, []⟩,
    none, str "Web", str "user"⟩

theorem ruleset_accepts_web :
    Config.default.profiles .priv = true ∧
    Nft.verdict (ruleset .default (evaluate .ascii .default [webRule] []) .empty) Profile.priv.text
      (.transport Proto.tcp.text 80) = some .accept := by
  refine ⟨rfl, (ruleset_accepts_iff .ascii .default [webRule] [] .empty .priv .tcp 80 rfl rfl
    (by decide)).mpr ⟨?_, .inl ⟨webRule, .head _, ⟨rfl, rfl, rfl, by decide, by decide⟩, ?_⟩⟩⟩
  · rintro ⟨r, hr, hrule, -⟩
    obtain rfl := List.mem_singleton.mp hr
    exact absurd hrule.action_eq (by decide)
  · exact ⟨(80, 80), .head _, by decide⟩

end StainedGlass.Firewall
