import StainedGlass.Firewall.CommandsLaws
import StainedGlass.Firewall.EvaluateLaws
import StainedGlass.Firewall.Jobs

namespace StainedGlass.Firewall

open Lib

def Listener.shortLived (l : Listener) : Bool := l.proto = .udp && ephemeral ≤ l.port

def Decision.asksRule (proto : Proto) (port : Nat) (d : Decision) : Bool :=
  d.allowed ≠ Finset.univ && !d.listener.shortLived && d.listener.proto = proto && d.listener.port = port

section Rules

variable {u : Unicode} {token : Nat → Token}

variable {seen : List (Proto × Nat)} {d : Decision}

theorem skipped_iff : (d.allowed = Finset.univ ∨ (d.listener.proto = .udp ∧ ephemeral ≤ d.listener.port) ∨
      (d.listener.proto, d.listener.port) ∈ seen) ↔
    (d.asksRule d.listener.proto d.listener.port = false ∨
      (d.listener.proto, d.listener.port) ∈ seen) := by
  have hasks : d.asksRule d.listener.proto d.listener.port = false ↔
      d.allowed = Finset.univ ∨ (d.listener.proto = .udp ∧ ephemeral ≤ d.listener.port) := by
    simp [Decision.asksRule, Listener.shortLived]
    tauto
  rw [hasks, or_assoc]

theorem asksRule_of_key (h : d.asksRule proto port = true) : d.listener.proto = proto ∧ d.listener.port = port := by
  simp only [Decision.asksRule, Bool.and_eq_true, decide_eq_true_eq] at h
  exact ⟨h.1.2, h.2⟩

theorem asksRule_of_skipped (h : d.asksRule d.listener.proto d.listener.port = false ∨
      (d.listener.proto, d.listener.port) ∈ seen) (hkey : (proto, port) ∉ seen) : d.asksRule proto port = false := by
  rw [Bool.eq_false_iff]
  intro hasks
  obtain ⟨rfl, rfl⟩ := asksRule_of_key hasks
  obtain hno | hseen := h
  · rw [hno] at hasks
    cases hasks
  · exact hkey hseen

theorem of_mem_upgradeRules {ds : List Decision} (h : r ∈ upgradeRules u token n seen ds) :
    ∃ d k, upgradeRule u (token k) d.listener = some r ∧ (d.listener.proto, d.listener.port) ∉ seen ∧
      ds.find? (Decision.asksRule d.listener.proto d.listener.port) = some d := by
  induction ds generalizing n seen with
  | nil => cases h
  | cons d ds ih =>
    rw [upgradeRules] at h
    split at h
    · next hskip =>
      obtain ⟨d', k, hr, hseen, hfind⟩ := ih h
      refine ⟨d', k, hr, hseen, ?_⟩
      rwa [List.find?_cons_of_neg (by simp [asksRule_of_skipped (skipped_iff.mp hskip) hseen])]
    · next hgo =>
      rw [skipped_iff, not_or, Bool.not_eq_false] at hgo
      obtain h | h := List.mem_append.mp h
      · exact ⟨d, n, Option.mem_toList.mp h, hgo.2, List.find?_cons_of_pos hgo.1⟩
      · obtain ⟨d', k, hr, hseen, hfind⟩ := ih h
        rw [List.mem_cons, not_or] at hseen
        refine ⟨d', k, hr, hseen.2, ?_⟩
        rw [List.find?_cons_of_neg, hfind]
        intro hasks
        obtain ⟨hproto, hport⟩ := asksRule_of_key hasks
        exact hseen.1 (Prod.ext hproto.symm hport.symm)

theorem mem_upgradeRules_of_find? (u : Unicode) (token : Nat → Token) (n : Nat) {ds : List Decision}
    (hseen : (proto, port) ∉ seen) (h : ds.find? (Decision.asksRule proto port) = some d) :
    ∃ k, ∀ r ∈ upgradeRule u (token k) d.listener, r ∈ upgradeRules u token n seen ds := by
  induction ds generalizing n seen with
  | nil => cases h
  | cons d' ds ih =>
    rw [upgradeRules]
    cases hasks : d'.asksRule proto port with
    | true =>
      rw [List.find?_cons_of_pos hasks] at h
      obtain rfl := Option.some.inj h
      obtain ⟨rfl, rfl⟩ := asksRule_of_key hasks
      rw [if_neg (by rw [skipped_iff, hasks]; simpa using hseen)]
      exact ⟨n, fun r hr => List.mem_append_left _ (Option.mem_toList.mpr hr)⟩
    | false =>
      rw [List.find?_cons_of_neg (by simp [hasks])] at h
      split
      · exact ih n hseen h
      · next hgo =>
        rw [skipped_iff, not_or, Bool.not_eq_false] at hgo
        have hne : (proto, port) ≠ (d'.listener.proto, d'.listener.port) := by
          intro heq
          obtain ⟨rfl, rfl⟩ := Prod.mk.inj heq
          rw [hasks] at hgo
          cases hgo.1
        have hseen' : (proto, port) ∉ (d'.listener.proto, d'.listener.port) :: seen := by
          simp [hne, hseen]
        obtain ⟨k, hk⟩ := ih (n + 1) hseen' h
        exact ⟨k, fun r hr => List.mem_append_right _ (hk r hr)⟩

end Rules

def ruleProgram (l : Listener) : Option Str :=
  l.named.filter fun _ => l.kind = .system || l.kind = .linuxUser

section Opening

variable {u : Unicode} {token : Token} {f l : Listener} {p : Profile}

theorem onePort_pos (h : 1 ≤ port) (hle : port ≤ 65535) :
    onePort port = some ⟨⟨port, port, h, Nat.le_refl _, hle⟩, []⟩ := by
  rw [onePort, portRange, dif_pos ⟨h, Nat.le_refl _, hle⟩]
  rfl

theorem upgradeRule_eq (h : upgradeRule u token f = some r) : ∃ h name,
    r = ⟨token.text, true, .allow, Finset.univ, some f.proto,
      some ⟨⟨f.port, f.port, h, Nat.le_refl _, f.port_le⟩, []⟩, ruleProgram f, name, str "upgrade"⟩ := by
  obtain ⟨ports, hports, rfl⟩ := Option.map_eq_some_iff.mp h
  by_cases hport : 1 ≤ f.port
  · rw [onePort_pos hport f.port_le] at hports
    obtain rfl := Option.some.inj hports
    refine ⟨hport, ?_⟩
    rw [ruleProgram]
    cases f.named.filter fun _ => f.kind = .system || f.kind = .linuxUser with
    | none => exact ⟨_, rfl⟩
    | some q => exact ⟨_, rfl⟩
  · simp [onePort, portRange, hport, Except.toOption] at hports

theorem portRule_upgradeRule (h : upgradeRule u token f = some r) :
    PortRule r .allow p l.proto ∧ r.covers l.port ↔
      f.proto = l.proto ∧ f.port = l.port ∧ ruleProgram f = none := by
  obtain ⟨_, name, rfl⟩ := upgradeRule_eq h
  constructor
  · rintro ⟨hrule, x, hx, hlo, hhi⟩
    obtain rfl : x = (f.port, f.port) := by simpa [Rule.ranges, Ports.list] using hx
    have hproto : l.proto = f.proto := by simpa [Rule.protos] using hrule.proto_mem
    exact ⟨hproto.symm, Nat.le_antisymm hlo hhi, hrule.no_program⟩
  · rintro ⟨hproto, hport, hnone⟩
    refine ⟨⟨rfl, hnone, rfl, Finset.mem_univ p, by simp [Rule.protos, hproto]⟩, (f.port, f.port), ?_, ?_⟩
    · simp [Rule.ranges, Ports.list]
    · simp [hport]

theorem ruleOn_upgradeRule (h : upgradeRule u token f = some r) :
    RuleOn u l .allow p r ↔
      f.proto = l.proto ∧ f.port = l.port ∧
        ∃ q, ruleProgram f = some q ∧ l.program.map (programKey u) = some (programKey u q) := by
  obtain ⟨hpos, name, rfl⟩ := upgradeRule_eq h
  have hin : portIn (some ⟨⟨f.port, f.port, hpos, Nat.le_refl _, f.port_le⟩, []⟩) l.port = true ↔
      f.port = l.port := by
    simp only [portIn, Ports.list, Option.all_some, List.any_cons, List.any_nil, Bool.or_false,
      Bool.and_eq_true, decide_eq_true_eq]
    omega
  rw [RuleOn, ruleMatches_iff, hin]
  simp

end Opening

def KeepsOpen (u : Unicode) (conf : Config) (listeners : List Listener) : Prop :=
  ∀ later ⊆ listeners, ∀ l ∈ later, l.shortLived = false →
    ∀ (ifaces : Dict Str Profile) (p : Profile),
      Nft.verdict (ruleset conf (evaluate u conf conf.rules later) ifaces) p.text
        (.transport l.proto.text l.port) = some .accept

def RuleOpens (u : Unicode) (rules : List Rule) (l : Listener) (p : Profile) : Prop :=
  (∃ r ∈ rules, PortRule r .allow p l.proto ∧ r.covers l.port) ∨
    l.named.isSome = true ∧ ∃ r ∈ rules, RuleOn u l .allow p r

theorem ruleOpens_written (u : Unicode) (rules : List Rule) (l : Listener) (p : Profile) :
    RuleOpens u (rules.map (Rule.written u)) l p ↔ RuleOpens u rules l p := by
  have hport (r : Rule) : PortRule (r.written u) .allow p l.proto ↔ PortRule r .allow p l.proto :=
    ⟨fun h => ⟨h.enabled, h.no_program, h.action_eq, h.profile, h.proto_mem⟩,
      fun h => ⟨h.enabled, h.no_program, h.action_eq, h.profile, h.proto_mem⟩⟩
  have hcovers (r : Rule) : (r.written u).covers l.port ↔ r.covers l.port := Iff.rfl
  have hon (r : Rule) : RuleOn u l .allow p (r.written u) ↔ RuleOn u l .allow p r := Iff.rfl
  simp only [RuleOpens, List.mem_map, exists_exists_and_eq_and, hport, hcovers, hon]

structure Config.Lenient (conf : Config) : Prop where
  profiles : ∀ p, conf.profiles p = true
  settings : conf.settings = fun _ _ => none
  rules : ∀ r ∈ conf.rules, r.action = .allow

section Keeps

variable {u : Unicode} {conf : Config} {listeners : List Listener}

theorem Config.Lenient.accepts_iff (h : conf.Lenient) (ifaces : Dict Str Profile) (p : Profile)
    (proto : Proto) (port : Nat) :
    Nft.verdict (ruleset conf (evaluate u conf conf.rules listeners) ifaces) p.text
        (.transport proto.text port) = some .accept ↔
      Covers ((evaluate u conf conf.rules listeners).sets .allow p proto) port := by
  have hblock : ¬ Covers ((evaluate u conf conf.rules listeners).sets .block p proto) port := by
    rw [covers_evaluate_block]
    rintro ⟨r, hr, hrule, -⟩
    have := hrule.action_eq
    rw [h.rules r hr] at this
    cases this
  have hexceptions : noExceptions conf p = false := by rw [noExceptions, h.settings]; rfl
  have hdefault : defaultVerdict conf p = .drop := by rw [defaultVerdict, h.settings]; rfl
  rw [verdict_on u conf.rules listeners ifaces proto port (h.profiles p), hexceptions, hdefault,
    if_neg (by decide), if_neg hblock]
  split
  · next hopen => exact iff_of_true rfl hopen
  · next hclosed => exact iff_of_false (by decide) hclosed

theorem Config.Lenient.mem_allowedOn_iff (h : conf.Lenient) (l : Listener) (p : Profile) :
    p ∈ allowedOn u (groupRules u conf) conf.rules l ↔
      p ∈ groupsOpen u conf l ∨ l.named.isSome = true ∧ ∃ r ∈ conf.rules, RuleOn u l .allow p r := by
  rw [mem_allowedOn]
  refine and_iff_left ?_
  rintro ⟨-, r, hr, hon⟩
  have := hon.2.2.1
  rw [h.rules r hr] at this
  cases this

theorem Config.Lenient.keepsOpen_iff (h : conf.Lenient) :
    KeepsOpen u conf listeners ↔ ∀ l ∈ listeners, l.shortLived = false → ∀ p,
      p ∈ groupsOpen u conf l ∨ RuleOpens u conf.rules l p := by
  constructor
  · intro hopen l hl hlong p
    have haccept := hopen [l] (by simpa using hl) l (.head _) hlong .empty p
    rw [h.accepts_iff, covers_evaluate_allow] at haccept
    obtain hport | ⟨l', hl', -, -, hp⟩ := haccept
    · exact .inr (.inl hport)
    · obtain rfl := List.mem_singleton.mp hl'
      exact ((h.mem_allowedOn_iff l' p).mp hp).imp_right .inr
  · intro hopen later hsub l hl hlong ifaces p
    rw [h.accepts_iff, covers_evaluate_allow]
    have hallowed (hp : p ∈ groupsOpen u conf l ∨
        l.named.isSome = true ∧ ∃ r ∈ conf.rules, RuleOn u l .allow p r) :
        p ∈ allowedOn u (groupRules u conf) conf.rules l := (h.mem_allowedOn_iff l p).mpr hp
    obtain hgroup | hport | hprogram := hopen l (hsub hl) hlong p
    · exact .inr ⟨l, hl, rfl, rfl, hallowed (.inl hgroup)⟩
    · exact .inl hport
    · exact .inr ⟨l, hl, rfl, rfl, hallowed (.inr hprogram)⟩

end Keeps

def firstAt (u : Unicode) (listeners : List Listener) (proto : Proto) (port : Nat) : Option Listener :=
  listeners.find? fun l =>
    groupsOpen u .default l ≠ Finset.univ && !l.shortLived && l.proto = proto && l.port = port

def Shares (u : Unicode) (f l : Listener) : Prop :=
  ruleProgram f = none ∨ l.named.isSome = true ∧
    ∃ q, ruleProgram f = some q ∧ l.program.map (programKey u) = some (programKey u q)

section SetUp

variable {u : Unicode} {a : Arrival}

theorem allowedOn_nil (u : Unicode) (conf : Config) (l : Listener) :
    allowedOn u (groupRules u conf) [] l = groupsOpen u conf l := by
  ext p
  rw [mem_allowedOn]
  simp

def arrivalDecision (u : Unicode) (a : Arrival) (l : Listener) : Decision :=
  ⟨l, groupsOpen u .default l,
    stateOf u { Config.default with
      networks := a.connections.foldl (privateNetwork a.active) Config.default.networks } [] l⟩

theorem rules_cmdMigrate (u : Unicode) (a : Arrival) : (cmdMigrate u a .default).rules =
    upgradeRules u a.token 0 [] (a.listeners.map (arrivalDecision u a)) := by
  have hdecisions := evaluate_decisions u { Config.default with
    networks := a.connections.foldl (privateNetwork a.active) Config.default.networks } [] a.listeners
  simp only [allowedOn_nil] at hdecisions
  change [] ++ upgradeRules u a.token 0 [] (evaluate u { Config.default with
    networks := a.connections.foldl (privateNetwork a.active) Config.default.networks } []
      a.listeners).decisions = _
  rw [hdecisions, List.nil_append]
  rfl

theorem find?_arrivalDecision (proto : Proto) (port : Nat) :
    (a.listeners.map (arrivalDecision u a)).find? (Decision.asksRule proto port) =
      (firstAt u a.listeners proto port).map (arrivalDecision u a) := by
  rw [List.find?_map]
  rfl

theorem ruleOpens_cmdMigrate (hports : ∀ l ∈ a.listeners, 1 ≤ l.port) (l : Listener) (p : Profile) :
    RuleOpens u (cmdMigrate u a .default).rules l p ↔
      ∃ f, firstAt u a.listeners l.proto l.port = some f ∧ Shares u f l := by
  rw [rules_cmdMigrate, RuleOpens]
  have hfirst {r : Rule} (hr : r ∈ upgradeRules u a.token 0 [] (a.listeners.map (arrivalDecision u a))) :
      ∃ f k, upgradeRule u (a.token k) f = some r ∧ firstAt u a.listeners f.proto f.port = some f := by
    obtain ⟨d, k, hd, -, hfind⟩ := of_mem_upgradeRules hr
    rw [find?_arrivalDecision] at hfind
    obtain ⟨f, hf, rfl⟩ := Option.map_eq_some_iff.mp hfind
    exact ⟨f, k, hd, hf⟩
  constructor
  · rintro (⟨r, hr, hopen⟩ | ⟨hnamed, r, hr, hon⟩)
    · obtain ⟨f, k, hmade, hf⟩ := hfirst hr
      obtain ⟨hproto, hport, hnone⟩ := (portRule_upgradeRule hmade).mp hopen
      exact ⟨f, hproto ▸ hport ▸ hf, .inl hnone⟩
    · obtain ⟨f, k, hmade, hf⟩ := hfirst hr
      obtain ⟨hproto, hport, hshare⟩ := (ruleOn_upgradeRule hmade).mp hon
      exact ⟨f, hproto ▸ hport ▸ hf, .inr ⟨hnamed, hshare⟩⟩
  · rintro ⟨f, hf, hshare⟩
    have hmem := List.mem_of_find?_eq_some hf
    have hkey := List.find?_some hf
    simp only [Bool.and_eq_true, decide_eq_true_eq] at hkey
    obtain ⟨k, hk⟩ := mem_upgradeRules_of_find? u a.token 0
      (List.not_mem_nil (a := (l.proto, l.port)))
      ((find?_arrivalDecision l.proto l.port).trans (congrArg (Option.map (arrivalDecision u a)) hf))
    have hmade : ∃ r, upgradeRule u (a.token k) f = some r :=
      ⟨_, by rw [upgradeRule, onePort_pos (hports f hmem) f.port_le]; rfl⟩
    obtain ⟨r, hr⟩ := hmade
    obtain hnone | ⟨hnamed, hshare⟩ := hshare
    · exact .inl ⟨r, hk r hr, (portRule_upgradeRule hr).mpr ⟨hkey.1.2, hkey.2, hnone⟩⟩
    · exact .inr ⟨hnamed, r, hk r hr, (ruleOn_upgradeRule hr).mpr ⟨hkey.1.2, hkey.2, hshare⟩⟩

theorem lenient_cmdMigrate (u : Unicode) (a : Arrival) : (cmdMigrate u a .default).Lenient := by
  refine ⟨fun _ => rfl, rfl, fun r hr => ?_⟩
  rw [rules_cmdMigrate] at hr
  obtain ⟨d, k, hd, -, -⟩ := of_mem_upgradeRules hr
  obtain ⟨_, name, rfl⟩ := upgradeRule_eq hd
  rfl

/-- A group opens the port everywhere, or the rule made for it is for the listener's program or all. -/
def StaysOpen (u : Unicode) (listeners : List Listener) (l : Listener) : Prop :=
  groupsOpen u .default l = Finset.univ ∨
    ∃ f, firstAt u listeners l.proto l.port = some f ∧ Shares u f l

theorem staysOpen_iff (l : Listener) (hports : ∀ l ∈ a.listeners, 1 ≤ l.port) :
    (∀ p, p ∈ groupsOpen u .default l ∨ RuleOpens u (cmdMigrate u a .default).rules l p) ↔
      StaysOpen u a.listeners l := by
  simp only [ruleOpens_cmdMigrate hports]
  rw [StaysOpen, forall_or_right, Finset.eq_univ_iff_forall]

theorem migrate_keepsOpen_iff (again : Bool) (hports : ∀ l ∈ a.listeners, 1 ≤ l.port) :
    (KeepsOpen u (cmdMigrate u a .default) a.listeners ↔
      ∀ l ∈ a.listeners, l.shortLived = false → StaysOpen u a.listeners l) ∧
    ∀ text, (Job.migrate again a).edit u none = some text → (cmdMigrate u a .default).Carried →
      (KeepsOpen u (readConfig u (some text)) a.listeners ↔
        ∀ l ∈ a.listeners, l.shortLived = false → StaysOpen u a.listeners l) := by
  have hlenient := lenient_cmdMigrate u a
  constructor
  · rw [hlenient.keepsOpen_iff]
    exact forall₃_congr fun l _ _ => staysOpen_iff l hports
  · intro text htext hcarried
    have hread : readConfig u (some text) = (cmdMigrate u a .default).written u := by
      change (if (none : Option Str).isSome ∧ !again then none
        else writeConfig u (cmdMigrate u a .default)) = some text at htext
      rw [if_neg (by simp), writeConfig] at htext
      split at htext
      · cases htext
      · rw [← Option.some.inj htext, readConfig_some, parseConfig_written u hcarried]
    have hwritten : ((cmdMigrate u a .default).written u).Lenient := by
      refine ⟨hlenient.profiles, hlenient.settings, fun r hmem => ?_⟩
      obtain ⟨r, hr, rfl⟩ := List.mem_map.mp hmem
      exact hlenient.rules r hr
    rw [hread, hwritten.keepsOpen_iff]
    refine forall₃_congr fun l _ _ => Iff.trans (forall_congr' fun p => ?_) (staysOpen_iff l hports)
    exact or_congr Iff.rfl (ruleOpens_written u _ l p)

end SetUp

def webListener (program : String) : Listener :=
  ⟨.tcp, 80, 1, some (str program), .linuxUser, 1000, Nat.le_of_ble_eq_true rfl⟩

def webArrival (programs : List String) : Arrival where
  connections := []
  active := []
  listeners := programs.map webListener
  token := fun _ => zeroToken

theorem migrate_keepsOpen_web :
    KeepsOpen .ascii (cmdMigrate .ascii (webArrival ["/a"]) .default) (webArrival ["/a"]).listeners := by
  refine (migrate_keepsOpen_iff (u := .ascii) (a := webArrival ["/a"]) false ?_).1.mpr ?_
  · simp [webArrival, webListener]
  · intro l hl _
    obtain rfl := List.mem_singleton.mp hl
    have hfirst : firstAt .ascii (webArrival ["/a"]).listeners .tcp 80 = some (webListener "/a") :=
      List.find?_cons_of_pos (by decide)
    exact .inr ⟨webListener "/a", hfirst, .inr ⟨rfl, str "/a", by decide, by decide⟩⟩

theorem migrate_closes_second :
    webListener "/b" ∈ (webArrival ["/a", "/b"]).listeners ∧ (webListener "/b").shortLived = false ∧
    Nft.verdict (ruleset (cmdMigrate .ascii (webArrival ["/a", "/b"]) .default)
      (evaluate .ascii (cmdMigrate .ascii (webArrival ["/a", "/b"]) .default)
        (cmdMigrate .ascii (webArrival ["/a", "/b"]) .default).rules [webListener "/b"]) .empty)
      Profile.pub.text (.transport Proto.tcp.text 80) ≠ some .accept := by
  refine ⟨by simp [webArrival], by decide, ?_⟩
  rw [Ne, (lenient_cmdMigrate .ascii (webArrival ["/a", "/b"])).accepts_iff]
  decide +kernel

end StainedGlass.Firewall
