import StainedGlass.Firewall.DaemonLaws
import StainedGlass.Firewall.EvaluateLaws

namespace StainedGlass.Firewall

open Lib

theorem length_splitOn (c : Nat) (s : Str) : (s.splitOn c).length = s.count c + 1 := by
  induction s with
  | nil => rfl
  | cons x s ih =>
    rw [List.splitOn_cons_eq_if_modifyHead, List.count_cons]
    split
    · simp [ih]
    · simp [ih]

theorem parseRule_of_parseFields (h : parseFields u (word :: f) = some (.rule r)) : parseRule u f = some r := by
  rw [parseFields] at h
  split_ifs at h
  · unfold parseProfile at h
    split at h
    · simp at h
    · cases h
  · unfold parseGroup at h
    split at h
    · split at h <;> cases h
    · cases h
  · unfold parseNetwork at h
    split at h
    · simp at h
    · cases h
  · simpa using h
  · unfold parseOverride at h
    split at h
    · split at h
      · cases h
      · split at h
        · split at h <;> cases h
        · cases h
    · cases h

theorem tabs_of_parseLine {l : Str} (h : parseLine u l = some (.rule r)) : 8 ≤ l.count 9 := by
  rw [parseLine] at h
  split at h
  · cases h
  have hlen := length_splitOn 9 l
  cases hfields : l.splitOn 9 with
  | nil => simp [hfields] at hlen
  | cons word f =>
    rw [hfields] at h hlen
    have hrule := parseRule_of_parseFields h
    unfold parseRule at hrule
    split at hrule
    · simp only [List.length_cons] at hlen
      omega
    · cases hrule

theorem count_splitlinesFrom (d : Nat) (line s : Str) :
    ∀ l ∈ splitlinesFrom line s, l.count d ≤ line.count d + s.count d := by
  fun_induction splitlinesFrom line s with
  | case1 => simp
  | case2 => simp
  | case3 line s ih =>
    rw [List.forall_mem_cons]
    refine ⟨by omega, fun l hl => (ih l hl).trans ?_⟩
    simp [List.count_cons]
    omega
  | case4 line c s hcr hc ih =>
    rw [List.forall_mem_cons]
    refine ⟨by omega, fun l hl => (ih l hl).trans ?_⟩
    rw [List.count_nil, List.count_cons]
    omega
  | case5 line c s hcr hc ih =>
    refine fun l hl => (ih l hl).trans ?_
    simp only [List.count_append, List.count_cons, List.count_nil]
    omega

def Rule.frontFields (r : Rule) : List Str :=
  [str "rule", r.id, if r.enabled then str "1" else str "0", r.action.text, profilesText r.profiles,
    protoText r.proto, portsText r.ports]

theorem Rule.line_eq (u : Unicode) {r : Rule} {program : Str} (hp : r.program = some program)
    (hne : program ≠ []) :
    r.line u = [9].intercalate r.frontFields ++ 9 :: (program ++ 9 :: (clean u r.name ++ 9 :: r.source)) := by
  rw [Rule.line, Rule.fields, hp, programText_some hne]
  simp [List.intercalate, Rule.frontFields]

theorem Rule.plain_frontFields {r : Rule} (hid : Plain r.id) : ∀ f ∈ r.frontFields, Plain f := by
  simp only [Rule.frontFields, List.forall_mem_cons]
  refine ⟨by decide, hid, by cases r.enabled <;> decide, by cases r.action <;> decide,
    (isLower_profilesText _).plain, ?_, plain_portsText _, by simp⟩
  cases r.proto with
  | none => decide
  | some proto => cases proto <;> decide

theorem count_intercalate_plain {fields : List Str} (h : ∀ f ∈ fields, Plain f) :
    ([9].intercalate fields).count 9 = fields.length - 1 := by
  have hsplit := length_splitOn 9 ([9].intercalate fields)
  cases fields with
  | nil => rfl
  | cons f fields =>
    rw [List.splitOn_intercalate 9 (fun f hf => (h f hf).notMem_tab) (List.cons_ne_nil _ _)] at hsplit
    rw [List.length_cons] at hsplit ⊢
    omega

theorem entries_cut (u : Unicode) {r : Rule} {program : Str} (hid : Plain r.id)
    (hsource : Plain r.source) (hp : r.program = some program) (htab : 9 ∉ program)
    (hcut : ¬ ∀ c ∈ program, isBreak c = false) : ∀ x, Entry.rule x ∉ r.entries u := by
  intro x hx
  obtain ⟨l, hl, hparse⟩ := List.mem_filterMap.mp hx
  have htabs := tabs_of_parseLine hparse
  obtain ⟨b, t, hprogram, hb⟩ := exists_first_break hcut
  set a := program.takeWhile fun c => !isBreak c
  have hne : program ≠ [] := by
    rintro rfl
    simp at hprogram
  have ha : ∀ c ∈ a, isBreak c = false := fun c hc => by simpa using List.mem_takeWhile_imp hc
  have hfront := Rule.plain_frontFields (r := r) hid
  have hbreak : ∀ c ∈ [9].intercalate r.frontFields ++ 9 :: a, isBreak c = false := by
    intro c hc
    obtain hc | hc := List.mem_append.mp hc
    · exact isBreak_intercalate hfront c hc
    · obtain rfl | hc := List.mem_cons.mp hc
      · decide
      · exact ha c hc
  have hline : r.line u ++ [10] = ([9].intercalate r.frontFields ++ 9 :: a) ++
      b :: (t ++ 9 :: (clean u r.name ++ 9 :: (r.source ++ [10]))) := by
    rw [Rule.line_eq u hp hne]
    nth_rewrite 1 [hprogram]
    simp
  have htaba : 9 ∉ a := fun h => htab (List.takeWhile_subset _ h)
  have htabt : 9 ∉ t := fun h => htab (hprogram ▸ by simp [h])
  obtain ⟨more, hmore⟩ := splitlinesFrom_break hb (t ++ 9 :: (clean u r.name ++ 9 :: (r.source ++ [10])))
  rw [splitlines, hline, splitlinesFrom_unbroken hbreak, hmore, List.nil_append] at hl
  obtain rfl | hl := List.mem_cons.mp hl
  · rw [List.count_append, count_intercalate_plain hfront, List.count_cons_self,
      List.count_eq_zero_of_not_mem htaba] at htabs
    simp [Rule.frontFields] at htabs
  · have hcount := count_splitlinesFrom 9 [] (b :: (t ++ 9 :: (clean u r.name ++ 9 :: (r.source ++ [10])))) l
      (by rw [hmore]; exact List.mem_cons_of_mem _ hl)
    have hb9 : b ≠ 9 := by
      rintro rfl
      cases hb
    have h1 := List.count_eq_zero_of_not_mem htabt
    have h2 := List.count_eq_zero_of_not_mem (clean_plain u r.name).notMem_tab
    have h3 := List.count_eq_zero_of_not_mem hsource.notMem_tab
    simp only [List.count_nil, List.count_cons, List.count_append, h1, h2, h3] at hcount
    simp [hb9] at hcount
    omega

section Program

variable {u : Unicode}

/-- A rule that is on is about a listener's program, for a network, whatever it says of it. -/
def Speaks (u : Unicode) (l : Listener) (p : Profile) (r : Rule) : Prop :=
  r.enabled = true ∧ ruleMatches u r l = true ∧ p ∈ r.profiles

theorem speaks_iff : Speaks u l p r ↔ RuleOn u l .allow p r ∨ RuleOn u l .block p r := by
  rw [Speaks, RuleOn, RuleOn]
  cases r.action <;> simp

theorem exists_speaks_written (rules : List Rule) :
    (∃ r ∈ rules.map (Rule.written u), Speaks u l p r) ↔ ∃ r ∈ rules, Speaks u l p r := by
  constructor
  · rintro ⟨r, hmem, hs⟩
    obtain ⟨r, hr, rfl⟩ := List.mem_map.mp hmem
    exact ⟨r, hr, hs⟩
  · rintro ⟨r, hr, hs⟩
    exact ⟨_, List.mem_map_of_mem hr, hs⟩

def Listener.IsOf (u : Unicode) (program : Str) (l : Listener) : Prop :=
  ∃ q, l.named = some q ∧ programKey u q = programKey u program

theorem Listener.IsOf.key {program : Str} {l : Listener} (h : l.IsOf u program) :
    l.program.map (programKey u) = some (programKey u program) := by
  obtain ⟨q, hq, hkey⟩ := h
  rw [(Option.filter_eq_some_iff.mp hq).1, Option.map_some, hkey]

/-- Every listener of the program is let in as named, unless a rule blocks it there. -/
def AllowsProgram (u : Unicode) (conf : Config) (program : Str) (proto : Option Proto)
    (prof : Finset Profile) : Prop :=
  ∀ registry listeners, ∀ d ∈ (evaluate u conf (allRules conf registry) listeners).decisions,
    d.listener.IsOf u program → (proto = none ∨ proto = some d.listener.proto) → ∀ p ∈ prof,
      (¬ ∃ r ∈ allRules conf registry, RuleOn u d.listener .block p r) → p ∈ d.allowed

theorem allowsProgram_iff {conf : Config} {program : Str} : AllowsProgram u conf program proto prof ↔
      ∀ l : Listener, l.IsOf u program → (proto = none ∨ proto = some l.proto) → ∀ p ∈ prof,
        ∃ r ∈ conf.rules, Speaks u l p r := by
  constructor
  · intro h l hl hproto p hp
    by_contra hnone
    -- no group speaks for a program of a person
    let l' : Listener := { l with kind := .windows }
    have hrules : allRules conf [] = conf.rules := List.append_nil _
    have hd : (⟨l', allowedOn u (groupRules u conf) conf.rules l', stateOf u conf conf.rules l'⟩ : Decision) ∈
        (evaluate u conf (allRules conf []) [l']).decisions := by
      rw [hrules, evaluate_decisions]
      exact .head _
    have hallowed := h [] [l'] _ hd hl hproto p hp
    rw [hrules] at hallowed
    have hblock : ¬ ∃ r ∈ conf.rules, RuleOn u l' .block p r := by
      rintro ⟨r, hr, hon⟩
      exact hnone ⟨r, hr, speaks_iff.mpr (.inr hon)⟩
    have hmem := hallowed hblock
    obtain ⟨hgroup | ⟨-, r, hr, hon⟩, -⟩ := (mem_allowedOn u conf conf.rules l' p).mp hmem
    · simp [groupsOpen, l'] at hgroup
    · exact hnone ⟨r, hr, speaks_iff.mpr (.inl hon)⟩
  · intro h registry listeners d hd hl hproto p hp hblock
    rw [evaluate_decisions] at hd
    obtain ⟨l, -, rfl⟩ := List.mem_map.mp hd
    obtain ⟨r, hr, hs⟩ := h l hl hproto p hp
    have hr : r ∈ allRules conf registry := List.mem_append_left _ hr
    have hnamed : l.named.isSome = true := by
      obtain ⟨q, hq, -⟩ := hl
      rw [hq]
      rfl
    obtain hon | hon := speaks_iff.mp hs
    · exact (mem_allowedOn u conf _ l p).mpr ⟨.inr ⟨hnamed, r, hr, hon⟩, fun hb => hblock hb.2⟩
    · exact absurd ⟨r, hr, hon⟩ hblock

theorem updateFirst_eq (q : Rule → Bool) (f : Rule → Rule) (rules : List Rule) :
    rules.find? q = none ∧ updateFirst q f rules = none ∨
    ∃ front r back, rules = front ++ r :: back ∧ q r = true ∧ rules.find? q = some r ∧
      updateFirst q f rules = some (f r, front ++ f r :: back) := by
  induction rules with
  | nil => exact .inl ⟨rfl, rfl⟩
  | cons r rules ih =>
    cases hr : q r with
    | true =>
      refine .inr ⟨[], r, rules, rfl, hr, List.find?_cons_of_pos hr, ?_⟩
      rw [updateFirst, if_pos hr]
      rfl
    | false =>
      rw [List.find?_cons_of_neg (by simp [hr]), updateFirst, if_neg (by simp [hr])]
      obtain ⟨hfind, hnone⟩ | ⟨front, x, back, rfl, hx, hfind, hsome⟩ := ih
      · exact .inl ⟨hfind, by rw [hnone]; rfl⟩
      · exact .inr ⟨r :: front, x, back, rfl, hx, hfind, by rw [hsome]; rfl⟩

/-- The rule that is changed is about the protocol; where there is none and one is added, the
file keeps it. -/
def Fits (u : Unicode) (c : Config) (program : Str) (proto : Proto) : Prop :=
  match c.rules.find? (isAppRule u program) with
  | some r => r.proto = none ∨ r.proto = some proto
  | none => Unbroken program

theorem speaks_app {program : Str} {l : Listener} {r : Rule} (hl : l.IsOf u program)
    (hon : r.enabled = true) (hports : r.ports = none) (hq : r.program = some q)
    (hkey : programKey u q = programKey u program) (hp : p ∈ r.profiles) :
    Speaks u l p r ↔ r.proto = none ∨ r.proto = some l.proto := by
  rw [Speaks, ruleMatches_iff, hports, hq, hl.key]
  simp [hon, hp, hkey, portIn]

section Command

def Rule.allowing (prof : Finset Profile) (name : Str) (r : Rule) : Rule :=
  { r with
    enabled := prof ≠ ∅
    action := .allow
    profiles := orElse prof r.profiles
    name := if name = [] then r.name else name }

def newAllowing (u : Unicode) (token : Token) (prof : Finset Profile) (proto : Option Proto)
    (program name source : Str) : Rule :=
  ⟨token.text, prof ≠ ∅, .allow, orElse prof Finset.univ, proto, none, some program,
    if name = [] then displayName u program else name, source⟩

theorem addRule_cases (u : Unicode) (token : Token) (c : Config) (prof : Finset Profile)
    (proto : Option Proto) (program name source : Str) :
    (∃ front r back, c.rules = front ++ r :: back ∧ isAppRule u program r = true ∧
      c.rules.find? (isAppRule u program) = some r ∧
      (addRule u token c .allow prof proto none (some program) name source).1 =
        { c with rules := front ++ r.allowing prof name :: back }) ∨
    c.rules.find? (isAppRule u program) = none ∧
      (addRule u token c .allow prof proto none (some program) name source).1 =
        { c with rules := c.rules ++ [newAllowing u token prof proto program name source] } := by
  have hfirst := updateFirst_eq (isAppRule u program) (Rule.allowing prof name) c.rules
  unfold addRule
  dsimp only
  split
  · next x rules h =>
    replace h : updateFirst (isAppRule u program) (Rule.allowing prof name) c.rules = some (x, rules) := h
    obtain ⟨-, hnone⟩ | ⟨front, r, back, hrules, hr, hfind, hsome⟩ := hfirst
    · rw [hnone] at h
      cases h
    · rw [hsome] at h
      cases h
      exact .inl ⟨front, r, back, hrules, hr, hfind, rfl⟩
  · next h =>
    replace h : updateFirst (isAppRule u program) (Rule.allowing prof name) c.rules = none := h
    obtain ⟨hfind, -⟩ | ⟨front, r, back, -, -, -, hsome⟩ := hfirst
    · exact .inr ⟨hfind, rfl⟩
    · rw [hsome] at h
      cases h

variable {token : Token} {c : Config} {prof : Finset Profile} {proto : Option Proto} {program : Str}
  {name source : Str} {l : Listener} {p : Profile}

theorem isAppRule_iff {r : Rule} : isAppRule u program r = true ↔
    r.ports = none ∧ ∃ q, r.program = some q ∧ q ≠ [] ∧ programKey u q = programKey u program := by
  rw [isAppRule, Bool.and_eq_true, decide_eq_true_eq, and_comm]
  cases r.program with
  | none => simp
  | some q =>
    cases q with
    | nil => simp
    | cons d q => simp

theorem checkText_inv (h : checkText what s = .ok t) : t = s ∧ 9 ∉ s := by
  rw [checkText] at h
  split at h
  · cases h
  · next hplain =>
    cases h
    refine ⟨rfl, fun htab => hplain (.inr ?_)⟩
    exact List.any_eq_true.mpr ⟨9, htab, by decide⟩

theorem checkProgram_inv (h : checkProgram program = .ok prog) :
    prog = none ∧ program ∈ [str "", str "*"] ∨ prog = some program ∧ 9 ∉ program := by
  rw [checkProgram] at h
  split at h
  · next hany =>
    cases h
    exact .inl ⟨rfl, hany⟩
  · split at h
    · cases h
    · next hx =>
      obtain ⟨rfl, htab⟩ := checkText_inv hx
      split at h
      · cases h
        exact .inr ⟨rfl, htab⟩
      · cases h

theorem tab_of_checkProgram (h : checkProgram program = .ok (some program)) : 9 ∉ program := by
  obtain ⟨hnone, -⟩ | ⟨-, htab⟩ := checkProgram_inv h
  · cases hnone
  · exact htab

theorem rules_foldl_add {entries : List Entry} (h : ∀ x, Entry.rule x ∉ entries) (c : Config) :
    (entries.foldl Config.add c).rules = c.rules := by
  induction entries generalizing c with
  | nil => rfl
  | cons e entries ih =>
    rw [List.foldl_cons, ih fun x hx => h x (List.mem_cons_of_mem _ hx)]
    cases e with
    | rule x => exact absurd List.mem_cons_self (h x)
    | profile p on => rfl
    | group g profiles => rfl
    | network uuid n => rfl
    | override rid o => rfl

theorem rules_of_cut (hc : c.Carried) (hsource : Plain source)
    (hcheck : checkProgram program = .ok (some program)) (hcut : ¬ Unbroken program) :
    (parseConfig u (joinLines ({ c with
      rules := c.rules ++ [newAllowing u token prof proto program name source] }.lines u))).rules =
      c.rules.map (Rule.written u) := by
  have hbreaks : ¬ ∀ d ∈ program, isBreak d = false := by
    intro h
    refine hcut fun d hd hmem => ?_
    have hall : ∀ d ∈ [10, 0x85, 0x2028, 0x2029], isBreak d = true := by decide
    exact absurd (hall d hmem) (by simp [h d hd])
  have hentries := entries_cut u (r := newAllowing u token prof proto program name source)
    token.plain hsource rfl (tab_of_checkProgram hcheck) hbreaks
  rw [parseConfig_append hc, foldl_add_overrides, rules_foldl_add hentries]
  rfl

theorem exists_speaks_addRule (token : Token) (name : Str) (hc : c.Carried) (hsource : Plain source) (hprof : prof ≠ ∅)
    (hcheck : checkProgram program = .ok (some program)) (hl : l.IsOf u program)
    (hproto : proto = none ∨ proto = some l.proto) (hp : p ∈ prof) :
    (∃ r ∈ (parseConfig u (joinLines ((addRule u token c .allow prof proto none (some program)
        name source).1.lines u))).rules, Speaks u l p r) ↔
      Fits u c program l.proto ∨ ∃ r ∈ c.rules, Speaks u l p r := by
  have hmem (s : Finset Profile) : p ∈ orElse prof s := by
    rw [orElse, if_neg hprof]
    exact hp
  have hon : decide (prof ≠ ∅) = true := decide_eq_true hprof
  obtain ⟨front, r, back, hrules, happ, hfind, hadd⟩ | ⟨hfind, hadd⟩ :=
    addRule_cases u token c prof proto program name source
  · obtain ⟨hports, q, hq, -, hkey⟩ := isAppRule_iff.mp happ
    have hcarried : Config.Carried { c with rules := front ++ r.allowing prof name :: back } := by
      have hall := hc.rules
      rw [hrules] at hall
      simp only [List.mem_append, List.mem_cons, or_imp, forall_and, forall_eq] at hall
      refine hc.setRules ?_
      simp only [List.mem_append, List.mem_cons, or_imp, forall_and, forall_eq]
      exact ⟨hall.1, ⟨hall.2.1.id, hall.2.1.program, hall.2.1.source⟩, hall.2.2⟩
    have hchanged : Speaks u l p (r.allowing prof name) ↔ r.proto = none ∨ r.proto = some l.proto :=
      speaks_app hl hon hports hq hkey (hmem r.profiles)
    rw [hadd, parseConfig_written u hcarried, Fits, hfind, hrules]
    change (∃ x ∈ (front ++ r.allowing prof name :: back).map (Rule.written u), _) ↔
      (r.proto = none ∨ r.proto = some l.proto) ∨ _
    rw [exists_speaks_written]
    simp only [List.mem_append, List.mem_cons, or_and_right, exists_or, exists_eq_left, hchanged]
    have hold : Speaks u l p r → r.proto = none ∨ r.proto = some l.proto := fun h =>
      (ruleMatches_iff.mp h.2.1).1
    by_cases hfit : r.proto = none ∨ r.proto = some l.proto
    · exact iff_of_true (.inr (.inl hfit)) (.inl hfit)
    · rw [or_iff_right hfit, or_iff_right hfit, or_iff_right (mt hold hfit)]
  · rw [hadd, Fits, hfind]
    change _ ↔ Unbroken program ∨ _
    by_cases hplain : Unbroken program
    · have hcarried : Config.Carried
          { c with rules := c.rules ++ [newAllowing u token prof proto program name source] } := by
        refine hc.setRules fun x hx => ?_
        obtain hx | hx := List.mem_append.mp hx
        · exact hc.rules x hx
        · rw [List.mem_singleton.mp hx]
          exact ⟨token.plain, checkProgram_ok hcheck hplain, hsource⟩
      have hnew : Speaks u l p (newAllowing u token prof proto program name source) :=
        (speaks_app hl hon rfl rfl rfl (hmem Finset.univ)).mpr hproto
      rw [parseConfig_written u hcarried]
      refine iff_of_true ?_ (.inl hplain)
      exact (exists_speaks_written _).mpr ⟨_, List.mem_append_right _ (.head _), hnew⟩
    · rw [rules_of_cut hc hsource hcheck hplain, exists_speaks_written, or_iff_right hplain]

def allowCommand (token : Token) (profiles proto ports program name : Str) (rest : List Str) :
    Invocation :=
  ⟨.ruleAdd, str "allow" :: profiles :: proto :: ports :: program :: name :: rest, token⟩

variable {file : Option Str} {profilesArg protoArg portsArg : Str} {rest : List Str} {text : Str}

theorem text_of_allowCommand
    (hrun : (allowCommand token profilesArg protoArg portsArg program name rest).run u file =
      some (c, text))
    (hprof : parseProfiles u profilesArg = .ok prof) (hproto : protoOf protoArg = some proto)
    (hports : parsePorts u portsArg = .ok none) (hany : program ∉ [str "", str "*"]) :
    checkProgram program = .ok (some program) ∧ ∃ source, Plain source ∧
      text = joinLines ((addRule u token (readConfig u file) .allow prof proto none (some program)
        name source).1.lines u) := by
  unfold Invocation.run at hrun
  split at hrun
  · cases hrun
  next c' out hexec =>
    obtain ⟨text', htext, heq⟩ := Option.map_eq_some_iff.mp hrun
    cases heq
    rw [writeConfig] at htext
    split at htext
    · cases htext
    rw [← Option.some.inj htext]
    have hallow : actionOf (str "allow") = some .allow := by decide
    change cmdRuleAdd u token (readConfig u file)
      (str "allow" :: profilesArg :: protoArg :: portsArg :: program :: name :: rest) = _ at hexec
    rw [cmdRuleAdd] at hexec
    simp only [hallow, hproto] at hexec
    split_ifs at hexec with hlen hsource
    obtain ⟨prof', hprof', hexec⟩ := bind_eq_ok hexec
    obtain rfl := Except.ok.inj (hprof.symm.trans hprof')
    obtain ⟨ports', hports', hexec⟩ := bind_eq_ok hexec
    obtain rfl := Except.ok.inj (hports.symm.trans hports')
    obtain ⟨prog, hprog, hexec⟩ := bind_eq_ok hexec
    obtain ⟨rfl, -⟩ := (checkProgram_inv hprog).resolve_left fun h => hany h.2
    rw [if_neg (by simp)] at hexec
    obtain ⟨name', hname, hexec⟩ := bind_eq_ok hexec
    rw [(checkText_inv hname).1] at hexec
    have hplain : ∀ s ∈ sources, Plain s := by decide
    injection hexec with hexec
    refine ⟨hprog, _, hplain _ hsource, ?_⟩
    rw [hexec]

/-- When `rule-add allow` lets in the listeners of its program. -/
theorem allowCommand_allows_iff
    (hrun : (allowCommand token profilesArg protoArg portsArg program name rest).run u file =
      some (c, text))
    (hprof : parseProfiles u profilesArg = .ok prof) (hne : prof ≠ ∅)
    (hproto : protoOf protoArg = some proto) (hports : parsePorts u portsArg = .ok none)
    (hany : program ∉ [str "", str "*"]) :
    AllowsProgram u (readConfig u (some text)) program proto prof ↔
      ∀ l : Listener, l.IsOf u program → (proto = none ∨ proto = some l.proto) →
        Fits u (readConfig u file) program l.proto ∨
          ∀ p ∈ prof, ∃ r ∈ (readConfig u file).rules, Speaks u l p r := by
  obtain ⟨hcheck, source, hsource, rfl⟩ := text_of_allowCommand hrun hprof hproto hports hany
  rw [allowsProgram_iff, readConfig_some]
  refine forall₃_congr fun l hl hnamed => ?_
  have hiff (p : Profile) (hp : p ∈ prof) := exists_speaks_addRule token name
    (readConfig_carried u file) hsource hne hcheck hl hnamed hp
  constructor
  · intro h
    by_cases hfits : Fits u (readConfig u file) program l.proto
    · exact .inl hfits
    · exact .inr fun p hp => ((hiff p hp).mp (h p hp)).resolve_left hfits
  · rintro (hfits | hrules) p hp
    · exact (hiff p hp).mpr (.inl hfits)
    · exact (hiff p hp).mpr (.inr (hrules p hp))

end Command

end Program

def allowA (proto : String) : Invocation :=
  allowCommand zeroToken (str "all") (str proto) (str "*") (str "/a") [] []

theorem allowCommand_allows_fresh : ∃ c text, (allowA "tcp").run .ascii none = some (c, text) ∧
    AllowsProgram .ascii (readConfig .ascii (some text)) (str "/a") (some .tcp) Finset.univ := by
  have hsome : ((allowA "tcp").run .ascii none).isSome = true := by decide +kernel
  obtain ⟨⟨c, text⟩, hrun⟩ := Option.isSome_iff_exists.mp hsome
  refine ⟨c, text, hrun, (allowCommand_allows_iff hrun (by decide) (by decide) (by decide)
    (by decide) (by decide)).mpr fun l _ _ => .inl ?_⟩
  exact (by decide : Unbroken (str "/a"))

theorem web_port_le : 80 ≤ 65535 := by decide

def listenerA : Listener := ⟨.tcp, 80, 1, some (str "/a"), .linuxUser, 1000, web_port_le⟩

theorem allowCommand_keeps_udp :
    ∃ x ∈ (allowA "udp").run .ascii none, ∃ y ∈ (allowA "tcp").run .ascii (some x.2),
      (evaluate .ascii (readConfig .ascii (some y.2)) (readConfig .ascii (some y.2)).rules
        [listenerA]).decisions.map (·.allowed) = [∅] ∧
      ∀ r ∈ (readConfig .ascii (some y.2)).rules, r.action = .allow := by
  decide +kernel

end StainedGlass.Firewall
