import StainedGlass.Firewall.Config

namespace StainedGlass.Firewall

open Lib

@[simp] theorem profileOf_text (p : Profile) : profileOf p.text = some p := by cases p <;> decide

@[simp] theorem groupOf_text (g : Group) : groupOf g.text = some g := by cases g <;> decide

@[simp] theorem categoryOf_text (c : Category) : categoryOf c.text = some c := by cases c <;> decide

@[simp] theorem actionOf_text (a : Action) : actionOf a.text = some a := by cases a <;> decide

@[simp] theorem protoOf_text (p : Option Proto) : protoOf (protoText p) = some p := by
  cases p with
  | none => decide
  | some p => cases p <;> decide

variable (u : Unicode)

theorem clean_plain (s : Str) : Plain (clean u s) := by
  intro c hc
  obtain ⟨d, -, rfl⟩ := List.mem_map.mp hc
  split
  · next h =>
    simp only [Bool.and_eq_true, decide_eq_true_eq] at h
    refine ⟨h.2, ?_⟩
    cases hbreak : isBreak d with
    | false => rfl
    | true => simp [u.printable_break hbreak] at h
  · decide

variable {s : Str}

theorem clean_eq_self {u : Unicode} (h : ∀ c ∈ s, u.printable c = true) : clean u s = s := by
  have htab : u.printable 9 = false := u.printable_ascii (by decide)
  refine (List.map_congr_left fun c hc => ?_).trans (List.map_id s)
  have hne : c ≠ 9 := by
    rintro rfl
    simp [h 9 hc] at htab
  simp [h c hc, hne]

def IsLower (s : Str) : Prop := ∀ c ∈ s, 33 ≤ c ∧ c < 128 ∧ ¬ (65 ≤ c ∧ c ≤ 90)

instance (s : Str) : Decidable (IsLower s) := inferInstanceAs (Decidable (∀ c ∈ s, _))

theorem IsLower.strip (h : IsLower s) (u : Unicode) : u.strip s = s :=
  u.strip_visible fun c hc => ⟨(h c hc).1, (h c hc).2.1⟩

theorem IsLower.lower (h : IsLower s) (u : Unicode) : u.lower s = s := by
  rw [u.lower_ascii fun c hc => (h c hc).2.1]
  exact (List.map_congr_left fun c hc => if_neg (h c hc).2.2).trans (List.map_id s)

theorem parseProfiles_eq_ascii (h : IsLower s) (u : Unicode) : parseProfiles u s = parseProfiles .ascii s := by
  have hfold (parts : List Str) (hparts : ∀ p ∈ parts, IsLower p) (out : Finset Profile) :
      parts.foldlM (addProfile u) out = parts.foldlM (addProfile .ascii) out := by
    induction parts generalizing out with
    | nil => rfl
    | cons p parts ih =>
      have hp := hparts p (.head _)
      have hadd : addProfile u out p = addProfile .ascii out p := by
        rw [addProfile, addProfile, hp.strip, hp.strip]
      rw [List.foldlM_cons, List.foldlM_cons, hadd]
      exact bind_congr fun out => ih (fun p hp => hparts p (.tail _ hp)) out
  have hparts : ∀ p ∈ s.splitOn 44, IsLower p := fun p hp c hc => h c (mem_splitOn hp c hc).2
  rw [parseProfiles, parseProfiles, h.strip, h.lower, h.strip, h.lower]
  simp only [hfold _ hparts]

theorem isLower_profilesText (profiles : Finset Profile) : IsLower (profilesText profiles) := by
  revert profiles
  decide

@[simp] theorem parseProfiles_profilesText (profiles : Finset Profile) :
    parseProfiles u (profilesText profiles) = .ok profiles := by
  have hascii : ∀ profiles : Finset Profile,
      (parseProfiles .ascii (profilesText profiles)).toOption = some profiles := by decide
  rw [parseProfiles_eq_ascii (isLower_profilesText profiles)]
  have h := hascii profiles
  cases hparse : parseProfiles .ascii (profilesText profiles) with
  | error e => simp [hparse, Except.toOption] at h
  | ok ps => simpa [hparse, Except.toOption] using h

theorem portNumber_dec (h : n ≤ 65535) : portNumber u (dec n) = some n := by
  have hlength : 1 ≤ (dec n).length ∧ (dec n).length ≤ 5 :=
    ⟨List.length_pos_of_ne_nil (dec_ne_nil n), length_dec_le (by decide) (by omega)⟩
  rw [portNumber, if_pos hlength, digitsValue_dec fun c hlo hhi => u.digit_dec ⟨hlo, hhi⟩]

theorem portChars (r : PortRange) : ∀ c ∈ r.text, (48 ≤ c ∧ c ≤ 57) ∨ c = 45 := by
  intro c hc
  rw [PortRange.text] at hc
  split at hc
  · exact .inl (digit_of_mem_dec hc)
  · obtain hc | hc := List.mem_append.mp hc
    · exact .inl (digit_of_mem_dec hc)
    · obtain rfl | hc := List.mem_cons.mp hc
      · exact .inr rfl
      · exact .inl (digit_of_mem_dec hc)

theorem parsePart_text (r : PortRange) : parsePart u r.text = .ok r := by
  have hdash (n : Nat) : 45 ∉ dec n := notMem_dec n (by decide)
  have hlo := portNumber_dec u (r.le.trans r.hi_le)
  have hhi := portNumber_dec u r.hi_le
  have hstrip : u.strip r.text = r.text := u.strip_visible fun c hc => by
    have := portChars r c hc
    omega
  rw [parsePart, hstrip, PortRange.text]
  by_cases heq : r.lo = r.hi
  · have hread : [dec r.lo].mapM (portNumber u) = some [r.lo] := by simp [hlo]
    rw [if_pos heq, List.splitOn_eq_singleton (hdash _), hread]
    have hrange : 1 ≤ r.lo ∧ r.lo ≤ r.lo ∧ r.lo ≤ 65535 := ⟨r.one_le, le_rfl, r.le.trans r.hi_le⟩
    simp only [portRange, dif_pos hrange]
    obtain ⟨lo, hi, h₁, h₂, h₃⟩ := r
    cases heq
    rfl
  · have hread : [dec r.lo, dec r.hi].mapM (portNumber u) = some [r.lo, r.hi] := by simp [hlo, hhi]
    rw [if_neg heq, splitOn_pair (hdash _) (hdash _), hread]
    simp only [portRange, dif_pos (⟨r.one_le, r.le, r.hi_le⟩ : 1 ≤ r.lo ∧ r.lo ≤ r.hi ∧ r.hi ≤ 65535)]

theorem mapM_parsePart (rs : List PortRange) : (rs.map PortRange.text).mapM (parsePart u) = .ok rs := by
  induction rs with
  | nil => rfl
  | cons r rs ih =>
    rw [List.map_cons, List.mapM_cons, parsePart_text, ih]
    rfl

theorem portsText_chars (p : Ports) : ∀ c ∈ portsText (some p), (48 ≤ c ∧ c ≤ 57) ∨ c = 45 ∨ c = 44 := by
  intro c hc
  by_contra hother
  refine notMem_intercalate ?_ ?_ hc
  · rw [List.mem_singleton]
    omega
  · intro s hs hmem
    obtain ⟨r, -, rfl⟩ := List.mem_map.mp hs
    have := portChars r c hmem
    omega

@[simp] theorem parsePorts_portsText (ports : Option Ports) : parsePorts u (portsText ports) = .ok ports := by
  cases ports with
  | none =>
    have hstrip : u.strip (str "*") = str "*" := u.strip_visible (by decide)
    rw [portsText, parsePorts, hstrip]
    rfl
  | some p =>
    have hchars := portsText_chars p
    have hstrip : u.strip (portsText (some p)) = portsText (some p) := u.strip_visible fun c hc => by
      have := hchars c hc
      omega
    have hword : portsText (some p) ∉ ["", "*", "any", "Any"].map str := by
      have hne : portsText (some p) ≠ [] := by
        have hfirst : p.first.text ≠ [] := by
          rw [PortRange.text]
          split
          · exact dec_ne_nil _
          · simp
        cases hrest : p.rest <;> simp [portsText, Ports.list, List.intercalate, hrest, hfirst]
      intro hmem
      simp only [List.map_cons, List.map_nil, List.mem_cons, List.not_mem_nil, or_false] at hmem
      obtain h | h | h | h := hmem
      · exact hne h
      · exact absurd (hchars 42 (h ▸ by decide)) (by decide)
      · exact absurd (hchars 97 (h ▸ by decide)) (by decide)
      · exact absurd (hchars 65 (h ▸ by decide)) (by decide)
    have hsplit : (portsText (some p)).splitOn 44 = p.list.map PortRange.text := by
      refine List.splitOn_intercalate 44 (fun s hs hmem => ?_) (List.cons_ne_nil _ _)
      obtain ⟨r, -, rfl⟩ := List.mem_map.mp hs
      have := portChars r 44 hmem
      omega
    simp only [parsePorts, hstrip, if_neg hword, hsplit, mapM_parsePart]
    rfl

theorem IsLower.plain (h : IsLower s) : Plain s := plain_of_ascii fun c hc => by
  have := h c hc
  omega

theorem plain_portsText (ports : Option Ports) : Plain (portsText ports) := by
  cases ports with
  | none => decide
  | some p =>
    refine plain_of_ascii fun c hc => ?_
    have := portsText_chars p c hc
    omega

structure Reads (u : Unicode) (line : Str) (e : Option Entry) : Prop where
  unbroken : ∀ c ∈ line, isBreak c = false
  parse : parseLine u line = e

theorem isBreak_intercalate (h : ∀ f ∈ fields, Plain f) : ∀ c ∈ [9].intercalate fields, isBreak c = false := by
  intro c hc
  cases hbreak : isBreak c with
  | false => rfl
  | true =>
    refine absurd hc (notMem_intercalate ?_ fun f hf hmem => ?_)
    · rintro hmem
      rw [List.mem_singleton.mp hmem] at hbreak
      cases hbreak
    · simp [(h f hf c hmem).2] at hbreak

theorem parseLine_eq (hd : 97 ≤ d ∧ d ≤ 122) (tail : Str) :
    parseLine u (d :: tail) = parseFields u ((d :: tail).splitOn 9) := by
  have hspace : u.space d = false := u.space_visible (by omega)
  have hhash : startsWith (d :: tail) (str "#") = false := by
    have hne : 35 ≠ d := by omega
    simp [startsWith, str, List.isPrefixOf, hne]
  have hskip : ¬ (u.strip (d :: tail) = [] ∨ startsWith (u.lstrip (d :: tail)) (str "#") = true) := by
    rw [u.lstrip_cons hspace, hhash]
    simpa using u.strip_cons_ne_nil hspace tail
  rw [parseLine, if_neg hskip]

theorem reads_fields {word : Str} (hword : word.head?.any (fun d => 97 ≤ d && d ≤ 122) = true)
    (h : ∀ f ∈ word :: fields, Plain f) :
    Reads u ([9].intercalate (word :: fields)) (parseFields u (word :: fields)) := by
  refine ⟨isBreak_intercalate h, ?_⟩
  obtain ⟨d, w, rfl⟩ : ∃ d w, word = d :: w := by
    cases word with
    | nil => simp at hword
    | cons d w => exact ⟨d, w, rfl⟩
  simp only [List.head?_cons, Option.any_some, Bool.and_eq_true, decide_eq_true_eq] at hword
  obtain ⟨tail, htail⟩ : ∃ tail, [9].intercalate ((d :: w) :: fields) = d :: tail := by
    cases fields <;> simp [List.intercalate]
  rw [htail, parseLine_eq u hword, ← htail,
    List.splitOn_intercalate 9 (fun f hf => (h f hf).notMem_tab) (List.cons_ne_nil _ _)]

theorem reads_profileLine (c : Config) (p : Profile) :
    Reads u (profileLine c p) (some (.profile p (c.profiles p))) := by
  have hplain : ∀ f ∈ [str "profile", p.text, if c.profiles p then str "on" else str "off"],
      Plain f := by
    cases p <;> cases c.profiles _ <;> decide
  have hstate : (decide ((if c.profiles p then str "on" else str "off") ≠ str "off")) = c.profiles p := by
    cases c.profiles p <;> decide
  have h := reads_fields u (by decide) hplain
  refine ⟨h.unbroken, h.parse.trans ?_⟩
  simp only [parseFields, parseProfile, profileOf_text, hstate]
  rfl

theorem reads_groupLine (c : Config) (g : Group) : Reads u (groupLine c g) (some (.group g (c.groups g))) := by
  have hplain : ∀ f ∈ [str "group", g.text, profilesText (c.groups g)], Plain f := by
    simp only [List.forall_mem_cons]
    exact ⟨by decide, by cases g <;> decide, (isLower_profilesText _).plain, nofun⟩
  have h := reads_fields u (by decide) hplain
  refine ⟨h.unbroken, h.parse.trans ?_⟩
  simp only [parseFields, parseGroup, groupOf_text, parseProfiles_profilesText]
  rfl

theorem reads_networkLine {n : Str × Category × Str} (hn : Plain n.1) :
    Reads u (networkLine u n) (some (.network n.1 (n.2.1, clean u n.2.2))) := by
  have hplain : ∀ f ∈ [str "network", n.1, n.2.1.text, clean u n.2.2], Plain f := by
    simp only [List.forall_mem_cons]
    exact ⟨by decide, hn, by cases n.2.1 <;> decide, clean_plain u _, nofun⟩
  have h := reads_fields u (by decide) hplain
  refine ⟨h.unbroken, h.parse.trans ?_⟩
  simp only [parseFields, parseNetwork, categoryOf_text]
  rfl

theorem reads_overrideLine {o : Str × Override} (ho : Plain o.1) :
    Reads u (overrideLine o) (some (.override o.1 o.2)) := by
  obtain ⟨rid, o⟩ := o
  cases o with
  | removed =>
    have hplain : ∀ f ∈ [str "override", rid, str "removed"], Plain f := by
      simp only [List.forall_mem_cons]
      exact ⟨by decide, ho, by decide, nofun⟩
    have h := reads_fields u (by decide) hplain
    exact ⟨h.unbroken, h.parse.trans rfl⟩
  | changed enabled action profiles =>
    have hplain : ∀ f ∈ [str "override", rid, if enabled then str "1" else str "0", action.text,
        profilesText profiles], Plain f := by
      simp only [List.forall_mem_cons]
      exact ⟨by decide, ho, by cases enabled <;> decide, by cases action <;> decide,
        (isLower_profilesText _).plain, nofun⟩
    have h := reads_fields u (by decide) hplain
    refine ⟨h.unbroken, h.parse.trans ?_⟩
    cases enabled <;>
      simp only [parseFields, parseOverride, actionOf_text, parseProfiles_profilesText] <;> rfl

structure Rule.Carried (r : Rule) : Prop where
  id : Plain r.id
  program : ∀ p ∈ r.program, Plain p ∧ p ≠ [] ∧ p ≠ str "*"
  source : Plain r.source

def Rule.written (u : Unicode) (r : Rule) : Rule := { r with name := clean u r.name }

theorem programText_some (h : p ≠ []) : programText (some p) = p := by
  cases p with
  | nil => exact absurd rfl h
  | cons c p => rfl

theorem reads_rule {r : Rule} (hr : r.Carried) : Reads u (r.line u) (some (.rule (r.written u))) := by
  have hprogram : Plain (programText r.program) ∧
      (if programText r.program ∈ [str "*", []] then none else some (programText r.program)) =
        r.program := by
    cases hp : r.program with
    | none => exact ⟨by decide, by decide⟩
    | some p =>
      obtain ⟨hplain, hne, hstar⟩ := hr.program p hp
      rw [programText_some hne]
      exact ⟨hplain, by simp [hne, hstar]⟩
  have hplain : ∀ f ∈ r.fields u, Plain f := by
    simp only [Rule.fields, List.forall_mem_cons]
    refine ⟨by decide, hr.id, by cases r.enabled <;> decide, by cases r.action <;> decide,
      (isLower_profilesText _).plain, ?_, plain_portsText _, hprogram.1, clean_plain u _,
      hr.source, nofun⟩
    cases r.proto with
    | none => decide
    | some proto => cases proto <;> decide
  have henabled : decide ((if r.enabled then str "1" else str "0") = str "1") = r.enabled := by
    cases r.enabled <;> decide
  have h := reads_fields u (by decide) hplain
  refine ⟨h.unbroken, h.parse.trans ?_⟩
  have hparse : parseRule u (r.fields u).tail = some (r.written u) := by
    simp only [Rule.fields, List.tail_cons, parseRule, actionOf_text, protoOf_text,
      parseProfiles_profilesText, parsePorts_portsText, hprogram.2, henabled, List.headD_cons]
    rfl
  simp only [Rule.fields, List.tail_cons] at hparse
  simp only [parseFields, hparse]
  rfl

theorem reads_headLines : ∀ l ∈ headLines, Reads u l none := by
  intro l hl
  have hl : (∀ c ∈ l, isBreak c = false) ∧ l.head? = some 35 := by
    revert l
    decide +kernel
  refine ⟨hl.1, ?_⟩
  obtain ⟨tail, rfl⟩ : ∃ tail, l = 35 :: tail := by
    cases l with
    | nil => simp at hl
    | cons d tail => exact ⟨tail, by simpa using hl.2⟩
  have hspace : u.space 35 = false := u.space_visible (by decide)
  rw [parseLine, if_pos (.inr (by rw [u.lstrip_cons hspace]; rfl))]

theorem filterMap_reads {α : Type} {u : Unicode} {line : α → Str} {e : α → Entry} {xs : List α}
    (h : ∀ x ∈ xs, Reads u (line x) (some (e x))) :
    (xs.map line).filterMap (parseLine u) = xs.map e := by
  rw [List.filterMap_map, ← List.filterMap_eq_map]
  exact List.filterMap_congr fun x hx => (h x hx).parse

@[simp] theorem foldl_add_networks (items : List (Str × Category × Str)) (d : Config) :
    (items.map fun n => Entry.network n.1 n.2).foldl Config.add d =
      { d with networks := items.foldl (fun d x => d.set x.1 x.2) d.networks } := by
  induction items generalizing d with
  | nil => rfl
  | cons n items ih => rw [List.map_cons, List.foldl_cons, ih, List.foldl_cons]; rfl

@[simp] theorem foldl_add_rules (rules : List Rule) (d : Config) :
    (rules.map Entry.rule).foldl Config.add d = { d with rules := d.rules ++ rules } := by
  induction rules generalizing d with
  | nil => simp
  | cons r rules ih => simp [ih, Config.add]

@[simp] theorem foldl_add_overrides (items : List (Str × Override)) (d : Config) :
    (items.map fun o => Entry.override o.1 o.2).foldl Config.add d =
      { d with overrides := items.foldl (fun d x => d.set x.1 x.2) d.overrides } := by
  induction items generalizing d with
  | nil => rfl
  | cons o items ih => rw [List.map_cons, List.foldl_cons, ih, List.foldl_cons]; rfl

structure Config.Carried (c : Config) : Prop where
  networks : ∀ n ∈ c.networks.items, Plain n.1
  rules : ∀ r ∈ c.rules, r.Carried
  overrides : ∀ o ∈ c.overrides.items, Plain o.1
  settings : c.settings = fun _ _ => none

/-- A configuration as the file has it: with the names of its networks and rules cleaned. -/
def Config.written (u : Unicode) (c : Config) : Config :=
  { c with
    networks := c.networks.map fun n => (n.1, clean u n.2)
    rules := c.rules.map (Rule.written u) }

def Config.frontLines (u : Unicode) (c : Config) : List Str :=
  headLines ++ profileOrder.map (profileLine c) ++ groupOrder.map (groupLine c) ++
    c.networks.items.map (networkLine u)

theorem Config.lines_eq (c : Config) :
    c.lines u = c.frontLines u ++ c.rules.map (Rule.line u) ++ c.overrides.items.map overrideLine := rfl

variable {c : Config}

theorem foldl_frontLines (hc : ∀ n ∈ c.networks.items, Plain n.1) (hs : c.settings = fun _ _ => none) :
    ((c.frontLines u).filterMap (parseLine u)).foldl Config.add .default =
      { c.written u with rules := [], overrides := .empty } := by
  have hhead : headLines.filterMap (parseLine u) = [] :=
    List.filterMap_eq_nil_iff.mpr fun l hl => (reads_headLines u l hl).parse
  have hnetworks : (c.networks.items.map (networkLine u)).filterMap (parseLine u) =
      (c.networks.map fun n => (n.1, clean u n.2)).items.map fun n => Entry.network n.1 n.2 := by
    rw [filterMap_reads fun n hn => reads_networkLine u (hc n hn), Dict.map, List.map_map]
    rfl
  rw [Config.frontLines, List.filterMap_append, List.filterMap_append, List.filterMap_append, hhead,
    filterMap_reads fun p _ => reads_profileLine u c p, filterMap_reads fun g _ => reads_groupLine u c g,
    hnetworks, List.foldl_append, foldl_add_networks]
  refine Config.ext ?_ ?_ rfl rfl ?_ hs.symm
  · funext p
    cases p <;> rfl
  · exact Dict.foldl_set (c.networks.map fun n => (n.1, clean u n.2))
  · funext g
    cases g <;> rfl

def Rule.entries (u : Unicode) (r : Rule) : List Entry :=
  (splitlines (r.line u ++ [10])).filterMap (parseLine u)

theorem entries_carried {r : Rule} (hr : r.Carried) : r.entries u = [.rule (r.written u)] := by
  have h := reads_rule u hr
  rw [Rule.entries, splitlines_single h.unbroken, List.filterMap_cons_some h.parse, List.filterMap_nil]

theorem parseConfig_lines (hn : ∀ n ∈ c.networks.items, Plain n.1)
    (ho : ∀ o ∈ c.overrides.items, Plain o.1) (hs : c.settings = fun _ _ => none) :
    parseConfig u (joinLines (c.lines u)) =
      (c.overrides.items.map fun o => Entry.override o.1 o.2).foldl Config.add
        ((c.rules.flatMap (Rule.entries u)).foldl Config.add
          { c.written u with rules := [], overrides := .empty }) := by
  have hfront : ∀ l ∈ c.frontLines u, splitlines (l ++ [10]) = [l] := by
    intro l hl
    simp only [Config.frontLines, List.mem_append, List.mem_map] at hl
    obtain ((hl | ⟨p, -, rfl⟩) | ⟨g, -, rfl⟩) | ⟨n, hmem, rfl⟩ := hl
    · exact splitlines_single (reads_headLines u l hl).unbroken
    · exact splitlines_single (reads_profileLine u c p).unbroken
    · exact splitlines_single (reads_groupLine u c g).unbroken
    · exact splitlines_single (reads_networkLine u (hn n hmem)).unbroken
  have hback : ∀ l ∈ c.overrides.items.map overrideLine, splitlines (l ++ [10]) = [l] := by
    intro l hl
    obtain ⟨o, hmem, rfl⟩ := List.mem_map.mp hl
    exact splitlines_single (reads_overrideLine u (ho o hmem)).unbroken
  have hne : c.lines u ≠ [] := List.cons_ne_nil _ _
  have hwhole {lines : List Str} (h : ∀ l ∈ lines, splitlines (l ++ [10]) = [l]) :
      (lines.flatMap fun l => splitlines (l ++ [10])) = lines :=
    (flatMap_eq_map h).trans (List.map_id lines)
  have hrules : (c.rules.flatMap fun r => splitlines (r.line u ++ [10])).filterMap (parseLine u) =
      c.rules.flatMap (Rule.entries u) := List.filterMap_flatMap
  rw [parseConfig, splitlines_joinLines hne, Config.lines_eq, List.flatMap_append, List.flatMap_append,
    hwhole hfront, hwhole hback, List.flatMap_map, List.filterMap_append, List.filterMap_append,
    List.foldl_append, List.foldl_append, foldl_frontLines u hn hs, hrules,
    filterMap_reads fun o hmem => reads_overrideLine u (ho o hmem)]

theorem flatMap_entries {rules : List Rule} (h : ∀ r ∈ rules, r.Carried) :
    rules.flatMap (Rule.entries u) = (rules.map (Rule.written u)).map Entry.rule := by
  rw [flatMap_eq_map fun r hr => entries_carried u (h r hr), List.map_map]
  rfl

theorem parseConfig_written (hc : c.Carried) : parseConfig u (joinLines (c.lines u)) = c.written u := by
  rw [parseConfig_lines u hc.networks hc.overrides hc.settings, flatMap_entries u hc.rules,
    foldl_add_rules, foldl_add_overrides]
  exact Config.ext rfl rfl rfl (Dict.foldl_set c.overrides) rfl rfl

theorem Config.Carried.setRules (hc : c.Carried) {rules : List Rule}
    (h : ∀ r ∈ rules, r.Carried) : Config.Carried { c with rules := rules } :=
  ⟨hc.networks, h, hc.overrides, hc.settings⟩

theorem Config.Carried.setOverride (hc : c.Carried) (h : Plain rid)
    (o : Override) : Config.Carried { c with overrides := c.overrides.set rid o } := by
  refine ⟨hc.networks, hc.rules, fun x hx => ?_, hc.settings⟩
  obtain rfl | hx := Dict.mem_set hx
  · exact h
  · exact hc.overrides x hx

theorem Config.Carried.setNetwork (hc : c.Carried) (h : Plain uuid)
    (n : Category × Str) : Config.Carried { c with networks := c.networks.set uuid n } := by
  refine ⟨fun x hx => ?_, hc.rules, hc.overrides, hc.settings⟩
  obtain rfl | hx := Dict.mem_set hx
  · exact h
  · exact hc.networks x hx

def Entry.Carried : Entry → Prop
  | .network uuid _ => Plain uuid
  | .rule r => r.Carried
  | .override rid _ => Plain rid
  | _ => True

theorem parseRule_carried (hf : ∀ s ∈ f, Plain s) {r : Rule} (hr : parseRule u f = some r) : r.Carried := by
  unfold parseRule at hr
  split at hr
  · next rid enabled action profiles proto ports program name rest =>
    simp only [List.forall_mem_cons] at hf
    obtain ⟨hid, -, -, -, -, -, hprogram, -, hrest⟩ := hf
    split at hr
    · split at hr
      · obtain rfl := Option.some.inj hr
        refine ⟨hid, fun p hp => ?_, ?_⟩
        · simp only [List.mem_cons, List.not_mem_nil, or_false] at hp
          split at hp
          · cases hp
          · next hne =>
            obtain rfl := Option.some.inj hp
            exact ⟨hprogram, fun h => hne (.inr h), fun h => hne (.inl h)⟩
        · cases rest with
          | nil => exact (by decide : Plain (str "user"))
          | cons s rest => exact hrest s (.head _)
      · cases hr
    · cases hr
  · cases hr

variable {e : Entry}

theorem parseFields_carried (hf : ∀ s ∈ f, Plain s) (h : parseFields u f = some e) : e.Carried := by
  unfold parseFields at h
  split at h
  · cases h
  · next word f =>
    split_ifs at h
    · unfold parseProfile at h
      split at h
      · obtain ⟨p, -, rfl⟩ := Option.map_eq_some_iff.mp h
        trivial
      · cases h
    · unfold parseGroup at h
      split at h
      · split at h
        · cases h
          trivial
        · cases h
      · cases h
    · unfold parseNetwork at h
      split at h
      · obtain ⟨category, -, rfl⟩ := Option.map_eq_some_iff.mp h
        exact hf _ (.tail _ (.head _))
      · cases h
    · obtain ⟨r, hr, rfl⟩ := Option.map_eq_some_iff.mp h
      exact parseRule_carried u (fun s hs => hf s (.tail _ hs)) hr
    · unfold parseOverride at h
      split at h
      · split_ifs at h
        · cases h
          exact hf _ (.tail _ (.head _))
        · split at h
          · split at h
            · cases h
              exact hf _ (.tail _ (.head _))
            · cases h
          · cases h
      · cases h

theorem parseLine_carried (hraw : ∀ d ∈ raw, isBreak d = false) (h : parseLine u raw = some e) : e.Carried := by
  rw [parseLine] at h
  split_ifs at h
  exact parseFields_carried u (fun s hs d hd =>
    ⟨(mem_splitOn hs d hd).1, hraw d (mem_splitOn hs d hd).2⟩) h

theorem Config.Carried.add (hc : c.Carried) (he : e.Carried) : (c.add e).Carried := by
  cases e with
  | profile p on => exact ⟨hc.networks, hc.rules, hc.overrides, hc.settings⟩
  | group g profiles => exact ⟨hc.networks, hc.rules, hc.overrides, hc.settings⟩
  | network uuid n => exact hc.setNetwork he n
  | rule r =>
    refine hc.setRules fun x hx => ?_
    obtain hx | hx := List.mem_append.mp hx
    · exact hc.rules x hx
    · exact List.mem_singleton.mp hx ▸ he
  | override rid o => exact hc.setOverride he o

theorem Config.Carried.foldl {entries : List Entry} (h : ∀ e ∈ entries, e.Carried)
    (hc : c.Carried) : (entries.foldl Config.add c).Carried := by
  induction entries generalizing c with
  | nil => exact hc
  | cons e entries ih =>
    rw [List.forall_mem_cons] at h
    exact ih h.2 (hc.add h.1)

theorem carried_filterMap (text : Str) : ∀ e ∈ (splitlines text).filterMap (parseLine u), e.Carried := by
  have hlines : ∀ l ∈ splitlines text, ∀ c ∈ l, isBreak c = false := isBreak_splitlinesFrom nofun
  intro e he
  obtain ⟨l, hl, he⟩ := List.mem_filterMap.mp he
  exact parseLine_carried u (hlines l hl) he

theorem parseConfig_carried (text : Str) : (parseConfig u text).Carried :=
  Config.Carried.foldl (carried_filterMap u text) ⟨nofun, nofun, nofun, rfl⟩

theorem readConfig_some (text : Str) : readConfig u (some text) = parseConfig u text := by
  rw [readConfig, parseConfig, parseConfig, splitlines, splitlinesFrom_universalNewlines, splitlines]

theorem readConfig_carried (file : Option Str) : (readConfig u file).Carried := by
  cases file with
  | none => exact ⟨nofun, nofun, nofun, rfl⟩
  | some text => exact readConfig_some u text ▸ parseConfig_carried u text

end StainedGlass.Firewall
