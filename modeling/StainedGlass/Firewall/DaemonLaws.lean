import StainedGlass.Firewall.CommandsLaws
import StainedGlass.Firewall.Daemon

namespace StainedGlass.Firewall

open Lib

def blockFields (token : Token) : List Str :=
  [str "rule", token.text, str "1", str "block", str "all", str "any", str "*"]

def blockRest (u : Unicode) (program name : Str) : Str :=
  program ++ 9 :: (clean u name ++ 9 :: str "prompt")

theorem line_blockRule (u : Unicode) (token : Token) (hne : program ≠ []) (name : Str) :
    (blockRule u token program name).line u = [9].intercalate (blockFields token) ++
        9 :: blockRest u program (blockRule u token program name).name := by
  have hall : profilesText Finset.univ = str "all" := by decide
  simp only [Rule.line, Rule.fields, blockRule, programText_some hne, hall, Action.text, portsText,
    if_true]
  simp [List.intercalate, blockFields, blockRest, protoText]

theorem plain_blockFields (token : Token) : ∀ f ∈ blockFields token, Plain f := by
  simp only [blockFields, List.forall_mem_cons]
  exact ⟨by decide, token.plain, by decide, by decide, by decide, by decide, by decide, nofun⟩

theorem splitOn_fields (hne : fields ≠ []) (h : ∀ f ∈ fields, 9 ∉ f) (s : Str) :
    ([9].intercalate fields ++ 9 :: s).splitOn 9 = fields ++ s.splitOn 9 := by
  induction fields with
  | nil => exact absurd rfl hne
  | cons f fields ih =>
    rw [List.forall_mem_cons] at h
    cases fields with
    | nil => simpa [List.intercalate] using List.splitOn_append_cons_self_of_not_mem h.1 s
    | cons f' fields =>
      have hcons : [9].intercalate (f :: f' :: fields) ++ 9 :: s =
          f ++ 9 :: ([9].intercalate (f' :: fields) ++ 9 :: s) := by
        simp [List.intercalate]
      rw [hcons, List.splitOn_append_cons_self_of_not_mem h.1, ih (List.cons_ne_nil _ _) h.2]
      rfl

theorem parseLine_block (u : Unicode) (token : Token) (rest : Str) :
    parseLine u ([9].intercalate (blockFields token) ++ 9 :: rest) =
      match rest.splitOn 9 with
      | program :: name :: more => some (.rule ⟨token.text, true, .block, Finset.univ, none, none,
          if program ∈ [str "*", []] then none else some program, name, more.headD (str "user")⟩)
      | _ => none := by
  have hline : [9].intercalate (blockFields token) ++ 9 :: rest =
      114 :: ([117, 108, 101, 9] ++ [9].intercalate (blockFields token).tail ++ 9 :: rest) := by
    simp [blockFields, List.intercalate, str]
  have hall : parseProfiles u (str "all") = .ok Finset.univ :=
    parseProfiles_profilesText u Finset.univ
  have hany : parsePorts u (str "*") = .ok none := parsePorts_portsText u none
  have hblock : actionOf (str "block") = some .block := by decide
  have hproto : protoOf (str "any") = some none := by decide
  have hsplit : ([9].intercalate (blockFields token) ++ 9 :: rest).splitOn 9 =
      blockFields token ++ rest.splitOn 9 :=
    splitOn_fields (List.cons_ne_nil _ _) (fun f hf => (plain_blockFields token f hf).notMem_tab) rest
  rw [hline, parseLine_eq u (by decide), ← hline, hsplit]
  rcases rest.splitOn 9 with _ | ⟨program, _ | ⟨name, more⟩⟩
  · rfl
  · rfl
  · simp only [blockFields, List.cons_append, List.nil_append, parseFields, parseRule, hblock, hproto,
      hall, hany]
    rfl

def restLines (u : Unicode) (program name : Str) : List Str :=
  (splitlines (blockRest u program name ++ [10])).tail

structure Harmless (u : Unicode) (program name : Str) : Prop where
  no_tab : 9 ∉ program.takeWhile fun c => !isBreak c
  not_any : program ≠ str "*"
  inert : ∀ l ∈ restLines u program name, parseLine u l = none

section Line

variable (u : Unicode) (token : Token) {program : Str} (hne : program ≠ []) (name : Str)

theorem isBreak_blockRest (h : ∀ c ∈ program, isBreak c = false) :
    ∀ c ∈ blockRest u program name, isBreak c = false := by
  have hclean := clean_plain u name
  simp only [blockRest, List.mem_append, List.mem_cons]
  rintro c (hc | rfl | hc | rfl | hc)
  · exact h c hc
  · decide
  · exact (hclean c hc).2
  · decide
  · revert c
    decide

theorem isBreak_front : ∀ c ∈ [9].intercalate (blockFields token) ++ [9], isBreak c = false := by
  intro c hc
  obtain hc | hc := List.mem_append.mp hc
  · exact isBreak_intercalate (plain_blockFields token) c hc
  · exact List.mem_singleton.mp hc ▸ by decide

include hne in
theorem entries_unbroken (h : ∀ c ∈ program, isBreak c = false) :
    (blockRule u token program name).entries u =
      (parseLine u ([9].intercalate (blockFields token) ++
        9 :: blockRest u program (blockRule u token program name).name)).toList := by
  have hline : ∀ c ∈ (blockRule u token program name).line u, isBreak c = false := by
    rw [line_blockRule u token hne, List.append_cons]
    intro c hc
    obtain hc | hc := List.mem_append.mp hc
    · exact isBreak_front token c hc
    · exact isBreak_blockRest u _ h c hc
  rw [Rule.entries, splitlines_single hline, line_blockRule u token hne, List.filterMap_cons]
  generalize parseLine u ([9].intercalate (blockFields token) ++ 9 :: _) = e
  cases e <;> rfl

include hne in
theorem entries_broken (hprogram : program = a ++ b :: t) (ha : ∀ c ∈ a, isBreak c = false) (hb : isBreak b = true) :
    (blockRule u token program name).entries u = (parseLine u ([9].intercalate (blockFields token) ++ 9 :: a)).toList ++
        (restLines u program (blockRule u token program name).name).filterMap (parseLine u) := by
  set full := (blockRule u token program name).name with hfull
  obtain ⟨more, hmore⟩ := splitlinesFrom_break hb (t ++ 9 :: (clean u full ++ 9 :: str "prompt") ++ [10])
  have hrest : blockRest u program full ++ [10] =
      a ++ b :: (t ++ 9 :: (clean u full ++ 9 :: str "prompt") ++ [10]) := by
    simp [blockRest, hprogram]
  have hfirst : restLines u program full = more := by
    rw [restLines, splitlines, hrest, splitlinesFrom_unbroken ha, hmore]
    rfl
  have hlines : splitlines ((blockRule u token program name).line u ++ [10]) =
      ([9].intercalate (blockFields token) ++ 9 :: a) :: more := by
    have hline : (blockRule u token program name).line u ++ [10] =
        ([9].intercalate (blockFields token) ++ [9]) ++
          (a ++ b :: (t ++ 9 :: (clean u full ++ 9 :: str "prompt") ++ [10])) := by
      rw [line_blockRule u token hne, ← hrest]
      simp [hfull]
    rw [hline, splitlines, splitlinesFrom_unbroken (isBreak_front token), splitlinesFrom_unbroken ha,
      hmore]
    simp
  rw [Rule.entries, hlines, hfirst, List.filterMap_cons]
  cases parseLine u ([9].intercalate (blockFields token) ++ 9 :: a) <;> rfl

theorem carried_blockRule (h : Plain program) (hne : program ≠ []) (hstar : program ≠ str "*") :
    (blockRule u token program name).Carried := by
  refine ⟨token.plain, ?_, (by decide : Plain (str "prompt"))⟩
  rintro p ⟨⟩
  exact ⟨h, hne, hstar⟩

theorem entries_named_iff (hne : program ≠ []) :
    (∃ r : Rule, (blockRule u token program name).entries u = [.rule r] ∧ r.action = .block ∧
      r.program = some program) ↔ Plain program ∧ program ≠ str "*" := by
  constructor
  · rintro ⟨r, hentries, -, hprogram⟩
    have hr : (Entry.rule r).Carried :=
      carried_filterMap u _ _ (hentries ▸ List.mem_singleton_self _ : _ ∈ Rule.entries u _)
    exact ⟨(hr.program program hprogram).1, (hr.program program hprogram).2.2⟩
  · rintro ⟨hplain, hstar⟩
    exact ⟨_, entries_carried u (carried_blockRule u token name hplain hne hstar), rfl, rfl⟩

theorem entries_ne_nil (hne : program ≠ []) (h : ∀ c ∈ program, isBreak c = false) :
    (blockRule u token program name).entries u ≠ [] := by
  have hmem : 9 ∈ blockRest u program (blockRule u token program name).name := by simp [blockRest]
  obtain ⟨x, y, hrest, hx⟩ := List.eq_append_cons_of_mem hmem
  obtain ⟨z, more, hy⟩ := List.exists_cons_of_ne_nil (List.splitOn_ne_nil 9 y)
  rw [entries_unbroken u token hne name h, parseLine_block, hrest,
    List.splitOn_append_cons_self_of_not_mem hx, hy]
  exact List.cons_ne_nil _ _

theorem harmless_unbroken_iff (h : ∀ c ∈ program, isBreak c = false) :
    Harmless u program name ↔ Plain program ∧ program ≠ str "*" := by
  have htake : (program.takeWhile fun c => !isBreak c) = program :=
    List.takeWhile_eq_self_iff.mpr fun c hc => by simp [h c hc]
  have hrest : restLines u program name = [] := by
    rw [restLines, splitlines_single (isBreak_blockRest u name h)]
    rfl
  constructor
  · rintro ⟨htab, hstar, -⟩
    rw [htake] at htab
    exact ⟨fun c hc => ⟨ne_of_mem_of_not_mem hc htab, h c hc⟩, hstar⟩
  · rintro ⟨hplain, hstar⟩
    exact ⟨htake.symm ▸ hplain.notMem_tab, hstar, hrest.symm ▸ nofun⟩

theorem exists_first_break {s : Str} (h : ¬ ∀ c ∈ s, isBreak c = false) :
    ∃ b t, s = (s.takeWhile fun c => !isBreak c) ++ b :: t ∧ isBreak b = true := by
  induction s with
  | nil => exact absurd nofun h
  | cons c s ih =>
    cases hc : isBreak c with
    | true => exact ⟨c, s, by simp [hc], hc⟩
    | false =>
      obtain ⟨b, t, hs, hb⟩ := ih fun hs => h (List.forall_mem_cons.mpr ⟨hc, hs⟩)
      exact ⟨b, t, by simpa [hc] using hs, hb⟩

theorem harmless_iff (hne : program ≠ []) :
    Harmless u program (blockRule u token program name).name ↔
      (blockRule u token program name).entries u = [] ∨
        ∃ r : Rule, (blockRule u token program name).entries u = [.rule r] ∧ r.action = .block ∧
          r.program = some program := by
  rw [entries_named_iff u token name hne]
  by_cases h : ∀ c ∈ program, isBreak c = false
  · rw [harmless_unbroken_iff u _ h, or_iff_right (entries_ne_nil u token name hne h)]
  · have hplain : ¬ (Plain program ∧ program ≠ str "*") := fun hp => h fun c hc => (hp.1 c hc).2
    have hstar : program ≠ str "*" := by
      rintro rfl
      exact h (by decide)
    obtain ⟨b, t, hprogram, hb⟩ := exists_first_break h
    have hfirst : ∀ c ∈ program.takeWhile (fun c => !isBreak c), isBreak c = false := fun c hc => by
      simpa using List.mem_takeWhile_imp hc
    rw [or_iff_left hplain, entries_broken u token hne name hprogram hfirst hb, List.append_eq_nil_iff,
      List.filterMap_eq_nil_iff, parseLine_block]
    by_cases htab : 9 ∈ program.takeWhile fun c => !isBreak c
    · obtain ⟨x, y, hxy, hx⟩ := List.eq_append_cons_of_mem htab
      obtain ⟨z, more, hy⟩ := List.exists_cons_of_ne_nil (List.splitOn_ne_nil 9 y)
      have hsplit : (program.takeWhile fun c => !isBreak c).splitOn 9 = x :: z :: more := by
        rw [hxy, List.splitOn_append_cons_self_of_not_mem hx, hy]
      rw [hsplit]
      exact ⟨fun hh => absurd htab hh.no_tab, fun hh => nomatch hh.1⟩
    · rw [List.splitOn_eq_singleton htab]
      exact ⟨fun hh => ⟨rfl, hh.inert⟩, fun hh => ⟨htab, hstar, hh.2⟩⟩

end Line

variable {c : Config}

theorem parseConfig_append (hc : c.Carried) (r : Rule) :
    parseConfig u (joinLines ({ c with rules := c.rules ++ [r] }.lines u)) =
      (c.overrides.items.map fun o => Entry.override o.1 o.2).foldl Config.add
        ((r.entries u).foldl Config.add { c.written u with overrides := .empty }) := by
  have hlines := parseConfig_lines u (c := { c with rules := c.rules ++ [r] }) hc.networks hc.overrides
    hc.settings
  rw [hlines, List.flatMap_append, List.foldl_append, flatMap_entries u hc.rules, foldl_add_rules,
    List.flatMap_singleton]
  rfl

/-- At most one rule more, one that blocks exactly this program; everything else as the file shows it. -/
def Framed (u : Unicode) (before after : Config) (program : Str) : Prop :=
  ∃ added : List Rule, added.length ≤ 1 ∧
    (∀ r ∈ added, r.action = .block ∧ r.program = some program) ∧
    ∃ c ∈ [before, before.written u], after = { c with rules := c.rules ++ added }

theorem Framed.refl (u : Unicode) (c : Config) (program : Str) : Framed u c c program :=
  ⟨[], by decide, nofun, c, .head _, by rw [List.append_nil]⟩

structure Config.Printable (u : Unicode) (c : Config) : Prop where
  networks : ∀ n ∈ c.networks.items, ∀ x ∈ n.2.2, u.printable x = true
  rules : ∀ r ∈ c.rules, ∀ x ∈ r.name, u.printable x = true

theorem Config.Printable.written (h : c.Printable u) : c.written u = c := by
  have hnetworks : (c.networks.map fun n => (n.1, clean u n.2)) = c.networks := by
    refine Dict.ext ((List.map_congr_left fun n hn => ?_).trans (List.map_id _))
    change (n.1, n.2.1, clean u n.2.2) = n
    rw [clean_eq_self (h.networks n hn)]
  have hrules : c.rules.map (Rule.written u) = c.rules := by
    refine (List.map_congr_left fun r hr => ?_).trans (List.map_id _)
    rw [Rule.written, clean_eq_self (h.rules r hr)]
    rfl
  rw [Config.written, hnetworks, hrules]

theorem Framed.exact {before after : Config} (h : Framed u before after program) (hp : before.Printable u) :
    ∃ added : List Rule, added.length ≤ 1 ∧ (∀ r ∈ added, r.action = .block ∧ r.program = some program) ∧
      after = { before with rules := before.rules ++ added } := by
  obtain ⟨added, hlength, hadded, c, hc, hafter⟩ := h
  rw [hp.written] at hc
  obtain rfl : c = before := by simpa using hc
  exact ⟨added, hlength, hadded, hafter⟩

theorem framed_append (hc : c.Carried) {r : Rule}
    (h : r.entries u = [] ∨ ∃ r' : Rule, r.entries u = [.rule r'] ∧ r'.action = .block ∧ r'.program = some program) :
    Framed u c (parseConfig u (joinLines ({ c with rules := c.rules ++ [r] }.lines u))) program := by
  rw [parseConfig_append hc, foldl_add_overrides]
  obtain h | ⟨r', h, hr'⟩ := h
  · refine ⟨[], by decide, nofun, c.written u, .tail _ (.head _), ?_⟩
    rw [h]
    exact Config.ext rfl rfl (List.append_nil _).symm (Dict.foldl_set c.overrides) rfl rfl
  · refine ⟨[r'], Nat.le_refl _, List.forall_mem_singleton.mpr hr', c.written u, .tail _ (.head _), ?_⟩
    rw [h]
    exact Config.ext rfl rfl rfl (Dict.foldl_set c.overrides) rfl rfl

theorem readConfig_cancel (h : cancel u token program name file = some after) :
    after = file ∨ readConfig u after = parseConfig u (joinLines ({ readConfig u file with
        rules := (readConfig u file).rules ++ [blockRule u token program name] }.lines u)) := by
  simp only [cancel] at h
  split_ifs at h
  · exact .inl (Option.some.inj h).symm
  · obtain ⟨text, htext, rfl⟩ := Option.map_eq_some_iff.mp h
    simp only [writeConfig] at htext
    split_ifs at htext
    rw [readConfig_some, ← Option.some.inj htext]
    exact .inr rfl

theorem cancel_framed (token : Token) (hne : program ≠ [])
    (h : Harmless u program (blockRule u token program name).name) (file : Option Str) :
    Framed u (readConfig u file) (readConfig u ((cancel u token program name file).getD file)) program := by
  cases hcancel : cancel u token program name file with
  | none => exact .refl _ _ _
  | some after =>
    obtain rfl | hread := readConfig_cancel hcancel
    · exact .refl _ _ _
    · rw [Option.getD_some, hread]
      exact framed_append (readConfig_carried u file) ((harmless_iff u token name hne).mp h)

def Overwrites {α : Type} (π : Config → α) (e : Entry) : Prop := ∃ v, ∀ c : Config, π (c.add e) = v

variable {es : List Entry}

theorem foldl_add_overwritten (hstep : ∀ e, Overwrites π e ∨ ∀ c : Config, π (c.add e) = π c)
    (h : ∃ e ∈ es, Overwrites π e) : ∃ v, ∀ c, π (es.foldl Config.add c) = v := by
  have hkeep (es : List Entry) (hes : ¬ ∃ e ∈ es, Overwrites π e) (c : Config) :
      π (es.foldl Config.add c) = π c := by
    induction es generalizing c with
    | nil => rfl
    | cons e es ih =>
      rw [List.exists_mem_cons_iff, not_or] at hes
      rw [List.foldl_cons, ih hes.2, (hstep e).resolve_left hes.1]
  induction es with
  | nil => simp at h
  | cons e es ih =>
    by_cases hes : ∃ e ∈ es, Overwrites π e
    · obtain ⟨v, hv⟩ := ih hes
      exact ⟨v, fun c => hv (c.add e)⟩
    · rw [List.exists_mem_cons_iff, or_iff_left hes] at h
      obtain ⟨v, hv⟩ := h
      exact ⟨v, fun c => (hkeep es hes (c.add e)).trans (hv c)⟩

theorem foldl_add_persists {P : Config → Prop} (hstep : ∀ (c : Config) (e : Entry), P c → P (c.add e))
    (he : e ∈ es) (h : ∀ c : Config, P (c.add e)) (c : Config) : P (es.foldl Config.add c) := by
  have hkeep (es : List Entry) (c : Config) (hc : P c) : P (es.foldl Config.add c) := by
    induction es generalizing c with
    | nil => exact hc
    | cons e es ih => exact ih (c.add e) (hstep c e hc)
  induction es generalizing c with
  | nil => cases he
  | cons e' es ih =>
    obtain rfl | he := List.mem_cons.mp he
    · exact hkeep es _ (h c)
    · exact ih he (c.add e')

theorem setItems_ne_nil (k : Str) (v : ν) (items : List (Str × ν)) : Dict.setItems k v items ≠ [] := by
  unfold Dict.setItems
  split
  · exact List.cons_ne_nil _ _
  · split_ifs <;> exact List.cons_ne_nil _ _

theorem profiles_foldl_add (he : .profile p on ∈ es) : ∃ v, ∀ c, (es.foldl Config.add c).profiles p = v := by
  have hstep (e : Entry) : Overwrites (·.profiles p) e ∨
      ∀ c : Config, (c.add e).profiles p = c.profiles p := by
    cases e with
    | profile p' on' =>
      by_cases hp : p' = p
      · exact .inl ⟨on', fun c => by simp [Config.add, hp]⟩
      · exact .inr fun c => Function.update_of_ne (Ne.symm hp) _ _
    | _ => exact .inr fun c => rfl
  exact foldl_add_overwritten hstep ⟨_, he, on, fun c => by simp [Config.add]⟩

theorem groups_foldl_add (he : .group g profiles ∈ es) : ∃ v, ∀ c, (es.foldl Config.add c).groups g = v := by
  have hstep (e : Entry) : Overwrites (·.groups g) e ∨
      ∀ c : Config, (c.add e).groups g = c.groups g := by
    cases e with
    | group g' profiles' =>
      by_cases hg : g' = g
      · exact .inl ⟨profiles', fun c => by simp [Config.add, hg]⟩
      · exact .inr fun c => Function.update_of_ne (Ne.symm hg) _ _
    | _ => exact .inr fun c => rfl
  exact foldl_add_overwritten hstep ⟨_, he, profiles, fun c => by simp [Config.add]⟩

theorem networks_foldl_add {uuid : Str}
    (he : .network uuid n ∈ es) (c : Config) : (es.foldl Config.add c).networks.items ≠ [] := by
  refine foldl_add_persists (P := fun c => c.networks.items ≠ []) (fun c e hc => ?_) he
    (fun c => setItems_ne_nil _ _ _) c
  cases e with
  | network uuid n => exact setItems_ne_nil _ _ _
  | _ => exact hc

theorem overrides_foldl_add {rid : Str} (he : .override rid o ∈ es)
    (c : Config) : (es.foldl Config.add c).overrides.items ≠ [] := by
  refine foldl_add_persists (P := fun c => c.overrides.items ≠ []) (fun c e hc => ?_) he
    (fun c => setItems_ne_nil _ _ _) c
  cases e with
  | override rid o => exact setItems_ne_nil _ _ _
  | _ => exact hc

def bareConfig (profiles : Profile → Bool) (groups : Group → Finset Profile) : Config :=
  { Config.default with profiles := profiles, groups := groups }

theorem entries_of_framed (u : Unicode) (hframed : ∀ profiles groups, Framed u (bareConfig profiles groups)
      (es.foldl Config.add (bareConfig profiles groups)) program) :
    es = [] ∨ ∃ r : Rule, es = [.rule r] ∧ r.action = .block ∧ r.program = some program := by
  have h (profiles : Profile → Bool) (groups : Group → Finset Profile) :=
    (hframed profiles groups).exact ⟨nofun, nofun⟩
  clear hframed
  have hrule : ∀ e ∈ es, ∃ r, e = .rule r := by
    intro e he
    cases e with
    | rule r => exact ⟨r, rfl⟩
    | profile p on =>
      obtain ⟨v, hv⟩ := profiles_foldl_add he
      obtain ⟨added, -, -, hafter⟩ := h (fun _ => !v) Group.profiles
      have hsame := hv (bareConfig (fun _ => !v) Group.profiles)
      rw [hafter] at hsame
      cases v <;> cases hsame
    | group g profiles =>
      obtain ⟨v, hv⟩ := groups_foldl_add he
      obtain ⟨added, -, -, hafter⟩ := h (fun _ => true) fun _ => vᶜ
      have hsame := hv (bareConfig (fun _ => true) fun _ => vᶜ)
      rw [hafter] at hsame
      have hcompl : ∀ v : Finset Profile, vᶜ ≠ v := by decide
      exact absurd hsame (hcompl v)
    | network uuid n =>
      obtain ⟨added, -, -, hafter⟩ := h (fun _ => true) Group.profiles
      exact absurd (hafter ▸ rfl) (networks_foldl_add he (bareConfig (fun _ => true) Group.profiles))
    | override rid o =>
      obtain ⟨added, -, -, hafter⟩ := h (fun _ => true) Group.profiles
      exact absurd (hafter ▸ rfl) (overrides_foldl_add he (bareConfig (fun _ => true) Group.profiles))
  obtain ⟨rs, rfl⟩ : ∃ rs : List Rule, es = rs.map Entry.rule := by
    clear h
    induction es with
    | nil => exact ⟨[], rfl⟩
    | cons e es ih =>
      rw [List.forall_mem_cons] at hrule
      obtain ⟨r, rfl⟩ := hrule.1
      obtain ⟨rs, rfl⟩ := ih hrule.2
      exact ⟨r :: rs, rfl⟩
  obtain ⟨added, hlength, hadded, hafter⟩ := h (fun _ => true) Group.profiles
  rw [foldl_add_rules] at hafter
  obtain rfl : rs = added := congrArg Config.rules hafter
  cases rs with
  | nil => exact .inl rfl
  | cons r rs =>
    obtain rfl : rs = [] := by simpa using hlength
    exact .inr ⟨r, rfl, hadded r (.head _)⟩

theorem notMem_of_surrogate (hx : isSurrogate x = true) {s : Str} (h : ∀ c ∈ s, c < 128) : x ∉ s := by
  intro hmem
  have := h x hmem
  simp only [isSurrogate, Bool.and_eq_true, decide_eq_true_eq] at hx
  omega

theorem surrogate_notMem_line {r : Rule} {x : Nat} (hx : isSurrogate x = true)
    (hid : ∀ c ∈ r.id, c < 128) (hprogram : x ∉ programText r.program)
    (hsource : ∀ c ∈ r.source, c < 128) : x ∉ r.line u := by
  have hascii {s : Str} (h : ∀ c ∈ s, c < 128) : x ∉ s := notMem_of_surrogate hx h
  have hclean : x ∉ clean u r.name := by
    intro hmem
    obtain ⟨c, -, hc⟩ := List.mem_map.mp hmem
    split at hc
    · next hprint =>
      rw [hc, u.printable_surrogate hx] at hprint
      cases hprint
    · rw [← hc] at hx
      cases hx
  have hports : x ∉ portsText r.ports := by
    cases r.ports with
    | none => exact hascii (by decide)
    | some p =>
      exact hascii fun c hc => by
        have := portsText_chars p c hc
        omega
  refine notMem_intercalate (hascii (by decide)) ?_
  simp only [Rule.fields, List.forall_mem_cons]
  refine ⟨hascii (by decide), hascii hid, hascii ?_, hascii ?_, ?_, hascii ?_, hports, hprogram, hclean,
    hascii hsource, List.forall_mem_nil _⟩
  · cases r.enabled <;> decide
  · cases r.action <;> decide
  · exact hascii fun c hc => (isLower_profilesText _ c hc).2.1
  · cases r.proto with
    | none => decide
    | some proto => cases proto <;> decide

theorem surrogate_notMem_front {x : Nat} (hx : isSurrogate x = true)
    (profiles : Profile → Bool) (groups : Group → Finset Profile) :
    ∀ l ∈ (bareConfig profiles groups).frontLines u, x ∉ l := by
  intro l hl
  simp only [Config.frontLines, List.mem_append, List.mem_map] at hl
  obtain ((hl | ⟨p, -, rfl⟩) | ⟨g, -, rfl⟩) | ⟨n, hmem, rfl⟩ := hl
  · have hhead : ∀ l ∈ headLines, ∀ c ∈ l, c < 128 := by
      rw [headLines]
      repeat rw [str_ofList]
      decide +kernel
    exact notMem_of_surrogate hx (hhead l hl)
  · rw [profileLine]
    refine notMem_of_surrogate hx ?_
    generalize (bareConfig profiles groups).profiles p = on
    cases p <;> cases on <;> decide
  · refine notMem_intercalate (notMem_of_surrogate hx (by decide)) ?_
    simp only [List.forall_mem_cons]
    refine ⟨notMem_of_surrogate hx (by decide), notMem_of_surrogate hx ?_, notMem_of_surrogate hx ?_,
      nofun⟩
    · cases g <;> decide
    · exact fun c hc => (isLower_profilesText _ c hc).2.1
  · cases hmem

section Bare

variable (u : Unicode) (token : Token) {program : Str} (name : Str) (profiles : Profile → Bool)
  (groups : Group → Finset Profile)

def bareFile : Option Str := some (joinLines ((bareConfig profiles groups).lines u))

theorem bareConfig_carried : (bareConfig profiles groups).Carried := ⟨nofun, nofun, nofun, rfl⟩

theorem bareConfig_printable : (bareConfig profiles groups).Printable u := ⟨nofun, nofun⟩

theorem readConfig_bareFile : readConfig u (bareFile u profiles groups) = bareConfig profiles groups := by
  rw [bareFile, readConfig_some, parseConfig_written u (bareConfig_carried profiles groups),
    (bareConfig_printable u profiles groups).written]

theorem writeConfig_bare (hne : program ≠ []) (h : program.any isSurrogate = false) :
    writeConfig u { bareConfig profiles groups with rules := [blockRule u token program name] } =
      some (joinLines
        ({ bareConfig profiles groups with rules := [blockRule u token program name] }.lines u)) := by
  have hprogram {x : Nat} (hx : isSurrogate x = true) : x ∉ program := by
    rw [List.any_eq_false] at h
    exact fun hmem => h x hmem hx
  have hlines {x : Nat} (hx : isSurrogate x = true) :
      ∀ l ∈ { bareConfig profiles groups with rules := [blockRule u token program name] }.lines u,
        x ∉ l := by
    intro l hl
    rw [Config.lines_eq, List.mem_append, List.mem_append] at hl
    obtain (hl | hl) | hl := hl
    · exact surrogate_notMem_front hx profiles groups l hl
    · rw [List.mem_singleton.mp hl]
      refine surrogate_notMem_line hx (fun c hc => ?_) ?_ (by decide : ∀ c ∈ str "prompt", c < 128)
      · have := token.hex c hc
        omega
      · have htext : programText (blockRule u token program name).program = program :=
          programText_some hne
        rw [htext]
        exact hprogram hx
    · cases hl
  have hnone : (joinLines
      ({ bareConfig profiles groups with rules := [blockRule u token program name] }.lines u)).any
        isSurrogate = false := by
    rw [List.any_eq_false]
    intro x hmem hx
    rw [joinLines, List.mem_append] at hmem
    have hbreak : x ∉ [10] := notMem_of_surrogate hx (by decide)
    exact hmem.elim (notMem_intercalate hbreak (hlines hx)) hbreak
  simp only [writeConfig, hnone]
  rfl

theorem readConfig_cancel_bare (hne : program ≠ []) (h : program.any isSurrogate = false) :
    readConfig u ((cancel u token program name (bareFile u profiles groups)).getD
        (bareFile u profiles groups)) =
      ((blockRule u token program name).entries u).foldl Config.add (bareConfig profiles groups) := by
  have hcancel : cancel u token program name (bareFile u profiles groups) =
      some (some (joinLines
        ({ bareConfig profiles groups with rules := [blockRule u token program name] }.lines u))) := by
    rw [cancel]
    simp only [readConfig_bareFile]
    have hknown : knownProgram u (bareConfig profiles groups).rules program = false := rfl
    rw [if_neg (by simp [hknown])]
    exact congrArg (Option.map some) (writeConfig_bare u token name profiles groups hne h)
  rw [hcancel, Option.getD_some, readConfig_some]
  rw [← (bareConfig_printable u profiles groups).written]
  exact parseConfig_append (bareConfig_carried profiles groups) _

end Bare

theorem writeConfig_surrogate {program name : Str} (h : program.any isSurrogate = true) (c : Config) :
    writeConfig u { c with rules := c.rules ++ [blockRule u token program name] } = none := by
  obtain ⟨x, hmem, hx⟩ := List.any_eq_true.mp h
  have hne : program ≠ [] := List.ne_nil_of_mem hmem
  have hline : x ∈ (blockRule u token program name).line u := by
    rw [line_blockRule u token hne, blockRest]
    simp [hmem]
  have hrule : (blockRule u token program name).line u ∈
      { c with rules := c.rules ++ [blockRule u token program name] }.lines u := by
    rw [Config.lines_eq]
    refine List.mem_append_left _ (List.mem_append_right _ (List.mem_map_of_mem ?_))
    exact List.mem_append_right _ (List.mem_singleton_self _)
  have htext : (joinLines
      ({ c with rules := c.rules ++ [blockRule u token program name] }.lines u)).any isSurrogate = true :=
    List.any_eq_true.mpr ⟨x, List.mem_append_left _ (mem_intercalate hrule hline _), hx⟩
  simp only [writeConfig, htext]
  rfl

theorem answers_singleton (u : Unicode) (q : Ask) (text : Option Str) (token : Token) (file : Option Str) :
    (answers u (fun _ => some (.cancel text)) (fun _ => token) [q] file).1 =
      if q.program = [] then file
      else (cancel u token q.program (answerName u text) file).getD file := by
  simp only [answers]
  split
  · rfl
  · cases cancel u token q.program (answerName u text) file <;> rfl

/-- Cancel adds at most the rule that blocks the program, just when the program's path puts nothing into
the file but itself. -/
theorem cancel_framed_iff (u : Unicode) (q : Ask) (text : Option Str) (token : Token) :
    (∀ file, Framed u (readConfig u file)
      (readConfig u (answers u (fun _ => some (.cancel text)) (fun _ => token) [q] file).1) q.program) ↔
    q.program = [] ∨ q.program.any isSurrogate = true ∨
      Harmless u q.program (blockRule u token q.program (answerName u text)).name := by
  by_cases hne : q.program = []
  · simp only [answers_singleton, hne, true_or, iff_true]
    exact fun file => .refl _ _ _
  simp only [answers_singleton, hne, if_false, false_or]
  constructor
  · intro h
    refine or_iff_not_imp_left.mpr fun hencodes => ?_
    rw [Bool.not_eq_true] at hencodes
    rw [harmless_iff u token _ hne]
    refine entries_of_framed u fun profiles groups => ?_
    have hframed := h (bareFile u profiles groups)
    rw [readConfig_cancel_bare u token _ profiles groups hne hencodes, readConfig_bareFile] at hframed
    exact hframed
  · rintro (hsurrogate | hharmless) file
    · have hcancel : (cancel u token q.program (answerName u text) file).getD file = file := by
        rw [cancel, writeConfig_surrogate hsurrogate]
        split <;> rfl
      rw [hcancel]
      exact .refl _ _ _
    · exact cancel_framed token hne hharmless file

def lineProcess : Process := ⟨str "/tmp/a\nprofile\tpublic\toff", [str "a"], 1000⟩

def listeningScene : Scene where
  now := 0
  sockets := [⟨.tcp, 8080, 7, 1000, by decide⟩]
  processes _ := [lineProcess]
  accounts := ⟨-2, fun _ => false⟩
  registry := []
  settings _ _ := none
  inUse := []
  seat := some 1000
  writable _ := true
  answer _ := none
  token _ := zeroToken

theorem cancel_turns_profile_off :
    let asked := Daemon.start.tick .ascii listeningScene none
    let answered := asked.1.tick .ascii { listeningScene with answer := fun _ => some (.cancel none) }
      asked.2
    asked.1.asks.map Ask.program = [lineProcess.exe] ∧
    (readConfig .ascii asked.2).profiles .pub = true ∧
    (readConfig .ascii answered.2).profiles .pub = false := by
  decide +kernel

end StainedGlass.Firewall
