import StainedGlass.Firewall.CommandsLaws
import StainedGlass.Firewall.Jobs
import StainedGlass.Firewall.Registry

namespace StainedGlass.Firewall

open Lib

theorem get?_foldl_removed (ids : List Str) (d : Dict Str Override) (h : rid ∈ ids ∨ d.get? rid = some .removed) :
    (ids.foldl (fun d rid => d.set rid .removed) d).get? rid = some .removed := by
  induction ids generalizing d with
  | nil => simpa using h
  | cons id ids ih =>
    rw [List.foldl_cons]
    refine ih _ ?_
    by_cases heq : rid = id
    · exact .inr (heq ▸ d.get?_set_self rid _)
    · rw [d.get?_set_of_ne _ heq]
      exact h.imp_left fun hmem => (List.mem_cons.mp hmem).resolve_left heq

theorem mem_foldl_removed {ids : List Str} {d : Dict Str Override} {o : Str × Override}
    (h : o ∈ (ids.foldl (fun d rid => d.set rid .removed) d).items) : o.1 ∈ ids ∨ o ∈ d.items := by
  induction ids generalizing d with
  | nil => exact .inr h
  | cons id ids ih =>
    obtain hmem | hmem := ih h
    · exact .inl (List.mem_cons_of_mem _ hmem)
    · obtain rfl | hmem := Dict.mem_set hmem
      · exact .inl List.mem_cons_self
      · exact .inr hmem

theorem carried_cmdReset (hids : ∀ rid ∈ ids, Plain rid) {c : Config} (hc : c.Carried) : (cmdReset ids c).Carried := by
  refine ⟨hc.networks, by simp [cmdReset, Config.default], fun o ho => ?_, rfl⟩
  obtain hmem | hmem := mem_foldl_removed ho
  · exact hids o.1 hmem
  · cases hmem

theorem id_of_ruleFromRegistry {r : Rule} (h : ruleFromRegistry u rid text = some r) : r.id = str "reg:" ++ rid := by
  rw [ruleFromRegistry] at h
  simp only at h
  split at h
  · cases h
  split at h
  · cases h
  split at h
  · cases h
  · rw [← Option.some.inj h]

theorem override_of_registry (conf : Config) {u : Unicode} {rid text : Str} {r : Rule}
    (h : ruleFromRegistry u rid text = some r) :
    override conf r = match conf.overrides.get? rid with
      | none => some r
      | some .removed => none
      | some (.changed enabled action profiles) =>
        some { r with enabled := enabled, action := action, profiles := profiles } := by
  rw [override, id_of_ruleFromRegistry h]
  rfl

theorem ruleFromRegistry_empty (u : Unicode) (rid : Str) : (ruleFromRegistry u rid []).isSome = true := by
  have htext : registryText u [] = ⟨∅, [], []⟩ := by
    rw [registryText]
    rfl
  have hin : u.lower (str "In") = str "in" := u.lower_ascii (by decide)
  rw [ruleFromRegistry, htext]
  simp [RegistryText.get, hin]

/-- A fresh installation's file but for its networks, and no rule of the registry in force. -/
structure Restored (u : Unicode) (file : Option Str) (registry : List (Str × Str)) (text : Str) :
    Prop where
  profiles : ∀ p, (readConfig u (some text)).profiles p = true
  groups : (readConfig u (some text)).groups = Group.profiles
  rules : (readConfig u (some text)).rules = []
  networks : (readConfig u (some text)).networks = (readConfig u file).networks
  registry : allRules (readConfig u (some text)) (registryRules u registry) = []

section Reset

variable {u : Unicode} {file : Option Str} {ids : List Str} {text : Str}

theorem readConfig_reset (h : (Job.reset ids).edit u file = some text)
    (hids : ∀ rid ∈ ids, Plain rid) :
    readConfig u (some text) = (cmdReset ids (readConfig u file)).written u := by
  have hcarried := carried_cmdReset hids (readConfig_carried u file)
  rw [Job.edit, writeConfig] at h
  split at h
  · cases h
  · rw [← Option.some.inj h, readConfig_some, parseConfig_written u hcarried]

theorem registry_empty_of_removed {conf : Config} (h : ∀ v ∈ registry, conf.overrides.get? v.1 = some .removed) :
    (registryRules u registry).filterMap (override conf) = [] := by
  rw [List.filterMap_eq_nil_iff]
  intro r hr
  obtain ⟨v, hv, hrule⟩ := List.mem_filterMap.mp hr
  rw [override_of_registry conf hrule, h v hv]

theorem restored_of_plain (h : (Job.reset ids).edit u file = some text)
    (hids : ∀ rid ∈ ids, Plain rid)
    (hnames : ∀ n ∈ (readConfig u file).networks.items, clean u n.2.2 = n.2.2) (texts : Str → Str) :
    Restored u file (ids.map fun rid => (rid, texts rid)) text := by
  have hread := readConfig_reset h hids
  refine ⟨fun p => ?_, ?_, ?_, ?_, ?_⟩
  · rw [hread]
    rfl
  · rw [hread]
    rfl
  · rw [hread]
    rfl
  · rw [hread]
    refine Dict.ext ((List.map_congr_left fun n hn => ?_).trans (List.map_id _))
    change (n.1, n.2.1, clean u n.2.2) = n
    rw [hnames n hn]
  · rw [allRules, hread]
    refine registry_empty_of_removed fun v hv => ?_
    obtain ⟨rid, hrid, rfl⟩ := List.mem_map.mp hv
    exact get?_foldl_removed ids .empty (.inl hrid)

theorem get?_of_not_plain (u : Unicode) (file : Option Str) (h : ¬ Plain rid) :
    (readConfig u file).overrides.get? rid = none := by
  rw [Option.eq_none_iff_forall_ne_some]
  intro o ho
  exact h ((readConfig_carried u file).overrides _ (Dict.get?_eq_some_iff.mp ho))

theorem reset_restores_iff (h : (Job.reset ids).edit u file = some text) :
    (∀ texts : Str → Str, Restored u file (ids.map fun rid => (rid, texts rid)) text) ↔
      (∀ rid ∈ ids, Plain rid) ∧
        ∀ n ∈ (readConfig u file).networks.items, clean u n.2.2 = n.2.2 := by
  constructor
  · intro hall
    have hr := hall fun _ => []
    have hids : ∀ rid ∈ ids, Plain rid := by
      intro rid hrid
      by_contra hplain
      obtain ⟨r, hrule⟩ := Option.isSome_iff_exists.mp (ruleFromRegistry_empty u rid)
      have hmem : r ∈ registryRules u (ids.map fun rid => (rid, [])) :=
        List.mem_filterMap.mpr ⟨(rid, []), List.mem_map_of_mem hrid, hrule⟩
      have hkept : override (readConfig u (some text)) r = some r := by
        rw [override_of_registry _ hrule, get?_of_not_plain u (some text) hplain]
      have hin : r ∈ allRules (readConfig u (some text)) (registryRules u (ids.map fun rid => (rid, []))) :=
        List.mem_append_right _ (List.mem_filterMap.mpr ⟨r, hmem, hkept⟩)
      rw [hr.registry] at hin
      cases hin
    refine ⟨hids, fun n hn => ?_⟩
    have hnet := congrArg Dict.items hr.networks
    rw [readConfig_reset h hids] at hnet
    have hsame : (readConfig u file).networks.items.map (fun n => (n.1, n.2.1, clean u n.2.2)) =
        (readConfig u file).networks.items.map id := hnet.trans (List.map_id _).symm
    have := List.map_inj_left.mp hsame n hn
    exact congrArg (fun m => m.2.2) this
  · rintro ⟨hids, hnames⟩ texts
    exact restored_of_plain h hids hnames texts

end Reset

theorem reset_restores_plain : ∃ text, (Job.reset [str "sonos"]).edit .ascii none = some text ∧
    Restored .ascii none [(str "sonos", str "v2.30|Dir=In|")] text := by
  have hsome : ((Job.reset [str "sonos"]).edit .ascii none).isSome = true := by decide +kernel
  obtain ⟨text, htext⟩ := Option.isSome_iff_exists.mp hsome
  exact ⟨text, htext, (reset_restores_iff htext).mpr ⟨by decide, by decide⟩ fun _ => str "v2.30|Dir=In|"⟩

theorem reset_by_a_name : ∃ text,
    (Job.reset [str "a\nprofile\tpublic\toff"]).edit .ascii none = some text ∧
      (readConfig .ascii (some text)).profiles .pub = false ∧
      allRules (readConfig .ascii (some text))
        (registryRules .ascii [(str "a\nprofile\tpublic\toff", str "v2.30|Dir=In|")]) ≠ [] := by
  have hany : ((Job.reset [str "a\nprofile\tpublic\toff"]).edit .ascii none).any (fun text =>
      !(readConfig .ascii (some text)).profiles .pub &&
        !(allRules (readConfig .ascii (some text)) (registryRules .ascii
          [(str "a\nprofile\tpublic\toff", str "v2.30|Dir=In|")])).isEmpty) = true := by
    decide +kernel
  cases htext : (Job.reset [str "a\nprofile\tpublic\toff"]).edit .ascii none with
  | none =>
    rw [htext] at hany
    cases hany
  | some text =>
    rw [htext, Option.any_some, Bool.and_eq_true, Bool.not_eq_true', Bool.not_eq_true',
      List.isEmpty_eq_false_iff] at hany
    exact ⟨text, rfl, hany⟩

end StainedGlass.Firewall
