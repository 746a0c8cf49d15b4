import StainedGlass.Settings.Ini

namespace StainedGlass.Settings

open Lib

variable (u : Unicode) (key value : Str)

/-- The lines, each with the group it stands in. -/
def placed (group : Option Str) : List Str → List (Option Str × Str)
  | [] => []
  | line :: lines => ((header u line).or group, line) :: placed ((header u line).or group) lines

/-- A header or a comment. -/
def skipped (line : Str) : Bool := (header u line).isSome || (u.lstrip line).head? = some 35

/-- What a line of a key file says: a key and its value. -/
def entry (line : Str) : Option (Str × Str) :=
  if skipped u line ∨ 61 ∉ line then none
  else some (u.strip (line.takeWhile (· ≠ 61)), u.lstrip (line.dropWhile (· ≠ 61)).tail)

def read (lines : List Str) : Option Str :=
  ((placed u none lines).filterMap fun x =>
    if x.1 = some settings then (entry u x.2).filter (·.1 = key) else none).getLast?.map Prod.snd

/-- A line of a `[Settings]` group that assigns the key. -/
def ours (x : Option Str × Str) : Bool := x.1 = some settings && (header u x.2).isNone && assigns u key x.2

/-- The other lines are kept where they are, and the value is assigned once. -/
structure Sets (lines out : List Str) : Prop where
  read : read u key out = some value
  kept : ∃ new ∈ [[], [(some settings, settingsLine)]], (placed u none out).filter (!ours u key ·) =
    (placed u none lines).filter (!ours u key ·) ++ new
  once : (placed u none out).filter (ours u key) = [(some settings, assignment key value)]

structure Carried : Prop where
  name : 61 ∉ key
  ends : u.strip key = key
  front : u.lstrip value = value
  line : skipped u (assignment key value) = false

variable {u key value} {lines : List Str} {line : Str} {s : Loop}

theorem assigns_of_parts (ha : ∀ x ∈ a, u.space x = true) (hc : ∀ x ∈ c, u.space x = true) (rest : Str) :
    assigns u key (a ++ (key ++ (c ++ 61 :: rest))) = true := by
  rw [assigns, List.any_eq_true]
  refine ⟨a.length, by simp, ?_⟩
  have hequals : u.space 61 = false := u.space_visible (by decide)
  have hdrop : (a ++ (key ++ (c ++ 61 :: rest))).drop (a.length + key.length) = c ++ 61 :: rest := by
    rw [← List.drop_drop, List.drop_left, List.drop_left]
  rw [List.take_left, List.drop_left, hdrop, List.dropWhile_append_of_pos hc, List.dropWhile_cons_of_neg (by simp [hequals])]
  simpa using ha

theorem strip_parts (u : Unicode) (s : Str) :
    ∃ a c, s = a ++ (u.strip s ++ c) ∧ (∀ x ∈ a, u.space x = true) ∧ ∀ x ∈ c, u.space x = true := by
  refine ⟨s.takeWhile u.space, ((s.dropWhile u.space).reverse.takeWhile u.space).reverse, ?_,
    fun x hx => List.mem_takeWhile_imp hx, fun x hx => List.mem_takeWhile_imp (List.mem_reverse.1 hx)⟩
  rw [Unicode.strip, ← List.reverse_append, List.takeWhile_append_dropWhile, List.reverse_reverse,
    List.takeWhile_append_dropWhile]

theorem entry_eq (h : 61 ∉ before) : entry u (before ++ 61 :: after) =
    if skipped u (before ++ 61 :: after) then none else some (u.strip before, u.lstrip after) := by
  have hall : ∀ c ∈ before, decide (c ≠ 61) = true := fun c hc => by simpa using ne_of_mem_of_not_mem hc h
  rw [entry, List.takeWhile_append_of_pos hall, List.dropWhile_append_of_pos hall]
  simp

theorem of_entry_eq_some (h : entry u line = some (key, v)) : ∃ before after,
    line = before ++ 61 :: after ∧ 61 ∉ before ∧ skipped u line = false ∧ u.strip before = key ∧ u.lstrip after = v := by
  have hmem : 61 ∈ line := by
    by_contra hmem
    simp [entry, hmem] at h
  obtain ⟨before, after, rfl, hbefore⟩ := List.eq_append_cons_of_mem hmem
  rw [entry_eq hbefore] at h
  split at h
  · cases h
  · next hline => exact ⟨before, after, rfl, hbefore, by simpa using hline, by simpa using h⟩

theorem header_eq_none (h : skipped u line = false) : header u line = none := by
  rw [skipped, Bool.or_eq_false_iff] at h
  simpa using h.1

theorem assigns_of_entry (h : entry u line = some (key, v)) : header u line = none ∧ assigns u key line = true := by
  obtain ⟨before, after, rfl, -, hline, rfl, -⟩ := of_entry_eq_some h
  refine ⟨header_eq_none hline, ?_⟩
  obtain ⟨a, c, hparts, ha, hc⟩ := strip_parts u before
  have hassigns : assigns u (u.strip before) (a ++ (u.strip before ++ (c ++ 61 :: after))) = true :=
    assigns_of_parts ha hc after
  nth_rewrite 2 [hparts]
  simpa using hassigns

def groupAfter (u : Unicode) (group : Option Str) (lines : List Str) : Option Str :=
  lines.foldl (fun group line => (header u line).or group) group

theorem placed_concat (group : Option Str) (lines : List Str) (line : Str) : placed u group (lines ++ [line]) =
    placed u group lines ++ [((header u line).or (groupAfter u group lines), line)] := by
  induction lines generalizing group with
  | nil => rfl
  | cons l lines ih =>
    rw [List.cons_append, placed, placed, ih]
    rfl

theorem groupAfter_concat (group : Option Str) (lines : List Str) (line : Str) :
    groupAfter u group (lines ++ [line]) = (header u line).or (groupAfter u group lines) := by
  rw [groupAfter, List.foldl_append]
  rfl

/-- The loop after some lines. -/
structure Good (u : Unicode) (key value : Str) (lines : List Str) (s : Loop) : Prop where
  group : groupAfter u none lines = s.group
  same : groupAfter u none s.out = s.group
  kept : (placed u none s.out).filter (!ours u key ·) = (placed u none lines).filter (!ours u key ·)
  once : (placed u none s.out).filter (ours u key) =
    bif s.done then [(some settings, assignment key value)] else []
  again : s.out.foldl (Loop.step u key value) ⟨[], none, false⟩ = s
  found : settingsLine ∈ lines → s.done = true ∨ s.group = some settings
  lines : ∀ l ∈ s.out, l ∈ lines ∨ l = assignment key value

theorem assigns_assignment (key value : Str) : assigns u key (assignment key value) = true :=
  @assigns_of_parts u key [] [] (by simp) (by simp) value

theorem Loop.done_set (s : Loop) : (s.set key value).done = true := by
  rw [Loop.set]
  split
  · assumption
  · rfl

theorem Good.set (h : Good u key value lines s) (hline : header u (assignment key value) = none)
    (hgroup : s.group = some settings) : Good u key value lines (s.set key value) := by
  rw [Loop.set]
  split
  · exact h
  · next hdone =>
    have hours : ours u key (some settings, assignment key value) = true := by
      simp [ours, hline, assigns_assignment]
    have hplaced : placed u none (s.out ++ [assignment key value]) =
        placed u none s.out ++ [(some settings, assignment key value)] := by
      rw [placed_concat, hline, Option.none_or, h.same, hgroup]
    refine ⟨h.group, ?_, ?_, ?_, ?_, fun _ => .inl rfl, ?_⟩
    · exact (groupAfter_concat ..).trans (by rw [hline, Option.none_or, h.same]; rfl)
    · simp [Loop.put, hplaced, hours, h.kept]
    · simp [Loop.put, hplaced, hours, h.once, hdone]
    · simp only [Loop.put, List.foldl_append, h.again, List.foldl_cons, List.foldl_nil]
      simp [Loop.step, hline, hgroup, assigns_assignment, Loop.set, hdone, Loop.put]
    · exact List.forall_mem_append.2 ⟨h.lines, by simp⟩

theorem header_settingsLine : header u settingsLine = some settings := by
  have hstrip : u.strip settingsLine = settingsLine := u.strip_visible (by decide)
  rw [header, hstrip]
  decide

-- A line is passed on, as a header or in the group that it stands in.
theorem Good.put (h : Good u key value lines s) {group : Option Str} (hgroup : (header u line).or s.group = group)
    (hstep : s.step u key value line = { s.put line with group := group })
    (hours : ours u key (group, line) = false) (hfound : s.group = some settings → s.done = true ∨ group = some settings) :
    Good u key value (lines ++ [line]) { s.put line with group := group } := by
  refine ⟨?_, ?_, ?_, ?_, ?_, ?_, ?_⟩
  · rw [groupAfter_concat, h.group, hgroup]
  · exact (groupAfter_concat ..).trans (by rw [h.same, hgroup])
  · simp [Loop.put, placed_concat, h.same, h.group, hgroup, hours, h.kept]
  · simpa [Loop.put, placed_concat, h.same, hgroup, hours] using h.once
  · rw [Loop.put, List.foldl_append, h.again]
    exact hstep
  · intro hmem
    rcases List.mem_append.1 hmem with hmem | hmem
    · exact (h.found hmem).elim .inl hfound
    · rw [← List.mem_singleton.1 hmem, header_settingsLine] at hgroup
      exact .inr hgroup.symm
  · intro l hl
    rcases List.mem_append.1 hl with hl | hl
    · exact (h.lines l hl).imp_left (List.mem_append_left _)
    · exact .inl (List.mem_append_right _ hl)

theorem Good.header (h : Good u key value lines s) {group : Str} (hline : header u line = some group)
    (hdone : s.group = some settings → s.done = true) :
    Good u key value (lines ++ [line]) { s.put line with group := some group } := by
  refine h.put (by rw [hline]; rfl) ?_ (by simp [ours, hline]) fun hgroup => .inl (hdone hgroup)
  rw [Loop.step, hline]
  dsimp only
  split
  · next hgroup => rw [Loop.set, if_pos (hdone hgroup)]
  · rfl

theorem Good.drop (h : Good u key value lines s) (hline : Settings.header u line = none)
    (hgroup : s.group = some settings) (hassigns : assigns u key line = true) (hdone : s.done = true) :
    Good u key value (lines ++ [line]) s := by
  have hours : ours u key (some settings, line) = true := by simp [ours, hline, hassigns]
  refine ⟨?_, h.same, ?_, h.once, h.again, fun _ => .inl hdone, fun l hl => (h.lines l hl).imp_left (List.mem_append_left _)⟩
  · rw [groupAfter_concat, hline, h.group, Option.none_or]
  · simp [placed_concat, h.group, h.kept, hline, hgroup, hours]

theorem Good.step (h : Good u key value lines s) (hnew : Settings.header u (assignment key value) = none) (line : Str) :
    Good u key value (lines ++ [line]) (s.step u key value line) := by
  rw [Loop.step]
  split
  · next group hline =>
    split
    · next hgroup => exact (h.set hnew hgroup).header hline fun _ => Loop.done_set s
    · next hgroup => exact h.header hline fun hsettings => absurd hsettings hgroup
  · next hline =>
    split
    · next hours =>
      refine (h.set hnew hours.1).drop hline ?_ hours.2 (Loop.done_set s)
      rw [Loop.set]
      split
      · exact hours.1
      · exact hours.1
    · next hours =>
      refine h.put (by rw [hline, Option.none_or]) ?_ ?_ .inr
      · rw [Loop.step, hline]
        exact if_neg hours
      · simpa [ours, hline] using hours

theorem good_run (hnew : Settings.header u (assignment key value) = none) (lines : List Str) :
    Good u key value lines (lines.foldl (Loop.step u key value) ⟨[], none, false⟩) := by
  induction lines using List.reverseRecOn with
  | nil => exact ⟨rfl, rfl, rfl, rfl, rfl, by simp, by simp⟩
  | append_singleton lines line ih =>
    rw [List.foldl_append]
    exact ih.step hnew line

theorem good_setLines (hnew : Settings.header u (assignment key value) = none) (lines : List Str) :
    ∃ new ∈ [[], [settingsLine]], ∃ s, Good u key value (lines ++ new) s ∧ s.done = true ∧
      setLines u key value lines = s.out := by
  have h := good_run hnew lines
  rw [setLines]
  set s := lines.foldl (Loop.step u key value) ⟨[], none, false⟩
  split
  · next hdone => exact ⟨[], by simp, s, by simpa using h, hdone, rfl⟩
  · next hdone =>
    rw [Bool.not_eq_true] at hdone
    split
    · next hnone =>
      have hput := h.header header_settingsLine fun hgroup => absurd hgroup hnone.1
      exact ⟨[settingsLine], by simp, _, hput.set hnew rfl, Loop.done_set _, by simp [Loop.set, Loop.put, hdone]⟩
    · next hsome =>
      have hgroup : s.group = some settings := by
        by_contra hgroup
        have hmem : settingsLine ∈ lines := by
          by_contra hmem
          exact hsome ⟨hgroup, hmem⟩
        exact (h.found hmem).elim (by simp [hdone]) hgroup
      exact ⟨[], by simp, _, by simpa using h.set hnew hgroup, Loop.done_set _,
        by simp [Loop.set, Loop.put, hdone]⟩

theorem filterMap_ours (xs : List (Option Str × Str)) :
    (xs.filterMap fun x => if x.1 = some settings then (entry u x.2).filter (·.1 = key) else none) =
      (xs.filter (ours u key)).filterMap fun x =>
        if x.1 = some settings then (entry u x.2).filter (·.1 = key) else none := by
  rw [List.filterMap_filter]
  refine List.filterMap_congr fun x _ => ?_
  by_cases hx : x.1 = some settings
  · cases hentry : (entry u x.2).filter (·.1 = key) with
    | none => simp [hx]
    | some e =>
      obtain ⟨he, hkey⟩ := Option.filter_eq_some_iff.1 hentry
      obtain rfl : e.1 = key := by simpa using hkey
      have hours := assigns_of_entry (show entry u x.2 = some (e.1, e.2) from he)
      simp [ours, hx, hours]
  · simp [hx]

theorem entry_assignment_iff : entry u (assignment key value) = some (key, value) ↔ Carried u key value := by
  constructor
  · intro h
    obtain ⟨before, after, hsplit, hbefore, hline, hkey, hvalue⟩ := of_entry_eq_some h
    have hname : 61 ∉ key := by
      obtain ⟨a, c, hparts, -, -⟩ := strip_parts u before
      rw [hkey] at hparts
      rw [hparts] at hbefore
      exact fun h61 => hbefore (List.mem_append_right _ (List.mem_append_left _ h61))
    rw [assignment, entry_eq hname, if_neg (by simpa [assignment] using hline)] at h
    simp only [Option.some.injEq, Prod.mk.injEq] at h
    exact ⟨hname, h.1, h.2, hline⟩
  · intro h
    rw [assignment, entry_eq h.name, if_neg (by simpa [assignment] using h.line), h.ends, h.front]

theorem Good.read_iff (h : Good u key value lines s) (hdone : s.done = true) :
    read u key s.out = some value ↔ Carried u key value := by
  rw [← entry_assignment_iff, read, filterMap_ours, h.once, hdone, cond_true]
  cases hentry : entry u (assignment key value) with
  | none => simp [hentry]
  | some e =>
    by_cases hkey : e.1 = key
    · simp [hentry, hkey, Prod.ext_iff]
    · simp [hentry, hkey, Prod.ext_iff]

theorem splitlines_setIni (hkey : ∀ c ∈ key, isBreak c = false) (hvalue : ∀ c ∈ value, isBreak c = false)
    (hnew : header u (assignment key value) = none) (file : Option Str) :
    splitlines (setIni u key value file) = setLines u key value (splitlines (file.getD [])) := by
  obtain ⟨new, hmem, s, h, hdone, hout⟩ := good_setLines hnew (splitlines (file.getD []))
  have hunbroken : ∀ l ∈ s.out, ∀ c ∈ l, isBreak c = false := by
    intro l hl
    rcases h.lines l hl with hl | rfl
    · rcases List.mem_append.1 hl with hl | hl
      · exact isBreak_splitlinesFrom (by simp) l hl
      · obtain rfl | rfl := List.mem_pair.1 hmem
        · cases hl
        · rw [List.mem_singleton.1 hl]
          decide
    · exact List.forall_mem_append.2 ⟨hkey, List.forall_mem_cons.2 ⟨rfl, hvalue⟩⟩
  have hne : s.out ≠ [] := by
    intro hnil
    have honce := h.once
    simp [hnil, placed, hdone] at honce
  rw [setIni, hout, splitlines_joinLines hne, flatMap_eq_map fun l hl => splitlines_single (hunbroken l hl), List.map_id']

def themeFile : Str :=
  str "[Settings]\ngtk-theme-name=Old\n# theme\n[Other]\ngtk-theme-name=x\n[Settings]\ngtk-theme-name = Older\n"

end StainedGlass.Settings
