import StainedGlass.Domain.NetMount

namespace StainedGlass.Domain.NetMount

open Lib

/-- However its calls are answered, the reply is as said, of the calls and answers, the last one first. -/
def Proc.Always (Q : List (Call × Answer) → Reply → Prop) (past : List (Call × Answer)) : Proc → Prop
  | .reply r => Q past r
  | .call c k => ∀ a, (k a).Always Q ((c, a) :: past)

def Proc.run (past : List (Call × Answer)) : Proc → List Answer → Option (List (Call × Answer) × Reply)
  | .reply r, _ => some (past, r)
  | .call _ _, [] => none
  | .call c k, a :: answers => (k a).run ((c, a) :: past) answers

variable {Q : List (Call × Answer) → Reply → Prop} {past : List (Call × Answer)} {p : Path} {uid : Nat}
  {k : Bool → Proc}

theorem Proc.Always.run {P : Proc} (h : P.Always Q past) (hrun : P.run past answers = some (past', r)) : Q past' r := by
  induction P generalizing past answers with
  | reply r' =>
    cases hrun
    exact h
  | call c k ih =>
    cases answers with
    | nil => cases hrun
    | cons a answers => exact ih a (h a) hrun

theorem always_mkdirEach (h : ∀ b past', past ⊆ past' → (k b).Always Q past') : (mkdirEach ps k).Always Q past := by
  induction ps generalizing past with
  | nil => exact h true past (List.Subset.refl past)
  | cons p ps ih =>
    intro a
    have hlater : past ⊆ (Call.mkdir p, a) :: past := List.subset_cons_self _ _
    cases a with
    | failed => exact h false _ hlater
    | _ => exact ih fun b past' hpast => h b past' (List.Subset.trans hlater hpast)

def testThen (c : Call) (k : Bool → Proc) : Proc :=
  .call c fun
    | .ok => k true
    | _ => k false

theorem askThen_eq : askThen k = testThen .ask k := rfl

theorem isMountedThen_eq : isMountedThen p k = testThen (.isMounted p) k := rfl

theorem mountThen_eq : mountThen p uid k = testThen (.mount p uid) k := rfl

theorem always_testThen (hok : (k true).Always Q ((c, .ok) :: past))
    (hno : ∀ a, (k false).Always Q ((c, a) :: past)) : (testThen c k).Always Q past := by
  intro a
  cases a with
  | ok => exact hok
  | _ => exact hno _

def MountedAt (uid : Nat) (past : List (Call × Answer)) (p : Path) : Prop :=
  (.isMounted p, .ok) ∈ past ∨ (.mount p uid, .ok) ∈ past

theorem MountedAt.mono (h : MountedAt uid past p) (hpast : past ⊆ past') : MountedAt uid past' p :=
  h.imp (fun h => hpast h) fun h => hpast h

theorem always_doMount {server share : Name} {k : Option Path → Proc}
    (h : ∀ o past, (∀ p ∈ o, (p = userPath uid server share ∨ p = uncPath server share) ∧ MountedAt uid past p) →
      (k o).Always Q past) : (doMount uid server share k).Always Q past := by
  have hnone (past : List (Call × Answer)) : (k none).Always Q past := h none past (by simp)
  have hunc (past : List (Call × Answer)) (hmounted : MountedAt uid past (uncPath server share)) :
      (k (some (uncPath server share))).Always Q past := h _ past (by simpa using hmounted)
  have hmount (past : List (Call × Answer)) : (mountOrRmdir (uncPath server share) uid k).Always Q past := by
    rw [mountOrRmdir, mountThen_eq]
    apply always_testThen
    · exact hunc _ (.inr List.mem_cons_self)
    · exact fun _ _ => hnone _
  rw [doMount, isMountedThen_eq]
  apply always_testThen
  · exact h _ _ (by simp [MountedAt])
  · intro _
    rw [if_neg Bool.false_ne_true, isMountedThen_eq]
    apply always_testThen
    · exact hunc _ (.inl List.mem_cons_self)
    · intro _
      rw [if_neg Bool.false_ne_true, askThen_eq]
      apply always_testThen
      · apply always_mkdirEach
        intro made _ _
        cases made with
        | false => exact hnone _
        | true =>
          rw [Bool.not_true, if_neg Bool.false_ne_true, askThen_eq]
          apply always_testThen
          · rw [if_pos rfl, mountThen_eq]
            apply always_testThen
            · exact hunc _ (.inr List.mem_cons_self)
            · exact fun _ => hmount _
          · exact fun _ => hmount _
      · exact fun _ => hnone _

theorem always_linkDrive (herr : ∀ past why, Q past (.err why)) (h : ∀ past', past ⊆ past' →
      Q ((.symlink target (driveDir uid ++ [letter]), .ok) :: past') (.okPath target)) :
    (linkDrive uid letter target).Always Q past := by
  apply always_mkdirEach
  intro made past₁ hpast₁
  cases made with
  | false => exact herr _ _
  | true =>
    intro a
    cases a with
    | failed => exact herr _ _
    | _ =>
      intro _ a
      cases a with
      | ok => exact h _ (List.Subset.trans hpast₁ fun _ hx => by simp [hx])
      | _ => exact herr _ _

def sharePlaces (uid : Nat) (server share : Bytes) : List (List Bytes) :=
  [[ascii "run", ascii "stained-glass-net", ascii "users", decimal uid, ascii "unc", lower server, lower share],
    [ascii "run", ascii "stained-glass-net", ascii "unc", lower server, lower share]]

def LeadsTo (uid : Nat) (server share : Bytes) (folders : List Bytes) (past : List (Call × Answer)) (target : Path) :
    Prop :=
  ∃ p, MountedAt uid past p ∧ p.map Subtype.val ∈ sharePlaces uid server share ∧
    target.map Subtype.val = p.map Subtype.val ++ folders

def LinkMade (uid : Nat) (letter : Bytes) (past : List (Call × Answer)) (target : Path) : Prop :=
  ∃ l : Name, validLetter letter = l.val.head? ∧ l.val.tail = [58] ∧
    past.head? = some (.symlink target (driveDir uid ++ [l]), .ok)

theorem always_handleMap (herr : ∀ past why, Q past (.err why))
    (h : ∀ past target, LinkMade uid letter past target → LeadsTo uid server share dirs past target →
      Q past (.okPath target)) : (handleMap uid letter server share dirs).Always Q past := by
  unfold handleMap
  split
  · exact herr _ _
  · next l hl =>
    split
    · apply always_doMount
      intro o past₁ ho
      cases o with
      | none => exact herr _ _
      | some p =>
        obtain ⟨hp, hmounted⟩ := ho p rfl
        apply always_linkDrive herr
        intro past₂ hpast₂
        apply h
        · exact ⟨letterName letter l hl, hl, rfl, rfl⟩
        · refine ⟨p, hmounted.mono (List.subset_cons_of_subset _ hpast₂), ?_, ?_⟩
          · rcases hp with rfl | rfl
            · exact List.mem_cons_self
            · exact List.mem_cons_of_mem _ List.mem_cons_self
          · rw [List.map_append, List.map_pmap]
            simp [componentName]
    · exact herr _ _

def tokens (line : Bytes) : List Bytes := (line.splitOn 9).filter (· ≠ [])

theorem tokens_append (a b : Bytes) : tokens (a ++ 9 :: b) = tokens a ++ tokens b := by
  rw [tokens, List.splitOn_append_cons_self, List.filter_append]
  rfl

theorem tokens_of_notMem (h : 9 ∉ a) : tokens a = [a].filter (· ≠ []) := by
  rw [tokens, List.splitOn_eq_singleton h]

theorem ne_nil_of_mem_tokens (h : name ∈ tokens line) : name ≠ [] := by
  simpa using (List.mem_filter.1 h).2

theorem tokens_append_tabs (h : ∀ c ∈ rest, c = 9) (line : Bytes) : tokens (line ++ rest) = tokens line := by
  induction rest generalizing line with
  | nil => rw [List.append_nil]
  | cons c rest ih =>
    obtain rfl := h c List.mem_cons_self
    have hrest : tokens rest = [] := ih (fun d hd => h d (List.mem_cons_of_mem _ hd)) []
    rw [tokens_append, hrest, List.append_nil]

theorem flatten_tokens (line : Bytes) : (tokens line).flatten = line.filter (· ≠ 9) := by
  rw [tokens, List.flatten_filter_ne_nil]
  induction line with
  | nil => rfl
  | cons c line ih =>
    rw [List.splitOn_cons_eq_if_modifyHead]
    by_cases hc : c = 9
    · simp [hc, ih]
    · obtain ⟨head, tail, hsplit⟩ := List.exists_cons_of_ne_nil (List.splitOn_ne_nil 9 line)
      rw [hsplit, List.flatten_cons] at ih
      simp [hc, hsplit, ih]

-- Only the last name of a line that was cut can have lost its end.
theorem dropLast_tokens (a b : Bytes) : (tokens a).dropLast <+: tokens (a ++ b) := by
  by_cases htab : 9 ∈ a
  · obtain ⟨last, front, hrev, hlast⟩ := List.eq_append_cons_of_mem (List.mem_reverse.2 htab)
    have ha : a = front.reverse ++ 9 :: last.reverse := by
      rw [← List.reverse_reverse a, hrev]
      simp
    have hlast' : 9 ∉ last.reverse := by rwa [List.mem_reverse]
    rw [ha, List.append_assoc, List.cons_append, tokens_append, tokens_append, tokens_of_notMem hlast']
    refine List.IsPrefix.trans ?_ (List.prefix_append _ _)
    by_cases hempty : last.reverse = []
    · simpa [hempty] using List.dropLast_prefix _
    · simp [hempty]
  · rw [tokens_of_notMem htab]
    by_cases hempty : a = []
    · simp [hempty]
    · simp [hempty]

def seen (line : Bytes) : Bytes := (cstr (line.take 2047)).takeWhile fun c => c ≠ 13 && c ≠ 10

theorem seen_prefix_cstr (line : Bytes) : seen line <+: cstr (line.take 2047) := List.takeWhile_prefix _

theorem seen_isPrefix (line : Bytes) : seen line <+: line :=
  (seen_prefix_cstr line).trans ((List.takeWhile_prefix _).trans (List.take_prefix _ _))

theorem seen_eq (line : Bytes) :
    (cstr ((line ++ [10]).take 2047)).takeWhile (fun c => c ≠ 13 && c ≠ 10) = seen line := by
  rcases Nat.lt_or_ge line.length 2047 with hlt | hge
  · rw [List.take_of_length_le (by simpa using hlt), cstr, List.takeWhile_append, seen, cstr,
      List.take_of_length_le hlt.le]
    split
    · next hall =>
      rw [(List.takeWhile_prefix _).eq_of_length hall, List.takeWhile_append]
      split
      · next hline =>
        rw [(List.takeWhile_prefix _).eq_of_length hline]
        simp
      · rfl
    · rfl
  · rw [List.take_append_of_le_length hge, seen]

/-- The daemon has room: at most sixteen names, and only tabs behind the first 2047 bytes. -/
def Held (line : Bytes) : Prop :=
  0 ∉ line ∧ 13 ∉ line ∧ (∀ c ∈ line.drop 2047, c = 9) ∧ (tokens line).length ≤ 16

theorem tokens_seen (hline : 10 ∉ line) (h : Held line) : (tokens (seen line)).take 16 = tokens line := by
  obtain ⟨hnul, hreturn, htabs, hlen⟩ := h
  have hseen : seen line = line.take 2047 := by
    rw [seen, cstr_eq_self fun h0 => hnul (List.mem_of_mem_take h0), List.takeWhile_eq_self_iff]
    intro c hc
    have hmem := List.mem_of_mem_take hc
    simp [ne_of_mem_of_not_mem hmem hreturn, ne_of_mem_of_not_mem hmem hline]
  have hsame : tokens (line.take 2047) = tokens line := by
    nth_rewrite 2 [← List.take_append_drop 2047 line]
    exact (tokens_append_tabs htabs _).symm
  rw [hseen, hsame, List.take_of_length_le hlen]

theorem held_of_length
    (h : ((tokens (seen line)).take 16).flatten.length = (tokens line).flatten.length) : Held line := by
  obtain ⟨rest, hrest⟩ := seen_isPrefix line
  have hsplit := congrArg List.length (congrArg List.flatten (List.take_append_drop 16 (tokens (seen line))))
  have hline : (tokens line).flatten.length = (tokens (seen line)).flatten.length + (rest.filter (· ≠ 9)).length := by
    rw [flatten_tokens, flatten_tokens, ← List.length_append, ← List.filter_append, hrest]
  rw [List.flatten_append, List.length_append] at hsplit
  have htabs : ∀ c ∈ rest, c = 9 := by
    have hnil : rest.filter (· ≠ 9) = [] := List.eq_nil_of_length_eq_zero (by omega)
    intro c hc
    by_contra hne
    exact List.filter_eq_nil_iff.1 hnil c hc (by simpa using hne)
  have hdrop : (tokens (seen line)).drop 16 = [] := by
    have hflat : ((tokens (seen line)).drop 16).flatten = [] := List.eq_nil_of_length_eq_zero (by omega)
    rw [List.flatten_eq_nil_iff] at hflat
    exact List.eq_nil_iff_forall_not_mem.2 fun name hname =>
      ne_nil_of_mem_tokens (List.mem_of_mem_drop hname) (hflat name hname)
  have hmem (c : UInt8) (hc : c ∈ line) : c ∈ seen line ∨ c = 9 := by
    rw [← hrest, List.mem_append] at hc
    exact hc.imp_right (htabs c)
  refine ⟨?_, ?_, ?_, ?_⟩
  · intro hnul
    exact zero_notMem_cstr _ ((seen_prefix_cstr line).subset ((hmem 0 hnul).resolve_right (by decide)))
  · intro hreturn
    exact absurd (List.mem_takeWhile_imp ((hmem 13 hreturn).resolve_right (by decide))) (by decide)
  · intro c hc
    apply htabs c
    have hle : (seen line).length ≤ 2047 :=
      (seen_prefix_cstr line).length_le.trans ((List.takeWhile_prefix _).length_le.trans (List.length_take_le _ _))
    rw [← hrest, List.drop_append, List.drop_of_length_le hle, List.nil_append] at hc
    exact List.mem_of_mem_drop hc
  · have hsame : tokens line = tokens (seen line) := by
      nth_rewrite 1 [← hrest]
      exact tokens_append_tabs htabs _
    rw [hsame]
    exact List.drop_eq_nil_iff.1 hdrop

variable {line letter server share : Bytes} {folders : List Bytes} {target : Path}

theorem not_logon (hnames : tokens line = ascii "MAP" :: letter :: server :: share :: folders) :
    ¬ ascii "LOGON\t" <+: seen line := by
  intro hlogon
  obtain ⟨rest, hrest⟩ := hlogon.trans (seen_isPrefix line)
  have htokens : tokens line = tokens (ascii "LOGON") ++ tokens rest := by
    rw [← tokens_append, ← hrest]
    rfl
  rw [hnames, tokens_of_notMem (by decide)] at htokens
  exact absurd (List.cons.inj htokens).1 (by decide)

theorem dropLast_seen (line : Bytes) : ((tokens (seen line)).take 16).dropLast <+: tokens line := by
  obtain ⟨rest, hrest⟩ := seen_isPrefix line
  have hcut : ((tokens (seen line)).take 16).dropLast <+: (tokens (seen line)).dropLast := by
    rw [List.dropLast_eq_take, List.dropLast_eq_take, List.take_take]
    apply List.take_prefix_take_left
    rw [List.length_take]
    omega
  have hline := dropLast_tokens (seen line) rest
  rw [hrest] at hline
  exact hcut.trans hline

theorem always_handleLine (hnames : tokens line = ascii "MAP" :: letter :: server :: share :: folders)
    (herr : ∀ past why, Q past (.err why)) (hsilent : ∀ past, Q past .silent)
    (h : ∀ past target share' dirs,
      (tokens (seen line)).take 16 = ascii "MAP" :: letter :: server :: share' :: dirs →
        LinkMade uid letter past target → LeadsTo uid server share' dirs past target → Q past (.okPath target)) :
    (handleLine uid line).Always Q past := by
  rw [handleLine, handle]
  simp only [seen_eq]
  rw [if_neg (not_logon hnames), ← tokens]
  have hfront := dropLast_seen line
  rw [hnames] at hfront
  rcases hseen : (tokens (seen line)).take 16 with _ | ⟨command, _ | ⟨a, _ | ⟨b, _ | ⟨c, dirs⟩⟩⟩⟩
  · exact hsilent _
  · exact herr _ _
  · rw [hseen] at hfront
    obtain rfl : command = ascii "MAP" := (List.cons_prefix_cons.1 hfront).1
    dsimp only
    rw [if_neg (by decide)]
    exact herr _ _
  · rw [hseen] at hfront
    obtain rfl : command = ascii "MAP" := (List.cons_prefix_cons.1 hfront).1
    dsimp only
    rw [if_neg (by decide), if_neg (by decide)]
    exact herr _ _
  · rw [hseen] at hfront
    simp only [List.dropLast_cons_cons, List.cons_prefix_cons] at hfront
    obtain ⟨rfl, rfl, rfl, -⟩ := hfront
    dsimp only
    rw [if_pos rfl]
    exact always_handleMap herr fun past target => h past target c dirs hseen

theorem leadsTo_inj (h : LeadsTo uid server share folders past target)
    (h' : LeadsTo uid server share' dirs past target) :
    (share :: folders).flatten.length = (share' :: dirs).flatten.length := by
  obtain ⟨p, -, hp, htarget⟩ := h
  obtain ⟨p', -, hp', htarget'⟩ := h'
  rw [htarget] at htarget'
  have hlength : ∀ s : Bytes, (lower s).length = s.length := fun s => List.length_map ..
  have husers : ascii "users" ≠ ascii "unc" := by decide
  simp only [sharePlaces, List.mem_cons, List.not_mem_nil, or_false] at hp hp'
  rcases hp with hp | hp <;> rcases hp' with hp' | hp' <;> rw [hp, hp'] at htarget' <;>
    simp only [List.cons_append, List.nil_append, List.cons.injEq, true_and] at htarget'
  · rw [List.flatten_cons, List.flatten_cons, List.length_append, List.length_append, htarget'.2,
      ← hlength share, htarget'.1, hlength]
  · exact absurd htarget'.1 husers
  · exact absurd htarget'.1.symm husers
  · rw [List.flatten_cons, List.flatten_cons, List.length_append, List.length_append, htarget'.2,
      ← hlength share, htarget'.1, hlength]

theorem leadsTo_iff_held (hline : 10 ∉ line)
    (hnames : tokens line = ascii "MAP" :: letter :: server :: share :: folders)
    (hseen : (tokens (seen line)).take 16 = ascii "MAP" :: letter :: server :: share' :: dirs)
    (hleads : LeadsTo uid server share' dirs past target) : LeadsTo uid server share folders past target ↔ Held line := by
  constructor
  · intro hall
    apply held_of_length
    have hlen := leadsTo_inj hall hleads
    rw [hseen, hnames]
    simp only [List.flatten_cons, List.length_append] at hlen ⊢
    omega
  · intro hheld
    have hsame := tokens_seen hline hheld
    rw [hseen, hnames] at hsame
    simp only [List.cons.injEq, true_and] at hsame
    rwa [hsame.1, hsame.2] at hleads

theorem symlink_made {s : State} (h : (s.perform o (.symlink target link)).1 = .ok) :
    ∃ place, s.tree.locate link = some place ∧
      (s.perform o (.symlink target link)).2.tree.get place = some (.link ⟨true, target.map .name⟩) := by
  rw [State.perform] at h ⊢
  split at h
  · cases h
  · next hfails =>
    rw [if_neg hfails]
    rw [State.make] at h ⊢
    cases hplace : s.tree.locate link with
    | none =>
      rw [hplace] at h
      cases h
    | some place =>
      rw [hplace] at h
      dsimp only at h ⊢
      cases hget : s.tree.get place with
      | some n =>
        rw [hget] at h
        cases h
      | none =>
        refine ⟨place, rfl, ?_⟩
        have hne : place ≠ [] := by
          rintro rfl
          simp [FileTree.get] at hget
        rw [FileTree.get_set hne, if_pos rfl]

theorem always_leads_iff (hline : 10 ∉ line)
    (hnames : tokens line = ascii "MAP" :: letter :: server :: share :: folders) :
    (handleLine uid line).Always (fun past r => ∀ target, r = .okPath target →
      LinkMade uid letter past target ∧ (LeadsTo uid server share folders past target ↔ Held line)) [] := by
  apply always_handleLine hnames (by simp) (by simp)
  rintro past target share' dirs hseen hlink hleads _ ⟨⟩
  exact ⟨hlink, leadsTo_iff_held hline hnames hseen hleads⟩

/-- A mapped drive leads to the folders of the request, just when the daemon has room for it. -/
theorem map_leads_iff (uid : Nat) (line letter server share : Bytes) (folders : List Bytes)
    (hline : 10 ∉ line) (hnames : tokens line = ascii "MAP" :: letter :: server :: share :: folders) :
    (handleLine uid line).Always (fun past r => ∀ target, r = .okPath target →
      LinkMade uid letter past target ∧ (LeadsTo uid server share folders past target ↔ Held line)) [] ∧
    ∀ (s : State) (o : Outcome) (target link : Path), (s.perform o (.symlink target link)).1 = .ok →
      ∃ place, s.tree.locate link = some place ∧
        (s.perform o (.symlink target link)).2.tree.get place = some (.link ⟨true, target.map .name⟩) :=
  ⟨always_leads_iff hline hnames, fun _ _ _ _ => symlink_made⟩

def mapLine (depth : Nat) : Bytes := ascii "MAP\tx\tfiles\tpublic" ++ (List.replicate depth (ascii "\ta")).flatten

theorem mapLine_two_leads : Held (mapLine 2) ∧
    (handleLine 1000 (mapLine 2)).Always (fun past r => ∀ target, r = .okPath target →
      LinkMade 1000 (ascii "x") past target ∧
        (LeadsTo 1000 (ascii "files") (ascii "public") [ascii "a", ascii "a"] past target ↔ Held (mapLine 2))) [] :=
  ⟨⟨by decide, by decide, by decide +kernel, by decide⟩, (map_leads_iff 1000 (mapLine 2) _ _ _ _ (by decide) (by decide)).1⟩

theorem mapLine_thirteen_is_cut :
    tokens (mapLine 13) =
      ascii "MAP" :: ascii "x" :: ascii "files" :: ascii "public" :: List.replicate 13 (ascii "a") ∧
    ¬ (handleLine 1000 (mapLine 13)).Always (fun past r => ∀ target, r = .okPath target →
      LeadsTo 1000 (ascii "files") (ascii "public") (List.replicate 13 (ascii "a")) past target) [] := by
  have hnames : tokens (mapLine 13) =
      ascii "MAP" :: ascii "x" :: ascii "files" :: ascii "public" :: List.replicate 13 (ascii "a") := by decide
  refine ⟨hnames, fun h => ?_⟩
  -- the share is mounted for everyone, and the directories and the link can be made
  have hrun : (handleLine 1000 (mapLine 13)).run [] [.failed, .ok, .ok, .ok, .ok, .ok, .missing, .ok] =
      some (_, .okPath _) := rfl
  have hiff := ((always_leads_iff (by decide) hnames).run hrun _ rfl).2
  exact absurd (hiff.1 (h.run hrun _ rfl)).2.2.2 (by decide)

end StainedGlass.Domain.NetMount
