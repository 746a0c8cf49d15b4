import StainedGlass.Snapshot.Convert

namespace StainedGlass.Snapshot.Convert

open Lib

variable {u : Unicode} {cal : Calendar} {env : Env} {m : Machine} {t : Int}

structure Frame (I : Machine → Prop) : Prop where
  entry : ∀ m b, I m → I { m with entry := b }
  oneshot : ∀ m b, I m → I { m with oneshot := b }
  state : ∀ m text, I m → I { m with state := text }
  delete : ∀ m, I m → I { m with saved := false, image := false }

variable {I : Machine → Prop}

theorem keeps_id (o : Op) : (env.op o id).Keeps I := Act.Keeps.op fun _ hm => hm

theorem Frame.writeState (h : Frame I) (text : Str) : (writeState env text).Keeps I :=
  Act.Keeps.op fun m hm => h.state m text hm

theorem Frame.removeConvertEntry (h : Frame I) : (removeConvertEntry env).Keeps I :=
  Act.Keeps.op fun m hm => h.entry m false hm

theorem Frame.setOneshot (h : Frame I) (on : Bool) : (setOneshot env on).Keeps I := by
  apply Act.Keeps.op
  intro m hm
  cases env.oneshot with
  | false => exact hm
  | true => exact h.oneshot m on hm

theorem Frame.scheduleConvert (h : Frame I) : (scheduleConvert env).Keeps I := by
  refine .bind (keeps_id _) fun _ => .bind (.op fun m hm => h.entry m true hm) fun _ =>
    .bind (h.setOneshot true) fun _ => ?_
  split
  · exact .bind h.removeConvertEntry fun _ => .fail _
  · exact .pure _

theorem keeps_deadline : (deadline u cal).Keeps I := by
  refine .bind .get fun m => ?_
  split
  · exact .pure _
  · exact .fail _

theorem Frame.deleteSaved (h : Frame I) : (deleteSaved env).Keeps I := by
  refine .bind .get fun m => ?_
  split
  · exact .op h.delete
  · exact .pure _

theorem Frame.keepConversion (h : Frame I) (auto : Bool) : (keepConversion cal env auto).Keeps I :=
  .bind h.deleteSaved fun _ => h.writeState _

theorem Frame.expireConvert (h : Frame I) : (expireConvert u cal env).Keeps I := by
  refine .bind keeps_deadline fun dl => ?_
  split
  · exact .pure _
  · split
    · exact .pure _
    · exact .bind (h.keepConversion true) fun _ => .pure _

theorem Frame.cmdConvertCancel (h : Frame I) : (cmdConvertCancel u cal env).Keeps I := by
  refine .bind .get fun m => ?_
  dsimp only
  split
  · exact .fail _
  · exact .bind (h.setOneshot false) fun _ => .bind h.removeConvertEntry fun _ =>
      .bind (h.writeState _) fun _ => .bind (keeps_id _) fun _ => .pure _

theorem Frame.cmdConvertKeep (h : Frame I) : (cmdConvertKeep cal env).Keeps I := by
  refine .bind .get fun m => ?_
  split
  · exact .fail _
  · exact .bind (keeps_id _) fun _ => .bind (h.keepConversion false) fun _ =>
      .bind (keeps_id _) fun _ => .pure _

theorem Frame.cmdConvertExpire (h : Frame I) : (cmdConvertExpire u cal env).Keeps I := by
  refine .bind .get fun m => ?_
  split
  · exact .pure _
  · exact .bind (keeps_id _) fun _ => .bind h.expireConvert fun done => .bind keeps_deadline fun dl =>
      .bind (keeps_id _) fun _ => .pure _

theorem Frame.cmdConvertUndo (h : Frame I) : (cmdConvertUndo cal env).Keeps I := by
  refine .bind .get fun m => ?_
  split
  · exact .fail _
  · refine .bind (keeps_id _) fun _ => ?_
    split
    · exact .fail _
    · split
      · exact .fail _
      · exact .bind h.scheduleConvert fun _ => .bind (h.writeState _) fun _ =>
          .bind (keeps_id _) fun _ => .pure _

theorem Frame.bootConverted (h : Frame I) (st : Str) : (bootConverted u cal env st).Keeps I := by
  rw [Convert.bootConverted]
  split
  · exact .pure _
  · refine .bind .get fun m => ?_
    split
    · exact h.writeState _
    · exact .bind h.expireConvert fun _ => .pure _

theorem Frame.bootSystem (h : Frame I) (st : Str) : (bootSystem u cal env st).Keeps I := by
  rw [Convert.bootSystem]
  split
  · exact keeps_id _
  · exact .bind (keeps_id _) fun _ => h.bootConverted st

theorem Frame.writeUndone (h : Frame I) (st : Str) : (writeUndone cal env st).Keeps I := by
  rw [Convert.writeUndone]
  split
  · exact h.writeState _
  · exact .pure _

theorem Frame.bootState (h : Frame I) (st : Str) (kind : Layout) : (bootState env st kind).Keeps I := by
  rw [Convert.bootState]
  split
  · exact h.writeState _
  · split
    · exact h.writeState _
    · exact .pure _

theorem Frame.bootKind (h : Frame I) (st : Str) (kind : Layout) :
    (bootKind u cal env st kind).Keeps I := by
  cases kind with
  | btrfs =>
    exact .bind (keeps_id _) fun _ => .bind (h.bootSystem st) fun _ => .bind (keeps_id _) fun _ =>
      keeps_id _
  | btrfsPlain => exact .bind (keeps_id _) fun _ => keeps_id _
  | other fstype =>
    rw [Convert.bootKind]
    split
    · exact .bind (keeps_id _) fun _ => .bind (h.writeUndone st) fun _ => .bind (keeps_id _) fun _ =>
        keeps_id _
    · exact keeps_id _

theorem Frame.cmdBoot (h : Frame I) : (cmdBoot u cal env).Keeps I := by
  rw [Convert.cmdBoot]
  split
  · exact .pure _
  · exact .bind .get fun m => .bind h.removeConvertEntry fun _ => .bind (h.bootState _ _) fun _ =>
      .bind (h.bootKind _ _) fun _ => .pure _

theorem Frame.next (h : Frame I) (hundo : ∀ m i, I m → I (m.undo i)) (hm : I m) (e : Event) :
    I (m.next u cal e) := by
  cases e with
  | boot env => exact (h.cmdBoot m hm).state
  | initrd i =>
    rw [Machine.next, Machine.startInitrd]
    split
    · exact hundo _ i (h.oneshot m false hm)
    · exact h.oneshot m false hm
  | undo env => exact (h.cmdConvertUndo m hm).state
  | cancel env => exact (h.cmdConvertCancel m hm).state
  | keep env => exact (h.cmdConvertKeep m hm).state
  | expire env => exact (h.cmdConvertExpire m hm).state

theorem frame_created : Frame (fun m => m.created = none) :=
  ⟨fun _ _ h => h, fun _ _ h => h, fun _ _ h => h, fun _ h => h⟩

theorem frame_not_undoable : Frame (fun m => ¬ m.Undoable) :=
  ⟨fun _ _ h => h, fun _ _ h => h, fun _ _ h => h, fun _ _ h => nomatch h.2⟩

theorem created_undo (m : Machine) (i : Initrd) (h : m.created = none) : (m.undo i).created = none := by
  rw [Machine.undo]
  grind

theorem not_undoable_undo (m : Machine) (i : Initrd) (h : ¬ m.Undoable) : ¬ (m.undo i).Undoable := by
  rw [Machine.undo]
  simp only [Machine.Undoable] at h ⊢
  grind [ext4]

theorem space_visible {s : Str} (h : ∀ c ∈ s, 33 ≤ c ∧ c < 128) : ∀ c ∈ s, u.space c = false :=
  fun c hc => u.space_visible (h c hc)

theorem space_blank : u.space 32 = true := by
  rw [u.space_ascii (by decide)]
  decide

theorem space_newline : u.space 10 = true := by
  rw [u.space_ascii (by decide)]
  decide

theorem convertState_fst {w rest : Str} (hne : w ≠ []) (hw : ∀ c ∈ w, 33 ≤ c ∧ c < 128)
    (h : m.state = w ++ 32 :: rest) : (convertState u m).1 = w := by
  have hword : u.word m.state = w := by
    rw [h, Unicode.word_append hne (space_visible hw) (by simp [space_blank])]
  rw [convertState, if_neg, hword]
  rw [h, Unicode.lstrip_word hne (space_visible hw)]
  simp

theorem convertState_snd {w v rest : Str} (hne : w ≠ []) (hw : ∀ c ∈ w, 33 ≤ c ∧ c < 128)
    (hvne : v ≠ []) (hv : ∀ c ∈ v, 33 ≤ c ∧ c < 128) (hrest : ∀ c ∈ rest.head?, u.space c = true)
    (h : m.state = w ++ 32 :: (v ++ rest)) :
    u.lstrip (convertState u m).2 ≠ [] ∧ u.word (convertState u m).2 = v := by
  obtain ⟨z, hstrip, hz⟩ :=
    Unicode.strip_word hvne (space_visible hv) (space_blank (u := u)) hrest
  have hsnd : (convertState u m).2 = v ++ z := by
    rw [convertState, if_neg, h, Unicode.afterWord_append hne (space_visible hw) (by simp [space_blank]),
      hstrip]
    rw [h, Unicode.lstrip_word hne (space_visible hw)]
    simp
  rw [hsnd, Unicode.lstrip_word hvne (space_visible hv), Unicode.word_append hvne (space_visible hv) hz]
  exact ⟨by simp [hvne], rfl⟩

theorem mem_sid {sid : Sid} (h : matchesIdRe sid) (hn : '\n' ∉ sid.toList) :
    sid.toList ≠ [] ∧ ∀ c ∈ sid.toList, isAsciiDigit c ∨ c = '-' := by
  simp only [matchesIdRe, Bool.and_eq_true, Bool.or_eq_true, beq_iff_eq, List.all_eq_true] at h
  obtain ⟨⟨⟨⟨⟨-, hdate⟩, hdash⟩, -⟩, htime⟩, hend⟩ := h
  refine ⟨by rintro hnil; simp [hnil] at hdash, ?_⟩
  intro c hc
  have hdrop : sid.toList.drop 8 = '-' :: sid.toList.drop 9 := List.drop_eq_getElem?_toList_append.trans
    (by rw [hdash]; rfl)
  rw [← List.take_append_drop 8 sid.toList, List.mem_append, hdrop, List.mem_cons,
    ← List.take_append_drop 6 (sid.toList.drop 9), List.mem_append, List.drop_drop] at hc
  rcases hc with hc | hc | hc | hc
  · exact .inl (hdate c hc)
  · exact .inr hc
  · exact .inl (htime c hc)
  · rcases hend with hend | hend
    · simp [hend] at hc
    · exact absurd (List.mem_of_mem_drop (hend ▸ List.mem_singleton_self '\n')) hn

theorem str_sid {sid : Sid} (h : matchesIdRe sid) (hn : '\n' ∉ sid.toList) :
    str sid ≠ [] ∧ (∀ c ∈ str sid, 33 ≤ c ∧ c < 128) ∧ toSid (str sid) = sid := by
  obtain ⟨hne, hmem⟩ := mem_sid h hn
  refine ⟨by simpa [str] using hne, ?_, ?_⟩
  · intro c hc
    obtain ⟨d, hd, rfl⟩ := List.mem_map.mp hc
    rcases hmem d hd with hdigit | rfl
    · rw [isAsciiDigit, Bool.and_eq_true, decide_eq_true_eq, decide_eq_true_eq] at hdigit
      have hlo : 48 ≤ d.toNat := hdigit.1
      have hhi : d.toNat ≤ 57 := hdigit.2
      omega
    · decide
  · have hchar : Char.ofNat ∘ Char.toNat = id := by
      funext c
      exact Char.ofNat_toNat c
    rw [toSid, str, List.map_map, hchar, List.map_id, String.ofList_toList]

theorem Machine.ConvertedAt.deadline (h : m.ConvertedAt cal t) :
    (convertState u m).1 = str "converted" ∧
      convertDeadline u cal m = .ok (some (t + convertDays * 86400)) := by
  obtain ⟨sid, hid, hn, htime, hstate⟩ := h.state
  obtain ⟨hne, hvis, hsid⟩ := str_sid hid hn
  have hline : m.state = str "converted" ++ 32 :: (str sid ++ [10]) := by
    rw [hstate]
    simp [str]
  have hfst : (convertState u m).1 = str "converted" :=
    convertState_fst (by decide) (by decide) hline
  obtain ⟨hdetail, hword⟩ := convertState_snd (u := u) (by decide) (by decide) hne hvis
    (by simp [space_newline]) hline
  refine ⟨hfst, ?_⟩
  rw [convertDeadline, if_neg, if_neg, savedCreated]
  · rw [if_pos, hword, hsid, htime]
    · rfl
    · rw [hword, hsid]
      exact ⟨hdetail, hid⟩
  · simp [h.undoable.2]
  · simp [h.undoable.1, hfst]

theorem convertDeadline_of_ne (h : (convertState u m).1 ≠ str "converted") :
    convertDeadline u cal m = .ok none := by
  rw [convertDeadline, if_pos (.inr h)]

/-- The steps after which no date is written any more, while the conversion can be undone. -/
def Machine.Loses (m : Machine) : Event → Prop
  | .undo env =>
    m.Undoable ∧ m.image = true ∧ env.power = true ∧ env.oneshot = true ∧
      ∀ o ∈ [Op.mount, .startFiles, .writeEntry, .bootctl, .write], env.fails o = none
  | .initrd i =>
    m.Undoable ∧ m.oneshot = true ∧ m.entry = true ∧ m.image = true ∧ i.found = true ∧
      i.mounts = true ∧ i.converts = false ∧ i.mountsAfter = true
  | _ => False

def Machine.Dated (m : Machine) (cal : Calendar) (t : Int) : Prop := m.Undoable → m.ConvertedAt cal t

theorem Machine.ConvertedAt.entry (h : m.ConvertedAt cal t) (b : Bool) :
    { m with entry := b }.ConvertedAt cal t :=
  ⟨h.undoable, h.created, h.state⟩

theorem Machine.ConvertedAt.oneshot (h : m.ConvertedAt cal t) (b : Bool) :
    { m with oneshot := b }.ConvertedAt cal t :=
  ⟨h.undoable, h.created, h.state⟩

theorem keeps_removeConvertEntry : (removeConvertEntry env).Keeps (·.ConvertedAt cal t) :=
  .op fun _ hm => hm.entry false

theorem ends_setOneshot (h : m.ConvertedAt cal t) (on : Bool) :
    (setOneshot env on).Ends m (fun _ m' => m'.ConvertedAt cal t ∧ env.fails .bootctl = none)
      (fun _ m' => m'.ConvertedAt cal t) := by
  rw [setOneshot, Env.op, Act.ends_op]
  refine ⟨fun hbootctl => ⟨?_, hbootctl⟩, fun _ _ => h⟩
  split
  · exact h.oneshot on
  · exact h

theorem ends_keepConversion (h : m.ConvertedAt cal t) (auto : Bool) :
    (keepConversion cal env auto).Ends m (fun _ m' => ¬ m'.Undoable)
      (fun _ m' => m'.Dated cal t) := by
  rw [keepConversion, Act.ends_bind, deleteSaved, Act.ends_bind, Act.ends_get, if_pos h.undoable.2,
    Env.op, Act.ends_op]
  refine ⟨fun _ => ?_, fun _ _ _ => h⟩
  rw [writeState, Env.op, Act.ends_op]
  exact ⟨fun _ hu => (nomatch hu.2), fun _ _ hu => (nomatch hu.2)⟩

theorem ends_deadline (h : m.ConvertedAt cal t) :
    (deadline u cal).Ends m Q E ↔ Q (some (t + convertDays * 86400)) m := by
  rw [deadline, Act.ends_bind, Act.ends_get, h.deadline.2]
  rfl

theorem ends_expireConvert (h : m.ConvertedAt cal t) :
    (expireConvert u cal env).Ends m (fun _ m' => m'.Dated cal t) (fun _ m' => m'.Dated cal t) := by
  rw [expireConvert, Act.ends_bind, ends_deadline h]
  dsimp only
  split
  · exact fun _ => h
  · rw [Act.ends_bind]
    exact (ends_keepConversion h true).mono (fun _ _ hu hopen => absurd hopen hu) fun _ _ hd => hd

theorem ends_scheduleConvert (h : m.ConvertedAt cal t) :
    (scheduleConvert env).Ends m
      (fun _ m' => m'.ConvertedAt cal t ∧ env.oneshot = true ∧
        ∀ o ∈ [Op.startFiles, .writeEntry, .bootctl], env.fails o = none)
      (fun _ m' => m'.ConvertedAt cal t) := by
  rw [scheduleConvert, Env.op, Act.ends_bind, Act.ends_op]
  refine ⟨fun hfiles => ?_, fun _ _ => h⟩
  rw [Env.op, Act.ends_bind, Act.ends_op]
  refine ⟨fun hentry => ?_, fun _ _ => h⟩
  rw [Act.ends_bind]
  refine (ends_setOneshot (h.entry true) true).mono ?_ fun _ _ hm' => hm'
  rintro _ m' ⟨hm', hbootctl⟩
  cases hon : env.oneshot with
  | false =>
    rw [if_pos (by decide), Act.ends_bind]
    exact (keeps_removeConvertEntry m' hm').mono (fun _ _ h => h) fun _ _ h => h
  | true =>
    rw [if_neg (by simp), Act.ends_pure]
    exact ⟨hm', rfl, by simp [hfiles, hentry, hbootctl]⟩

theorem ends_cmdConvertUndo (h : m.ConvertedAt cal t) (hkept : ¬ m.Loses (.undo env)) :
    (cmdConvertUndo cal env).Ends m (fun _ m' => m'.Dated cal t) (fun _ m' => m'.Dated cal t) := by
  rw [cmdConvertUndo, Act.ends_bind, Act.ends_get, if_neg (by simp [h.undoable.1]), Env.op, Act.ends_bind,
    Act.ends_op]
  refine ⟨fun hmount => ?_, fun _ _ _ => h⟩
  dsimp only [id]
  split
  · exact fun _ => h
  · next himage =>
    split
    · exact fun _ => h
    · next hpower =>
      rw [Act.ends_bind]
      refine (ends_scheduleConvert h).mono ?_ fun _ _ hm _ => hm
      rintro _ m' ⟨hm', hon, hfails⟩
      rw [Act.ends_bind, writeState, Env.op, Act.ends_op]
      refine ⟨fun hwrite => absurd ?_ hkept, fun _ _ _ => hm'⟩
      exact ⟨h.undoable, by simpa using himage, by simpa using hpower, hon, by simp_all⟩

theorem ends_cmdConvertKeep (h : m.ConvertedAt cal t) :
    (cmdConvertKeep cal env).Ends m (fun _ m' => m'.Dated cal t) (fun _ m' => m'.Dated cal t) := by
  rw [cmdConvertKeep, Act.ends_bind, Act.ends_get, if_neg (by simp [h.undoable.1]), Env.op, Act.ends_bind,
    Act.ends_op]
  refine ⟨fun _ => ?_, fun _ _ _ => h⟩
  refine Act.Ends.andThen ?_ fun _ => .bind (keeps_id _) fun _ => .pure _
  exact (ends_keepConversion h false).mono (fun _ _ hu hopen => absurd hopen hu) fun _ _ hd => hd

theorem ends_cmdConvertExpire (h : m.ConvertedAt cal t) :
    (cmdConvertExpire u cal env).Ends m (fun _ m' => m'.Dated cal t) (fun _ m' => m'.Dated cal t) := by
  rw [cmdConvertExpire, Act.ends_bind, Act.ends_get, if_neg (by simp [h.undoable.1]), Env.op, Act.ends_bind,
    Act.ends_op]
  refine ⟨fun _ => ?_, fun _ _ _ => h⟩
  refine (ends_expireConvert h).andThen fun done => .bind keeps_deadline fun dl =>
    .bind (keeps_id _) fun _ => .pure _

theorem ends_cmdConvertCancel (h : m.ConvertedAt cal t) :
    (cmdConvertCancel u cal env).Ends m (fun _ m' => m'.Dated cal t) (fun _ m' => m'.Dated cal t) := by
  rw [cmdConvertCancel, Act.ends_bind, Act.ends_get, h.deadline.1, if_pos (by decide)]
  exact fun _ => h

theorem ends_cmdBoot (h : m.ConvertedAt cal t) :
    (cmdBoot u cal env).Ends m (fun _ m' => m'.Dated cal t) (fun _ m' => m'.Dated cal t) := by
  rw [cmdBoot]
  split
  · exact fun _ => h
  rw [Act.ends_bind, Act.ends_get, h.deadline.1, h.undoable.1, Act.ends_bind]
  refine (keeps_removeConvertEntry m h).mono (fun _ m' hm' => ?_) fun _ _ hm' _ => hm'
  rw [bootState, if_neg (by decide), if_neg (by decide)]
  rw [Act.ends_bind, Act.ends_pure]
  refine Act.Ends.andThen ?_ fun _ => .pure _
  rw [bootKind, bootBtrfs, Env.op, Act.ends_bind, Act.ends_op]
  refine ⟨fun _ => ?_, fun _ _ _ => hm'⟩
  refine Act.Ends.andThen ?_ fun _ => .bind (keeps_id _) fun _ => keeps_id _
  rw [bootSystem]
  split
  · exact keeps_id _ m' fun _ => hm'
  · rw [Env.op, Act.ends_bind, Act.ends_op]
    refine ⟨fun _ => ?_, fun _ _ _ => hm'⟩
    rw [bootConverted, if_neg (by decide), Act.ends_bind, Act.ends_get, if_neg (by simp [hm'.undoable.2])]
    exact (ends_expireConvert hm').andThen fun _ => .pure _

theorem Machine.ConvertedAt.initrd (h : m.ConvertedAt cal t)
    (hkept : ¬ m.Loses (.initrd i)) : (m.startInitrd i).Dated cal t := by
  have hsame : { m with oneshot := false }.ConvertedAt cal t := h.oneshot false
  rw [Machine.startInitrd]
  split
  · next hstart =>
    rw [Machine.undo]
    split
    · exact fun _ => hsame
    · next hfound =>
      split
      · exact fun _ => hsame
      · next hmounts =>
        split
        · next hconverts =>
          split
          · next hafter =>
            simp only [Bool.and_eq_true, Bool.or_eq_true, Bool.not_eq_true', not_or,
              Bool.not_eq_false] at hstart hfound hmounts hconverts
            exact absurd ⟨h.undoable, hstart.1, hstart.2, hmounts.2, hfound.1, hmounts.1, hconverts,
              hafter⟩ hkept
          · exact fun _ => hsame
        · exact fun hu => nomatch hu.1
  · exact fun _ => hsame

theorem Machine.Dated.next (h : m.Dated cal t) (he : ¬ m.Loses e) : (m.next u cal e).Dated cal t := by
  by_cases hopen : m.Undoable
  · have hm := h hopen
    cases e with
    | boot env => exact (ends_cmdBoot hm).state
    | initrd i => exact hm.initrd he
    | undo env => exact (ends_cmdConvertUndo hm he).state
    | cancel env => exact (ends_cmdConvertCancel hm).state
    | keep env => exact (ends_cmdConvertKeep hm).state
    | expire env => exact (ends_cmdConvertExpire hm).state
  · exact fun hu => absurd hu (frame_not_undoable.next not_undoable_undo hopen e)

theorem created_next (h : m.created = none) (e : Event) : (m.next u cal e).created = none :=
  frame_created.next created_undo h e

theorem ends_op_of_none (ho : env.fails o = none) : (env.op o f).Ends m Q E ↔ Q () (f m) := by
  simp [Env.op, ho]

theorem undo_loses (h : m.Loses (.undo env)) :
    (m.next u cal (.undo env)).Undoable ∧
      convertDeadline u cal (m.next u cal (.undo env)) = .ok none := by
  obtain ⟨hopen, himage, hpower, hon, hfails⟩ := h
  simp only [List.mem_cons, List.not_mem_nil, or_false, forall_eq_or_imp, forall_eq] at hfails
  obtain ⟨hmount, hfiles, hentry, hbootctl, hwrite⟩ := hfails
  have hends : (cmdConvertUndo cal env).Ends m
      (fun _ m' => m'.Undoable ∧ m'.state = str "undo-scheduled " ++ newId cal env ++ [10])
      (fun _ m' => m'.Undoable ∧ m'.state = str "undo-scheduled " ++ newId cal env ++ [10]) := by
    rw [cmdConvertUndo, Act.ends_bind, Act.ends_get, if_neg (by simp [hopen.1]), Act.ends_bind,
      ends_op_of_none hmount, if_neg (by simp [himage]), if_neg (by simp [hpower]), Act.ends_bind,
      scheduleConvert, Act.ends_bind, ends_op_of_none hfiles, Act.ends_bind, ends_op_of_none hentry,
      Act.ends_bind, setOneshot, ends_op_of_none hbootctl, if_neg (by simp [hon]), Act.ends_pure,
      if_pos hon, Act.ends_bind, writeState, ends_op_of_none hwrite]
    exact Act.Keeps.bind (keeps_id _) (fun _ => .pure _) _ ⟨hopen, rfl⟩
  obtain ⟨hopen', hstate⟩ := hends.state
  refine ⟨hopen', convertDeadline_of_ne ?_⟩
  have hline : (m.next u cal (.undo env)).state = str "undo-scheduled" ++ 32 :: (newId cal env ++ [10]) := by
    rw [Machine.next, hstate]
    simp [str]
  rw [convertState_fst (by decide) (by decide) hline]
  decide

theorem convertDeadline_failed (hcreated : m.created = none)
    (h : m.state = str "converted The undo failed (btrfs-convert).\n") :
    convertDeadline u cal m = .ok none := by
  have hline : m.state =
      str "converted" ++ 32 :: (str "The" ++ str " undo failed (btrfs-convert).\n") := h
  obtain ⟨-, hword⟩ := convertState_snd (u := u) (by decide) (by decide) (by decide) (by decide)
    (by simp [str, space_blank]) hline
  have hid : matchesIdRe (toSid (str "The")) = false := by decide
  rw [convertDeadline]
  split
  · rfl
  · split
    · rfl
    · rw [savedCreated, hword, if_neg (by simp [hid]), hcreated]
      rfl

theorem initrd_loses (hcreated : m.created = none) (h : m.Loses (.initrd i)) : (m.next u cal (.initrd i)).Undoable ∧
      convertDeadline u cal (m.next u cal (.initrd i)) = .ok none := by
  obtain ⟨hopen, hon, hentry, himage, hfound, hmounts, hconverts, hafter⟩ := h
  have hnext : m.next u cal (.initrd i) =
      { m with oneshot := false, state := str "converted The undo failed (btrfs-convert).\n" } := by
    rw [Machine.next, Machine.startInitrd, if_pos (by simp [hon, hentry]), Machine.undo]
    simp [hfound, hmounts, hconverts, hafter, himage, Machine.isBtrfs, hopen.1]
  rw [hnext]
  exact ⟨hopen, convertDeadline_failed hcreated rfl⟩

theorem Machine.Loses.next (hcreated : m.created = none) (h : m.Loses e) :
    (m.next u cal e).Undoable ∧ convertDeadline u cal (m.next u cal e) = .ok none := by
  cases e with
  | undo env => exact undo_loses h
  | initrd i => exact initrd_loses hcreated h
  | boot env => exact h.elim
  | cancel env => exact h.elim
  | keep env => exact h.elim
  | expire env => exact h.elim

/-- The drive's top level can be mounted, the old file system deleted and the state
written. -/
def Env.CanKeep (env : Env) : Prop :=
  env.fails .mount = none ∧ env.fails .delete = none ∧ env.fails .write = none

theorem kept_expire (h : m.ConvertedAt cal t) (hcan : env.CanKeep)
    (hnow : t + convertDays * 86400 ≤ env.now) : (m.next u cal (.expire env)).Kept u := by
  obtain ⟨hmount, hdelete, hwrite⟩ := hcan
  have hkept : ∀ m' : Machine, m'.saved = false →
      m'.state = str "kept" ++ 32 :: (newId cal env ++ str " auto\n") → m'.Kept u :=
    fun m' hsaved hstate => ⟨hsaved, convertState_fst (by decide) (by decide) hstate⟩
  have hends : (cmdConvertExpire u cal env).Ends m (fun _ m' => m'.Kept u) (fun _ m' => m'.Kept u) := by
    rw [cmdConvertExpire, Act.ends_bind, Act.ends_get, if_neg (by simp [h.undoable.1]), Act.ends_bind,
      ends_op_of_none hmount]
    refine Act.Ends.andThen ?_ fun _ => .bind keeps_deadline fun _ => .bind (keeps_id _) fun _ => .pure _
    rw [expireConvert, id_eq, Act.ends_bind, ends_deadline h]
    dsimp only
    rw [if_neg (by omega), Act.ends_bind, keepConversion, Act.ends_bind, deleteSaved, Act.ends_bind,
      Act.ends_get, if_pos h.undoable.2, ends_op_of_none hdelete, writeState,
      ends_op_of_none hwrite, Act.ends_pure]
    refine hkept _ rfl ?_
    simp [str]
  exact hends.state

variable (u cal)

theorem run_append (m : Machine) (pre : List Event) (e : Event) :
    m.run u cal (pre ++ [e]) = (m.run u cal pre).next u cal e := by
  simp [Machine.run]

theorem created_run (h : m.created = none) (es : List Event) : (m.run u cal es).created = none := by
  induction es using List.reverseRecOn with
  | nil => exact h
  | append_singleton es e ih =>
    rw [run_append]
    exact created_next ih e

theorem dated_run (h : m.ConvertedAt cal t) (es : List Event)
    (hes : ∀ pre e, pre ++ [e] <+: es → ¬ (m.run u cal pre).Loses e) :
    ∀ pre, pre <+: es → (m.run u cal pre).Dated cal t := by
  intro pre
  induction pre using List.reverseRecOn with
  | nil => exact fun _ _ => h
  | append_singleton pre e ih =>
    intro hpre
    rw [run_append]
    exact (ih ((List.prefix_append pre [e]).trans hpre)).next (hes pre e hpre)

/-- The deadline stays, and the first `convert-expire` after it keeps the conversion, just where no undo
is scheduled and none fails. -/
theorem deadline_stays_iff (h : m.ConvertedAt cal t) (es : List Event) :
    ((∀ pre, pre <+: es → (m.run u cal pre).Undoable →
        convertDeadline u cal (m.run u cal pre) = .ok (some (t + 14 * 86400))) ∧
      ∀ pre env, pre ++ [.expire env] <+: es → (m.run u cal pre).Undoable →
        t + 14 * 86400 ≤ env.now → env.CanKeep →
        (m.run u cal (pre ++ [.expire env])).Kept u) ↔
      ∀ pre e, pre ++ [e] <+: es → ¬ (m.run u cal pre).Loses e := by
  constructor
  · rintro ⟨hdeadline, -⟩ pre e hpre hloses
    obtain ⟨hopen, hnone⟩ : ((m.run u cal pre).next u cal e).Undoable ∧
        convertDeadline u cal ((m.run u cal pre).next u cal e) = .ok none :=
      hloses.next (created_run u cal h.created pre)
    have := hdeadline (pre ++ [e]) hpre
    rw [run_append, hnone] at this
    cases this hopen
  · intro hes
    have hdated := dated_run u cal h es hes
    constructor
    · intro pre hpre hopen
      exact (hdated pre hpre hopen).deadline.2
    · intro pre env hpre hopen hnow hcan
      rw [run_append]
      exact kept_expire (hdated pre ((List.prefix_append pre _).trans hpre) hopen) hcan hnow

def oneMoment : Calendar where
  newId _ := "20261009-120000"
  mktime _ := some 1791547200
  newId_matches _ := by decide

def justConverted : Machine where
  kind := .btrfs
  saved := true
  image := true
  created := none
  state := str "converted 20261009-120000\n"
  before := str "scheduled 20261009-115500\n"
  entry := true
  oneshot := false

def untroubled (now : Int) : Env where
  now := now
  stamp := now
  fails _ := none
  oneshot := true
  power := true
  live := false
  booted := false

theorem convertedAt_justConverted : justConverted.ConvertedAt oneMoment 1791547200 :=
  ⟨by decide, rfl, "20261009-120000", by decide, by decide, rfl, by decide⟩

theorem expired_in_time :
    justConverted.ConvertedAt oneMoment 1791547200 ∧
      (justConverted.run .ascii oneMoment [.expire (untroubled 1792756800)]).Kept .ascii := by
  have hsafe : ∀ pre e, pre ++ [e] <+: [.expire (untroubled 1792756800)] →
      ¬ (justConverted.run .ascii oneMoment pre).Loses e := by
    intro pre e hpre
    obtain rfl : pre = [] := List.eq_nil_of_length_eq_zero (by simpa using hpre.length_le)
    obtain rfl : e = .expire (untroubled 1792756800) := by simpa using hpre
    exact id
  exact ⟨convertedAt_justConverted,
    ((deadline_stays_iff .ascii oneMoment convertedAt_justConverted _).mpr hsafe).2 []
      (untroubled 1792756800) (List.prefix_refl _) (by decide) (by decide) ⟨rfl, rfl, rfl⟩⟩

theorem cancelled_undo_never_expires :
    justConverted.ConvertedAt oneMoment 1791547200 ∧
      (justConverted.run .ascii oneMoment [.undo (untroubled 1791633600),
        .cancel (untroubled 1791633660), .expire (untroubled 1886155200)]).Undoable ∧
      convertDeadline .ascii oneMoment (justConverted.run .ascii oneMoment
        [.undo (untroubled 1791633600), .cancel (untroubled 1791633660),
          .expire (untroubled 1886155200)]) = .ok none := by
  refine ⟨convertedAt_justConverted, ?_, ?_⟩
  · decide
  · rfl

end StainedGlass.Snapshot.Convert
