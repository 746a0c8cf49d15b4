import StainedGlass.Snapshot.RollbackLaws

namespace StainedGlass.Snapshot

open Lib

/-- Every directory is an old one, with its copy or without, or a new one that says what `own` has. -/
def Grows (own : PointInfo → Prop) (s s' : System) : Prop :=
  ∀ x ∈ s'.dirs,
    (∃ y ∈ s.dirs, x.name = y.name ∧ x.info = y.info ∧ (x = y ∨ x.boot = none)) ∨
      x.name ∉ s.names ∧ own x.info ∧ (x.boot = none ∨ x.boot = x.snapshot)

namespace Grows

variable {own : PointInfo → Prop} {s s' s'' : System} {keepIds : List Sid}

theorem refl (own : PointInfo → Prop) (s : System) : Grows own s s :=
  fun x hx => .inl ⟨x, hx, rfl, rfl, .inl rfl⟩

theorem putDir {d : Dir} (hname : d.name ∉ s.names) (hinfo : own d.info)
    (hboot : d.boot = none ∨ d.boot = d.snapshot) : Grows own s (s.putDir d) := by
  intro x hx
  obtain rfl | ⟨hx, -⟩ := System.mem_dirs_putDir.mp hx
  · exact .inr ⟨hname, hinfo, hboot⟩
  · exact .inl ⟨x, hx, rfl, rfl, .inl rfl⟩

theorem shrinks (h : Grows own s s') (h' : Shrinks keepIds s' s'') : Grows own s s'' := by
  intro x hx
  obtain ⟨y, hy, hname, hinfo, hboot⟩ := h'.dirs x hx
  obtain rfl | hboot := hboot
  · exact h x hy
  · obtain ⟨z, hz, hyz, hinfo', -⟩ | ⟨hnew, hown, -⟩ := h y hy
    · exact .inl ⟨z, hz, hname.trans hyz, hinfo.trans hinfo', .inr hboot⟩
    · exact .inr ⟨hname ▸ hnew, hinfo ▸ hown, .inl hboot⟩

end Grows

section Commands

variable {env : Env} {s : System} {own : PointInfo → Prop}

theorem grows_take {label : Str} {changes : List Change} {source : Option String}
    {f : Sid → Cmd α} (hown : ∀ info, Begun label kind changes source info → own info)
    (hf : ∀ sid, (f sid).Keeps (Grows own s)) :
    (take env label kind changes source >>= f).Ends s (fun _ s' => Grows own s s') (fun _ s' => Grows own s s') := by
  rw [Act.ends_bind, ends_take]
  · intro sid root hsid _ _
    apply hf sid
    exact .putDir (System.freshId_notMem hsid) (hown _ (.inr ⟨root, rfl⟩)) (.inr rfl)
  · exact fun _ => .refl own s
  · exact fun _ d hname hboot hinfo => .putDir hname (hown _ hinfo) (.inl hboot)

theorem keeps_grows_clearUp (s : System) (own : PointInfo → Prop) (env : Env) (sid : Sid) :
    (clearUp env sid).Keeps (Grows own s) := by
  intro s' hs'
  apply (shrinks_clearUp env sid s').mono
  · exact fun _ _ h => hs'.shrinks h
  · exact fun _ _ h => hs'.shrinks h

theorem grows_carryOut_take
    (hown : ∀ info, Begun (label env.ours source changes) .auto changes source info → own info) :
    Grows own s (carryOut env changes source .take s).2 := by
  apply Act.Ends.state (P := Grows own s)
  apply grows_take hown
  intro sid
  apply Act.Keeps.bind
  · apply env.keeps_op
    exact fun _ h => h
  · exact fun _ => keeps_grows_clearUp s own env sid

theorem grows_cmdCreate {label : Str} {kind : Kind}
    (hown : ∀ info, Begun (label.take 300) kind [] none info → own info) :
    Grows own s (cmdCreate env label kind s).2 := by
  apply Act.Ends.state (P := Grows own s)
  rw [cmdCreate]
  split
  · exact .refl own s
  · rw [Act.ends_bind, Env.ends_op]
    constructor
    · intro _
      exact grows_take hown fun sid => keeps_grows_clearUp s own env sid
    · exact fun _ _ => .refl own s

theorem grows_cmdDelete : Grows own s (cmdDelete env sid s).2 := by
  have hrefl := Grows.refl own s
  apply Act.Ends.state (P := Grows own s)
  rw [cmdDelete]
  split
  · exact hrefl
  · split
    · exact hrefl
    · rw [Act.ends_bind, Env.ends_op]
      refine ⟨fun _ => ?_, fun _ _ => hrefl⟩
      rw [Act.ends_bind, Act.ends_get, id]
      split
      · exact hrefl
      · split
        · exact hrefl
        · rw [Act.ends_bind, ends_deletePoint List.not_mem_nil (fun _ _ h => hrefl.shrinks h)]
          intro _
          apply Act.Keeps.bind (keeps_tell env _) fun _ => .pure _
          exact hrefl.shrinks (Shrinks.removeDir s List.not_mem_nil)

theorem grows_cmdRollback {sid : Sid}
    (hown : ∀ label info, Begun label .manual [] none info → own info) :
    Grows own s (cmdRollback env sid s).2 := by
  obtain ⟨e, hcmd, -⟩ | ⟨info, -, hcmd⟩ := cmdRollback_cases env s sid
  · rw [hcmd]
    exact .refl own s
  · rw [hcmd]
    apply Act.Ends.state (P := Grows own s)
    have hrest (undo : Option Sid) : (do
        replaceSystem env sid
        makeDefault env
        writePrefs env info sid
        followUp env info sid undo
        pure ["PENDING " ++ sid] : Cmd (List String)).Keeps (Grows own s) := by
      apply Act.Keeps.bind (keeps_replaceSystem (fun _ _ _ h => h) fun _ _ h => h)
      intro _
      apply Act.Keeps.bind (keeps_makeDefault fun s' n h => by rwa [Grows, System.dirs_setDefault])
      intro _
      apply Act.Keeps.bind (keeps_writePrefs fun _ _ h => h)
      intro _
      apply Act.Keeps.bind
      · exact keeps_followUp (fun _ _ h => h) (fun _ _ _ h => h) fun _ _ h hs => hs.shrinks h
      · exact fun _ => .pure _
    have hundo : (takeUndo env info sid).Ends s (fun _ s' => Grows own s s')
        (fun _ s' => Grows own s s') := by
      rw [takeUndo, Act.ends_bind, Act.ends_get]
      split
      · exact grows_take (hown _) fun undo => .pure (some undo)
      · exact .refl own s
    rw [goBackTo, Act.ends_bind]
    apply hundo.mono
    · exact fun undo s' h => hrest undo s' h
    · exact fun _ _ h => h

end Commands

end StainedGlass.Snapshot
