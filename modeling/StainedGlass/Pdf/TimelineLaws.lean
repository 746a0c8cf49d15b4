import StainedGlass.Pdf.RefusedLaws

/-! Undo points over whole runs of the engine of `pdf/sgpdf.py`. -/

namespace StainedGlass.Pdf.Engine

open Lib

variable {κ : Type} {I : State κ → Prop}

theorem keeps_goTo (hmove : ∀ s d snap, I s → s.doc = some d → (points s).getLast? = some snap →
      I { (take d.file s).reopen mu snap with dirty := true }) (trouble : Option Raised) :
    (goTo mu message points take trouble).Keeps I := by
  intro s hs
  rw [goTo, Act.ends_bind, ends_needDoc]
  refine ⟨fun _ _ => ?_, fun _ => hs⟩
  rw [Act.ends_bind, Act.ends_get]
  cases hlast : (points s).getLast? with
  | none => exact hs
  | some snap =>
    simp only [Act.ends_bind, ends_tobytes]
    refine ⟨fun d hd => ?_, fun _ => hs⟩
    split
    · exact keeps_state trouble _ (hmove s d snap hs hd hlast)
    · exact hs

def State.timeline (s : State κ) : List (File κ) :=
  s.undo ++ (s.doc.map Doc.file).toList ++ s.redo.reverse

theorem keeps_timeline_undo (line : List (File κ)) (trouble : Option Raised) :
    (undo_ mu trouble).Keeps fun s : State κ => s.timeline = line := by
  apply keeps_goTo
  intro s d snap hs hd hlast
  obtain ⟨older, hundo⟩ := List.getLast?_eq_some_iff.mp hlast
  simpa [State.timeline, State.reopen, openWith, hd, hundo] using hs

theorem keeps_timeline_redo (line : List (File κ)) (trouble : Option Raised) :
    (redo_ mu trouble).Keeps fun s : State κ => s.timeline = line := by
  apply keeps_goTo
  intro s d snap hs hd hlast
  obtain ⟨newer, hredo⟩ := List.getLast?_eq_some_iff.mp hlast
  simpa [State.timeline, State.reopen, openWith, hd, hredo] using hs

inductive Move
  | back (trouble : Option Raised)
  | forth (trouble : Option Raised)

def Move.run (mu : Mupdf κ) : Move → Cmd κ Answer
  | .back trouble => undo_ mu trouble
  | .forth trouble => redo_ mu trouble

theorem timeline_moves (moves : List Move) (s : State κ) :
    (moves.foldl (fun s m => (m.run mu s).2) s).timeline = s.timeline := by
  induction moves generalizing s with
  | nil => rfl
  | cons m moves ih =>
    have hstep : (m.run mu s).2.timeline = s.timeline := by
      cases m with
      | back trouble => exact (keeps_timeline_undo s.timeline trouble s rfl).state
      | forth trouble => exact (keeps_timeline_redo s.timeline trouble s rfl).state
    exact (ih _).trans hstep

def Edited (s : State κ) (d : Doc κ) (s' : State κ) : Prop :=
  ∃ older c, older <:+ s.undo ∧ s'.timeline = older ++ [d.file, ⟨c, d.file.lock⟩] ∧ s'.redo = []

theorem edit_ends (mu : Mupdf κ) (checks : Option Raised) (perm : Nat) (ending : Ending κ)
    (trouble : Option Raised) {s : State κ} (hdoc : s.doc = some d) :
    (edit mu checks perm ending trouble).Ends s (fun _ => Edited s d) fun _ _ => True := by
  cases checks with
  | some e => trivial
  | none =>
    rw [edit, Act.ends_bind, begin, Act.ends_bind, ends_needDoc]
    refine ⟨fun _ _ => ?_, fun _ => trivial⟩
    rw [Act.ends_bind, Act.ends_get]
    split
    · rw [Act.ends_bind, ends_tobytes]
      refine ⟨fun d' hd' => ?_, fun _ => trivial⟩
      cases hdoc.symm.trans hd'
      split
      · cases ending with
        | done c =>
          obtain ⟨older, htrim, holder⟩ := trim_eq_append mu s.undo d.file
          refine (keeps_state (I := Edited s d) trouble _ ⟨older, c, holder, ?_, rfl⟩).mono (fun _ _ h => h)
            fun _ _ _ => trivial
          simp [State.timeline, State.setContent, State.push, hdoc, htrim]
        | raised c e => trivial
        | rolledBack e => trivial
        | gaveUp c e => trivial
      · trivial
    · trivial

/-- An edit that is accepted keeps the document it changed as the point before it and drops at most the
oldest points and those undone; whatever is undone and redone after it, no point is lost. -/
theorem edited_timeline (mu : Mupdf κ) (c : EditCommand) (fate : Fate κ) (moves : List Move) {s s' : State κ}
    {d : Doc κ} {answer : Answer} (hdoc : s.doc = some d) (h : c.run mu fate s = (.ok answer, s')) :
    ∃ older new, older <:+ s.undo ∧ s'.redo = [] ∧ (moves.foldl (fun s m => (m.run mu s).2) s').timeline =
      older ++ [d.file, ⟨new, d.file.lock⟩] := by
  have hedit := edit_ends mu (failing s.doc fate 0 c.before) (c.perm s)
    (Engine.ending fate c.before.length c.body d.file.content) fate.trouble hdoc
  unfold EditCommand.run at h
  simp only [hdoc] at h hedit
  unfold Act.Ends at hedit
  rw [h] at hedit
  obtain ⟨older, new, holder, htimeline, hredo⟩ := hedit
  exact ⟨older, new, holder, hredo, (timeline_moves moves s').trans htimeline⟩

def turnFate : Fate Nat := ⟨fun _ => none, fun _ => none, fun _ _ => 1, none⟩

def turned : State Nat := (EditCommand.rotate.run .plain turnFate letter).2

theorem turned_timeline : ∃ older new, older <:+ letter.undo ∧ turned.redo = [] ∧
    ([Move.back none, .forth none].foldl (fun s m => (m.run .plain s).2) turned).timeline = older ++ [⟨0, none⟩, ⟨new, none⟩] :=
  @edited_timeline _ .plain .rotate turnFate _ letter turned _ ⟨1, 0, true, 65535, false, .keep⟩ rfl rfl

def Limited (s : State κ) : Prop := s.undo.length + s.redo.length ≤ undoLevels

theorem length_trim_le (mu : Mupdf κ) (files : List (File κ)) : (trim mu files).length ≤ undoLevels := by
  induction files with
  | nil => exact Nat.zero_le _
  | cons f rest ih =>
    rw [trim]
    split
    · exact ih
    · next h => exact not_lt.mp fun hlt => h (.inl hlt)

theorem Limited.mono {s s' : State κ} (h : Limited s) (hundo : s'.undo.length ≤ s.undo.length)
    (hredo : s'.redo.length ≤ s.redo.length) : Limited s' := (Nat.add_le_add hundo hredo).trans h

theorem Limited.rollBack {s : State κ} (h : Limited s) (mu : Mupdf κ) : Limited (s.rollBack mu) := by
  unfold State.rollBack
  split
  · exact h.mono (by simp [State.reopen]) le_rfl
  · exact h

theorem Limited.adoptSecurity {s : State κ} (h : Limited s) : Limited s.adoptSecurity := by
  unfold State.adoptSecurity
  split <;> exact h

theorem keeps_limited_begin (mu : Mupdf κ) (perm : Nat) : (begin mu perm).Keeps Limited := by
  refine keeps_needDoc.bind fun _ => Act.Keeps.get.bind fun s => ?_
  split
  · refine (Act.Keeps.bind keeps_needDoc fun d => ?_).bind fun snap => .op fun s _ => length_trim_le mu _
    split
    · exact .pure _
    · exact .fail _
  · exact .fail _

theorem keeps_modify (hf : ∀ s, I s → I (f s)) : (modify f).Keeps I := .op hf

theorem keeps_modify_state (hf : ∀ s, I s → I (f s)) (trouble : Option Raised) :
    (modify f >>= fun _ => state trouble).Keeps I := (keeps_modify hf).bind fun _ => keeps_state trouble

theorem keeps_limited_finish (ending : Ending κ) (trouble : Option Raised) : (finish mu ending trouble).Keeps Limited := by
  cases ending with
  | done c =>
    refine (keeps_modify ?_).bind fun _ => keeps_modify_state ?_ trouble
    exacts [fun _ h => h, fun _ h => h]
  | raised c e =>
    refine (keeps_modify ?_).bind fun _ => .fail e
    exact fun _ h => h
  | rolledBack e => exact (keeps_modify (I := Limited) fun _ h => h.rollBack mu).bind fun _ => .fail e
  | gaveUp c e =>
    refine (keeps_modify fun _ h => h.mono ?_ le_rfl).bind fun _ => .fail e
    simp

theorem keeps_limited_edit (mu : Mupdf κ) (c : EditCommand) (fate : Fate κ) : (c.run mu fate).Keeps Limited := by
  intro s hs
  unfold Act.Ends EditCommand.run
  cases s.doc with
  | none => exact hs
  | some d =>
    unfold edit
    cases failing (some d) fate 0 c.before with
    | some e => exact hs
    | none => exact (keeps_limited_begin mu _).bind (fun _ => keeps_limited_finish _ _) s hs

theorem keeps_limited_openDoc (path : Str) (password : Option Str) (found : Except Raised (File κ))
    (trouble : Option Raised) : (openDoc mu path password found trouble).Keeps Limited := by
  unfold openDoc
  split
  · exact .fail _
  · split
    · exact .fail _
    · exact keeps_modify_state (fun _ _ => Nat.zero_le undoLevels) trouble

theorem keeps_limited_save (r : SaveRun κ) : (save mu r).Keeps Limited := by
  refine keeps_needDoc.bind fun _ => ?_
  split
  · exact .fail _
  · refine Act.Keeps.bind ?_ fun _ => Act.Keeps.bind ?_ fun f => (keeps_modify fun _ h => h.adoptSecurity).bind fun _ =>
      Act.Keeps.bind (.op fun _ h => h) fun _ => keeps_state r.trouble
    · unfold applyMarks
      split
      · exact .pure _
      · exact .op fun _ h => h
      · refine (keeps_modify ?_).bind fun _ => .fail _
        exact fun _ h => h
    · refine keeps_needDoc.bind fun _ => Act.Keeps.get.bind fun s => ?_
      split
      · refine (keeps_modify ?_).bind fun _ => .pure _
        exact fun _ h => h
      · exact .fail _

theorem keeps_limited_protect (u : Unicode) (o : ProtectOpts) (trouble : Option Raised) :
    (protect u o trouble : Cmd κ Answer).Keeps Limited := by
  refine keeps_needDoc.bind fun _ => Act.Keeps.get.bind fun s => ?_
  split
  · exact .fail _
  · split
    · exact .fail _
    · refine keeps_modify_state ?_ trouble
      exact fun _ h => h

theorem keeps_limited_command (u : Unicode) (mu : Mupdf κ) (c : Command κ) : (c.run u mu).Keeps Limited := by
  cases c with
  | edit c fate => exact (keeps_limited_edit mu c fate).bind fun _ => .pure _
  | openDoc path password found trouble => exact (keeps_limited_openDoc path password found trouble).bind fun _ => .pure _
  | adopt c trouble => exact (keeps_modify_state (fun _ _ => Nat.zero_le undoLevels) trouble).bind fun _ => .pure _
  | save r => exact (keeps_limited_save r).bind fun _ => .pure _
  | undo trouble =>
    refine (keeps_goTo (fun s d snap hs _ hlast => ?_) trouble).bind fun _ => .pure _
    obtain ⟨older, hundo⟩ := List.getLast?_eq_some_iff.mp hlast
    simpa [Limited, State.reopen, hundo, Nat.add_assoc, Nat.add_comm 1] using hs
  | redo trouble =>
    refine (keeps_goTo (fun s d snap hs _ hlast => ?_) trouble).bind fun _ => .pure _
    obtain ⟨newer, hredo⟩ := List.getLast?_eq_some_iff.mp hlast
    simpa [Limited, State.reopen, hredo, Nat.add_assoc, Nat.add_comm 1] using hs
  | protect o trouble => exact (keeps_limited_protect u o trouble).bind fun _ => .pure _
  | certsign checks out signed reads trouble =>
    refine (keeps_needDoc.bind fun _ => ?_).bind fun _ => .pure _
    split
    · exact .fail _
    · refine (keeps_modify ?_).bind fun _ =>
        Act.Keeps.bind (.op fun _ _ => Nat.zero_le undoLevels) fun _ => keeps_state trouble
      exact fun _ h => h
  | unlock checks trouble =>
    refine (keeps_needDoc.bind fun _ => ?_).bind fun _ => .pure _
    split
    · exact .fail _
    · refine keeps_modify_state ?_ trouble
      exact fun _ h => h
  | look refused => exact .op fun _ h => h

/-- The engine when it starts. -/
def initial : State κ := ⟨none, none, none, permAll, false, none, [], [], false, []⟩

/-- Whatever is asked of the engine, it never keeps more than `undoLevels` points, undone ones with them. -/
theorem limited_run (u : Unicode) (mu : Mupdf κ) (commands : List (Command κ)) :
    Limited (commands.foldl (fun s c => (c.run u mu s).2) initial) := by
  have hrun (s : State κ) (hs : Limited s) : Limited (commands.foldl (fun s c => (c.run u mu s).2) s) := by
    induction commands generalizing s with
    | nil => exact hs
    | cons c commands ih => exact ih _ (keeps_limited_command u mu c s hs).state
  exact hrun initial (Nat.zero_le undoLevels)

end StainedGlass.Pdf.Engine
