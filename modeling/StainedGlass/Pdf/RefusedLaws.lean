import StainedGlass.Pdf.Edits
import StainedGlass.Pdf.SecurityLaws

namespace StainedGlass.Pdf.Engine

open Lib

variable {κ : Type} {s s₀ : State κ} {d : Doc κ} {mu : Mupdf κ} {u : Unicode}

def Unchanged (s s' : State κ) : Prop :=
  s'.doc = s.doc ∧ s'.undo = s.undo ∧ s'.redo = s.redo ∧ s'.dirty = s.dirty

theorem Unchanged.refl (s : State κ) : Unchanged s s := ⟨rfl, rfl, rfl, rfl⟩

def Spares {α : Type} (s₀ : State κ) (m : Cmd κ α) (s : State κ) : Prop :=
  m.Ends s (fun _ _ => True) fun _ => Unchanged s₀

variable {α : Type}

theorem spares_iff : Spares s₀ m s ↔ ∀ e s', m s = (.error e, s') → Unchanged s₀ s' := by
  unfold Spares Act.Ends
  cases h : m s with
  | mk r s' =>
    cases r with
    | ok a => exact ⟨fun _ _ _ heq => (nomatch heq), fun _ => trivial⟩
    | error e =>
      constructor
      · rintro h e' s'' ⟨⟩
        exact h
      · exact fun h => h e s' rfl

theorem spares_unit : Spares s₀ (m >>= fun _ => pure ()) s ↔ Spares s₀ m s := by
  unfold Spares
  rw [Act.ends_bind]
  rfl

theorem spares_modify_bind (f : State κ → State κ) (m : Cmd κ α) :
    Spares s₀ (modify f >>= fun _ => m) s ↔ Spares s₀ m (f s) := Iff.rfl

theorem spares_get_bind (f : State κ → Cmd κ α) : Spares s₀ (Act.get >>= f) s ↔ Spares s₀ (f s) s := Iff.rfl

theorem spares_needDoc_bind (f : Doc κ → Cmd κ α) :
    Spares s (needDoc >>= f) s ↔ ∀ d, s.doc = some d → Spares s (f d) s := by
  unfold Spares
  rw [Act.ends_bind, ends_needDoc]
  exact and_iff_left fun _ => .refl s

theorem spares_tobytes_bind (f : File κ → Cmd κ α) (hdoc : s.doc = some d) :
    Spares s (tobytes >>= f) s ↔ (d.readable = true → Spares s (f d.file) s) := by
  unfold Spares
  rw [Act.ends_bind, ends_tobytes]
  cases hreadable : d.readable <;> simp [hdoc, hreadable, Unchanged.refl]

def Shown (doc : Option (Doc κ)) (trouble : Option Raised) : Prop :=
  trouble = none ∧ ∃ d, doc = some d ∧ d.readable = true

theorem spares_state (trouble : Option Raised) :
    Spares s₀ (state trouble) s ↔ Shown s.doc trouble ∨ Unchanged s₀ s := by
  unfold Spares Shown
  rw [state, Act.ends_bind, ends_needDoc]
  cases hdoc : s.doc with
  | none => simp
  | some d =>
    cases trouble with
    | some e => simp
    | none => cases hreadable : d.readable <;> simp [hreadable]

def Repeats (mu : Mupdf κ) (s : State κ) (d : Doc κ) : Prop :=
  trim mu (s.undo ++ [d.file]) = s.undo ∧ s.redo = []

def HasRoom (mu : Mupdf κ) (s : State κ) (d : Doc κ) : Prop :=
  trim mu (s.undo ++ [d.file]) = s.undo ++ [d.file] ∧ s.redo = []

def Ending.Spares (mu : Mupdf κ) (s : State κ) (d : Doc κ) (trouble : Option Raised) : Ending κ → Prop
  | .done c => trouble = none ∨ (c = d.file.content ∧ Repeats mu s d ∧ s.dirty = true)
  | .raised c _ => c = d.file.content ∧ Repeats mu s d
  | .rolledBack _ => canRead mu d.file.lock (s.password.getD []) = true ∧ HasRoom mu s d
  | .gaveUp c _ => c = d.file.content ∧ HasRoom mu s d

theorem trim_suffix (mu : Mupdf κ) (points : List (File κ)) : trim mu points <:+ points := by
  induction points with
  | nil => exact List.suffix_rfl
  | cons f rest ih =>
    rw [trim]
    split
    · exact ih.trans (List.suffix_cons f rest)
    · exact List.suffix_rfl

theorem trim_eq_append (mu : Mupdf κ) (points : List (File κ)) (f : File κ) :
    ∃ rest, trim mu (points ++ [f]) = rest ++ [f] ∧ rest <:+ points := by
  have hlast := getLast?_trim mu (points ++ [f])
  rw [List.getLast?_concat] at hlast
  obtain ⟨rest, hrest⟩ := List.getLast?_eq_some_iff.mp hlast
  refine ⟨rest, hrest, ?_⟩
  have hsuffix := hrest ▸ trim_suffix mu (points ++ [f])
  obtain ⟨pre, hpre⟩ := hsuffix
  rw [← List.append_assoc] at hpre
  exact ⟨pre, (List.append_inj' hpre rfl).1⟩

theorem dropLast_trim_eq (mu : Mupdf κ) (points : List (File κ)) (f : File κ) :
    (trim mu (points ++ [f])).dropLast = points ↔ trim mu (points ++ [f]) = points ++ [f] := by
  obtain ⟨rest, hrest, -⟩ := trim_eq_append mu points f
  rw [hrest, List.dropLast_concat, List.append_cancel_right_eq]

theorem spares_begin_bind (perm : Nat) (m : Cmd κ α) (hdoc : s.doc = some d) :
    Spares s (begin mu perm >>= fun _ => m) s ↔
      (allowed s perm = true → d.readable = true → Spares s m (s.push mu d.file)) := by
  unfold Spares
  rw [begin, Act.ends_bind, Act.ends_bind, ends_needDoc]
  simp only [hdoc, Option.some.injEq, forall_eq', reduceCtorEq, false_implies, and_true, Act.ends_bind, Act.ends_get]
  cases hallowed : allowed s perm with
  | false => simp [refuse, Unchanged.refl]
  | true =>
    cases hreadable : d.readable with
    | false => simp [ends_tobytes, hdoc, hreadable, Unchanged.refl]
    | true => simp [ends_tobytes, hdoc, hreadable, modify]

theorem setContent_doc (hdoc : s.doc = some d) (c : κ) :
    (s.setContent c).doc = some d ↔ c = d.file.content := by
  simp only [State.setContent, hdoc, Option.map_some, Option.some.injEq]
  constructor
  · intro h
    exact congrArg (fun d => d.file.content) h
  · rintro rfl
    rfl

theorem openWith_eq (hreadable : d.readable = true) {f : File κ} :
    openWith mu f password = d ↔ f = d.file ∧ canRead mu f.lock password = true := by
  constructor
  · rintro rfl
    exact ⟨rfl, hreadable⟩
  · rintro ⟨rfl, hread⟩
    obtain ⟨file, readable⟩ := d
    cases hreadable
    exact congrArg (Doc.mk file) hread

theorem spares_finish (hdoc : s.doc = some d) (hreadable : d.readable = true) (ending : Ending κ)
    (trouble : Option Raised) :
    Spares s (finish mu ending trouble) (s.push mu d.file) ↔ ending.Spares mu s d trouble := by
  have hpush : (s.push mu d.file).doc = some d := hdoc
  have hredo : [] = s.redo ↔ s.redo = [] := eq_comm
  cases ending with
  | done c =>
    rw [finish, spares_modify_bind, changed, spares_modify_bind, spares_state]
    have hshown : Shown ((s.push mu d.file).setContent c).doc trouble ↔ trouble = none := by
      simp [Shown, State.setContent, hpush, hreadable]
    have hsame : Unchanged s { (s.push mu d.file).setContent c with dirty := true } ↔
        c = d.file.content ∧ Repeats mu s d ∧ s.dirty = true := by
      unfold Unchanged Repeats
      rw [hdoc]
      simp only [setContent_doc hpush, eq_comm (a := true)]
      simp only [State.setContent, State.push, hredo, and_assoc]
    rw [Ending.Spares, ← hsame]
    exact or_congr_left hshown
  | raised c e =>
    have hsame : Unchanged s ((s.push mu d.file).setContent c) ↔ c = d.file.content ∧ Repeats mu s d := by
      unfold Unchanged Repeats
      rw [hdoc, setContent_doc hpush]
      simp only [State.setContent, State.push, hredo, and_true]
    exact hsame
  | rolledBack e =>
    obtain ⟨rest, hrest, -⟩ := trim_eq_append mu s.undo d.file
    have hback : (s.push mu d.file).rollBack mu =
        ({ s.push mu d.file with undo := (trim mu (s.undo ++ [d.file])).dropLast }).reopen mu d.file := by
      simp only [State.rollBack, State.push, hrest, List.getLast?_concat]
    have hsame : Unchanged s ((s.push mu d.file).rollBack mu) ↔
        canRead mu d.file.lock (s.password.getD []) = true ∧ HasRoom mu s d := by
      unfold Unchanged HasRoom
      rw [hback, hdoc]
      simp only [State.reopen, State.push, dropLast_trim_eq, hredo, and_true, Option.some.injEq,
        openWith_eq hreadable, true_and]
    exact hsame
  | gaveUp c e =>
    have hsame : Unchanged s { (s.push mu d.file).setContent c with
        undo := ((s.push mu d.file).setContent c).undo.dropLast } ↔ c = d.file.content ∧ HasRoom mu s d := by
      unfold Unchanged HasRoom
      rw [hdoc]
      simp only [setContent_doc hpush]
      simp only [State.setContent, State.push, dropLast_trim_eq, hredo, and_true]
    exact hsame

theorem spares_edit (hdoc : s.doc = some d) (checks : Option Raised) (perm : Nat) (ending : Ending κ)
    (trouble : Option Raised) :
    Spares s (edit mu checks perm ending trouble) s ↔
      (checks = none → allowed s perm = true → d.readable = true → ending.Spares mu s d trouble) := by
  cases checks with
  | some e => exact iff_of_true (Unchanged.refl s) nofun
  | none =>
    rw [edit, spares_begin_bind perm _ hdoc]
    simp only [forall_const]
    exact imp_congr_right fun _ => imp_congr_ctx Iff.rfl fun hreadable => spares_finish hdoc hreadable ending trouble

theorem shown_some (d : Doc κ) (trouble : Option Raised) :
    Shown (some d) trouble ↔ trouble = none ∧ d.readable = true := by
  simp [Shown]

theorem spares_goTo (htake : ∀ now data, ¬ Unchanged s { (take now s).reopen mu data with dirty := true })
    (hpassword : ∀ now, (take now s).password = s.password) (trouble : Option Raised) :
    Spares s (goTo mu message points take trouble) s ↔
      ∀ d, s.doc = some d → d.readable = true → ∀ snap, (points s).getLast? = some snap →
        trouble = none ∧ canRead mu snap.lock (s.password.getD []) = true := by
  rw [goTo, spares_needDoc_bind]
  refine forall_congr' fun d => imp_congr_ctx Iff.rfl fun hdoc => ?_
  rw [spares_get_bind]
  cases hlast : (points s).getLast? with
  | none => exact iff_of_true (Unchanged.refl s) fun _ _ h => by cases h
  | some snap =>
    simp only [Option.some.injEq, forall_eq']
    rw [spares_tobytes_bind _ hdoc]
    refine imp_congr_right fun _ => ?_
    rw [spares_modify_bind, spares_state, or_iff_left (htake _ _), ← hpassword d.file]
    exact shown_some _ trouble

theorem spares_undo (trouble : Option Raised) :
    Spares s (undo_ mu trouble) s ↔ ∀ d, s.doc = some d → d.readable = true → ∀ snap, s.undo.getLast? = some snap →
      trouble = none ∧ canRead mu snap.lock (s.password.getD []) = true := by
  refine spares_goTo ?_ (fun _ => rfl) trouble
  intro now data h
  simpa [State.reopen] using h.2.2.1

theorem spares_redo (trouble : Option Raised) :
    Spares s (redo_ mu trouble) s ↔ ∀ d, s.doc = some d → d.readable = true → ∀ snap, s.redo.getLast? = some snap →
      trouble = none ∧ canRead mu snap.lock (s.password.getD []) = true := by
  refine spares_goTo ?_ (fun _ => rfl) trouble
  intro now data h
  simpa [State.reopen] using h.2.1

theorem spares_protect (o : ProtectOpts) (trouble : Option Raised) :
    Spares s (protect u o trouble) s ↔ ∀ d, s.doc = some d → s.perms = permAll → ∀ security,
      securityOf u o = .ok security → (trouble = none ∧ d.readable = true) ∨ s.dirty = true := by
  rw [protect, spares_needDoc_bind]
  refine forall_congr' fun d => imp_congr_ctx Iff.rfl fun hdoc => ?_
  rw [spares_get_bind]
  split
  · next hperms => exact iff_of_true (Unchanged.refl s) fun h => absurd h hperms
  · next hperms =>
    simp only [not_not.mp hperms, forall_const]
    cases hsecurity : securityOf u o with
    | error e => exact iff_of_true (Unchanged.refl s) fun _ h => by cases h
    | ok security =>
      simp only [Except.ok.injEq, forall_eq']
      rw [spares_modify_bind, spares_state]
      simp [Unchanged, hdoc, shown_some, eq_comm (a := true)]

theorem spares_openDoc (path : Str) (password : Option Str) (found : Except Raised (File κ)) (trouble : Option Raised) :
    Spares s (openDoc mu path password found trouble) s ↔ ∀ f, found = .ok f → ∀ perms,
      openPerms mu f.lock password = .ok perms →
        trouble = none ∨ Unchanged s (s.opened mu path password f perms) := by
  cases found with
  | error e => exact iff_of_true (Unchanged.refl s) nofun
  | ok f =>
    simp only [openDoc, Except.ok.injEq, forall_eq']
    cases hperms : openPerms mu f.lock password with
    | error e => exact iff_of_true (Unchanged.refl s) nofun
    | ok perms =>
      have hread : (openWith mu f (password.getD [])).readable = true := canRead_of_openPerms hperms
      simp only [Except.ok.injEq, forall_eq']
      rw [spares_modify_bind, spares_state]
      exact or_congr_left ((shown_some _ _).trans (and_iff_left hread))

theorem spares_adopt (c : κ) (trouble : Option Raised) :
    Spares s (adopt c trouble) s ↔ trouble = none ∨ Unchanged s (s.made c) := by
  rw [adopt, spares_modify_bind, spares_state]
  exact or_congr_left ((shown_some _ _).trans (and_iff_left rfl))

theorem spares_unlock (checks trouble : Option Raised) : Spares s (unlock checks trouble) s := by
  unfold unlock
  rw [spares_needDoc_bind]
  intro d hdoc
  cases checks with
  | some e => exact .refl s
  | none =>
    simp only
    rw [spares_modify_bind, spares_state]
    exact .inr ⟨rfl, rfl, rfl, rfl⟩

theorem spares_certsign (checks : Option Raised) (out : Str) (signed : File κ) (reads : Bool) (trouble : Option Raised) :
    Spares s (certsign mu checks out signed reads trouble) s ↔ ∀ d, s.doc = some d → checks = none → reads = true →
      (trouble = none ∧ canRead mu signed.lock (s.password.getD []) = true) ∨
        (openWith mu signed (s.password.getD []) = d ∧ s.undo = [] ∧ s.redo = [] ∧ s.dirty = false) := by
  unfold certsign
  rw [spares_needDoc_bind]
  refine forall_congr' fun d => imp_congr_ctx Iff.rfl fun hdoc => ?_
  cases checks with
  | some e => exact iff_of_true (Unchanged.refl s) nofun
  | none =>
    simp only [forall_const]
    cases reads with
    | false => exact iff_of_true ⟨rfl, rfl, rfl, rfl⟩ nofun
    | true =>
      simp only [forall_const]
      change Spares s (state trouble) _ ↔ _
      rw [spares_state]
      refine or_congr (shown_some _ _) ?_
      simp only [Unchanged, State.reopen, hdoc, Option.some.injEq, eq_comm (a := ([] : List (File κ))),
        eq_comm (a := false)]

def SavedSpares (mu : Mupdf κ) (r : SaveRun κ) (s : State κ) (d : Doc κ) (c : κ) : Prop :=
  if d.readable && r.writes && r.reads then
    (r.trouble = none ∧ canRead mu (lockToWrite s d) (s.adoptSecurity.password.getD []) = true) ∨
      (c = d.file.content ∧ lockToWrite s d = d.file.lock ∧
        canRead mu (lockToWrite s d) (s.adoptSecurity.password.getD []) = true ∧ s.dirty = false)
  else c = d.file.content

def SaveRun.Spares (mu : Mupdf κ) (r : SaveRun κ) (s : State κ) (d : Doc κ) : Prop :=
  match r.apply with
  | none => SavedSpares mu r s d d.file.content
  | some (c, none) => SavedSpares mu r s d c
  | some (c, some _) => c = d.file.content

theorem setContent_self (hdoc : s.doc = some d) : s.setContent d.file.content = s := by
  obtain ⟨doc, path, password, perms, encrypted, security, undo, redo, dirty, saved⟩ := s
  cases hdoc
  rfl

theorem unchanged_setContent (hdoc : s.doc = some d) (c : κ) :
    Unchanged s (s.setContent c) ↔ c = d.file.content := by
  unfold Unchanged
  rw [hdoc, setContent_doc hdoc]
  exact and_iff_left ⟨rfl, rfl, rfl⟩

@[simp] theorem adoptSecurity_doc (s : State κ) : s.adoptSecurity.doc = s.doc := by
  unfold State.adoptSecurity
  split <;> rfl

@[simp] theorem adoptSecurity_undo (s : State κ) : s.adoptSecurity.undo = s.undo := by
  unfold State.adoptSecurity
  split <;> rfl

@[simp] theorem adoptSecurity_redo (s : State κ) : s.adoptSecurity.redo = s.redo := by
  unfold State.adoptSecurity
  split <;> rfl

@[simp] theorem adoptSecurity_dirty (s : State κ) : s.adoptSecurity.dirty = s.dirty := by
  unfold State.adoptSecurity
  split <;> rfl

theorem adoptSecurity_password (s : State κ) (c : κ) (saved : List (Str × File κ)) :
    (State.adoptSecurity { s.setContent c with saved := saved }).password = s.adoptSecurity.password := by
  unfold State.adoptSecurity State.setContent
  cases s.security with
  | none => rfl
  | some security => cases security <;> rfl

theorem write_eq (hdoc : s.doc = some d) (r : SaveRun κ) :
    write r s = if d.readable && r.writes then
        (.ok ⟨d.file.content, lockToWrite s d⟩,
          { s with saved := (r.path, ⟨d.file.content, lockToWrite s d⟩) :: s.saved })
      else (.error (.refusal .failed (str "could not save")), s) := by
  have hneed : needDoc s = (.ok d, s) := by simp [needDoc, hdoc]
  rw [write, Act.bind_apply, hneed]
  change (if (d.readable && r.writes) = true then _ else _ : Cmd κ (File κ)) s = _
  split
  · rfl
  · rfl

theorem spares_settle (r : SaveRun κ) (f : File κ) :
    Spares s₀ (modify State.adoptSecurity >>= fun _ => readBack mu r f >>= fun _ => state r.trouble) s ↔
      if r.reads then
        (r.trouble = none ∧ canRead mu f.lock (s.adoptSecurity.password.getD []) = true) ∨
          Unchanged s₀ { s.adoptSecurity.reopen mu f with path := some r.path, dirty := false }
      else Unchanged s₀ s.adoptSecurity := by
  rw [spares_modify_bind]
  unfold readBack Spares
  cases hreads : r.reads with
  | false => simp
  | true =>
    simp only [if_true, Act.ends_bind, Act.ends_op, forall_const, reduceCtorEq, false_implies, implies_true, and_true]
    exact (spares_state r.trouble).trans (or_congr_left (shown_some _ _))

theorem spares_write (hdoc : s.doc = some d) (r : SaveRun κ) (c : κ) :
    Spares s (write r >>= fun f => modify State.adoptSecurity >>= fun _ => readBack mu r f >>= fun _ => state r.trouble)
      (s.setContent c) ↔ SavedSpares mu r s d c := by
  have hdoc' : (s.setContent c).doc = some { d with file := { d.file with content := c } } := by
    simp [State.setContent, hdoc]
  unfold SavedSpares Spares
  rw [Act.ends_bind, Act.Ends, write_eq hdoc']
  cases hgoes : d.readable && r.writes with
  | false =>
    simp only [Bool.false_and, Bool.false_eq_true, if_false]
    exact unchanged_setContent hdoc c
  | true =>
    have hreadable : d.readable = true := (Bool.and_eq_true_iff.mp hgoes).1
    simp only [Bool.true_and, if_true]
    refine (spares_settle r _).trans ?_
    have hlock : lockToWrite (s.setContent c) { d with file := { d.file with content := c } } = lockToWrite s d := rfl
    rw [adoptSecurity_password, hlock]
    split
    · refine or_congr_right ?_
      have hfile : (⟨c, lockToWrite s d⟩ : File κ) = d.file ↔ c = d.file.content ∧ lockToWrite s d = d.file.lock := by
        obtain ⟨⟨content, lock⟩, readable⟩ := d
        exact File.mk.injEq ..  ▸ Iff.rfl
      simp only [Unchanged, State.reopen, hdoc, adoptSecurity_password, adoptSecurity_undo, adoptSecurity_redo,
        Option.some.injEq, openWith_eq hreadable, hfile, eq_comm (a := false), and_assoc]
      simp [State.setContent]
    · refine Iff.trans ?_ (unchanged_setContent hdoc c)
      simp [Unchanged]

theorem spares_save (r : SaveRun κ) :
    Spares s (save mu r) s ↔ ∀ d, s.doc = some d → r.path ≠ [] → 0 ∉ r.path → r.Spares mu s d := by
  rw [save, spares_needDoc_bind]
  refine forall_congr' fun d => imp_congr_ctx Iff.rfl fun hdoc => ?_
  split
  · next hpath =>
    refine iff_of_true (Unchanged.refl s) fun hne hnul => ?_
    exact (hpath.elim hne hnul).elim
  · next hpath =>
    rw [not_or] at hpath
    simp only [hpath.1, hpath.2, ne_eq, not_false_eq_true, forall_const]
    unfold SaveRun.Spares
    rcases r.apply with - | ⟨c, - | e⟩
    · have hself := @spares_write _ s d mu hdoc r d.file.content
      rw [setContent_self hdoc] at hself
      exact hself
    · exact spares_write hdoc r c
    · exact unchanged_setContent hdoc c

def Command.Spares (u : Unicode) (mu : Mupdf κ) (s : State κ) : Command κ → Prop
  | .edit c fate => ∀ d, s.doc = some d → failing s.doc fate 0 c.before = none → allowed s (c.perm s) = true →
      d.readable = true → (ending fate c.before.length c.body d.file.content).Spares mu s d fate.trouble
  | .openDoc path password found trouble => ∀ f, found = .ok f → ∀ perms, openPerms mu f.lock password = .ok perms →
      trouble = none ∨ Unchanged s (s.opened mu path password f perms)
  | .adopt c trouble => trouble = none ∨ Unchanged s (s.made c)
  | .save r => ∀ d, s.doc = some d → r.path ≠ [] → 0 ∉ r.path → r.Spares mu s d
  | .undo trouble => ∀ d, s.doc = some d → d.readable = true → ∀ snap, s.undo.getLast? = some snap →
      trouble = none ∧ canRead mu snap.lock (s.password.getD []) = true
  | .redo trouble => ∀ d, s.doc = some d → d.readable = true → ∀ snap, s.redo.getLast? = some snap →
      trouble = none ∧ canRead mu snap.lock (s.password.getD []) = true
  | .protect o trouble => ∀ d, s.doc = some d → s.perms = permAll → ∀ security, securityOf u o = .ok security →
      (trouble = none ∧ d.readable = true) ∨ s.dirty = true
  | .certsign checks _ signed reads trouble => ∀ d, s.doc = some d → checks = none → reads = true →
      (trouble = none ∧ canRead mu signed.lock (s.password.getD []) = true) ∨
        (openWith mu signed (s.password.getD []) = d ∧ s.undo = [] ∧ s.redo = [] ∧ s.dirty = false)
  | .unlock _ _ => True
  | .look _ => True

theorem spares_run_edit (c : EditCommand) (fate : Fate κ) :
    Spares s (c.run mu fate) s ↔ (Command.edit c fate).Spares u mu s := by
  cases hdoc : s.doc with
  | none =>
    have hrun : c.run mu fate s =
        (.error ((failing s.doc fate 0 c.before).getD (Check.opened.raised [])), s) := by
      simp [EditCommand.run, hdoc]
    refine iff_of_true ?_ fun d hd => ?_
    · rw [Spares, Act.Ends, hrun]
      exact .refl s
    · simp [hdoc] at hd
  | some d =>
    have hrun : c.run mu fate s = edit mu (failing s.doc fate 0 c.before) (c.perm s)
        (ending fate c.before.length c.body d.file.content) fate.trouble s := by
      simp [EditCommand.run, hdoc]
    have hsame : Spares s (c.run mu fate) s ↔ Spares s (edit mu (failing s.doc fate 0 c.before) (c.perm s)
        (ending fate c.before.length c.body d.file.content) fate.trouble) s := by
      unfold Spares Act.Ends
      rw [hrun]
    rw [hsame, spares_edit hdoc]
    simp [Command.Spares, hdoc]

theorem error_unchanged_iff (s : State κ) (c : Command κ) :
    (∀ e s', c.run u mu s = (.error e, s') → Unchanged s s') ↔ c.Spares u mu s := by
  rw [← spares_iff]
  cases c with
  | edit c fate => exact spares_unit.trans (spares_run_edit c fate)
  | openDoc path password found trouble => exact spares_unit.trans (spares_openDoc path password found trouble)
  | adopt c trouble => exact spares_unit.trans (spares_adopt c trouble)
  | save r => exact spares_unit.trans (spares_save r)
  | undo trouble => exact spares_unit.trans (spares_undo trouble)
  | redo trouble => exact spares_unit.trans (spares_redo trouble)
  | protect o trouble => exact spares_unit.trans (spares_protect o trouble)
  | certsign checks out signed reads trouble =>
    exact spares_unit.trans (spares_certsign checks out signed reads trouble)
  | unlock checks trouble => exact iff_of_true (spares_unit.mpr (spares_unlock checks trouble)) trivial
  | look refused =>
    refine iff_of_true ?_ trivial
    cases refused with
    | none => trivial
    | some e => exact Unchanged.refl s

def emptyHighlight : Command Nat :=
  .edit (.annot .quads) ⟨fun i => if i = 7 then some [] else none, fun _ => none, fun _ => id, none⟩

def undoneTurn : State Nat := { letter with redo := [⟨1, none⟩] }

theorem emptyHighlight_costs_redo :
    (emptyHighlight.run .ascii .plain undoneTurn).1 =
      .error (.refusal .invalid (str "no text marked")) ∧
    undoneTurn.undo = [] ∧ undoneTurn.redo = [⟨1, none⟩] ∧
    (emptyHighlight.run .ascii .plain undoneTurn).2.undo = [⟨0, none⟩] ∧
    (emptyHighlight.run .ascii .plain undoneTurn).2.redo = [] := by
  refine ⟨by rfl, rfl, rfl, by decide +kernel, by decide +kernel⟩

end StainedGlass.Pdf.Engine
