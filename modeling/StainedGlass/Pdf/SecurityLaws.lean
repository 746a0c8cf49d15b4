import StainedGlass.Pdf.Engine

namespace StainedGlass.Pdf.Engine

open Lib

variable {κ : Type}

inductive Request (κ : Type)
  | edit (checks : Option Raised) (perm : Nat) (ending : Ending κ) (trouble : Option Raised)
  | protect (o : ProtectOpts) (trouble : Option Raised)
  | save (r : SaveRun κ)
  | undo (trouble : Option Raised)
  | redo (trouble : Option Raised)

section

variable (u : Unicode) (mu : Mupdf κ)

def Request.run : Request κ → Cmd κ Answer
  | .edit checks perm ending trouble => Engine.edit mu checks perm ending trouble
  | .protect o trouble => Engine.protect u o trouble
  | .save r => Engine.save mu r
  | .undo trouble => undo_ mu trouble
  | .redo trouble => redo_ mu trouble

def after (s : State κ) (r : Request κ) : State κ := (r.run u mu s).2

/-- The protection that is to be saved: the one that was asked for last, or the one there is. -/
def asked (kept : Option Lock) (s : State κ) : Option Lock :=
  match s.security with
  | none => kept
  | some security => security.lock

def keptAfter (kept : Option Lock) (s : State κ) (r : Request κ) : Option Lock :=
  if (after u mu s r).saved.length = s.saved.length then kept else asked kept s

def Tells (s : State κ) : Prop :=
  ∃ d, s.doc = some d ∧ d.readable = true ∧ (lockToWrite s d).isSome = s.encrypted

def Good (kept : Option Lock) (s : State κ) (r : Request κ) : Prop :=
  match r with
  | .save run => ∀ f, (after u mu s r).saved = (run.path, f) :: s.saved → f.lock = asked kept s
  | .undo _ => s.undo ≠ [] → Tells (after u mu s r)
  | .redo _ => s.redo ≠ [] → Tells (after u mu s r)
  | _ => True

def Faithful (kept : Option Lock) (s : State κ) : List (Request κ) → Prop
  | [] => True
  | r :: rs => Good u mu kept s r ∧ Faithful (keptAfter u mu kept s r) (after u mu s r) rs

def SameLock (s : State κ) (points : List (File κ)) : Prop :=
  (∀ top ∈ points.getLast?, ∀ d ∈ s.doc, top.lock = d.file.lock) ∧ ∀ p ∈ s.security, p.lock.isSome = s.encrypted

def Careful (s : State κ) : Request κ → Prop
  | .save r => r.reads = true
  | .undo _ => SameLock s s.undo
  | .redo _ => SameLock s s.redo
  | _ => True

def Along (s : State κ) : List (Request κ) → Prop
  | [] => True
  | r :: rs => Careful s r ∧ Along (after u mu s r) rs

end

def canRead (mu : Mupdf κ) (lock : Option Lock) (password : Str) : Bool :=
  !mu.needsPass lock || mu.authenticate lock password ≠ 0

/-- Where MuPDF does as it says: a file without a lock needs no password, and its owner's opens a locked one. -/
structure Mupdf.Documented (mu : Mupdf κ) : Prop where
  plain : mu.needsPass none = false
  owner (l : Lock) : mu.authenticate (some l) l.owner ≠ 0

structure Inv (mu : Mupdf κ) (kept : Option Lock) (saved : List (Str × File κ)) (s : State κ) : Prop where
  saved_eq : s.saved = saved
  doc : ∃ c, s.doc = some ⟨⟨c, kept⟩, true⟩
  reads : canRead mu kept (s.password.getD []) = true
  encrypted : s.encrypted = kept.isSome

variable {kept : Option Lock} {saved : List (Str × File κ)} {s : State κ} {mu : Mupdf κ} {u : Unicode}

theorem Inv.setContent (h : Inv mu kept saved s) (c : κ) : Inv mu kept saved (s.setContent c) := by
  obtain ⟨c', hdoc⟩ := h.doc
  exact ⟨h.saved_eq, ⟨c, by simp [State.setContent, hdoc]⟩, h.reads, h.encrypted⟩

theorem Inv.reopen (h : Inv mu kept saved s) {f : File κ} (hf : f.lock = kept) : Inv mu kept saved (s.reopen mu f) := by
  refine ⟨h.saved_eq, ⟨f.content, ?_⟩, h.reads, h.encrypted⟩
  subst hf
  have hreads : (!mu.needsPass f.lock || mu.authenticate f.lock (s.password.getD []) ≠ 0) = true := h.reads
  simp only [State.reopen, openWith, hreads]

theorem ends_needDoc : (needDoc : Cmd κ (Doc κ)).Ends s Q E ↔
      (∀ d, s.doc = some d → Q d s) ∧ (s.doc = none → E (.refusal .notopen (str "no document is open")) s) := by
  cases h : s.doc with
  | none => simp [needDoc, Act.Ends, h]
  | some d => simp [needDoc, Act.Ends, h]

theorem ends_tobytes : (tobytes : Cmd κ (File κ)).Ends s Q E ↔
      (∀ d, s.doc = some d → if d.readable then Q d.file s else E .value s) ∧
        (s.doc = none → E (.refusal .notopen (str "no document is open")) s) := by
  rw [tobytes, Act.ends_bind, ends_needDoc]
  refine and_congr_left' (forall_congr' fun d => imp_congr_right fun _ => ?_)
  split <;> rfl

theorem keeps_needDoc : (needDoc : Cmd κ (Doc κ)).Keeps I :=
  fun _ hs => ends_needDoc.mpr ⟨fun _ _ => hs, fun _ => hs⟩

theorem keeps_state (trouble : Option Raised) : (state trouble : Cmd κ Answer).Keeps I := by
  refine keeps_needDoc.bind fun d => Act.Keeps.get.bind fun s => ?_
  cases trouble with
  | some e => exact .fail e
  | none =>
    simp only
    split
    · exact .pure _
    · exact .fail _

theorem getLast?_trim (mu : Mupdf κ) (points : List (File κ)) :
    (trim mu points).getLast? = points.getLast? := by
  induction points with
  | nil => rfl
  | cons f rest ih =>
    rw [trim]
    split
    · next h =>
      have hne : rest ≠ [] := by
        rcases h with h | h
        · rintro rfl
          simp [undoLevels] at h
        · exact h.1
      rw [ih, List.getLast?_cons_of_ne_nil hne]
    · rfl

def TopKept (kept : Option Lock) (s : State κ) : Prop := ∀ top ∈ s.undo.getLast?, top.lock = kept

theorem begin_inv (h : Inv mu kept saved s) (perm : Nat) :
    (begin mu perm).Ends s (fun _ s' => Inv mu kept saved s' ∧ TopKept kept s') fun _ s' => Inv mu kept saved s' := by
  obtain ⟨c, hdoc⟩ := h.doc
  rw [begin, Act.ends_bind, ends_needDoc]
  refine ⟨fun _ _ => ?_, fun _ => h⟩
  rw [Act.ends_bind, Act.ends_get]
  split
  · rw [Act.ends_bind, ends_tobytes]
    refine ⟨fun d hd => ?_, fun _ => h⟩
    cases hdoc.symm.trans hd
    refine ⟨⟨h.saved_eq, h.doc, h.reads, h.encrypted⟩, ?_⟩
    intro top htop
    simp only [State.push, getLast?_trim, List.getLast?_append, List.getLast?_singleton, Option.some_or,
      Option.mem_some_iff] at htop
    rw [← htop]
  · exact h

theorem Inv.rollBack (h : Inv mu kept saved s) (htop : TopKept kept s) : Inv mu kept saved (s.rollBack mu) := by
  unfold State.rollBack
  split
  · next snap hsnap =>
    have h' : Inv mu kept saved { s with undo := s.undo.dropLast } := ⟨h.saved_eq, h.doc, h.reads, h.encrypted⟩
    exact h'.reopen (htop snap hsnap)
  · exact h

theorem finish_inv (h : Inv mu kept saved s) (htop : TopKept kept s) (ending : Ending κ) (trouble : Option Raised) :
    (finish mu ending trouble).Ends s (fun _ => Inv mu kept saved) fun _ => Inv mu kept saved := by
  cases ending with
  | done c =>
    have hdone : Inv mu kept saved { s.setContent c with dirty := true } := by
      have h' := h.setContent c
      exact ⟨h'.saved_eq, h'.doc, h'.reads, h'.encrypted⟩
    exact keeps_state trouble _ hdone
  | raised c e => exact h.setContent c
  | rolledBack e => exact h.rollBack htop
  | gaveUp c e =>
    have h' := h.setContent c
    exact ⟨h'.saved_eq, h'.doc, h'.reads, h'.encrypted⟩

theorem edit_inv (h : Inv mu kept saved s) (checks : Option Raised) (perm : Nat) (ending : Ending κ) (trouble : Option Raised) :
    (edit mu checks perm ending trouble).Ends s (fun _ => Inv mu kept saved) fun _ => Inv mu kept saved := by
  cases checks with
  | some e => exact h
  | none =>
    rw [edit, Act.ends_bind]
    exact (begin_inv h perm).mono (fun _ _ h' => finish_inv h'.1 h'.2 ending trouble) fun _ _ h' => h'

theorem protect_inv (h : Inv mu kept saved s) (o : ProtectOpts) (trouble : Option Raised) :
    (protect u o trouble).Ends s (fun _ => Inv mu kept saved) fun _ => Inv mu kept saved := by
  rw [protect, Act.ends_bind, ends_needDoc]
  refine ⟨fun _ _ => ?_, fun _ => h⟩
  rw [Act.ends_bind, Act.ends_get]
  split
  · exact h
  · split
    · exact h
    · next security _ =>
      have h' : Inv mu kept saved { s with security := some security, dirty := true } := ⟨h.saved_eq, h.doc, h.reads, h.encrypted⟩
      exact keeps_state trouble _ h'

theorem tells_of_inv (h : Inv mu kept saved s) (hsecurity : ∀ p ∈ s.security, p.lock.isSome = s.encrypted) : Tells s := by
  obtain ⟨c, hdoc⟩ := h.doc
  refine ⟨_, hdoc, rfl, ?_⟩
  unfold lockToWrite
  split
  · exact h.encrypted.symm
  · next p hp => exact hsecurity p hp

theorem goTo_inv (h : Inv mu kept saved s) (hsame : SameLock s (points s))
    (htake : ∀ now, Inv mu kept saved (take now s) ∧ (take now s).security = s.security) (trouble : Option Raised) :
    (goTo mu message points take trouble).Ends s (fun _ s' => Inv mu kept saved s' ∧ (points s ≠ [] → Tells s'))
      fun _ s' => Inv mu kept saved s' ∧ (points s ≠ [] → Tells s') := by
  obtain ⟨c, hdoc⟩ := h.doc
  rw [goTo, Act.ends_bind, ends_needDoc]
  refine ⟨fun _ _ => ?_, fun hnone => absurd hnone (by simp [hdoc])⟩
  rw [Act.ends_bind, Act.ends_get]
  cases hlast : (points s).getLast? with
  | none => exact ⟨h, fun hne => absurd (List.getLast?_eq_none_iff.mp hlast) hne⟩
  | some snap =>
    simp only [Act.ends_bind, ends_tobytes]
    refine ⟨fun d hd => ?_, fun hnone => absurd hnone (by simp [hdoc])⟩
    cases hdoc.symm.trans hd
    obtain ⟨htaken, hsecurity⟩ := htake ⟨c, kept⟩
    have hopen := htaken.reopen (hsame.1 snap hlast _ hdoc)
    have hinv : Inv mu kept saved { (take ⟨c, kept⟩ s).reopen mu snap with dirty := true } :=
      ⟨hopen.saved_eq, hopen.doc, hopen.reads, hopen.encrypted⟩
    have hpending : ∀ p ∈ (take ⟨c, kept⟩ s).security, p.lock.isSome = (take ⟨c, kept⟩ s).encrypted := by
      rw [hsecurity, htaken.encrypted, ← h.encrypted]
      exact hsame.2
    exact keeps_state (I := fun s' => Inv mu kept saved s' ∧ (points s ≠ [] → Tells s')) trouble _
      ⟨hinv, fun _ => tells_of_inv hinv hpending⟩

theorem undo_inv (h : Inv mu kept saved s) (hsame : SameLock s s.undo) (trouble : Option Raised) :
    Inv mu kept saved (undo_ mu trouble s).2 ∧ (s.undo ≠ [] → Tells (undo_ mu trouble s).2) :=
  (goTo_inv h hsame (fun _ => ⟨⟨h.saved_eq, h.doc, h.reads, h.encrypted⟩, rfl⟩) trouble).state
    (P := fun s' => Inv mu kept saved s' ∧ (s.undo ≠ [] → Tells s'))

theorem redo_inv (h : Inv mu kept saved s) (hsame : SameLock s s.redo) (trouble : Option Raised) :
    Inv mu kept saved (redo_ mu trouble s).2 ∧ (s.redo ≠ [] → Tells (redo_ mu trouble s).2) :=
  (goTo_inv h hsame (fun _ => ⟨⟨h.saved_eq, h.doc, h.reads, h.encrypted⟩, rfl⟩) trouble).state
    (P := fun s' => Inv mu kept saved s' ∧ (s.redo ≠ [] → Tells s'))

def SaveEnd (mu : Mupdf κ) (kept : Option Lock) (s : State κ) (path : Str) (s' : State κ) : Prop :=
  Inv mu kept s.saved s' ∨ ∃ c, Inv mu (asked kept s) ((path, ⟨c, asked kept s⟩) :: s.saved) s'

theorem inv_saved (hmu : mu.Documented) (h : Inv mu kept s.saved s) (r : SaveRun κ) (saved : List (Str × File κ)) (c : κ) :
    Inv mu (asked kept s) saved
      { ((({ s with saved := saved }).adoptSecurity).reopen mu ⟨c, asked kept s⟩) with
        path := some r.path, dirty := false } := by
  suffices hadopt : (State.adoptSecurity { s with saved := saved }).saved = saved ∧
      canRead mu (asked kept s) ((State.adoptSecurity { s with saved := saved }).password.getD []) = true ∧
      (State.adoptSecurity { s with saved := saved }).encrypted = (asked kept s).isSome by
    refine ⟨hadopt.1, ⟨c, ?_⟩, hadopt.2.1, hadopt.2.2⟩
    have hreads := hadopt.2.1
    unfold canRead at hreads
    simp only [State.reopen, openWith, hreads]
  unfold State.adoptSecurity asked
  cases hsecurity : s.security with
  | none => exact ⟨rfl, h.reads, h.encrypted⟩
  | some security =>
    cases security with
    | none => exact ⟨rfl, by simp [canRead, Security.lock, hmu.plain], rfl⟩
    | aes256 user owner perms =>
      have howner := hmu.owner ⟨user, if owner = [] then user else owner, perms⟩
      exact ⟨rfl, Bool.or_eq_true_iff.mpr (.inr (decide_eq_true howner)), rfl⟩

theorem write_saveEnd (hmu : mu.Documented) (h : Inv mu kept s.saved s) {r : SaveRun κ} (hreads : r.reads = true) :
    (write r >>= fun f => modify State.adoptSecurity >>= fun _ => readBack mu r f >>= fun _ => state r.trouble).Ends s
      (fun _ => SaveEnd mu kept s r.path) fun _ => SaveEnd mu kept s r.path := by
  obtain ⟨c, hdoc⟩ := h.doc
  rw [write, Act.ends_bind, Act.ends_bind, ends_needDoc]
  refine ⟨fun d hd => ?_, fun hnone => absurd hnone (by simp [hdoc])⟩
  cases hdoc.symm.trans hd
  rw [Act.ends_bind, Act.ends_get]
  have hlock : lockToWrite s ⟨⟨c, kept⟩, true⟩ = asked kept s := rfl
  rw [hlock]
  cases hwrites : r.writes with
  | false => exact .inl h
  | true =>
    simp only [Bool.and_self, if_true, Act.ends_bind, modify, Act.ends_op, forall_const, Act.ends_pure, readBack,
      hreads, reduceCtorEq, false_implies, implies_true, and_true]
    exact keeps_state r.trouble _ (.inr ⟨c, inv_saved hmu h r _ c⟩)

theorem save_saveEnd (hmu : mu.Documented) (h : Inv mu kept s.saved s) {r : SaveRun κ} (hreads : r.reads = true) :
    (save mu r).Ends s (fun _ => SaveEnd mu kept s r.path) fun _ => SaveEnd mu kept s r.path := by
  rw [save, Act.ends_bind, ends_needDoc]
  refine ⟨fun _ _ => ?_, fun _ => .inl h⟩
  split
  · exact .inl h
  · rw [Act.ends_bind]
    match r.apply with
    | none => exact write_saveEnd hmu h hreads
    | some (c, none) => exact write_saveEnd hmu (h.setContent c) hreads
    | some (c, some e) => exact .inl (h.setContent c)

theorem keptAfter_of_inv (h : Inv mu kept s.saved (after u mu s r)) :
    Inv mu (keptAfter u mu kept s r) (after u mu s r).saved (after u mu s r) := by
  rw [keptAfter, if_pos (congrArg List.length h.saved_eq)]
  exact ⟨rfl, h.doc, h.reads, h.encrypted⟩

theorem inv_after (u : Unicode) (hmu : mu.Documented) (h : Inv mu kept s.saved s) (hcareful : Careful s r) :
    Inv mu (keptAfter u mu kept s r) (after u mu s r).saved (after u mu s r) ∧ Good u mu kept s r := by
  cases r with
  | edit checks perm ending trouble =>
    exact ⟨keptAfter_of_inv (edit_inv h checks perm ending trouble).state, trivial⟩
  | protect o trouble => exact ⟨keptAfter_of_inv (protect_inv h o trouble).state, trivial⟩
  | undo trouble => exact ⟨keptAfter_of_inv (undo_inv h hcareful trouble).1, (undo_inv h hcareful trouble).2⟩
  | redo trouble => exact ⟨keptAfter_of_inv (redo_inv h hcareful trouble).1, (redo_inv h hcareful trouble).2⟩
  | save run =>
    have hend : SaveEnd mu kept s run.path (after u mu s (.save run)) := (save_saveEnd hmu h hcareful).state
    rcases hend with hend | ⟨c, hend⟩
    · refine ⟨keptAfter_of_inv hend, fun f hf => ?_⟩
      have hlength := congrArg List.length (hend.saved_eq.symm.trans hf)
      simp at hlength
    · refine ⟨?_, fun f hf => ?_⟩
      · have hlength : (after u mu s (.save run)).saved.length ≠ s.saved.length := by simp [hend.saved_eq]
        rw [keptAfter, if_neg hlength]
        exact ⟨rfl, hend.doc, hend.reads, hend.encrypted⟩
      · have hcons := hend.saved_eq.symm.trans hf
        simp only [List.cons.injEq, Prod.mk.injEq, true_and, and_true] at hcons
        rw [← hcons]

inductive Opened (mu : Mupdf κ) : Option Lock → State κ → Prop
  | opened {s s' : State κ} {path : Str} {password : Option Str} {f : File κ} {trouble : Option Raised} {a : Answer} :
      openDoc mu path password (.ok f) trouble s = (.ok a, s') → Opened mu f.lock s'
  | made {s s' : State κ} {c : κ} {trouble : Option Raised} {a : Answer} :
      adopt c trouble s = (.ok a, s') → Opened mu none s'

theorem canRead_of_openPerms {password : Option Str} (h : openPerms mu lock password = .ok perms) :
    canRead mu lock (password.getD []) = true := by
  unfold openPerms at h
  unfold canRead
  dsimp only at h
  split at h
  · split at h
    · cases h
    · split at h
      · cases h
      · next hopens => simp [hopens]
  · next hplain => simp [hplain]

theorem openDoc_inv (path : Str) (password : Option Str) (f : File κ) (trouble : Option Raised) :
    (openDoc mu path password (.ok f) trouble).Ends s (fun _ s' => Inv mu f.lock s'.saved s') fun _ _ => True := by
  unfold openDoc
  simp only
  cases hperms : openPerms mu f.lock password with
  | error e => exact trivial
  | ok perms =>
    have hread := canRead_of_openPerms hperms
    have hinv : Inv mu f.lock s.saved (s.opened mu path password f perms) := by
      refine ⟨rfl, ⟨f.content, ?_⟩, hread, rfl⟩
      simp only [State.opened, openWith]
      rw [← canRead, hread]
    exact (keeps_state (I := fun s' => Inv mu f.lock s'.saved s') trouble (s.opened mu path password f perms) hinv).mono (fun _ _ h => h)
      fun _ _ _ => trivial

theorem adopt_inv (hmu : mu.Documented) (c : κ) (trouble : Option Raised) :
    (adopt c trouble).Ends s (fun _ s' => Inv mu none s'.saved s') fun _ _ => True := by
  have hinv : Inv mu none s.saved (s.made c) := ⟨rfl, ⟨c, rfl⟩, by simp [canRead, hmu.plain], rfl⟩
  exact (keeps_state (I := fun s' => Inv mu none s'.saved s') trouble (s.made c) hinv).mono (fun _ _ h => h)
    fun _ _ _ => trivial

theorem Opened.inv (hmu : mu.Documented) (h : Opened mu kept s) : Inv mu kept s.saved s := by
  cases h with
  | @opened s₀ _ path password f trouble a hopen =>
    have hends := @openDoc_inv _ s₀ mu path password f trouble
    rwa [Act.Ends, hopen] at hends
  | @made s₀ _ c trouble a hmade =>
    have hends := adopt_inv (s := s₀) hmu c trouble
    rwa [Act.Ends, hmade] at hends

def Mupdf.plain : Mupdf Nat where
  size _ := 0
  needsPass lock := lock.any (·.user ≠ [])
  authenticate lock password := match lock with
    | none => 1
    | some l => (if password = l.user then 2 else 0) + if password = l.owner then 4 else 0

theorem Mupdf.plain_documented : Mupdf.plain.Documented := ⟨rfl, fun l => by simp [Mupdf.plain]⟩

def nothing : State Nat := ⟨none, none, none, permAll, false, none, [], [], false, []⟩

def letter : State Nat := nothing.opened .plain (str "letter.pdf") none ⟨0, none⟩ permAll

theorem opened_letter : Opened .plain none letter :=
  @Opened.opened _ .plain nothing letter (str "letter.pdf") none ⟨0, none⟩ none _ rfl

def lockedLetter : List (Request Nat) :=
  [.edit none permAssemble (.done 1) none,
    .protect ⟨str "aes256", str "secret", [], []⟩ none,
    .save ⟨str "letter.pdf", none, true, true, none⟩]

def turnedLetter : List (Request Nat) :=
  lockedLetter ++ [.edit none permAssemble (.done 2) none, .undo none, .redo none,
    .save ⟨str "letter.pdf", none, true, true, none⟩]

def undoneLetter : List (Request Nat) :=
  lockedLetter ++ [.undo none, .save ⟨str "letter.pdf", none, true, true, none⟩]

end StainedGlass.Pdf.Engine
