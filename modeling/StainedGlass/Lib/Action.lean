import Mathlib

/-! Commands that change a state step by step and may fail on the way. -/

namespace StainedGlass.Lib

def Act (σ ε α : Type) := σ → Except ε α × σ

namespace Act

variable {σ ε α β : Type}

instance : Monad (Act σ ε) where
  pure a := fun s => (.ok a, s)
  bind m f := fun s =>
    match m s with
    | (.ok a, s) => f a s
    | (.error e, s) => (.error e, s)

theorem bind_apply (m : Act σ ε α) (f : α → Act σ ε β) (s : σ) :
    (m >>= f) s = match m s with
      | (.ok a, s) => f a s
      | (.error e, s) => (.error e, s) := rfl

def get : Act σ ε σ := fun s => (.ok s, s)

def fail (e : ε) : Act σ ε α := fun s => (.error e, s)

def op (trouble : Option ε) (f : σ → σ) : Act σ ε Unit := fun s =>
  match trouble with
  | some e => (.error e, s)
  | none => (.ok (), f s)

def handle (m : Act σ ε α) (h : ε → Act σ ε α) : Act σ ε α := fun s =>
  match m s with
  | (.ok a, s) => (.ok a, s)
  | (.error e, s) => h e s

def each (f : β → Act σ ε Unit) : List β → Act σ ε Unit
  | [] => pure ()
  | x :: xs => do
    f x
    each f xs

def Ends (m : Act σ ε α) (s : σ) (Q : α → σ → Prop) (E : ε → σ → Prop) : Prop :=
  match m s with
  | (.ok a, s') => Q a s'
  | (.error e, s') => E e s'

variable {Q : α → σ → Prop} {E : ε → σ → Prop} {s : σ}

@[simp] theorem ends_pure (a : α) : (pure a : Act σ ε α).Ends s Q E ↔ Q a s := Iff.rfl

@[simp] theorem ends_get {Q : σ → σ → Prop} : (get : Act σ ε σ).Ends s Q E ↔ Q s s := Iff.rfl

@[simp] theorem ends_fail (e : ε) : (fail e : Act σ ε α).Ends s Q E ↔ E e s := Iff.rfl

@[simp] theorem ends_op {Q : Unit → σ → Prop} (trouble : Option ε) (f : σ → σ) :
    (op trouble f).Ends s Q E ↔
      (trouble = none → Q () (f s)) ∧ ∀ e, trouble = some e → E e s := by
  cases trouble with
  | none => simp [op, Ends]
  | some e => simp [op, Ends]

@[simp] theorem ends_bind {Q : β → σ → Prop} (m : Act σ ε α) (f : α → Act σ ε β) :
    (m >>= f).Ends s Q E ↔ m.Ends s (fun a s' => (f a).Ends s' Q E) E := by
  rcases hm : m s with ⟨a | e, s'⟩ <;> simp [Ends, bind, hm]

theorem ends_handle (m : Act σ ε α) (h : ε → Act σ ε α) :
    (m.handle h).Ends s Q E ↔ m.Ends s Q (fun e s' => (h e).Ends s' Q E) := by
  rcases hm : m s with ⟨a | e, s'⟩ <;> simp [Ends, handle, hm]

variable {m : Act σ ε α}

theorem Ends.mono (h : m.Ends s Q E)
    (hQ : ∀ a s', Q a s' → Q' a s') (hE : ∀ e s', E e s' → E' e s') : m.Ends s Q' E' := by
  unfold Ends at h ⊢
  split
  · next hm =>
    rw [hm] at h
    exact hQ _ _ h
  · next hm =>
    rw [hm] at h
    exact hE _ _ h

theorem Ends.and (h : m.Ends s Q E) (h' : m.Ends s Q' E') :
    m.Ends s (fun a s' => Q a s' ∧ Q' a s') (fun e s' => E e s' ∧ E' e s') := by
  unfold Ends at h h' ⊢
  split
  · next hm =>
    rw [hm] at h h'
    exact ⟨h, h'⟩
  · next hm =>
    rw [hm] at h h'
    exact ⟨h, h'⟩

theorem Ends.state {P : σ → Prop} (h : m.Ends s (fun _ s' => P s') (fun _ s' => P s')) : P (m s).2 := by
  unfold Ends at h
  split at h
  · next hm =>
    rw [hm]
    exact h
  · next hm =>
    rw [hm]
    exact h

def Works (m : Act σ ε α) (s : σ) : Prop := m.Ends s (fun _ _ => True) (fun _ _ => False)

theorem Works.exists_ok (h : m.Works s) : ∃ a s', m s = (.ok a, s') := by
  unfold Works Ends at h
  split at h
  · next a s' hm => exact ⟨a, s', hm⟩
  · exact h.elim

theorem works_iff_not (m : Act σ ε α) :
    m.Works s ↔ ¬ m.Ends s (fun _ _ => False) (fun _ _ => True) := by
  rcases hm : m s with ⟨a | e, s'⟩ <;> simp [Works, Ends, hm]

theorem works_bind (m : Act σ ε α) (f : α → Act σ ε β) :
    (m >>= f).Works s ↔ m.Works s ∧ m.Ends s (fun a s' => (f a).Works s') (fun _ _ => True) := by
  rcases hm : m s with ⟨a | e, s'⟩ <;> simp [Works, Ends, bind, hm]

@[simp] theorem works_op (trouble : Option ε) (f : σ → σ) : (op trouble f).Works s ↔ trouble = none := by
  cases trouble with
  | none => simp [Works]
  | some e => simp [Works]

@[simp] theorem works_pure (a : α) : (pure a : Act σ ε α).Works s := trivial

@[simp] theorem works_get_bind (f : σ → Act σ ε β) : (get >>= f).Works s ↔ (f s).Works s := Iff.rfl

@[simp] theorem works_op_bind (trouble : Option ε) (f : σ → σ) (g : Unit → Act σ ε β) :
    (op trouble f >>= g).Works s ↔ trouble = none ∧ (g ()).Works (f s) := by
  rw [works_bind, works_op, ends_op]
  simp +contextual

theorem works_each_op_bind (t : β → Option ε) (f : β → σ → σ) (xs : List β) (g : Unit → Act σ ε α) :
    (each (fun x => op (t x) (f x)) xs >>= g).Works s ↔
      (∀ x ∈ xs, t x = none) ∧ (g ()).Works (xs.foldl (fun s x => f x s) s) := by
  induction xs generalizing s with
  | nil =>
    rw [each, works_bind]
    simp
  | cons x xs ih =>
    have hassoc : (each (fun x => op (t x) (f x)) (x :: xs) >>= g) =
        (op (t x) (f x) >>= fun _ => each (fun x => op (t x) (f x)) xs >>= g) := by
      funext s
      rcases hx : op (t x) (f x) s with ⟨a | e, s'⟩ <;> simp [each, bind, hx]
    rw [hassoc, works_op_bind, ih, List.forall_mem_cons, and_assoc]
    rfl

theorem ends_each_op (t : β → Option ε) (f : β → σ → σ) (xs : List β) (s : σ) :
    (each (fun x => op (t x) (f x)) xs).Ends s (fun _ s' => s' = xs.foldl (fun s x => f x s) s) (fun _ _ => True) := by
  induction xs generalizing s with
  | nil => rfl
  | cons x xs ih =>
    rw [each, ends_bind, ends_op]
    exact ⟨fun _ => ih (f x s), fun _ _ => trivial⟩

theorem ends_iff_works (h : m.Ends s (fun _ _ => True) (fun e s' => ¬ E e s')) :
    m.Ends s (fun _ _ => True) E ↔ m.Works s := by
  constructor
  · intro hm
    apply (hm.and h).mono
    · exact fun _ _ _ => trivial
    · exact fun _ _ hboth => hboth.2 hboth.1
  · intro hm
    apply hm.mono
    · exact fun _ _ h => h
    · exact fun _ _ h => h.elim

def Keeps (m : Act σ ε α) (I : σ → Prop) : Prop :=
  ∀ s, I s → m.Ends s (fun _ s' => I s') (fun _ s' => I s')

variable {I : σ → Prop}

variable {f : α → Act σ ε β}

theorem Keeps.bind (hm : m.Keeps I) (hf : ∀ a, (f a).Keeps I) : (m >>= f).Keeps I := by
  intro s hs
  rw [ends_bind]
  apply (hm s hs).mono
  · intro a s' hs'
    exact hf a s' hs'
  · exact fun _ _ h => h

theorem Ends.andThen (hm : m.Ends s (fun _ => I) (fun _ => I))
    (hf : ∀ a, (f a).Keeps I) : (m >>= f).Ends s (fun _ => I) (fun _ => I) := by
  rw [ends_bind]
  exact hm.mono (fun a s' hs' => hf a s' hs') fun _ _ h => h

theorem Keeps.pure (a : α) : (Pure.pure a : Act σ ε α).Keeps I := fun _ hs => hs

theorem Keeps.get : (Act.get : Act σ ε σ).Keeps I := fun _ hs => hs

theorem Keeps.fail (e : ε) : (Act.fail e : Act σ ε α).Keeps I := fun _ hs => hs

theorem Keeps.op {f : σ → σ} (hf : ∀ s, I s → I (f s)) : (Act.op trouble f).Keeps I := by
  intro s hs
  rw [ends_op]
  exact ⟨fun _ => hf s hs, fun _ _ => hs⟩

theorem Keeps.each {f : β → Act σ ε Unit} (hf : ∀ x, (f x).Keeps I) (xs : List β) :
    (Act.each f xs).Keeps I := by
  induction xs with
  | nil => exact .pure ()
  | cons x xs ih => exact (hf x).bind fun _ => ih

theorem Keeps.handle (hm : m.Keeps I) (hh : ∀ e, (h e).Keeps I) : (m.handle h).Keeps I := by
  intro s hs
  rw [ends_handle]
  apply (hm s hs).mono
  · exact fun _ _ h => h
  · exact fun e s' hs' => hh e s' hs'

theorem Keeps.ends_bind {Q : β → σ → Prop} (hm : m.Keeps I) (hs : I s)
    (hf : ∀ a s, I s → (f a).Ends s Q (fun _ _ => True)) : (m >>= f).Ends s Q (fun _ _ => True) := by
  rw [Act.ends_bind]
  exact (hm s hs).mono (fun a s' hs' => hf a s' hs') fun _ _ _ => trivial

def Gives (m : Act σ ε α) (I : σ → Prop) (φ : α → Prop) : Prop :=
  ∀ s, I s → m.Ends s (fun a s' => I s' ∧ φ a) (fun _ s' => I s')

variable {φ : α → Prop}

theorem Gives.pure (h : φ a) : (Pure.pure a : Act σ ε α).Gives I φ :=
  fun _ hs => ⟨hs, h⟩

theorem Gives.fail (e : ε) : (Act.fail e : Act σ ε α).Gives I φ := fun _ hs => hs

theorem Gives.bind (hm : m.Gives I φ) (hf : ∀ a, φ a → (f a).Gives I ψ) : (m >>= f).Gives I ψ := by
  intro s hs
  rw [ends_bind]
  exact (hm s hs).mono (fun a s' h => hf a h.2 s' h.1) fun _ _ h => h

theorem Gives.keeps_bind (hm : m.Gives I φ) (hf : ∀ a, φ a → (f a).Keeps I) : (m >>= f).Keeps I := by
  intro s hs
  rw [ends_bind]
  exact (hm s hs).mono (fun a s' h => hf a h.2 s' h.1) fun _ _ h => h

theorem Gives.keeps (hm : m.Gives I φ) : m.Keeps I :=
  fun s hs => (hm s hs).mono (fun _ _ h => h.1) fun _ _ h => h

theorem Keeps.gives (hm : m.Keeps I) : m.Gives I (fun _ => True) :=
  fun s hs => (hm s hs).mono (fun _ _ h => ⟨h, trivial⟩) fun _ _ h => h

end Act

theorem bind_eq_ok {f : α → Except ε β} {b : β} (h : (x >>= f) = .ok b) : ∃ a, x = .ok a ∧ f a = .ok b := by
  cases x with
  | error e => cases h
  | ok a => exact ⟨a, rfl, h⟩

end StainedGlass.Lib
