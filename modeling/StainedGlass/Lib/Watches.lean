import Mathlib

/-! Folders and files, watches on folders, and what is noticed in them. -/

namespace StainedGlass.Lib

structure FolderId (α : Type) where
  born : Nat
  place : List α
  deriving DecidableEq

inductive Arrival
  | created
  | written
  | movedTo
  deriving DecidableEq

inductive Note (α : Type)
  | entry (dir : FolderId α) (how : Arrival) (folder : Bool) (name : α)
  | gone (dir : FolderId α)
  deriving DecidableEq

structure Watched (α φ : Type) where
  folders : List α → Option (FolderId α)
  files : List α → Option φ
  /-- When what is at the path was last written, moved or removed. -/
  stamp : List α → Nat
  clock : Nat
  watches : List (FolderId α)
  queue : List (Note α)

namespace Watched

variable {α φ : Type}

def Sound (w : Watched α φ) : Prop :=
  (∀ p q d, w.folders p = some d → w.folders q = some d → p = q) ∧
    (∀ p d, w.folders p = some d → d.born ≤ w.clock) ∧
    ∀ d, .gone d ∈ w.queue → d.born ≤ w.clock ∧ ∀ p, w.folders p ≠ some d

def Free (w : Watched α φ) (p : List α) : Prop := ∀ q, p <+: q → w.folders q = none ∧ w.files q = none

variable [DecidableEq α]

def noted (w : Watched α φ) (dir : List α) (how : Arrival) (folder : Bool) (name : α) : List (Note α) :=
  match w.folders dir with
  | some d => if d ∈ w.watches then [.entry d how folder name] else []
  | none => []

def notedGone (w : Watched α φ) (p : List α) : List (Note α) :=
  match w.folders p with
  | some d => if d ∈ w.watches then [.gone d] else []
  | none => []

/-- A write that is noticed again before it is read is noticed once; a full queue takes nothing. -/
def post (limit : Nat) (queue : List (Note α)) (n : Note α) : List (Note α) :=
  match n with
  | .entry _ .movedTo _ _ => if queue.length < limit then queue ++ [n] else queue
  | _ => if queue.getLast? = some n then queue else if queue.length < limit then queue ++ [n] else queue

def watch (w : Watched α φ) (d : FolderId α) : Watched α φ :=
  { w with watches := if d ∈ w.watches then w.watches else d :: w.watches }

end Watched

inductive FileOp (α φ : Type)
  | write (dir : List α) (name : α) (f : φ)
  | move (src dir : List α) (name : α)
  /-- From elsewhere. -/
  | bring (dir : List α) (name : α) (f : φ)
  /-- Deleted, or moved elsewhere. -/
  | remove (p : List α)
  | makeFolder (dir : List α) (name : α)
  | moveFolder (src dir : List α) (name : α)
  /-- A folder from elsewhere, with what is in it. -/
  | bringFolder (dir : List α) (name : α) (folders : List α → Bool) (files : List α → Option φ)
  | removeFolder (p : List α)
  /-- A folder moved elsewhere, with what is in it. -/
  | takeFolder (p : List α)

namespace FileOp

variable {α φ : Type}

def Able (w : Watched α φ) : FileOp α φ → Prop
  | .write dir name _ => w.folders dir ≠ none ∧ w.folders (dir ++ [name]) = none
  | .move src dir name =>
    w.files src ≠ none ∧ w.folders dir ≠ none ∧ w.folders (dir ++ [name]) = none ∧ src ≠ dir ++ [name]
  | .bring dir name _ => w.folders dir ≠ none ∧ w.folders (dir ++ [name]) = none
  | .remove p => w.files p ≠ none
  | .makeFolder dir name => w.folders dir ≠ none ∧ w.Free (dir ++ [name])
  | .moveFolder src dir name =>
    w.folders src ≠ none ∧ w.folders dir ≠ none ∧ ¬ src <+: dir ∧ w.Free (dir ++ [name])
  | .bringFolder dir name _ _ => w.folders dir ≠ none ∧ w.Free (dir ++ [name])
  | .removeFolder p => w.folders p ≠ none ∧ ∀ q, p <+: q → q ≠ p → w.folders q = none ∧ w.files q = none
  | .takeFolder p => w.folders p ≠ none

variable [DecidableEq α] (w : Watched α φ)

def folders : FileOp α φ → List α → Option (FolderId α)
  | .makeFolder dir name => Function.update w.folders (dir ++ [name]) (some ⟨w.clock + 1, dir ++ [name]⟩)
  | .moveFolder src dir name => fun q =>
    if dir ++ [name] <+: q then w.folders (src ++ q.drop (dir.length + 1))
    else if src <+: q then none else w.folders q
  | .bringFolder dir name folders _ => fun q =>
    if dir ++ [name] <+: q then
      if q = dir ++ [name] ∨ folders (q.drop (dir.length + 1)) then some ⟨w.clock + 1, q⟩ else none
    else w.folders q
  | .removeFolder p => Function.update w.folders p none
  | .takeFolder p => fun q => if p <+: q then none else w.folders q
  | _ => w.folders

def files : FileOp α φ → List α → Option φ
  | .write dir name f => Function.update w.files (dir ++ [name]) (some f)
  | .move src dir name => Function.update (Function.update w.files src none) (dir ++ [name]) (w.files src)
  | .bring dir name f => Function.update w.files (dir ++ [name]) (some f)
  | .remove p => Function.update w.files p none
  | .moveFolder src dir name => fun q =>
    if dir ++ [name] <+: q then w.files (src ++ q.drop (dir.length + 1))
    else if src <+: q then none else w.files q
  | .bringFolder dir name _ files => fun q =>
    if dir ++ [name] <+: q then files (q.drop (dir.length + 1)) else w.files q
  | .takeFolder p => fun q => if p <+: q then none else w.files q
  | _ => w.files

def touches : FileOp α φ → List α → Bool
  | .write dir name _ => fun q => q = dir ++ [name]
  | .move src dir name => fun q => q = src || q = dir ++ [name]
  | .bring dir name _ => fun q => q = dir ++ [name]
  | .remove p => fun q => q = p
  | .makeFolder _ _ => fun _ => false
  | .moveFolder src dir name => fun q => src <+: q || dir ++ [name] <+: q
  | .bringFolder dir name _ _ => fun q => dir ++ [name] <+: q
  | .removeFolder _ => fun _ => false
  | .takeFolder p => fun q => p <+: q

def notes : FileOp α φ → List (Note α)
  | .write dir name _ =>
    (if (w.files (dir ++ [name])).isNone then w.noted dir .created false name else []) ++
      w.noted dir .written false name
  | .move _ dir name => w.noted dir .movedTo false name
  | .bring dir name _ => w.noted dir .movedTo false name
  | .makeFolder dir name => w.noted dir .created true name
  | .moveFolder _ dir name => w.noted dir .movedTo true name
  | .bringFolder dir name _ _ => w.noted dir .movedTo true name
  | .removeFolder p => w.notedGone p
  | .remove _ => []
  | .takeFolder _ => []

def apply (limit : Nat) (op : FileOp α φ) : Watched α φ where
  folders := op.folders w
  files := op.files w
  stamp q := if op.touches q then w.clock + 1 else w.stamp q
  clock := w.clock + 1
  watches := w.watches
  queue := (op.notes w).foldl (Watched.post limit) w.queue

end FileOp

theorem drop_of_prefix {p q : List α} (h : p ++ [a] <+: q) : p ++ [a] ++ q.drop (p.length + 1) = q := by
  obtain ⟨r, rfl⟩ := h
  simp

namespace Watched

variable {α φ : Type} [DecidableEq α] {w : Watched α φ} {queue : List (Note α)} {limit : Nat}

theorem mem_post (h : x ∈ post limit queue n) : x ∈ queue ∨ x = n := by
  unfold post at h
  grind

variable {x : Note α}

theorem mem_post_of_mem (n : Note α) (h : x ∈ queue) : x ∈ post limit queue n := by
  unfold post
  grind

theorem mem_post_self (n : Note α) (h : queue.length < limit) : n ∈ post limit queue n := by
  unfold post
  grind [List.mem_of_getLast?]

theorem length_post_le (limit : Nat) (queue : List (Note α)) (n : Note α) :
    (post limit queue n).length ≤ queue.length + 1 := by
  unfold post
  grind

theorem mem_foldl_post {notes : List (Note α)} (h : x ∈ notes.foldl (post limit) queue) :
    x ∈ queue ∨ x ∈ notes := by
  induction notes generalizing queue with
  | nil => exact .inl h
  | cons n notes ih =>
    obtain h | h := ih h
    · exact (mem_post h).imp_right fun h => List.mem_cons.mpr (.inl h)
    · exact .inr (.tail _ h)

theorem mem_foldl_post_of_mem (notes : List (Note α)) (h : x ∈ queue) : x ∈ notes.foldl (post limit) queue := by
  induction notes generalizing queue with
  | nil => exact h
  | cons n notes ih => exact ih (mem_post_of_mem n h)

theorem mem_foldl_post_self {notes : List (Note α)} (h : queue.length + notes.length ≤ limit)
    (hx : x ∈ notes) : x ∈ notes.foldl (post limit) queue := by
  induction notes generalizing queue with
  | nil => exact absurd hx List.not_mem_nil
  | cons n notes ih =>
    rw [List.length_cons] at h
    obtain rfl | hx := List.mem_cons.mp hx
    · exact mem_foldl_post_of_mem notes (mem_post_self x (by omega))
    · exact ih (by have := length_post_le limit queue n; omega) hx

variable {d : FolderId α}

theorem gone_notMem_noted : Note.gone d ∉ w.noted dir how folder name := by
  unfold noted
  split
  · split <;> simp
  · simp

theorem length_noted_le (dir : List α) (how : Arrival) (folder : Bool) (name : α) :
    (w.noted dir how folder name).length ≤ 1 := by
  unfold noted
  split
  · split <;> simp
  · simp

theorem noted_eq (hdir : w.folders dir = some d) (hd : d ∈ w.watches)
    (how : Arrival) (folder : Bool) (name : α) : w.noted dir how folder name = [.entry d how folder name] := by
  rw [noted, hdir]
  exact if_pos hd

theorem mem_notedGone (h : Note.gone d ∈ w.notedGone p) : w.folders p = some d := by
  unfold notedGone at h
  split at h
  · next d' hd' =>
    split at h
    · cases List.mem_singleton.mp h
      exact hd'
    · exact absurd h List.not_mem_nil
  · exact absurd h List.not_mem_nil

end Watched

namespace FileOp

variable {α φ : Type} [DecidableEq α] {w : Watched α φ} {op : FileOp α φ} {limit : Nat} {p : List α}

theorem length_notes_le (w : Watched α φ) (op : FileOp α φ) : (op.notes w).length ≤ 2 := by
  have h := fun dir how folder name => w.length_noted_le dir how folder name
  cases op with
  | write dir name f =>
    simp only [notes, List.length_append]
    have h₁ := h dir .created false name
    have h₂ := h dir .written false name
    split
    · omega
    · rw [List.length_nil]
      omega
  | removeFolder p =>
    simp only [notes, Watched.notedGone]
    split
    · split <;> simp
    · simp
  | remove p => simp [notes]
  | takeFolder p => simp [notes]
  | move src dir name => exact (h _ _ _ _).trans one_le_two
  | bring dir name f => exact (h _ _ _ _).trans one_le_two
  | makeFolder dir name => exact (h _ _ _ _).trans one_le_two
  | moveFolder src dir name => exact (h _ _ _ _).trans one_le_two
  | bringFolder dir name folders files => exact (h _ _ _ _).trans one_le_two

theorem gone_mem_notes (h : Note.gone d ∈ op.notes w) : ∃ p, op = .removeFolder p ∧ w.folders p = some d := by
  cases op with
  | write dir name f =>
    obtain h | h := List.mem_append.mp h
    · split at h
      · exact absurd h Watched.gone_notMem_noted
      · exact absurd h List.not_mem_nil
    · exact absurd h Watched.gone_notMem_noted
  | removeFolder p => exact ⟨p, rfl, Watched.mem_notedGone h⟩
  | remove p => exact absurd h List.not_mem_nil
  | takeFolder p => exact absurd h List.not_mem_nil
  | move src dir name => exact absurd h Watched.gone_notMem_noted
  | bring dir name f => exact absurd h Watched.gone_notMem_noted
  | makeFolder dir name => exact absurd h Watched.gone_notMem_noted
  | moveFolder src dir name => exact absurd h Watched.gone_notMem_noted
  | bringFolder dir name folders files => exact absurd h Watched.gone_notMem_noted

theorem files_of_untouched (h : op.touches p = false) : op.files w p = w.files p := by
  cases op <;> simp_all [touches, files]

theorem folders_of_untouched (hable : op.Able w)
    (h : op.touches (dir ++ [name]) = false) (hfile : w.files (dir ++ [name]) ≠ none)
    (hdir : w.folders dir = some d) : op.folders w dir = some d := by
  have hbelow {q : List α} (hq : q <+: dir) : q <+: dir ++ [name] := hq.trans (List.prefix_append _ _)
  cases op with
  | write dir' name' f => exact hdir
  | move src dir' name' => exact hdir
  | bring dir' name' f => exact hdir
  | remove q => exact hdir
  | makeFolder dir' name' =>
    have hne : dir ≠ dir' ++ [name'] := by
      rintro rfl
      simp [(hable.2 _ List.prefix_rfl).1] at hdir
    rw [folders, Function.update_of_ne hne, hdir]
  | moveFolder src dir' name' =>
    simp only [touches, Bool.or_eq_false_iff, decide_eq_false_iff_not] at h
    simp only [folders]
    rw [if_neg fun hq => h.2 (hbelow hq), if_neg fun hq => h.1 (hbelow hq), hdir]
  | bringFolder dir' name' fs gs =>
    simp only [touches, decide_eq_false_iff_not] at h
    simp only [folders]
    rw [if_neg fun hq => h (hbelow hq), hdir]
  | removeFolder q =>
    have hne : dir ≠ q := by
      rintro rfl
      exact hfile (hable.2 _ (List.prefix_append _ _) (by simp)).2
    rw [folders, Function.update_of_ne hne, hdir]
  | takeFolder q =>
    simp only [touches, decide_eq_false_iff_not] at h
    simp only [folders]
    rw [if_neg fun hq => h (hbelow hq), hdir]

def origin : FileOp α φ → List α → List α
  | .moveFolder src dir name => fun q => if dir ++ [name] <+: q then src ++ q.drop (dir.length + 1) else q
  | _ => id

theorem folders_cases (h : op.folders w q = some d) : w.folders (op.origin q) = some d ∨ d = ⟨w.clock + 1, q⟩ := by
  cases op with
  | moveFolder src dir name =>
    simp only [folders] at h
    simp only [origin]
    split at h
    · next hq => exact .inl (by rwa [if_pos hq])
    · next hq =>
      split at h
      · cases h
      · exact .inl (by rwa [if_neg hq])
  | makeFolder dir name =>
    simp only [folders, Function.update_apply] at h
    split at h
    · next hq =>
      cases h
      exact .inr (by rw [hq])
    · exact .inl h
  | bringFolder dir name fs gs =>
    simp only [folders] at h
    split at h
    · split at h
      · cases h
        exact .inr rfl
      · cases h
    · exact .inl h
  | removeFolder p =>
    simp only [folders, Function.update_apply] at h
    split at h
    · cases h
    · exact .inl h
  | takeFolder p =>
    simp only [folders] at h
    split at h
    · cases h
    · exact .inl h
  | write dir name f => exact .inl h
  | move src dir name => exact .inl h
  | bring dir name f => exact .inl h
  | remove p => exact .inl h

theorem origin_inj (hq : op.folders w q ≠ none) (hq' : op.folders w q' ≠ none)
    (h : op.origin q = op.origin q') : q = q' := by
  cases op with
  | moveFolder src dir name =>
    simp only [origin] at h
    simp only [folders] at hq hq'
    split at h
    · next hp =>
      split at h
      · next hp' =>
        rw [← drop_of_prefix hp, ← drop_of_prefix hp', List.append_cancel_left h]
      · next hp' =>
        rw [if_neg hp', if_pos (h ▸ List.prefix_append _ _)] at hq'
        exact absurd rfl hq'
    · next hp =>
      split at h
      · next hp' =>
        rw [if_neg hp, if_pos (h ▸ List.prefix_append _ _)] at hq
        exact absurd rfl hq
      · exact h
  | write dir name f => exact h
  | move src dir name => exact h
  | bring dir name f => exact h
  | remove p => exact h
  | makeFolder dir name => exact h
  | bringFolder dir name fs gs => exact h
  | removeFolder p => exact h
  | takeFolder p => exact h

theorem sound_apply (hw : w.Sound) : (op.apply w limit).Sound := by
  obtain ⟨hunique, hborn, hgone⟩ := hw
  refine ⟨?_, ?_, ?_⟩
  · intro p q d hp hq
    have hp' : op.folders w p ≠ none := by simp [show op.folders w p = some d from hp]
    have hq' : op.folders w q ≠ none := by simp [show op.folders w q = some d from hq]
    rcases folders_cases hp with hp | rfl
    · rcases folders_cases hq with hq | rfl
      · exact origin_inj hp' hq' (hunique _ _ _ hp hq)
      · exact absurd (hborn _ _ hp) (by simp)
    · rcases folders_cases hq with hq | hd
      · exact absurd (hborn _ _ hq) (by simp)
      · exact congrArg FolderId.place hd
  · intro p d hp
    rcases folders_cases hp with hp | rfl
    · exact (hborn _ _ hp).trans (Nat.le_succ _)
    · exact le_rfl
  · intro d hd
    rcases Watched.mem_foldl_post hd with hd | hd
    · refine ⟨(hgone d hd).1.trans (Nat.le_succ _), fun p hp => ?_⟩
      rcases folders_cases hp with hp | rfl
      · exact (hgone d hd).2 _ hp
      · exact absurd (hgone _ hd).1 (by simp)
    · obtain ⟨p, rfl, hp⟩ := gone_mem_notes hd
      refine ⟨(hborn _ _ hp).trans (Nat.le_succ _), fun q hq => ?_⟩
      simp only [apply, folders, Function.update_apply] at hq
      split at hq
      · cases hq
      · next hne => exact hne (hunique _ _ _ hq hp)

end FileOp

end StainedGlass.Lib
