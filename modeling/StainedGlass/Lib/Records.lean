import StainedGlass.Lib.Bytes

/-! A stream of records, each closed by one delimiter. -/

namespace StainedGlass.Lib

variable [DecidableEq α] {c : α}

def addFirst (x : α) : List (List α) × List α → List (List α) × List α
  | ([], t) => ([], x :: t)
  | (r :: rs, t) => ((x :: r) :: rs, t)

def records (c : α) : List α → List (List α) × List α
  | [] => ([], [])
  | x :: xs => if x = c then ([] :: (records c xs).1, (records c xs).2) else addFirst x (records c xs)

def complete (c : α) (xs : List α) : List (List α) := (records c xs).1

def pending (c : α) (xs : List α) : List α := (records c xs).2

variable {xs : List α}

theorem records_open (h : c ∉ xs) : records c xs = ([], xs) := by
  induction xs with
  | nil => rfl
  | cons x xs ih =>
    rw [List.mem_cons, not_or] at h
    rw [records, if_neg (Ne.symm h.1), ih h.2]
    rfl

theorem records_closed (h : c ∉ xs) (ys : List α) :
    records c (xs ++ c :: ys) = (xs :: complete c ys, pending c ys) := by
  induction xs with
  | nil => simp [records, complete, pending]
  | cons x xs ih =>
    rw [List.mem_cons, not_or] at h
    rw [List.cons_append, records, if_neg (Ne.symm h.1), ih h.2]
    rfl

theorem complete_open (h : c ∉ xs) : complete c xs = [] := by
  rw [complete, records_open h]

theorem pending_open (h : c ∉ xs) : pending c xs = xs := by
  rw [pending, records_open h]

theorem complete_closed (h : c ∉ xs) (ys : List α) : complete c (xs ++ c :: ys) = xs :: complete c ys := by
  rw [complete, records_closed h]

theorem pending_closed (h : c ∉ xs) (ys : List α) : pending c (xs ++ c :: ys) = pending c ys := by
  rw [pending, records_closed h]

theorem cut_eq_none : cut c xs = none ↔ c ∉ xs := by
  induction xs with
  | nil => simp [cut]
  | cons x xs ih =>
    rw [cut]
    split
    · next h => simp [h]
    · next h => simp [ih, Ne.symm h]

@[elab_as_elim]
theorem recordsInduction {motive : List α → Prop} (xs : List α)
    (opened : ∀ a, c ∉ a → motive a)
    (closed : ∀ a b, c ∉ a → motive b → motive (a ++ c :: b)) : motive xs := by
  induction hn : xs.length using Nat.strong_induction_on generalizing xs with
  | _ n ih =>
    cases h : cut c xs with
    | none => exact opened xs (cut_eq_none.mp h)
    | some r =>
      obtain ⟨rfl, ha⟩ := eq_of_cut h
      apply closed r.1 r.2 ha
      apply ih r.2.length _ r.2 rfl
      rw [← hn, List.length_append, List.length_cons]
      omega

theorem notMem_pending (xs : List α) : c ∉ pending c xs := by
  induction xs using recordsInduction (c := c) with
  | opened a ha => rwa [pending_open ha]
  | closed a b ha ih => rwa [pending_closed ha]

theorem records_append (xs ys : List α) :
    records c (xs ++ ys) =
      (complete c xs ++ complete c (pending c xs ++ ys), pending c (pending c xs ++ ys)) := by
  induction xs using recordsInduction (c := c) with
  | opened a ha =>
    rw [pending_open ha, complete_open ha]
    rfl
  | closed a b ha ih =>
    rw [List.append_assoc, List.cons_append, records_closed ha, complete_closed ha,
      pending_closed ha, complete, pending, ih]
    rfl

theorem complete_append (xs ys : List α) :
    complete c (xs ++ ys) = complete c xs ++ complete c (pending c xs ++ ys) := by
  rw [complete, records_append]

end StainedGlass.Lib
