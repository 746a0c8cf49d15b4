import Mathlib

/-! Items gathered into batches of a limited size. -/

namespace StainedGlass.Lib

variable (size : α → Nat) (limit : Nat)

def total (xs : List α) : Nat := (xs.map size).sum

@[simp] theorem total_nil : total size [] = 0 := rfl

@[simp] theorem total_append (xs ys : List α) :
    total size (xs ++ ys) = total size xs + total size ys := by
  simp [total]

@[simp] theorem total_singleton (x : α) : total size [x] = size x := by
  simp [total]

theorem size_le_total (h : x ∈ xs) : size x ≤ total size xs :=
  List.single_le_sum (fun _ _ => Nat.zero_le _) _ (List.mem_map_of_mem h)

inductive Batched : List α → List (List α) → List α → Prop
  | nil : Batched [] [] []
  | add : Batched xs closed batch → (batch = [] ∨ total size batch + size x ≤ limit) →
    Batched (xs ++ [x]) closed (batch ++ [x])
  | next : Batched xs closed batch → limit < total size batch + size x →
    Batched (xs ++ [x]) (closed ++ [batch]) [x]

variable {size : α → Nat} {limit : Nat} {xs : List α} {closed : List (List α)} {batch : List α}

theorem Batched.flatten (h : Batched size limit xs closed batch) : closed.flatten ++ batch = xs := by
  induction h with
  | nil => rfl
  | add _ _ ih => rw [← ih, List.append_assoc]
  | next _ _ ih => rw [← ih, List.flatten_append, List.flatten_singleton]

theorem Batched.total_le (h : Batched size limit xs closed batch) :
    total size batch ≤ total size xs := by
  rw [← h.flatten, total_append]
  exact Nat.le_add_left _ _

theorem Batched.within (h : Batched size limit xs closed batch) (hxs : ∀ x ∈ xs, size x ≤ limit) :
    ∀ b ∈ closed ++ [batch], total size b ≤ limit := by
  induction h with
  | nil => simp
  | @add xs closed batch x _ hroom ih =>
    have hold := ih fun y hy => hxs y (List.mem_append_left _ hy)
    intro b hb
    rw [List.mem_append, List.mem_singleton] at hb
    obtain hb | rfl := hb
    · exact hold b (List.mem_append_left _ hb)
    · rw [total_append, total_singleton]
      obtain rfl | hroom := hroom
      · simpa using hxs x (by simp)
      · exact hroom
  | @next xs closed batch x _ _ ih =>
    have hold := ih fun y hy => hxs y (List.mem_append_left _ hy)
    intro b hb
    rw [List.mem_append, List.mem_singleton] at hb
    obtain hb | rfl := hb
    · exact hold b hb
    · rw [total_singleton]
      exact hxs x (by simp)

end StainedGlass.Lib
