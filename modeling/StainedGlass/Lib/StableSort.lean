import Mathlib

/-! Stable sorting: what `List.mergeSort` keeps in order. -/

namespace StainedGlass.Lib

variable {α : Type*}

theorem eq_filter_append_filter {l : List α} (h : l.Pairwise (fun x y => b y → b x)) :
    l = l.filter b ++ l.filter (fun x => !b x) := by
  induction l with
  | nil => rfl
  | cons x l ih =>
    obtain ⟨hx, hl⟩ := List.pairwise_cons.mp h
    cases hb : b x with
    | true => simpa [hb] using ih hl
    | false =>
      have hnone : l.filter b = [] := by
        rw [List.filter_eq_nil_iff]
        intro y hy hby
        simp [hx y hy hby] at hb
      have hall : l.filter (fun y => !b y) = l := by
        rw [List.filter_eq_self]
        intro y hy
        cases hby : b y with
        | false => rfl
        | true => exact absurd (List.mem_filter.mpr ⟨hy, hby⟩) (by simp [hnone])
      simp [hb, hnone, hall]

theorem filter_mergeSort (b : α → Bool) (l : List α)
    (trans : ∀ x y z, le x y → le y z → le x z) (total : ∀ x y, le x y || le y x) (hb : ∀ x y, b x → b y → le x y) :
    (l.mergeSort le).filter b = l.filter b := by
  have hsorted : (l.filter b).Pairwise (fun x y => le x y = true) := by
    rw [List.pairwise_filter]
    exact List.pairwise_of_forall (fun x y hx hy => hb x y hx hy)
  have hsub : (l.filter b).Sublist (l.mergeSort le) :=
    List.sublist_mergeSort trans total hsorted List.filter_sublist
  have hsub' : (l.filter b).Sublist ((l.mergeSort le).filter b) := by
    simpa using hsub.filter b
  have hlen : ((l.mergeSort le).filter b).length = (l.filter b).length :=
    ((List.mergeSort_perm l le).filter b).length_eq
  exact (hsub'.eq_of_length hlen.symm).symm

theorem mergeSort_key (b : α → Bool) (l : List α) :
    l.mergeSort (fun x y => (if b x then 0 else 1) ≤ (if b y then 0 else 1)) =
      l.filter b ++ l.filter (fun x => !b x) := by
  set le : α → α → Bool := fun x y => (if b x then 0 else 1) ≤ (if b y then 0 else 1) with hle
  have trans : ∀ x y z, le x y → le y z → le x z := by
    intro x y z hxy hyz
    simp only [hle, decide_eq_true_eq] at *
    exact hxy.trans hyz
  have total : ∀ x y, le x y || le y x := by
    intro x y
    simp only [hle, Bool.or_eq_true, decide_eq_true_eq]
    exact Nat.le_total _ _
  have hsorted : (l.mergeSort le).Pairwise (fun x y => b y → b x) := by
    refine (List.pairwise_mergeSort trans total l).imp ?_
    intro x y hxy hy
    by_contra hx
    simp [hle, hx, hy] at hxy
  rw [eq_filter_append_filter hsorted, filter_mergeSort b l trans total,
    filter_mergeSort (fun x => !b x) l trans total]
  · intro x y hx hy
    simp_all
  · intro x y hx hy
    simp [hle, hx, hy]

end StainedGlass.Lib
