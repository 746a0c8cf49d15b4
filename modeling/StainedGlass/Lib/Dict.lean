import Mathlib

/-! Dictionaries in the order of their keys. -/

namespace StainedGlass.Lib

@[ext] structure Dict (κ : Type) (ν : Type) [LT κ] where
  items : List (κ × ν)
  sorted : items.Pairwise fun a b => a.1 < b.1

namespace Dict

variable {κ ν : Type} [LinearOrder κ]

instance [DecidableEq ν] : DecidableEq (Dict κ ν) := fun d d' =>
  decidable_of_iff (d.items = d'.items) Dict.ext_iff.symm

def empty : Dict κ ν := ⟨[], .nil⟩

def setItems (k : κ) (v : ν) : List (κ × ν) → List (κ × ν)
  | [] => [(k, v)]
  | (k', v') :: items =>
    if k < k' then (k, v) :: (k', v') :: items
    else if k = k' then (k, v) :: items
    else (k', v') :: setItems k v items

variable {items : List (κ × ν)} {k : κ} {v : ν} {x : κ × ν}

theorem mem_setItems
    (h : x ∈ setItems k v items) : x = (k, v) ∨ x ∈ items := by
  induction items with
  | nil => exact .inl (List.mem_singleton.mp h)
  | cons y items ih =>
    rw [setItems] at h
    split at h
    · exact (List.mem_cons.mp h).imp_right id
    · split at h
      · exact (List.mem_cons.mp h).imp_right (.tail _)
      · obtain rfl | h := List.mem_cons.mp h
        · exact .inr (.head _)
        · exact (ih h).imp_right (.tail _)

def set (d : Dict κ ν) (k : κ) (v : ν) : Dict κ ν where
  items := setItems k v d.items
  sorted := by
    obtain ⟨items, hsorted⟩ := d
    induction items with
    | nil => exact List.pairwise_singleton _ _
    | cons y items ih =>
      obtain ⟨hy, hitems⟩ := List.pairwise_cons.mp hsorted
      rw [setItems]
      split
      · next hlt =>
        refine List.pairwise_cons.mpr ⟨?_, hsorted⟩
        intro x hx
        obtain rfl | hx := List.mem_cons.mp hx
        · exact hlt
        · exact lt_trans hlt (hy x hx)
      · next hle =>
        split
        · next heq => exact List.pairwise_cons.mpr ⟨fun x hx => heq ▸ hy x hx, hitems⟩
        · next hne =>
          refine List.pairwise_cons.mpr ⟨fun x hx => ?_, ih hitems⟩
          obtain rfl | hx := mem_setItems hx
          · exact lt_of_le_of_ne (not_lt.mp hle) (Ne.symm hne)
          · exact hy x hx

theorem sorted_filter (d : Dict κ ν) (k : κ) : (d.items.filter (·.1 ≠ k)).Pairwise fun a b => a.1 < b.1 :=
  d.sorted.filter _

def erase (d : Dict κ ν) (k : κ) : Dict κ ν := ⟨d.items.filter (·.1 ≠ k), sorted_filter d k⟩

def get? (d : Dict κ ν) (k : κ) : Option ν := d.items.lookup k

theorem setItems_append (h : ∀ x ∈ items, x.1 < k) : setItems k v items = items ++ [(k, v)] := by
  induction items with
  | nil => rfl
  | cons y items ih =>
    have hy := h y (.head _)
    rw [setItems, if_neg (not_lt.mpr hy.le), if_neg hy.ne', ih fun x hx => h x (.tail _ hx),
      List.cons_append]

theorem foldl_set (d : Dict κ ν) : d.items.foldl (fun d x => d.set x.1 x.2) empty = d := by
  have hfold (front back : List (κ × ν)) (hsorted : (front ++ back).Pairwise fun a b => a.1 < b.1)
      (acc : Dict κ ν) (hacc : acc.items = front) :
      (back.foldl (fun d x => d.set x.1 x.2) acc).items = front ++ back := by
    induction back generalizing front acc with
    | nil => rw [List.append_nil, List.foldl_nil, hacc]
    | cons x back ih =>
      have hset : (acc.set x.1 x.2).items = front ++ [x] := by
        change setItems x.1 x.2 acc.items = _
        rw [hacc, setItems_append fun y hy =>
          (List.pairwise_append.mp hsorted).2.2 y hy x (.head _)]
      rw [List.append_cons] at hsorted ⊢
      exact ih (front ++ [x]) hsorted (acc.set x.1 x.2) hset
  exact Dict.ext (hfold [] d.items d.sorted empty rfl)

theorem mem_set {d : Dict κ ν} (h : x ∈ (d.set k v).items) : x = (k, v) ∨ x ∈ d.items := mem_setItems h

theorem get?_eq_some_iff {d : Dict κ ν} : d.get? k = some v ↔ (k, v) ∈ d.items := by
  rw [get?, List.lookup_eq_some_iff]
  constructor
  · rintro ⟨l₁, l₂, hitems, -⟩
    rw [hitems]
    simp
  · intro h
    obtain ⟨l₁, l₂, hitems⟩ := List.append_of_mem h
    refine ⟨l₁, l₂, hitems, fun p hp => ?_⟩
    have hsorted := d.sorted
    rw [hitems] at hsorted
    have hlt := (List.pairwise_append.mp hsorted).2.2 p hp (k, v) List.mem_cons_self
    simpa using hlt.ne'

theorem mem_setItems_self (k : κ) (v : ν) (items : List (κ × ν)) : (k, v) ∈ setItems k v items := by
  induction items with
  | nil => exact .head _
  | cons y items ih =>
    rw [setItems]
    split
    · exact .head _
    · split
      · exact .head _
      · exact .tail _ ih

theorem mem_setItems_of_ne (h : x ∈ items) (hne : x.1 ≠ k) : x ∈ setItems k v items := by
  induction items with
  | nil => cases h
  | cons y items ih =>
    rw [setItems]
    split
    · exact .tail _ h
    · obtain rfl | h := List.mem_cons.mp h
      · rw [if_neg hne.symm]
        exact .head _
      · split
        · exact .tail _ h
        · exact .tail _ (ih h)

theorem get?_set_self (d : Dict κ ν) (k : κ) (v : ν) : (d.set k v).get? k = some v :=
  get?_eq_some_iff.mpr (mem_setItems_self k v d.items)

theorem get?_set_of_ne (d : Dict κ ν) {k k' : κ} (v : ν) (h : k' ≠ k) :
    (d.set k v).get? k' = d.get? k' := by
  ext w
  rw [get?_eq_some_iff, get?_eq_some_iff]
  constructor
  · intro hw
    obtain heq | hw := mem_set hw
    · exact absurd (congrArg Prod.fst heq) h
    · exact hw
  · intro hw
    exact mem_setItems_of_ne hw h

def map (f : ν → ν) (d : Dict κ ν) : Dict κ ν where
  items := d.items.map fun x => (x.1, f x.2)
  sorted := List.pairwise_map.mpr d.sorted

end Dict

end StainedGlass.Lib
