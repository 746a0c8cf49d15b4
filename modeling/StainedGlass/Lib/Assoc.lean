import Mathlib

/-! Dictionaries in the order in which their keys were first set. -/

namespace StainedGlass.Lib

structure Assoc (κ ν : Type) where
  items : List (κ × ν)
  nodup : (items.map Prod.fst).Nodup

namespace Assoc

variable {κ ν : Type}

def empty : Assoc κ ν := ⟨[], .nil⟩

def keys (d : Assoc κ ν) : List κ := d.items.map Prod.fst

def values (d : Assoc κ ν) : List ν := d.items.map Prod.snd

variable [DecidableEq κ]

def setItems (k : κ) (v : ν) : List (κ × ν) → List (κ × ν)
  | [] => [(k, v)]
  | x :: items => if x.1 = k then (k, v) :: items else x :: setItems k v items

theorem map_fst_setItems (k : κ) (v : ν) (items : List (κ × ν)) :
    (setItems k v items).map Prod.fst =
      if k ∈ items.map Prod.fst then items.map Prod.fst else items.map Prod.fst ++ [k] := by
  induction items with
  | nil => rfl
  | cons x items ih =>
    rw [setItems]
    by_cases hx : x.1 = k
    · simp [hx]
    · rw [if_neg hx, List.map_cons, ih, List.map_cons]
      have hk : k ∈ x.1 :: items.map Prod.fst ↔ k ∈ items.map Prod.fst := by simp [Ne.symm hx]
      simp only [hk]
      split <;> rfl

variable (d : Assoc κ ν)

theorem nodup_setItems (k : κ) (v : ν) : ((setItems k v d.items).map Prod.fst).Nodup := by
  rw [map_fst_setItems]
  split
  · exact d.nodup
  · next hk => exact List.nodup_append_comm.mp (List.nodup_cons.mpr ⟨hk, d.nodup⟩)

def set (d : Assoc κ ν) (k : κ) (v : ν) : Assoc κ ν := ⟨setItems k v d.items, nodup_setItems d k v⟩

theorem nodup_filter (k : κ) : ((d.items.filter (·.1 ≠ k)).map Prod.fst).Nodup :=
  (List.filter_sublist.map Prod.fst).nodup d.nodup

def erase (d : Assoc κ ν) (k : κ) : Assoc κ ν := ⟨d.items.filter (·.1 ≠ k), nodup_filter d k⟩

def get? (d : Assoc κ ν) (k : κ) : Option ν := d.items.lookup k

theorem mem_keys_set {d : Assoc κ ν} : x ∈ (d.set k v).keys ↔ x = k ∨ x ∈ d.keys := by
  simp only [keys, set, map_fst_setItems]
  split
  · next hk => exact ⟨.inr, fun h => h.elim (· ▸ hk) id⟩
  · rw [List.mem_append, List.mem_singleton, or_comm]

theorem mem_keys_erase {d : Assoc κ ν} : x ∈ (d.erase k).keys ↔ x ∈ d.keys ∧ x ≠ k := by
  simp only [keys, erase, List.mem_map, List.mem_filter, decide_eq_true_eq]
  constructor
  · rintro ⟨y, ⟨hy, hne⟩, rfl⟩
    exact ⟨⟨y, hy, rfl⟩, hne⟩
  · rintro ⟨⟨y, hy, rfl⟩, hne⟩
    exact ⟨y, ⟨hy, hne⟩, rfl⟩

theorem get?_set (k : κ) (v : ν) : (d.set k v).get? k = some v := by
  simp only [get?, set]
  induction d.items with
  | nil => simp [setItems]
  | cons x items ih =>
    rw [setItems]
    split
    · simp
    · next hx => rw [List.lookup_cons, ih, beq_false_of_ne (Ne.symm hx)]

theorem get?_set_ne (v : ν) (h : k' ≠ k) : (d.set k v).get? k' = d.get? k' := by
  simp only [get?, set]
  induction d.items with
  | nil => simpa [setItems] using h
  | cons x items ih =>
    rw [setItems]
    split
    · next hx =>
      obtain ⟨y, w⟩ := x
      cases hx
      simp [List.lookup_cons, beq_false_of_ne h]
    · rw [List.lookup_cons, ih, List.lookup_cons]

theorem mem_of_get? {d : Assoc κ ν} (h : d.get? k = some v) : (k, v) ∈ d.items := by
  rw [get?] at h
  generalize d.items = items at h
  induction items with
  | nil => cases h
  | cons x items ih =>
    rw [List.lookup_cons] at h
    split at h
    · next hx =>
      rw [beq_iff_eq.mp hx, ← Option.some.inj h]
      exact .head _
    · exact .tail _ (ih h)

theorem get?_erase_ne (h : k' ≠ k) : (d.erase k).get? k' = d.get? k' := by
  simp only [get?, erase]
  induction d.items with
  | nil => rfl
  | cons x items ih =>
    rw [List.filter_cons, List.lookup_cons]
    split
    · rw [List.lookup_cons, ih]
    · next hx =>
      have hx : x.1 = k := by simpa using hx
      rw [ih, hx, beq_false_of_ne h]

end Assoc

end StainedGlass.Lib
