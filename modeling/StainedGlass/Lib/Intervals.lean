import Mathlib

/-! Sets of numbers given by intervals, and the pass that joins those that touch. -/

namespace StainedGlass.Lib

def Covers (rs : List (Nat × Nat)) (x : Nat) : Prop := ∃ r ∈ rs, r.1 ≤ x ∧ x ≤ r.2

instance (rs : List (Nat × Nat)) (x : Nat) : Decidable (Covers rs x) :=
  inferInstanceAs (Decidable (∃ r ∈ rs, _))

@[simp] theorem not_covers_nil (x : Nat) : ¬ Covers [] x := by simp [Covers]

@[simp] theorem covers_cons (r : Nat × Nat) (rs : List (Nat × Nat)) (x : Nat) :
    Covers (r :: rs) x ↔ (r.1 ≤ x ∧ x ≤ r.2) ∨ Covers rs x := by simp [Covers]

theorem covers_reverse (rs : List (Nat × Nat)) (x : Nat) : Covers rs.reverse x ↔ Covers rs x := by
  simp [Covers]

theorem covers_congr (h : ∀ r, r ∈ rs ↔ r ∈ rs') (x : Nat) : Covers rs x ↔ Covers rs' x := by simp only [Covers, h]

def extend (out : List (Nat × Nat)) (r : Nat × Nat) : List (Nat × Nat) :=
  match out with
  | last :: out =>
    if r.1 ≤ last.2 + 1 then (last.1, max last.2 r.2) :: out else r :: last :: out
  | [] => [r]

def coalesce (rs : List (Nat × Nat)) : List (Nat × Nat) := (rs.foldl extend []).reverse

theorem covers_extend {out : List (Nat × Nat)} {r : Nat × Nat} (x : Nat)
    (h : ∀ last ∈ out.head?, last.1 ≤ r.1) :
    Covers (extend out r) x ↔ Covers out x ∨ (r.1 ≤ x ∧ x ≤ r.2) := by
  cases out with
  | nil => simp [extend]
  | cons last out =>
    have hlast := h last rfl
    rw [extend]
    split
    · simp only [covers_cons]
      constructor
      · rintro (hx | hx)
        · omega
        · exact .inl (.inr hx)
      · rintro ((hx | hx) | hx)
        · exact .inl (by omega)
        · exact .inr hx
        · exact .inl (by omega)
    · simp only [covers_cons]
      exact or_comm

theorem head?_extend {out : List (Nat × Nat)} {r last : Nat × Nat}
    (h : last ∈ (extend out r).head?) : last.1 = r.1 ∨ ∃ old ∈ out.head?, last.1 = old.1 := by
  cases out with
  | nil =>
    cases h
    exact .inl rfl
  | cons old out =>
    rw [extend] at h
    split at h
    · cases h
      exact .inr ⟨old, rfl, rfl⟩
    · cases h
      exact .inl rfl

theorem covers_foldl_extend {rs out : List (Nat × Nat)} (x : Nat)
    (hsorted : rs.Pairwise fun a b => a.1 ≤ b.1) (hout : ∀ last ∈ out.head?, ∀ r ∈ rs, last.1 ≤ r.1) :
    Covers (rs.foldl extend out) x ↔ Covers out x ∨ Covers rs x := by
  induction rs generalizing out with
  | nil => simp
  | cons r rs ih =>
    obtain ⟨hr, hrs⟩ := List.pairwise_cons.mp hsorted
    have hnext : ∀ last ∈ (extend out r).head?, ∀ r' ∈ rs, last.1 ≤ r'.1 := by
      intro last hlast r' hr'
      obtain heq | ⟨old, hold, heq⟩ := head?_extend hlast
      · rw [heq]
        exact hr r' hr'
      · rw [heq]
        exact hout old hold r' (.tail _ hr')
    rw [List.foldl_cons, ih hrs hnext, covers_extend x fun last hlast => hout last hlast r (.head _),
      covers_cons, or_assoc]

theorem covers_coalesce {rs : List (Nat × Nat)} (h : rs.Pairwise fun a b => a.1 ≤ b.1) (x : Nat) :
    Covers (coalesce rs) x ↔ Covers rs x := by
  rw [coalesce, covers_reverse, covers_foldl_extend x h (by simp)]
  simp

theorem le_of_mem_coalesce {rs : List (Nat × Nat)} {max : Nat} (h : ∀ r ∈ rs, r.1 ≤ r.2 ∧ r.2 ≤ max) :
    ∀ r ∈ coalesce rs, r.1 ≤ r.2 ∧ r.2 ≤ max := by
  have hfold (rs out : List (Nat × Nat)) (hrs : ∀ r ∈ rs, r.1 ≤ r.2 ∧ r.2 ≤ max)
      (hout : ∀ r ∈ out, r.1 ≤ r.2 ∧ r.2 ≤ max) : ∀ r ∈ rs.foldl extend out, r.1 ≤ r.2 ∧ r.2 ≤ max := by
    induction rs generalizing out with
    | nil => exact hout
    | cons r rs ih =>
      refine ih _ (fun r hr => hrs r (.tail _ hr)) ?_
      have hr := hrs r (.head _)
      cases out with
      | nil => simpa [extend] using hr
      | cons last out =>
        rw [extend]
        have hlast := hout last (.head _)
        split
        · intro y hy
          obtain rfl | hy := List.mem_cons.mp hy
          · exact ⟨by simp only; omega, by simp only; omega⟩
          · exact hout y (.tail _ hy)
        · intro y hy
          obtain rfl | hy := List.mem_cons.mp hy
          · exact hr
          · exact hout y hy
  intro r hr
  exact hfold rs [] h nofun r (List.mem_reverse.mp hr)

end StainedGlass.Lib
