import Mathlib

/-! Streams: cut into pieces, with nothing between them that has to be kept, and what has held since some
point of one. -/

namespace StainedGlass.Lib

inductive Segmented (must : α → Prop) : List α → List (List α) → Prop
  | nil : Segmented must [] []
  | skip : Segmented must xs pieces → ¬ must x → Segmented must (xs ++ [x]) pieces
  | piece : Segmented must xs pieces → p ≠ [] → Segmented must (xs ++ p) (pieces ++ [p])

variable {must : α → Prop} {xs : List α} {pieces : List (List α)}

theorem Segmented.skips (h : Segmented must xs pieces) (hys : ∀ y ∈ ys, ¬ must y) :
    Segmented must (xs ++ ys) pieces := by
  induction ys generalizing xs with
  | nil => rwa [List.append_nil]
  | cons y ys ih =>
    rw [← List.singleton_append, ← List.append_assoc]
    exact ih (h.skip (hys y List.mem_cons_self)) fun z hz => hys z (List.mem_cons_of_mem y hz)

def slice (xs : List α) (span : Nat × Nat) : List α := (xs.take span.2).drop span.1

theorem slice_append_left (h : span.2 ≤ xs.length) (ys : List α) :
    slice (xs ++ ys) span = slice xs span := by
  rw [slice, List.take_append_of_le_length h, slice]

theorem slice_append_right (xs ys : List α) : slice (xs ++ ys) (xs.length, (xs ++ ys).length) = ys := by
  rw [slice, List.take_length, List.drop_left]

/-- None is empty, they are apart, and each element to be kept is in exactly one. -/
structure Spans (must : α → Prop) (xs : List α) (spans : List (Nat × Nat)) : Prop where
  inside : ∀ span ∈ spans, span.1 < span.2 ∧ span.2 ≤ xs.length
  apart : spans.Pairwise fun s t => s.2 ≤ t.1
  kept : ∀ (i : Nat) (x : α), xs[i]? = some x → must x →
    spans.countP (fun span => span.1 ≤ i && i < span.2) = 1

theorem Spans.outside {spans : List (Nat × Nat)} (h : Spans must xs spans)
    (hi : xs.length ≤ i) : spans.countP (fun span => span.1 ≤ i && i < span.2) = 0 := by
  rw [List.countP_eq_zero]
  intro span hspan
  have := (h.inside span hspan).2
  simp only [Bool.and_eq_true, decide_eq_true_eq]
  omega

theorem Spans.skip (h : Spans must xs spans) (hx : ¬ must x) :
    Spans must (xs ++ [x]) spans where
  inside span hspan := by
    have := h.inside span hspan
    rw [List.length_append]
    omega
  apart := h.apart
  kept i y hy hmust := by
    rw [List.getElem?_append] at hy
    split at hy
    · exact h.kept i y hy hmust
    · have hyx : y ∈ [x] := List.mem_of_getElem? hy
      rw [List.mem_singleton] at hyx
      exact absurd (hyx ▸ hmust) hx

theorem Spans.piece (h : Spans must xs spans) (hp : p ≠ []) :
    Spans must (xs ++ p) (spans ++ [(xs.length, (xs ++ p).length)]) where
  inside span hspan := by
    have hpos := List.length_pos_of_ne_nil hp
    rw [List.length_append]
    rcases List.mem_append.mp hspan with hspan | hspan
    · have := h.inside span hspan
      omega
    · rw [List.mem_singleton.mp hspan, List.length_append]
      dsimp only
      omega
  apart := by
    rw [List.pairwise_append]
    refine ⟨h.apart, List.pairwise_singleton _ _, ?_⟩
    intro span hspan last hlast
    rw [List.mem_singleton.mp hlast]
    exact (h.inside span hspan).2
  kept i x hx hmust := by
    rw [List.countP_append]
    by_cases hi : i < xs.length
    · rw [List.getElem?_append_left hi] at hx
      rw [h.kept i x hx hmust]
      simp [hi]
    · rw [h.outside (Nat.not_lt.mp hi)]
      have hlt : i < xs.length + p.length := by
        rw [← List.length_append]
        exact (List.getElem?_eq_some_iff.mp hx).1
      simp [Nat.not_lt.mp hi, hlt]

theorem Segmented.spans (h : Segmented must xs pieces) :
    ∃ spans, pieces = spans.map (slice xs) ∧ Spans must xs spans := by
  induction h with
  | nil => exact ⟨[], rfl, by simp, List.Pairwise.nil, by simp⟩
  | @skip xs _ x _ hx ih =>
    obtain ⟨spans, rfl, hspans⟩ := ih
    refine ⟨spans, ?_, hspans.skip hx⟩
    apply List.map_congr_left
    intro span hspan
    rw [slice_append_left (hspans.inside span hspan).2]
  | @piece xs _ p _ hp ih =>
    obtain ⟨spans, rfl, hspans⟩ := ih
    refine ⟨spans ++ [(xs.length, (xs ++ p).length)], ?_, hspans.piece hp⟩
    rw [List.map_append, List.map_singleton, slice_append_right]
    congr 1
    apply List.map_congr_left
    intro span hspan
    rw [slice_append_left (hspans.inside span hspan).2]

def Since (P : List α → α → Prop) (Q : α → Prop) (l : List α) : Prop :=
  ∃ pre a post, l = pre ++ a :: post ∧ P pre a ∧ ∀ b ∈ post, Q b

section

variable {P : List α → α → Prop} {Q : α → Prop} {l : List α} {a : α}

@[simp] theorem not_since_nil : ¬ Since P Q [] := by
  rintro ⟨pre, a, post, heq, -⟩
  simp at heq

theorem Since.now (h : P l a) : Since P Q (l ++ [a]) :=
  ⟨l, a, [], rfl, h, by simp⟩

theorem Since.keep (h : Since P Q l) (ha : Q a) : Since P Q (l ++ [a]) := by
  obtain ⟨pre, b, post, rfl, hP, hQ⟩ := h
  refine ⟨pre, b, post ++ [a], by simp, hP, ?_⟩
  rw [List.forall_mem_append, List.forall_mem_singleton]
  exact ⟨hQ, ha⟩

theorem since_concat : Since P Q (l ++ [a]) ↔ P l a ∨ (Since P Q l ∧ Q a) := by
  refine ⟨?_, Or.rec .now fun h => h.1.keep h.2⟩
  rintro ⟨pre, b, post, heq, hP, hQ⟩
  obtain rfl | ⟨post, c, rfl⟩ := List.eq_nil_or_concat' post
  · obtain ⟨rfl, hb⟩ := List.append_inj' heq rfl
    cases hb
    exact .inl hP
  · rw [List.forall_mem_append, List.forall_mem_singleton] at hQ
    have heq' : l ++ [a] = (pre ++ b :: post) ++ [c] := by simpa using heq
    obtain ⟨rfl, hc⟩ := List.append_inj' heq' rfl
    cases hc
    exact .inr ⟨⟨pre, b, post, rfl, hP, hQ.1⟩, hQ.2⟩

end

end StainedGlass.Lib
