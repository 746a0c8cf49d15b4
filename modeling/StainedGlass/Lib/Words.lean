import StainedGlass.Lib.Text

/-! The words of a text, as `str.split` cuts it at white space. -/

namespace StainedGlass.Lib

namespace Unicode

variable (u : Unicode)

def word (s : Str) : Str := (u.lstrip s).takeWhile fun c => !u.space c

def afterWord (s : Str) : Str := (u.lstrip s).dropWhile fun c => !u.space c

variable {u} {v y : Str} {c : Nat}

theorem takeWhile_word (hv : ∀ x ∈ v, u.space x = false) (hy : ∀ x ∈ y.head?, u.space x = true) :
    (v ++ y).takeWhile (fun x => !u.space x) = v := by
  rw [List.takeWhile_append_of_pos (by simpa using hv)]
  cases y with
  | nil => simp
  | cons x y => rw [List.takeWhile_cons_of_neg (by simp [hy x rfl]), List.append_nil]

theorem dropWhile_word (hv : ∀ x ∈ v, u.space x = false) (hy : ∀ x ∈ y.head?, u.space x = true) :
    (v ++ y).dropWhile (fun x => !u.space x) = y := by
  rw [List.dropWhile_append_of_pos (by simpa using hv)]
  cases y with
  | nil => rfl
  | cons x y => rw [List.dropWhile_cons_of_neg (by simp [hy x rfl])]

theorem lstrip_word (hne : v ≠ []) (hv : ∀ x ∈ v, u.space x = false) (y : Str) :
    u.lstrip (v ++ y) = v ++ y := by
  obtain ⟨x, v, rfl⟩ := List.exists_cons_of_ne_nil hne
  exact u.lstrip_cons (hv x List.mem_cons_self) _

theorem word_append (hne : v ≠ []) (hv : ∀ x ∈ v, u.space x = false)
    (hy : ∀ x ∈ y.head?, u.space x = true) : u.word (v ++ y) = v := by
  rw [word, lstrip_word hne hv, takeWhile_word hv hy]

theorem afterWord_append (hne : v ≠ []) (hv : ∀ x ∈ v, u.space x = false)
    (hy : ∀ x ∈ y.head?, u.space x = true) : u.afterWord (v ++ y) = y := by
  rw [afterWord, lstrip_word hne hv, dropWhile_word hv hy]

theorem strip_word (hne : v ≠ []) (hv : ∀ x ∈ v, u.space x = false) (hc : u.space c = true)
    (hy : ∀ x ∈ y.head?, u.space x = true) :
    ∃ z, u.strip (c :: (v ++ y)) = v ++ z ∧ ∀ x ∈ z.head?, u.space x = true := by
  have hlead : (c :: (v ++ y)).dropWhile u.space = v ++ y := by
    rw [List.dropWhile_cons_of_pos hc]
    exact lstrip_word hne hv y
  have hlast : v.reverse.dropWhile u.space = v.reverse := by
    obtain ⟨w, x, rfl⟩ := List.eq_nil_or_concat v |>.resolve_left hne
    simp [hv x (by simp)]
  refine ⟨y.rdropWhile u.space, ?_, ?_⟩
  · rw [strip, hlead, List.reverse_append, List.dropWhile_append, hlast]
    split
    · next hempty =>
      rw [List.rdropWhile, List.isEmpty_iff.mp hempty]
      simp
    · rw [List.reverse_append, List.reverse_reverse, List.rdropWhile]
  · obtain ⟨rest, hrest⟩ := List.rdropWhile_prefix u.space y
    intro x hx
    apply hy
    rw [← hrest, List.head?_append, hx]
    rfl

end Unicode

end StainedGlass.Lib
