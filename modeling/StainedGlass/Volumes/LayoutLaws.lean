import StainedGlass.Volumes.Layout

namespace StainedGlass.Volumes

variable {d : Disk} {items : List Item} {g : Gap} {pos stop a b : Nat}

def Unallocated (d : Disk) (a b : Nat) : Prop :=
  mib ≤ a ∧ b ≤ d.tailEnd ∧ ∀ it ∈ d.parts, it.end ≤ a ∨ b ≤ it.start

def firstFree (pos : Nat) : Nat := if pos = 0 then lead else pos

theorem mem_gapUpTo (h : g ∈ gapUpTo pos stop) :
    g.1 = firstFree pos ∧ g.1 + g.2 = stop ∧ pos + 2 * lead ≤ stop := by
  rw [gapUpTo] at h
  split at h
  · next hroom =>
    cases List.mem_singleton.mp h
    refine ⟨rfl, ?_, hroom⟩
    dsimp only
    split <;> omega
  · cases h

theorem gapUpTo_large (h : g ∈ gapUpTo pos stop) : mib ≤ g.2 := by
  obtain ⟨hfirst, hstop, hroom⟩ := mem_gapUpTo h
  change pos + 2 * mib ≤ stop at hroom
  have hle : firstFree pos ≤ pos + mib := by
    rw [firstFree]
    split
    · exact Nat.le_add_left _ _
    · exact Nat.le_add_right _ _
  omega

theorem gapUpTo_covers (hpos : pos ≤ a) (ha : mib ≤ a) (hb : b ≤ stop) (hlarge : a + 2 * mib ≤ b) :
    ∃ g ∈ gapUpTo pos stop, g.1 ≤ a ∧ b ≤ g.1 + g.2 := by
  have hroom : pos + 2 * lead ≤ stop := by
    change pos + 2 * mib ≤ stop
    omega
  rw [gapUpTo, if_pos hroom]
  refine ⟨_, List.mem_singleton_self _, ?_, ?_⟩
  · dsimp only
    split
    · exact ha
    · exact hpos
  · dsimp only
    split <;> omega

theorem firstFree_pos (pos : Nat) : 0 < firstFree pos := by
  rw [firstFree]
  split
  · norm_num [lead, mib]
  · omega

theorem le_firstFree (pos : Nat) : pos ≤ firstFree pos := by
  rw [firstFree]
  split <;> omega

theorem sweep_cons (pos : Nat) (it : Item) (items : List Item) :
    sweep pos (it :: items) =
      (gapUpTo pos it.start ++ (sweep (max pos it.end) items).1, (sweep (max pos it.end) items).2) := by
  rw [sweep]

theorem le_sweep (items : List Item) (pos : Nat) : pos ≤ (sweep pos items).2 := by
  induction items generalizing pos with
  | nil => rw [sweep]
  | cons it items ih =>
    rw [sweep_cons]
    exact (le_max_left _ _).trans (ih _)

theorem end_le_sweep (it : Item) (h : it ∈ items) (pos : Nat) : it.end ≤ (sweep pos items).2 := by
  induction items generalizing pos with
  | nil => cases h
  | cons other items ih =>
    rw [sweep_cons]
    rcases List.mem_cons.mp h with rfl | h
    · exact (le_max_right _ _).trans (le_sweep items _)
    · exact ih h _

theorem sweep_free (hsorted : items.Pairwise fun x y => x.start ≤ y.start) (h : g ∈ (sweep pos items).1) :
    0 < g.1 ∧ pos ≤ g.1 ∧ (∀ it ∈ items, it.end ≤ g.1 ∨ g.1 + g.2 ≤ it.start) ∧
      ∃ it ∈ items, it.start = g.1 + g.2 := by
  induction items generalizing pos with
  | nil => cases h
  | cons other items ih =>
    rw [List.pairwise_cons] at hsorted
    rw [sweep_cons] at h
    rcases List.mem_append.mp h with h | h
    · obtain ⟨hfirst, hstop, -⟩ := mem_gapUpTo h
      refine ⟨hfirst ▸ firstFree_pos pos, hfirst ▸ le_firstFree pos, ?_, other, List.mem_cons_self, hstop.symm⟩
      intro it hit
      right
      rcases List.mem_cons.mp hit with rfl | hit
      · exact hstop.le
      · exact hstop.le.trans (hsorted.1 it hit)
    · obtain ⟨hpositive, hmax, hfree, it, hit, hstop⟩ := ih hsorted.2 h
      refine ⟨hpositive, (le_max_left _ _).trans hmax, ?_, it, List.mem_cons_of_mem _ hit, hstop⟩
      intro it hit
      rcases List.mem_cons.mp hit with rfl | hit
      · exact .inl ((le_max_right _ _).trans hmax)
      · exact hfree it hit

theorem sweep_covers (hpos : pos ≤ a) (ha : mib ≤ a) (hlarge : a + 2 * mib ≤ b)
    (hfree : ∀ it ∈ items, it.end ≤ a ∨ b ≤ it.start) :
    (∃ g ∈ (sweep pos items).1, g.1 ≤ a ∧ b ≤ g.1 + g.2) ∨ (sweep pos items).2 ≤ a := by
  induction items generalizing pos with
  | nil => exact .inr hpos
  | cons it items ih =>
    rw [List.forall_mem_cons] at hfree
    rw [sweep_cons]
    rcases hfree.1 with hbefore | hbehind
    · rcases ih (max_le hpos hbefore) hfree.2 with ⟨g, hg, hin⟩ | hlast
      · exact .inl ⟨g, List.mem_append_right _ hg, hin⟩
      · exact .inr hlast
    · obtain ⟨g, hg, hin⟩ := gapUpTo_covers hpos ha hbehind hlarge
      exact .inl ⟨g, List.mem_append_left _ hg, hin⟩

theorem mem_items (d : Disk) {it : Item} : it ∈ d.items ↔ it ∈ d.parts := List.mem_insertionSort byStart

instance : Std.Total byStart := ⟨fun a b => Nat.le_total a.start b.start⟩

instance : IsTrans Item byStart := ⟨fun _ _ _ => Nat.le_trans⟩

theorem sorted_items (d : Disk) : d.items.Pairwise fun x y => x.start ≤ y.start :=
  List.pairwise_insertionSort byStart d.parts

theorem sweep_large (h : g ∈ (sweep pos items).1) : mib ≤ g.2 := by
  induction items generalizing pos with
  | nil => cases h
  | cons it items ih =>
    rw [sweep_cons] at h
    rcases List.mem_append.mp h with h | h
    · exact gapUpTo_large h
    · exact ih h

theorem gaps_large (h : g ∈ d.gaps) : mib ≤ g.2 := by
  rw [Disk.gaps] at h
  split at h
  · cases h
  · rcases List.mem_append.mp h with h | h
    · exact sweep_large h
    · exact gapUpTo_large h

theorem gaps_free (h : g ∈ d.gaps) :
    0 < g.1 ∧ (∀ it ∈ d.parts, it.end ≤ g.1 ∨ g.1 + g.2 ≤ it.start) ∧
      (g.1 + g.2 = d.tailEnd ∨ ∃ it ∈ d.parts, it.start = g.1 + g.2) := by
  rw [Disk.gaps] at h
  split at h
  · cases h
  · rcases List.mem_append.mp h with h | h
    · obtain ⟨hpositive, -, hfree, it, hit, hstop⟩ := sweep_free (sorted_items d) h
      refine ⟨hpositive, fun it hit => hfree it ((mem_items d).mpr hit), .inr ?_⟩
      exact ⟨it, (mem_items d).mp hit, hstop⟩
    · obtain ⟨hfirst, hstop, -⟩ := mem_gapUpTo h
      refine ⟨hfirst ▸ firstFree_pos _, fun it hit => .inl ?_, .inl hstop⟩
      rw [hfirst]
      exact (end_le_sweep it ((mem_items d).mpr hit) 0).trans (le_firstFree _)

theorem gaps_cover (hgaps : d.gaps ≠ []) (hlarge : a + 2 * mib ≤ b) (h : Unallocated d a b) :
    ∃ g ∈ d.gaps, g.1 ≤ a ∧ b ≤ g.1 + g.2 := by
  obtain ⟨ha, hb, hfree⟩ := h
  rw [Disk.gaps] at hgaps ⊢
  split at hgaps
  · exact absurd rfl hgaps
  · next hdisk =>
    rw [if_neg hdisk]
    rcases sweep_covers (Nat.zero_le a) ha hlarge fun it hit => hfree it ((mem_items d).mp hit) with
      ⟨g, hg, hin⟩ | hlast
    · exact ⟨g, List.mem_append_left _ hg, hin⟩
    · obtain ⟨g, hg, hin⟩ := gapUpTo_covers hlast ha hb hlarge
      exact ⟨g, List.mem_append_right _ hg, hin⟩

theorem unallocated_iff (hgaps : d.gaps ≠ []) (ha : mib ≤ a) (hlarge : a + 2 * mib ≤ b) :
    Unallocated d a b ↔ b ≤ d.tailEnd ∧ ∃ g ∈ d.gaps, g.1 ≤ a ∧ b ≤ g.1 + g.2 := by
  constructor
  · intro h
    exact ⟨h.2.1, gaps_cover hgaps hlarge h⟩
  · rintro ⟨hb, g, hg, hga, hgb⟩
    refine ⟨ha, hb, fun it hit => ?_⟩
    rcases (gaps_free hg).2.1 it hit with h | h
    · exact .inl (h.trans hga)
    · exact .inr (hgb.trans h)

theorem unallocated_in_gap (hg : g ∈ d.gaps) (ha : mib ≤ a) (hga : g.1 ≤ a) (hin : a < g.1 + g.2) :
    Unallocated d a b ↔ b ≤ d.tailEnd ∧ b ≤ g.1 + g.2 := by
  obtain ⟨-, hfree, hstop⟩ := gaps_free hg
  constructor
  · rintro ⟨-, hb, hparts⟩
    refine ⟨hb, ?_⟩
    rcases hstop with hstop | ⟨it, hit, hstop⟩
    · rwa [hstop]
    · rcases hparts it hit with h | h
      · have : it.start ≤ it.end := Nat.le_add_right _ _
        omega
      · exact h.trans hstop.le
  · rintro ⟨hb, hgb⟩
    refine ⟨ha, hb, fun it hit => ?_⟩
    rcases hfree it hit with h | h
    · exact .inl (h.trans hga)
    · exact .inr (hgb.trans h)

end StainedGlass.Volumes
