import StainedGlass.Pdf.Redact

namespace StainedGlass.Pdf.Redact

variable {K : Type}

theorem mem_ite_singleton [Decidable c] (h : y ∈ if c then [x] else []) : y = x := by
  split at h
  · exact List.mem_singleton.mp h
  · exact absurd h List.not_mem_nil

theorem pairwise_ite_singleton [Decidable c] : (if c then [x] else []).Pairwise R := by
  split
  · exact List.pairwise_singleton _ _
  · exact .nil

section Rects

variable [LinearOrder K]

namespace Rect

def Has (r : Rect K) (q : Point K) : Prop := r.x0 ≤ q.x ∧ q.x ≤ r.x1 ∧ r.y0 ≤ q.y ∧ q.y ≤ r.y1

def HasInside (r : Rect K) (q : Point K) : Prop := r.x0 < q.x ∧ q.x < r.x1 ∧ r.y0 < q.y ∧ q.y < r.y1

def Apart (r s : Rect K) : Prop := ∀ q, r.HasInside q → ¬ s.HasInside q

theorem mem_around {p h s : Rect K} : s ∈ p.around h ↔
    p.y0 < h.y0 ∧ s = ⟨p.x0, p.y0, p.x1, h.y0⟩ ∨ h.y1 < p.y1 ∧ s = ⟨p.x0, h.y1, p.x1, p.y1⟩ ∨
    p.x0 < h.x0 ∧ s = ⟨p.x0, max p.y0 h.y0, h.x0, min p.y1 h.y1⟩ ∨
    h.x1 < p.x1 ∧ s = ⟨h.x1, max p.y0 h.y0, p.x1, min p.y1 h.y1⟩ := by
  simp only [around, List.mem_append, or_assoc, gt_iff_lt]
  refine or_congr ?_ (or_congr ?_ (or_congr ?_ ?_))
  all_goals split_ifs with hif <;> simp [hif]

variable {p h : Rect K} {q : Point K}

theorem has_around (hq : p.Has q) (hout : ¬ h.Has q) : ∃ s ∈ p.around h, s.Has q := by
  obtain ⟨hx0, hx1, hy0, hy1⟩ := hq
  by_cases htop : q.y < h.y0
  · exact ⟨_, mem_around.mpr (.inl ⟨hy0.trans_lt htop, rfl⟩), hx0, hx1, hy0, htop.le⟩
  by_cases hbottom : h.y1 < q.y
  · exact ⟨_, mem_around.mpr (.inr (.inl ⟨hbottom.trans_le hy1, rfl⟩)), hx0, hx1, hbottom.le, hy1⟩
  rw [not_lt] at htop hbottom
  have hlow : max p.y0 h.y0 ≤ q.y := max_le hy0 htop
  have hhigh : q.y ≤ min p.y1 h.y1 := le_min hy1 hbottom
  by_cases hleft : q.x < h.x0
  · exact ⟨_, mem_around.mpr (.inr (.inr (.inl ⟨hx0.trans_lt hleft, rfl⟩))), hx0, hleft.le, hlow, hhigh⟩
  rw [not_lt] at hleft
  have hright : h.x1 < q.x := not_le.mp fun hright => hout ⟨hleft, hright, htop, hbottom⟩
  exact ⟨_, mem_around.mpr (.inr (.inr (.inr ⟨hright.trans_le hx1, rfl⟩))), hright.le, hx1, hlow, hhigh⟩

variable [Field K]

theorem lt_of_intersects (hp : p.intersects h = true) :
    max p.x0 h.x0 < min p.x1 h.x1 ∧ max p.y0 h.y0 < min p.y1 h.y1 := by
  rw [intersects] at hp
  split at hp
  · cases hp
  · rw [Bool.not_eq_true', isEmpty, decide_eq_false_iff_not, not_or, not_le, not_le] at hp
    exact hp

theorem has_cut (hq : p.Has q) (hout : ¬ h.Has q) : ∃ s ∈ cut h p, s.Has q := by
  rw [cut]
  split
  · exact has_around hq hout
  · exact ⟨p, .head _, hq⟩

theorem hasInside_of_cut {p h s : Rect K} (hs : s ∈ cut h p) (hq : s.HasInside q) : p.HasInside q := by
  rw [cut] at hs
  split at hs
  · next hmeet =>
    obtain ⟨hx, hy⟩ := lt_of_intersects hmeet
    simp only [max_lt_iff, lt_min_iff] at hx hy
    obtain ⟨hx0, hx1, hy0, hy1⟩ := hq
    obtain ⟨-, rfl⟩ | ⟨-, rfl⟩ | ⟨-, rfl⟩ | ⟨-, rfl⟩ := mem_around.mp hs
    · exact ⟨hx0, hx1, hy0, hy1.trans hy.1.2⟩
    · exact ⟨hx0, hx1, hy.2.1.trans hy0, hy1⟩
    · exact ⟨hx0, hx1.trans hx.1.2, (max_lt_iff.mp hy0).1, (lt_min_iff.mp hy1).1⟩
    · exact ⟨hx.2.1.trans hx0, hx1, (max_lt_iff.mp hy0).1, (lt_min_iff.mp hy1).1⟩
  · rwa [List.mem_singleton.mp hs] at hq

theorem apart_around (hmeet : p.intersects h = true) : (p.around h).Pairwise Apart := by
  obtain ⟨hx, hy⟩ := lt_of_intersects hmeet
  simp only [max_lt_iff, lt_min_iff] at hx hy
  have htop {s t : Rect K} (hs : s.y1 = h.y0) (ht : h.y0 ≤ t.y0) : Apart s t := fun q hq hq' =>
    absurd (hs ▸ hq.2.2.2) (ht.trans hq'.2.2.1.le).not_gt
  have hbottom {s t : Rect K} (hs : s.y0 = h.y1) (ht : t.y1 ≤ h.y1) : Apart s t := fun q hq hq' =>
    absurd (hs ▸ hq.2.2.1) (hq'.2.2.2.le.trans ht).not_gt
  have hsides {s t : Rect K} (hs : s.x1 = h.x0) (ht : t.x0 = h.x1) : Apart s t := fun q hq hq' =>
    absurd (hs ▸ hq.2.1) ((hx.2.2.trans (ht ▸ hq'.1)).not_gt)
  simp only [around, List.pairwise_append, pairwise_ite_singleton, true_and, List.mem_append]
  refine ⟨⟨?_, ?_⟩, ?_⟩
  · intro s hs t ht
    rw [mem_ite_singleton hs, mem_ite_singleton ht]
    exact htop rfl hy.2.2.le
  · rintro s (hs | hs) t ht
    · rw [mem_ite_singleton hs, mem_ite_singleton ht]
      exact htop rfl (le_max_right _ _)
    · rw [mem_ite_singleton hs, mem_ite_singleton ht]
      exact hbottom rfl (min_le_right _ _)
  · rintro s ((hs | hs) | hs) t ht
    · rw [mem_ite_singleton hs, mem_ite_singleton ht]
      exact htop rfl (le_max_right _ _)
    · rw [mem_ite_singleton hs, mem_ite_singleton ht]
      exact hbottom rfl (min_le_right _ _)
    · rw [mem_ite_singleton hs, mem_ite_singleton ht]
      exact hsides rfl rfl

theorem apart_cut (h p : Rect K) : (cut h p).Pairwise Apart := by
  rw [cut]
  split
  · next hmeet => exact apart_around hmeet
  · exact List.pairwise_singleton _ _

end Rect

variable [Field K]

/-- What the loop over the holes has thrown away: the pieces that are no more than 0.01 wide or high. -/
def discarded (pieces : List (Rect K)) : List (Rect K) → List (Rect K)
  | [] => []
  | h :: holes =>
    (pieces.flatMap (Rect.cut h)).filter (fun p => !p.isLarge) ++ discarded (takeOut pieces h) holes

theorem apart_takeOut {pieces : List (Rect K)} (hpieces : pieces.Pairwise Rect.Apart) (h : Rect K) :
    (takeOut pieces h).Pairwise Rect.Apart := by
  refine List.Pairwise.filter _ (List.pairwise_flatMap.mpr ⟨fun p _ => Rect.apart_cut h p, ?_⟩)
  refine hpieces.imp fun hapart s hs t ht q hq hq' => ?_
  exact hapart q (Rect.hasInside_of_cut hs hq) (Rect.hasInside_of_cut ht hq')

theorem apart_rectMinus (r : Rect K) (holes : List (Rect K)) : (rectMinus r holes).Pairwise Rect.Apart := by
  have hrun (pieces : List (Rect K)) (hpieces : pieces.Pairwise Rect.Apart) :
      (holes.foldl takeOut pieces).Pairwise Rect.Apart := by
    induction holes generalizing pieces with
    | nil => exact hpieces
    | cons h holes ih => exact ih _ (apart_takeOut hpieces h)
  exact hrun [r] (List.pairwise_singleton _ _)

theorem has_foldl_takeOut {pieces holes : List (Rect K)} (hq : ∃ p ∈ pieces, p.Has q) (hout : ∀ h ∈ holes, ¬ h.Has q) :
    ∃ p ∈ holes.foldl takeOut pieces ++ discarded pieces holes, p.Has q := by
  induction holes generalizing pieces with
  | nil =>
    obtain ⟨p, hp, hq⟩ := hq
    exact ⟨p, List.mem_append_left _ hp, hq⟩
  | cons h holes ih =>
    obtain ⟨p, hp, hq⟩ := hq
    obtain ⟨s, hs, hq⟩ := Rect.has_cut hq (hout h (.head _))
    have hmem := List.mem_flatMap.mpr ⟨p, hp, hs⟩
    cases hlarge : s.isLarge with
    | false =>
      refine ⟨s, List.mem_append_right _ (List.mem_append_left _ ?_), hq⟩
      exact List.mem_filter.mpr ⟨hmem, by rw [hlarge]; rfl⟩
    | true =>
      have hnext : ∃ p ∈ takeOut pieces h, p.Has q := ⟨s, List.mem_filter.mpr ⟨hmem, hlarge⟩, hq⟩
      obtain ⟨p', hp', hq'⟩ := ih hnext fun h hh => hout h (.tail _ hh)
      refine ⟨p', ?_, hq'⟩
      rw [discarded, List.foldl_cons, List.mem_append, List.mem_append]
      exact (List.mem_append.mp hp').imp_right .inr

theorem not_large_of_discarded {s : Rect K} (hs : s ∈ discarded pieces holes) :
    s.width ≤ 1 / 100 ∨ s.height ≤ 1 / 100 := by
  induction holes generalizing pieces with
  | nil => exact absurd hs List.not_mem_nil
  | cons h holes ih =>
    obtain hs | hs := List.mem_append.mp hs
    · have hsmall := (List.mem_filter.mp hs).2
      rw [Bool.not_eq_true', Rect.isLarge, Bool.and_eq_false_iff, decide_eq_false_iff_not,
        decide_eq_false_iff_not, gt_iff_lt, gt_iff_lt, not_lt, not_lt] at hsmall
      exact hsmall
    · exact ih hs

end Rects

section Split

variable [LinearOrder K]

def Within (i : K × K) (t : K) : Prop := i.1 ≤ t ∧ t ≤ i.2

def Before (i j : K × K) : Prop := i.2 ≤ j.1


variable {t0 t1 : K} {i j : K × K}

theorem mem_split (h : j ∈ split t0 t1 i) :
    j = i ∨ i.1 < t0 ∧ t0 < i.2 ∧ j = (i.1, t0) ∨ i.1 < t1 ∧ t1 < i.2 ∧ j = (t1, i.2) := by
  rw [split] at h
  split at h
  · exact .inl (List.mem_singleton.mp h)
  · next hmeet =>
    rw [not_or, not_le, ge_iff_le, not_le] at hmeet
    obtain h | h := List.mem_append.mp h
    · split at h
      · next hlow => exact .inr (.inl ⟨hlow, hmeet.1, List.mem_singleton.mp h⟩)
      · exact absurd h List.not_mem_nil
    · split at h
      · next hhigh => exact .inr (.inr ⟨hmeet.2, hhigh, List.mem_singleton.mp h⟩)
      · exact absurd h List.not_mem_nil

theorem before_split (ht : t0 < t1) (i : K × K) : (split t0 t1 i).Pairwise Before := by
  rw [split]
  split
  · exact List.pairwise_singleton _ _
  · refine List.pairwise_append.mpr ⟨pairwise_ite_singleton, pairwise_ite_singleton, fun j hj j' hj' => ?_⟩
    rw [mem_ite_singleton hj, mem_ite_singleton hj']
    exact ht.le

theorem le_split (h : j ∈ split t0 t1 i) : i.1 ≤ j.1 ∧ j.2 ≤ i.2 := by
  obtain rfl | ⟨-, hlow, rfl⟩ | ⟨hhigh, -, rfl⟩ := mem_split h
  · exact ⟨le_rfl, le_rfl⟩
  · exact ⟨le_rfl, hlow.le⟩
  · exact ⟨hhigh.le, le_rfl⟩

theorem lt_split (hi : i.1 < i.2) (h : j ∈ split t0 t1 i) : j.1 < j.2 := by
  obtain rfl | ⟨hlow, -, rfl⟩ | ⟨-, hhigh, rfl⟩ := mem_split h
  · exact hi
  · exact hlow
  · exact hhigh

theorem within_split (hi : Within i x) (hx : x < t0 ∨ t1 < x) : ∃ j ∈ split t0 t1 i, Within j x := by
  rw [split]
  split
  · exact ⟨i, .head _, hi⟩
  · obtain hx | hx := hx
    · rw [if_pos (hi.1.trans_lt hx)]
      exact ⟨(i.1, t0), .head _, hi.1, hx.le⟩
    · rw [if_pos (hx.trans_le hi.2)]
      exact ⟨(t1, i.2), List.mem_append_right _ (.head _), hx.le, hi.2⟩

end Split

section Segments

variable [Field K] [LinearOrder K] [IsStrictOrderedRing K]

def Part (i : K × K) : Prop := 0 ≤ i.1 ∧ i.1 < i.2 ∧ i.2 ≤ 1

theorem le_of_clip {known t : K × K} {c : K × K} (hc : c.1 = 0 ∨ 1 / 10 ^ 12 ≤ |c.1|) (h : clip known c = some t) :
    known.1 ≤ t.1 ∧ t.2 ≤ known.2 ∧ ∀ x, t.1 ≤ x → x ≤ t.2 → c.1 * x ≤ c.2 := by
  rw [clip] at h
  split at h
  · next hsmall =>
    have hzero : c.1 = 0 := hc.resolve_right hsmall.not_ge
    split at h
    · cases h
    · next hc2 =>
      cases h
      refine ⟨le_rfl, le_rfl, fun x _ _ => ?_⟩
      rw [hzero, zero_mul]
      exact not_lt.mp hc2
  · next hlarge =>
    split at h
    · next hneg =>
      cases h
      refine ⟨le_max_left _ _, le_rfl, fun x hx _ => ?_⟩
      have hx : c.2 / c.1 ≤ x := (le_max_right _ _).trans hx
      rw [div_le_iff_of_neg hneg] at hx
      rwa [mul_comm]
    · next hneg =>
      cases h
      have hpos : 0 < c.1 := by
        refine lt_of_le_of_ne (not_lt.mp hneg) fun hzero => hlarge ?_
        rw [← hzero, abs_zero]
        positivity
      refine ⟨le_rfl, min_le_left _ _, fun x _ hx => ?_⟩
      have hx : x ≤ c.2 / c.1 := hx.trans (min_le_right _ _)
      rw [le_div_iff₀ hpos] at hx
      rwa [mul_comm]

theorem le_of_foldlM_clip {cs : List (K × K)} {known t : K × K}
    (hcs : ∀ c ∈ cs, c.1 = 0 ∨ 1 / 10 ^ 12 ≤ |c.1|) (h : cs.foldlM clip known = some t) :
    known.1 ≤ t.1 ∧ t.2 ≤ known.2 ∧ ∀ c ∈ cs, ∀ x, t.1 ≤ x → x ≤ t.2 → c.1 * x ≤ c.2 := by
  induction cs generalizing known with
  | nil =>
    cases h
    exact ⟨le_rfl, le_rfl, fun c hc => absurd hc List.not_mem_nil⟩
  | cons c cs ih =>
    rw [List.foldlM_cons] at h
    obtain ⟨next, hnext, h⟩ := Option.bind_eq_some_iff.mp h
    obtain ⟨hlow, hhigh, hclip⟩ := le_of_clip (hcs c (.head _)) hnext
    obtain ⟨hlow', hhigh', hrest⟩ := ih (fun c hc => hcs c (.tail _ hc)) h
    refine ⟨hlow.trans hlow', hhigh'.trans hhigh, ?_⟩
    rw [List.forall_mem_cons]
    exact ⟨fun x hx hx' => hclip x (hlow'.trans hx) (hx'.trans hhigh'), hrest⟩

/-- Neither side of the segment is so small that it is taken for none without being none. -/
structure Sized (a b : Point K) : Prop where
  x : b.x - a.x = 0 ∨ 1 / 10 ^ 12 ≤ |b.x - a.x|
  y : b.y - a.y = 0 ∨ 1 / 10 ^ 12 ≤ |b.y - a.y|

variable {a b : Point K}

omit [IsStrictOrderedRing K] in
theorem Sized.sides (hab : Sized a b) (h : Rect K) : ∀ c ∈ sides a b h, c.1 = 0 ∨ 1 / 10 ^ 12 ≤ |c.1| := by
  simp only [Redact.sides, List.forall_mem_cons, neg_eq_zero, abs_neg]
  exact ⟨hab.x, hab.x, hab.y, hab.y, fun c hc => absurd hc List.not_mem_nil⟩

theorem has_of_inside (hab : Sized a b) {h : Rect K} {t : K × K} (ht : inside a b h = some t) :
    0 ≤ t.1 ∧ t.2 ≤ 1 ∧ ∀ x, t.1 ≤ x → x ≤ t.2 → h.Has (along a b x) := by
  obtain ⟨hlow, hhigh, hsides⟩ := le_of_foldlM_clip (hab.sides h) ht
  refine ⟨hlow, hhigh, fun x hx hx' => ?_⟩
  simp only [sides, List.forall_mem_cons] at hsides
  obtain ⟨hx0, hx1, hy0, hy1, -⟩ := hsides
  have hx0 := hx0 x hx hx'
  have hx1 := hx1 x hx hx'
  have hy0 := hy0 x hx hx'
  have hy1 := hy1 x hx hx'
  refine ⟨?_, ?_, ?_, ?_⟩ <;> rw [along] <;> linarith

structure Parts (keep : List (K × K)) : Prop where
  part : ∀ i ∈ keep, Part i
  before : keep.Pairwise Before

omit [IsStrictOrderedRing K] in
theorem Parts.keepOutside (hkeep : Parts keep) (a b : Point K) (h : Rect K) : Parts (keepOutside a b keep h) := by
  rw [Redact.keepOutside]
  split
  · exact hkeep
  · next t0 t1 _ =>
    split
    · exact hkeep
    · next ht =>
      rw [ge_iff_le, not_le] at ht
      constructor
      · intro j hj
        obtain ⟨i, hi, hj⟩ := List.mem_flatMap.mp hj
        obtain ⟨hlow, hne, hhigh⟩ := hkeep.part i hi
        exact ⟨hlow.trans (le_split hj).1, lt_split hne hj, (le_split hj).2.trans hhigh⟩
      · refine List.pairwise_flatMap.mpr ⟨fun i _ => before_split ht i, ?_⟩
        refine hkeep.before.imp fun hbefore j hj j' hj' => ?_
        exact (le_split hj).2.trans (hbefore.trans (le_split hj').1)

theorem within_keepOutside (hab : Sized a b) {h : Rect K} (ht : ∃ i ∈ keep, Within i t) (hout : ¬ h.Has (along a b t)) :
    ∃ i ∈ keepOutside a b keep h, Within i t := by
  rw [keepOutside]
  split
  · exact ht
  · next t0 t1 hinside =>
    split
    · exact ht
    · obtain ⟨i, hi, hit⟩ := ht
      have hbeside : t < t0 ∨ t1 < t := by
        by_contra hboth
        rw [not_or, not_lt, not_lt] at hboth
        exact hout ((has_of_inside hab hinside).2.2 t hboth.1 hboth.2)
      obtain ⟨j, hj, hjt⟩ := within_split hit hbeside
      exact ⟨j, List.mem_flatMap.mpr ⟨i, hi, hj⟩, hjt⟩

theorem parts_kept (a b : Point K) (holes : List (Rect K)) : Parts (kept a b holes) := by
  have hrun (keep : List (K × K)) (hkeep : Parts keep) : Parts (holes.foldl (keepOutside a b) keep) := by
    induction holes generalizing keep with
    | nil => exact hkeep
    | cons h holes ih => exact ih _ (hkeep.keepOutside a b h)
  refine hrun [(0, 1)] ⟨fun i hi => ?_, List.pairwise_singleton _ _⟩
  rw [List.mem_singleton.mp hi]
  exact ⟨le_rfl, zero_lt_one, le_rfl⟩

theorem within_kept (hab : Sized a b) (h0 : 0 ≤ t) (h1 : t ≤ 1)
    (hout : ∀ h ∈ holes, ¬ h.Has (along a b t)) : ∃ i ∈ kept a b holes, Within i t := by
  have hrun (keep : List (K × K)) (hkeep : ∃ i ∈ keep, Within i t) :
      ∃ i ∈ holes.foldl (keepOutside a b) keep, Within i t := by
    induction holes generalizing keep with
    | nil => exact hkeep
    | cons h holes ih =>
      exact ih (fun h hh => hout h (.tail _ hh)) _ (within_keepOutside hab hkeep (hout h (.head _)))
  exact hrun [(0, 1)] ⟨(0, 1), .head _, h0, h1⟩

/-- Two parts have no point in common but the end of the one and the beginning of the other. -/
def MeetAtEnds (a b : Point K) (i j : K × K) : Prop :=
  ∀ t t', Within i t → Within j t' → along a b t = along a b t' → t = i.2 ∧ t' = j.1

theorem along_inj (hi : isLong a b i = true) (h : along a b t = along a b t') : t = t' := by
  rw [along, along, Point.mk.injEq, add_right_inj, add_right_inj] at h
  by_contra hne
  have hx : b.x - a.x = 0 := by
    by_contra hx
    exact hne (mul_left_cancel₀ hx h.1)
  have hy : b.y - a.y = 0 := by
    by_contra hy
    exact hne (mul_left_cancel₀ hy h.2)
  have hlong : (1 / 20 : K) ^ 2 < 0 := by simpa [isLong, hx, hy] using hi
  exact absurd hlong (sq_nonneg _).not_gt

theorem meetAtEnds_of_before (hi : isLong a b i = true) (h : Before i j) : MeetAtEnds a b i j := by
  intro t t' ht ht' heq
  obtain rfl := along_inj hi heq
  exact ⟨le_antisymm ht.2 (h.trans ht'.1), le_antisymm (ht.2.trans h) ht'.1⟩

theorem isLong_iff {a b : Point ℝ} {i : ℝ × ℝ} (hi : i.1 ≤ i.2) :
    isLong a b i = true ↔ (i.2 - i.1) * √((b.x - a.x) ^ 2 + (b.y - a.y) ^ 2) > 1 / 20 := by
  have hlength : 0 ≤ (i.2 - i.1) * √((b.x - a.x) ^ 2 + (b.y - a.y) ^ 2) :=
    mul_nonneg (sub_nonneg.mpr hi) (Real.sqrt_nonneg _)
  rw [isLong, decide_eq_true_eq, gt_iff_lt, gt_iff_lt, ← pow_lt_pow_iff_left₀ (by positivity) hlength two_ne_zero,
    mul_pow, Real.sq_sqrt (by positivity)]

end Segments

/-- No more than the holes is taken out, but for narrow strips; what is left does not overlap. -/
theorem minus_keeps [Field K] [LinearOrder K] [IsStrictOrderedRing K] (r : Rect K) (holes : List (Rect K))
    (a b : Point K) :
    ((rectMinus r holes).Pairwise Rect.Apart ∧
      (∀ q, r.Has q → (∀ h ∈ holes, ¬ h.Has q) → ∃ p ∈ rectMinus r holes ++ discarded [r] holes, p.Has q) ∧
      ∀ s ∈ discarded [r] holes, s.width ≤ 1 / 100 ∨ s.height ≤ 1 / 100) ∧
    (Sized a b → ∃ parts : List (K × K),
      segmentMinus a b holes = parts.map (fun i => (along a b i.1, along a b i.2)) ∧
      Parts parts ∧ parts.Pairwise (MeetAtEnds a b) ∧
      ∀ t, 0 ≤ t → t ≤ 1 → (∀ h ∈ holes, ¬ h.Has (along a b t)) →
        (∃ i ∈ parts, Within i t) ∨ ∃ i ∈ kept a b holes, Within i t ∧ isLong a b i = false) := by
  refine ⟨⟨apart_rectMinus r holes, fun q hq hout => ?_, fun s => not_large_of_discarded⟩, fun hab => ?_⟩
  · exact has_foldl_takeOut ⟨r, .head _, hq⟩ hout
  · have hkept := parts_kept a b holes
    refine ⟨(kept a b holes).filter (isLong a b), rfl, ⟨fun i hi => ?_, hkept.before.filter _⟩, ?_, ?_⟩
    · exact hkept.part i (List.mem_filter.mp hi).1
    · refine List.Pairwise.imp_of_mem (fun hi _ hbefore => ?_) (hkept.before.filter _)
      exact meetAtEnds_of_before (List.mem_filter.mp hi).2 hbefore
    · intro t h0 h1 hout
      obtain ⟨i, hi, hit⟩ := within_kept hab h0 h1 hout
      cases hlong : isLong a b i with
      | true => exact .inl ⟨i, List.mem_filter.mpr ⟨hi, hlong⟩, hit⟩
      | false => exact .inr ⟨i, hi, hit, hlong⟩

theorem minus_keeps_square :
    (∃ p ∈ rectMinus (⟨0, 0, 10, 10⟩ : Rect ℚ) [⟨2, 2, 4, 4⟩] ++ discarded [⟨0, 0, 10, 10⟩] [⟨2, 2, 4, 4⟩],
      p.Has ⟨10, 10⟩) ∧
    Sized (⟨0, 3⟩ : Point ℚ) ⟨10, 3⟩ ∧ ∃ parts : List (ℚ × ℚ),
      segmentMinus ⟨0, 3⟩ ⟨10, 3⟩ [⟨2, 2, 4, 4⟩] = parts.map (fun i => (along ⟨0, 3⟩ ⟨10, 3⟩ i.1, along ⟨0, 3⟩ ⟨10, 3⟩ i.2)) ∧
      ((∃ i ∈ parts, Within i (1 / 2)) ∨
        ∃ i ∈ kept ⟨0, 3⟩ ⟨10, 3⟩ [⟨2, 2, 4, 4⟩], Within i (1 / 2) ∧ isLong (⟨0, 3⟩ : Point ℚ) ⟨10, 3⟩ i = false) := by
  have hsized : Sized (⟨0, 3⟩ : Point ℚ) ⟨10, 3⟩ := ⟨.inr (by norm_num), .inl (by norm_num)⟩
  obtain ⟨⟨-, hrect, -⟩, hsegment⟩ :=
    minus_keeps (⟨0, 0, 10, 10⟩ : Rect ℚ) [⟨2, 2, 4, 4⟩] ⟨0, 3⟩ ⟨10, 3⟩
  obtain ⟨parts, hparts, -, -, hkept⟩ := hsegment hsized
  refine ⟨hrect ⟨10, 10⟩ ?_ ?_, hsized, parts, hparts, hkept (1 / 2) (by norm_num) (by norm_num) ?_⟩
  · norm_num [Rect.Has]
  · norm_num [Rect.Has]
  · norm_num [Rect.Has, along]

end StainedGlass.Pdf.Redact
