import StainedGlass.Setup.FreeSpace

namespace StainedGlass.Setup

open Lib

section Sweep

variable {align min last pos s e a n x : Int} {r : Region} {es : List (Int × Int)}

theorem roundUp_spec (halign : 0 < align) (hs : 0 ≤ s) :
    align ∣ (s + align - 1).tdiv align * align ∧ s ≤ (s + align - 1).tdiv align * align ∧
      ∀ a, align ∣ a → s ≤ a → (s + align - 1).tdiv align * align ≤ a := by
  rw [Int.tdiv_eq_ediv_of_nonneg (by omega)]
  have hdiv := Int.emod_add_mul_ediv (s + align - 1) align
  have hpos := Int.emod_nonneg (s + align - 1) halign.ne'
  have hlt := Int.emod_lt_of_pos (s + align - 1) halign
  rw [mul_comm] at hdiv
  refine ⟨Dvd.intro_left _ rfl, by omega, ?_⟩
  rintro a ⟨k, rfl⟩ hle
  have hk : (s + align - 1) / align < k + 1 := by
    rw [Int.ediv_lt_iff_lt_mul halign, add_mul, mul_comm k]
    omega
  rw [mul_comm align]
  exact mul_le_mul_of_nonneg_right (by omega) halign.le

theorem roundDown_spec (halign : 0 < align) (hpos : 0 < x.tdiv align * align) :
    x.tdiv align * align ≤ x := by
  have hx : 0 ≤ x := by
    by_contra hneg
    have hneg' : 0 ≤ (-x).tdiv align * align :=
      mul_nonneg (Int.tdiv_nonneg (by omega) halign.le) halign.le
    rw [Int.neg_tdiv, neg_mul] at hneg'
    omega
  rw [Int.tdiv_eq_ediv_of_nonneg hx]
  exact Int.ediv_mul_le x halign.ne'

theorem le_roundDown (halign : 0 < align) (hn : 0 ≤ n) (hdvd : align ∣ n) (hle : n ≤ x) :
    n ≤ x.tdiv align * align := by
  rw [Int.tdiv_eq_ediv_of_nonneg (hn.trans hle)]
  obtain ⟨k, rfl⟩ := hdvd
  rw [mul_comm align]
  exact mul_le_mul_of_nonneg_right ((Int.le_ediv_iff_mul_le halign).mpr (by rwa [mul_comm])) halign.le

structure Aligned (align min : Int) (r : Region) : Prop where
  start : align ∣ r.start
  sectors : align ∣ r.sectors
  large : min ≤ r.sectors

theorem mem_emit (halign : 0 < align) (hmin : 0 < min) (hs : 0 ≤ s) (h : r ∈ emit align min s e) :
    Aligned align min r ∧ s ≤ r.start ∧ r.stop ≤ e + 1 := by
  simp only [emit] at h
  split at h
  · next hlarge =>
    cases List.mem_singleton.mp h
    obtain ⟨hdvd, hle, -⟩ := roundUp_spec halign hs
    have hround := roundDown_spec halign (lt_of_lt_of_le hmin hlarge)
    refine ⟨⟨hdvd, Dvd.intro_left _ rfl, hlarge⟩, hle, ?_⟩
    simp only [Region.stop]
    omega
  · cases h

theorem emit_covers (halign : 0 < align) (hmin : 0 < min) (hs : 0 ≤ s) (hrun : Aligned align min ⟨a, n⟩)
    (hsa : s ≤ a) (hae : a + n ≤ e + 1) : ∃ r ∈ emit align min s e, r.start ≤ a ∧ a + n ≤ r.stop := by
  obtain ⟨hdvd, -, hleast⟩ := roundUp_spec halign hs
  have hle := hleast a hrun.start hsa
  have hlarge := hrun.large
  have hround : a + n - (s + align - 1).tdiv align * align ≤
      (e - (s + align - 1).tdiv align * align + 1).tdiv align * align := by
    apply le_roundDown halign
    · simp only at hlarge
      omega
    · exact (hrun.start.add hrun.sectors).sub hdvd
    · omega
  simp only at hlarge
  rw [emit, if_pos (by omega)]
  refine ⟨_, List.mem_singleton_self _, hle, ?_⟩
  simp only [Region.stop]
  omega

def Apart (p : Int × Int) (a b : Int) : Prop := p.1 + p.2 ≤ a ∨ b ≤ p.1

theorem sweepFrom_cons (start size : Int) (es : List (Int × Int)) :
    sweepFrom align min last pos ((start, size) :: es) =
      (if pos < start then emit align min pos (start - 1) else []) ++
        sweepFrom align min last (max pos (start + size)) es := by
  rw [sweepFrom]
  congr 2
  split <;> omega

theorem mem_sweepFrom (halign : 0 < align) (hmin : 0 < min) (hpos : 0 ≤ pos)
    (hsorted : es.Pairwise fun p q => p.1 ≤ q.1) (h : r ∈ sweepFrom align min last pos es) :
    Aligned align min r ∧ pos ≤ r.start ∧ (∀ p ∈ es, Apart p r.start r.stop) ∧
      (r.stop ≤ last + 1 ∨ ∃ p ∈ es, r.stop ≤ p.1) := by
  induction es generalizing pos with
  | nil =>
    rw [sweepFrom] at h
    split at h
    · obtain ⟨haligned, hstart, hstop⟩ := mem_emit halign hmin hpos h
      exact ⟨haligned, hstart, by simp, .inl hstop⟩
    · cases h
  | cons p es ih =>
    obtain ⟨start, size⟩ := p
    rw [List.pairwise_cons] at hsorted
    rw [sweepFrom_cons] at h
    rcases List.mem_append.mp h with h | h
    · split at h
      · obtain ⟨haligned, hstart, hstop⟩ := mem_emit halign hmin hpos h
        have hbefore : r.stop ≤ start := by omega
        refine ⟨haligned, hstart, ?_, .inr ⟨_, List.mem_cons_self, hbefore⟩⟩
        intro q hq
        right
        rcases List.mem_cons.mp hq with rfl | hq
        · exact hbefore
        · exact hbefore.trans (hsorted.1 q hq)
      · cases h
    · obtain ⟨haligned, hstart, hapart, hstop⟩ := ih (hpos.trans (le_max_left _ _)) hsorted.2 h
      refine ⟨haligned, (le_max_left _ _).trans hstart, ?_, ?_⟩
      · intro q hq
        rcases List.mem_cons.mp hq with rfl | hq
        · exact .inl ((le_max_right _ _).trans hstart)
        · exact hapart q hq
      · refine hstop.imp_right ?_
        rintro ⟨q, hq, hle⟩
        exact ⟨q, List.mem_cons_of_mem _ hq, hle⟩

theorem pairwise_emit (s e : Int) : (emit align min s e).Pairwise fun r r' => r.stop ≤ r'.start := by
  simp only [emit]
  split <;> simp

theorem pairwise_sweepFrom (halign : 0 < align) (hmin : 0 < min) (hpos : 0 ≤ pos)
    (hsorted : es.Pairwise fun p q => p.1 ≤ q.1) (hsize : ∀ p ∈ es, 0 ≤ p.2) :
    (sweepFrom align min last pos es).Pairwise fun r r' => r.stop ≤ r'.start := by
  induction es generalizing pos with
  | nil =>
    rw [sweepFrom]
    split
    · exact pairwise_emit _ _
    · exact .nil
  | cons p es ih =>
    obtain ⟨start, size⟩ := p
    rw [List.pairwise_cons] at hsorted
    rw [List.forall_mem_cons] at hsize
    have hpos' : 0 ≤ max pos (start + size) := hpos.trans (le_max_left _ _)
    rw [sweepFrom_cons, List.pairwise_append]
    refine ⟨?_, ih hpos' hsorted.2 hsize.2, ?_⟩
    · split
      · exact pairwise_emit _ _
      · exact .nil
    · intro r hr r' hr'
      split at hr
      · have hstop := (mem_emit halign hmin hpos hr).2.2
        have hstart := (mem_sweepFrom halign hmin hpos' hsorted.2 hr').2.1
        have hsize := hsize.1
        simp only at hsize
        omega
      · cases hr

theorem sweepFrom_covers (halign : 0 < align) (hmin : 0 < min) (hpos : 0 ≤ pos) (hrun : Aligned align min ⟨a, n⟩)
    (hpa : pos ≤ a) (hapart : ∀ p ∈ es, Apart p a (a + n)) (hend : a + n ≤ last + 1 ∨ ∃ p ∈ es, a + n ≤ p.1) :
    ∃ r ∈ sweepFrom align min last pos es, r.start ≤ a ∧ a + n ≤ r.stop := by
  have hlarge : min ≤ n := hrun.large
  induction es generalizing pos with
  | nil =>
    have hlast : a + n ≤ last + 1 := hend.resolve_right (by simp)
    rw [sweepFrom, if_pos (by omega)]
    exact emit_covers halign hmin hpos hrun hpa hlast
  | cons p es ih =>
    obtain ⟨start, size⟩ := p
    rw [List.forall_mem_cons] at hapart
    rw [sweepFrom_cons]
    by_cases hbefore : a + n ≤ start
    · rw [if_pos (by omega)]
      obtain ⟨r, hr, hin⟩ := emit_covers halign hmin hpos hrun hpa (show a + n ≤ start - 1 + 1 by omega)
      exact ⟨r, List.mem_append_left _ hr, hin⟩
    · have hbehind : start + size ≤ a := hapart.1.resolve_right hbefore
      have hend' : a + n ≤ last + 1 ∨ ∃ p ∈ es, a + n ≤ p.1 := by
        refine hend.imp_right ?_
        rintro ⟨q, hq, hle⟩
        rcases List.mem_cons.mp hq with rfl | hq
        · exact absurd hle hbefore
        · exact ⟨q, hq, hle⟩
      obtain ⟨r, hr, hin⟩ := ih (hpos.trans (le_max_left _ _)) (max_le hpa hbehind) hapart.2 hend'
      exact ⟨r, List.mem_append_right _ hr, hin⟩

end Sweep

def trimmedFields (s : Str) : List Str := (s.splitOn 44).map fun f => f.dropWhile (· = 32)

/-- No text behind the size, such as a comma in the partition's name, reads as another start
or size. -/
def DumpLine.PlainNames (l : DumpLine) : Prop :=
  ∀ f ∈ l.more, ∀ piece ∈ trimmedFields f, fieldKey piece ≠ str "start" ∧ fieldKey piece ≠ str "size"

theorem splitOn_comma (s t : Str) : (s ++ 44 :: t).splitOn 44 = s.splitOn 44 ++ t.splitOn 44 :=
  List.splitOn_append_cons_self ..

theorem trimmedFields_append (s t : Str) : trimmedFields (s ++ 44 :: t) = trimmedFields s ++ trimmedFields t := by
  rw [trimmedFields, splitOn_comma, List.map_append, trimmedFields, trimmedFields]

theorem trimmedFields_space (s : Str) : trimmedFields (32 :: s) = trimmedFields s := by
  rw [trimmedFields, List.splitOn_cons_eq_if_modifyHead, if_neg (by decide), trimmedFields]
  cases h : s.splitOn 44 with
  | nil => rfl
  | cons f fs => simp

theorem awkFields_append (hs : 44 ∉ s) (t : Str) : awkFields (s ++ 44 :: t) = s :: trimmedFields t := by
  rw [awkFields, splitOn_comma, List.splitOn_eq_singleton hs]
  rfl

theorem trimmedFields_more (s : Str) (more : List Str) :
    trimmedFields (s ++ more.flatMap fun f => str ", " ++ f) = trimmedFields s ++ more.flatMap trimmedFields := by
  induction more generalizing s with
  | nil => simp
  | cons f more ih =>
    have hsplit : s ++ (f :: more).flatMap (fun f => str ", " ++ f) =
        s ++ 44 :: 32 :: (f ++ more.flatMap fun f => str ", " ++ f) := by
      simp [show str ", " = [44, 32] from rfl]
    rw [hsplit, trimmedFields_append, trimmedFields_space, ih, List.flatMap_cons]

theorem mem_padded (h : c ∈ padded n) : c = 32 ∨ c ∈ dec n := by
  rw [padded, List.mem_append] at h
  exact h.imp_left List.eq_of_mem_replicate

theorem notMem_padded (hc : c ≠ 32) (hdigit : ¬ (48 ≤ c ∧ c ≤ 57)) : c ∉ padded n := fun h =>
  (mem_padded h).elim hc (notMem_dec n hdigit)

theorem filter_padded (n : Nat) : (padded n).filter (fun c => c ≠ 32 ∧ c ≠ 34) = dec n := by
  rw [padded, List.filter_append, List.filter_eq_nil_iff.mpr, List.nil_append, List.filter_eq_self.mpr]
  · intro c hc
    have := digit_of_mem_dec hc
    simp only [decide_eq_true_eq]
    omega
  · intro c hc
    simp [List.eq_of_mem_replicate hc]

theorem field_padded (hkey : 61 ∉ key) (hspace : 32 ∉ key) (n : Nat) :
    fieldKey (key ++ 61 :: padded n) = key ∧ fieldValue (key ++ 61 :: padded n) = dec n := by
  have hsplit : (key ++ 61 :: padded n).splitOn 61 = [key, padded n] :=
    splitOn_pair hkey (notMem_padded (by decide) (by decide))
  refine ⟨?_, ?_⟩
  · rw [fieldKey, hsplit, List.headD_cons, List.filter_eq_self]
    intro c hc
    simpa using fun h : c = 32 => hspace (h ▸ hc)
  · rw [fieldValue, hsplit]
    exact filter_padded n

theorem Row.set_other (h : fieldKey f ≠ str "start" ∧ fieldKey f ≠ str "size") (r : Row) :
    (r.set f).start = r.start ∧ (r.set f).size = r.size := by
  rw [Row.set, if_neg h.1, if_neg h.2]
  split
  · exact ⟨rfl, rfl⟩
  · split <;> exact ⟨rfl, rfl⟩

theorem Row.foldl_set {fs : List Str} (h : ∀ f ∈ fs, fieldKey f ≠ str "start" ∧ fieldKey f ≠ str "size") (r : Row) :
    (fs.foldl Row.set r).start = r.start ∧ (fs.foldl Row.set r).size = r.size := by
  induction fs generalizing r with
  | nil => exact ⟨rfl, rfl⟩
  | cons f fs ih =>
    rw [List.forall_mem_cons] at h
    obtain ⟨hstart, hsize⟩ := ih h.2 (r.set f)
    obtain ⟨hstart', hsize'⟩ := Row.set_other h.1 r
    exact ⟨hstart.trans hstart', hsize.trans hsize'⟩

theorem awkFields_text (l : DumpLine) :
    awkFields l.text = (str "start" ++ 61 :: padded l.start) :: (str "size" ++ 61 :: padded l.size) ::
      l.more.flatMap trimmedFields := by
  have htext : l.text = (str "start" ++ 61 :: padded l.start) ++
      44 :: 32 :: ((str "size" ++ 61 :: padded l.size) ++ l.more.flatMap fun f => str ", " ++ f) := by
    simp [DumpLine.text, show str "start=" = str "start" ++ [61] from rfl,
      show str ", size=" = [44, 32] ++ str "size" ++ [61] from rfl]
  have hcomma {key : Str} (hkey : 44 ∉ key) (n : Nat) : 44 ∉ key ++ 61 :: padded n := by
    rw [List.mem_append, List.mem_cons, not_or, not_or]
    exact ⟨hkey, by decide, notMem_padded (by decide) (by decide)⟩
  have hsize : trimmedFields (str "size" ++ 61 :: padded l.size) = [str "size" ++ 61 :: padded l.size] := by
    rw [trimmedFields, List.splitOn_eq_singleton (hcomma (by decide) l.size)]
    rfl
  rw [htext, awkFields_append (hcomma (by decide) l.start), trimmedFields_space, trimmedFields_more, hsize]
  rfl

theorem DumpLine.row_columns {l : DumpLine} (h : l.PlainNames) :
    l.row.start = dec l.start ∧ l.row.size = dec l.size := by
  have hmore : ∀ f ∈ l.more.flatMap trimmedFields, fieldKey f ≠ str "start" ∧ fieldKey f ≠ str "size" := by
    intro piece hpiece
    obtain ⟨f, hf, hpiece⟩ := List.mem_flatMap.mp hpiece
    exact h f hf piece hpiece
  obtain ⟨hkey, hvalue⟩ := field_padded (show 61 ∉ str "start" by decide) (by decide) l.start
  obtain ⟨hkey', hvalue'⟩ := field_padded (show 61 ∉ str "size" by decide) (by decide) l.size
  rw [DumpLine.row, awkFields_text, List.foldl_cons, List.foldl_cons]
  obtain ⟨hstart, hsize⟩ := Row.foldl_set hmore
    (((⟨l.number, [], [], [], []⟩ : Row).set (str "start" ++ 61 :: padded l.start)).set (str "size" ++ 61 :: padded l.size))
  rw [hstart, hsize]
  simp [Row.set, hkey, hvalue, hkey', hvalue', show str "size" ≠ str "start" by decide]

theorem column_dec (n : Nat) : column (dec n) = some n := by
  rw [column, if_neg (dec_ne_nil n)]
  apply digitsValue_dec
  intro c hlo hhi
  simp [digitOf, isDigitChar, hlo, hhi]

def DumpLine.extent (l : DumpLine) : Int × Int := (l.start, l.size)

theorem DumpLine.extent_row {l : DumpLine} (h : l.PlainNames) : l.row.extent = some l.extent := by
  obtain ⟨hstart, hsize⟩ := l.row_columns h
  rw [Row.extent, hstart, hsize, column_dec, column_dec]
  rfl

section Disk

variable {d : SectorDisk} {r : Region} {rs ps : List Region}

def Clear (p : Int × Int) (a b : Int) : Prop := p.2 = 0 ∨ Apart p a b

structure SectorDisk.Lists (d : SectorDisk) (rs : List Region) : Prop where
  disjoint : rs.Pairwise fun r r' => r.stop ≤ r'.start
  aligned : ∀ r ∈ rs, Aligned d.align d.least r
  inside : ∀ r ∈ rs, d.first ≤ r.start ∧ r.stop ≤ d.last + 1
  apart : ∀ r ∈ rs, ∀ l ∈ d.lines, Apart l.extent r.start r.stop
  whole : ∀ run : Region, Aligned d.align d.least run → d.first ≤ run.start → run.stop ≤ d.last + 1 →
    (∀ l ∈ d.lines, Clear l.extent run.start run.stop) → ∃ r ∈ rs, r.start ≤ run.start ∧ run.stop ≤ r.stop

def SectorDisk.Overhangs (d : SectorDisk) (es : List (Int × Int)) : Prop :=
  ∃ run : Region, Aligned d.align d.least run ∧ d.first ≤ run.start ∧ d.last + 1 < run.stop ∧
    (∀ p ∈ es, Apart p run.start run.stop) ∧ ∃ p ∈ es, run.stop ≤ p.1

def SectorDisk.Divided (d : SectorDisk) (es : List (Int × Int)) : Prop :=
  ∃ run : Region, Aligned d.align d.least run ∧ d.first ≤ run.start ∧ run.stop ≤ d.last + 1 ∧
    (∀ l ∈ d.lines, Clear l.extent run.start run.stop) ∧ ∃ p ∈ es, ¬ Apart p run.start run.stop

/-- What is read misses a partition: a run that it leaves free reaches into one. -/
def SectorDisk.Misread (d : SectorDisk) (es : List (Int × Int)) : Prop :=
  ∃ run : Region, Aligned d.align d.least run ∧ d.first ≤ run.start ∧ run.stop ≤ d.last + 1 ∧
    (∀ p ∈ es, Apart p run.start run.stop) ∧ ∃ l ∈ d.lines, ¬ Apart l.extent run.start run.stop

theorem SectorDisk.sector_pos (d : SectorDisk) : 0 < d.sector :=
  Nat.pos_of_dvd_of_pos d.sector_dvd (by decide)

theorem SectorDisk.align_pos (d : SectorDisk) : 0 < d.align := by
  have h := Nat.div_pos (Nat.le_of_dvd (by decide) d.sector_dvd) d.sector_pos
  rw [SectorDisk.align]
  omega

theorem SectorDisk.least_pos (d : SectorDisk) : 0 < d.least := by
  have hle : d.sector ≤ 16 * mib := (Nat.le_of_dvd (by decide) d.sector_dvd).trans (by decide)
  have h := Nat.div_pos hle d.sector_pos
  rw [SectorDisk.least]
  omega

theorem SectorDisk.first_nonneg (d : SectorDisk) : 0 ≤ d.first := by
  rw [SectorDisk.first]
  omega

instance : Std.Total byStart := ⟨fun a b => Int.le_total a.1 b.1⟩

instance : IsTrans (Int × Int) byStart := ⟨fun _ _ _ => Int.le_trans⟩

def SectorDisk.extents (d : SectorDisk) : List (Int × Int) := (d.lines.map DumpLine.extent).insertionSort byStart

theorem SectorDisk.mem_extents (d : SectorDisk) : p ∈ d.extents ↔ ∃ l ∈ d.lines, l.extent = p := by
  rw [SectorDisk.extents, List.mem_insertionSort, List.mem_map]

theorem mem_of_mapM {xs : List α} (h : xs.mapM f = some ys) : ∀ y ∈ ys, ∃ x ∈ xs, f x = some y := by
  rw [mapM_eq_some_iff] at h
  induction h with
  | nil => simp
  | cons hxy _ ih =>
    exact List.forall_mem_cons.mpr ⟨⟨_, .head _, hxy⟩, fun y hy => (ih y hy).imp fun _ h => h.imp_left (.tail _)⟩

theorem SectorDisk.partsOf_spec (h : d.partsOf = some es) :
    es.Pairwise (fun p q => p.1 ≤ q.1) ∧ ∀ p ∈ es, 0 ≤ p.2 := by
  obtain ⟨rows, hrows, rfl⟩ := Option.map_eq_some_iff.mp h
  refine ⟨List.pairwise_insertionSort byStart _, fun p hp => ?_⟩
  obtain ⟨l, -, hl⟩ := mem_of_mapM hrows p (List.mem_insertionSort _ |>.mp hp)
  obtain ⟨start, -, hl⟩ := Option.bind_eq_some_iff.mp hl
  obtain ⟨size, -, hl⟩ := Option.bind_eq_some_iff.mp hl
  cases hl
  exact Int.natCast_nonneg size

theorem SectorDisk.partsOf_eq (hplain : ∀ l ∈ d.lines, l.PlainNames) : d.partsOf = some d.extents := by
  have hrows : d.lines.mapM (·.row.extent) = some (d.lines.map DumpLine.extent) := by
    rw [mapM_eq_some_iff, List.forall₂_map_right_iff, List.forall₂_same]
    exact fun l hl => DumpLine.extent_row (hplain l hl)
  rw [SectorDisk.partsOf, hrows]
  rfl

theorem SectorDisk.regions_cover {run : Region} (hrun : Aligned d.align d.least run) (hfirst : d.first ≤ run.start)
    (hapart : ∀ p ∈ es, Apart p run.start run.stop) (hend : run.stop ≤ d.last + 1 ∨ ∃ p ∈ es, run.stop ≤ p.1) :
    ∃ r ∈ sweepFrom d.align d.least d.last d.first es, r.start ≤ run.start ∧ run.stop ≤ r.stop :=
  sweepFrom_covers d.align_pos d.least_pos d.first_nonneg hrun hfirst hapart hend

theorem Apart.mono {p : Int × Int} (h : Apart p a b) (ha : a ≤ a') (hb : b' ≤ b) : Apart p a' b' :=
  h.imp (fun h => h.trans ha) fun h => hb.trans h

theorem SectorDisk.lists_iff (hsorted : es.Pairwise fun p q => p.1 ≤ q.1) (hsizes : ∀ p ∈ es, 0 ≤ p.2) :
    d.Lists (sweepFrom d.align d.least d.last d.first es) ↔ ¬ d.Overhangs es ∧ ¬ d.Divided es ∧ ¬ d.Misread es := by
  have hregion {r : Region} (hr : r ∈ sweepFrom d.align d.least d.last d.first es) :=
    mem_sweepFrom d.align_pos d.least_pos d.first_nonneg hsorted hr
  constructor
  · intro h
    refine ⟨?_, ?_, ?_⟩
    · rintro ⟨run, hrun, hfirst, hlast, hapart, hbefore⟩
      obtain ⟨r, hr, -, hstop⟩ := SectorDisk.regions_cover hrun hfirst hapart (.inr hbefore)
      have hinside := (h.inside r hr).2
      omega
    · rintro ⟨run, hrun, hfirst, hlast, hclear, p, hp, hdivides⟩
      obtain ⟨r, hr, hstart, hstop⟩ := h.whole run hrun hfirst hlast hclear
      exact hdivides (((hregion hr).2.2.1 p hp).mono hstart hstop)
    · rintro ⟨run, hrun, hfirst, hlast, hapart, l, hl, hinto⟩
      obtain ⟨r, hr, hstart, hstop⟩ := SectorDisk.regions_cover hrun hfirst hapart (.inl hlast)
      exact hinto ((h.apart r hr l hl).mono hstart hstop)
  · rintro ⟨hover, hdivided, hmisread⟩
    have hinside (r : Region) (hr : r ∈ sweepFrom d.align d.least d.last d.first es) : r.stop ≤ d.last + 1 := by
      obtain ⟨haligned, hstart, hapart, hstop⟩ := hregion hr
      by_contra hlast
      exact hover ⟨r, haligned, hstart, lt_of_not_ge hlast, hapart, hstop.resolve_left hlast⟩
    refine ⟨pairwise_sweepFrom d.align_pos d.least_pos d.first_nonneg hsorted hsizes, fun r hr => (hregion hr).1,
      fun r hr => ⟨(hregion hr).2.1, hinside r hr⟩, fun r hr l hl => ?_, fun run hrun hfirst hlast hclear => ?_⟩
    · by_contra hinto
      exact hmisread ⟨r, (hregion hr).1, (hregion hr).2.1, hinside r hr, (hregion hr).2.2.1, l, hl, hinto⟩
    · refine SectorDisk.regions_cover hrun hfirst (fun p hp => ?_) (.inl hlast)
      by_contra hdivides
      exact hdivided ⟨run, hrun, hfirst, hlast, hclear, p, hp, hdivides⟩

/-- A partition for the boot files and, behind it, a root that is large enough: together the
region. -/
def SectorDisk.Fills (d : SectorDisk) (r : Region) (ps : List Region) : Prop :=
  ∃ boot root, ps = [boot, root] ∧ boot.start = r.start ∧ root.start = boot.stop ∧ root.stop = r.stop ∧
    0 < boot.sectors ∧ (minRootBytes : Int) ≤ root.sectors * d.sector

theorem SectorDisk.sectors_mul {bytes : Nat} (h : mib ∣ bytes) : bytes / d.sector * d.sector = bytes :=
  Nat.div_mul_cancel (d.sector_dvd.trans h)

theorem SectorDisk.need_eq {bytes : Nat} (h : mib ∣ bytes) :
    (bytes + minRootBytes) / d.sector = bytes / d.sector + minRootBytes / d.sector :=
  Nat.add_div_of_dvd_right (d.sector_dvd.trans h)

theorem SectorDisk.freeParts_fill {hasEsp : Bool} (h : d.freeParts hasEsp r = some ps) :
    (∃ rs, d.freeRegions = some rs ∧ r ∈ rs) ∧ d.Fills r ps := by
  cases hrs : d.freeRegions with
  | none => simp [SectorDisk.freeParts, hrs] at h
  | some rs =>
    simp only [SectorDisk.freeParts, hrs, Option.bind_eq_bind, Option.bind_some] at h
    split at h
    · next hcheck =>
      cases h
      have hbytes : mib ∣ bootBytes hasEsp ∧ mib ≤ bootBytes hasEsp := by cases hasEsp <;> decide
      have hroot : minRootBytes / d.sector * d.sector = minRootBytes := SectorDisk.sectors_mul (by decide)
      have hboot : 0 < bootBytes hasEsp / d.sector :=
        Nat.div_pos ((Nat.le_of_dvd (by decide) d.sector_dvd).trans hbytes.2) d.sector_pos
      have hneed := hcheck.2
      rw [SectorDisk.need_eq hbytes.1] at hneed
      refine ⟨⟨rs, rfl, hcheck.1⟩, _, _, rfl, rfl, rfl, ?_, Int.natCast_pos.mpr hboot, ?_⟩
      · simp only [Region.stop]
        omega
      · have hle : ((minRootBytes / d.sector : Nat) : Int) ≤
            r.sectors - (bootBytes hasEsp / d.sector : Nat) := by
          push_cast at hneed ⊢
          omega
        calc (minRootBytes : Int) = ((minRootBytes / d.sector : Nat) : Int) * d.sector := by exact_mod_cast hroot.symm
          _ ≤ _ := mul_le_mul_of_nonneg_right hle (by omega)
    · cases h

theorem SectorDisk.diskParts_fill (h : d.diskParts f l = some ps) :
    ∃ rs r, (d.fresh f l).freeRegions = some rs ∧ r ∈ rs ∧ d.Fills r ps := by
  cases hrs : (d.fresh f l).freeRegions with
  | none => simp [SectorDisk.diskParts, hrs] at h
  | some rs =>
    cases hr : rs.head? with
    | none => simp [SectorDisk.diskParts, hrs, hr] at h
    | some r =>
      simp only [SectorDisk.diskParts, hrs, hr, Option.bind_eq_bind, Option.bind_some] at h
      split at h
      · exact ⟨rs, r, rfl, List.mem_of_head? hr, (SectorDisk.freeParts_fill h).2⟩
      · cases h

/-- The regions are the unallocated space, and what is made fills the region it is made in; with plain
names what is read is what is there. -/
theorem SectorDisk.freeRegions_iff (d : SectorDisk) :
    (∀ es, d.partsOf = some es →
      (((∃ rs, d.freeRegions = some rs ∧ d.Lists rs) ∧
        (∀ hasEsp r ps, d.freeParts hasEsp r = some ps →
          (∃ rs, d.freeRegions = some rs ∧ r ∈ rs) ∧ d.Fills r ps) ∧
        ∀ f l ps, d.diskParts f l = some ps →
          ∃ rs r, (d.fresh f l).freeRegions = some rs ∧ r ∈ rs ∧ d.Fills r ps) ↔
      ¬ d.Overhangs es ∧ ¬ d.Divided es ∧ ¬ d.Misread es)) ∧
    ((∀ l ∈ d.lines, l.PlainNames) → d.partsOf = some d.extents ∧ ¬ d.Misread d.extents) := by
  refine ⟨fun es hes => ?_, fun hplain => ⟨SectorDisk.partsOf_eq hplain, ?_⟩⟩
  · obtain ⟨hsorted, hsizes⟩ := SectorDisk.partsOf_spec hes
    have hregions : d.freeRegions = some (sweepFrom d.align d.least d.last d.first es) := by
      rw [SectorDisk.freeRegions, hes]
      rfl
    rw [← SectorDisk.lists_iff hsorted hsizes]
    constructor
    · rintro ⟨⟨rs, hrs, hlists⟩, -⟩
      cases hregions.symm.trans hrs
      exact hlists
    · intro hlists
      exact ⟨⟨_, hregions, hlists⟩, fun hasEsp r ps h => SectorDisk.freeParts_fill h,
        fun f l ps h => SectorDisk.diskParts_fill h⟩
  · rintro ⟨run, -, -, -, hapart, l, hl, hinto⟩
    exact hinto (hapart _ (d.mem_extents.mpr ⟨l, hl, rfl⟩))

end Disk

theorem sector_dvd_mib : 512 ∣ mib := by decide

def smallDisk (start : Nat) : SectorDisk :=
  ⟨512, gib, some 2048, some 2097118, [⟨1, start, 2048, [str "type=83"]⟩], sector_dvd_mib⟩

theorem smallDisk_plainNames (start : Nat) : ∀ l ∈ (smallDisk start).lines, l.PlainNames := by
  simp only [smallDisk, List.forall_mem_singleton, DumpLine.PlainNames]
  decide

theorem smallDisk_listed : ∃ rs, (smallDisk 2048).freeRegions = some rs ∧ (smallDisk 2048).Lists rs := by
  obtain ⟨hread, hmisread⟩ := (smallDisk 2048).freeRegions_iff.2 (smallDisk_plainNames 2048)
  refine (((smallDisk 2048).freeRegions_iff.1 _ hread).mpr ⟨?_, ?_, hmisread⟩).1
  · rintro ⟨run, hrun, hfirst, hlast, -, p, hp, hbefore⟩
    obtain rfl : p = (2048, 2048) := by simpa [SectorDisk.extents, smallDisk, DumpLine.extent] using hp
    simp only [smallDisk, SectorDisk.last] at hlast
    omega
  · rintro ⟨run, -, -, -, hclear, p, hp, hdivides⟩
    obtain ⟨l, hl, rfl⟩ := (smallDisk 2048).mem_extents.mp hp
    refine hdivides ((hclear l hl).resolve_left ?_)
    rw [List.mem_singleton.mp hl]
    decide

example : ({ smallDisk 2048 with lines := [⟨1, 2048, 2048, [str "name=\"a", str "start=9\""]⟩] }).partsOf =
    some [(9, 2048)] := by decide +kernel

theorem smallDisk_overhang : (smallDisk 2199552).freeRegions = some [⟨2048, 2197504⟩] ∧
    ¬ (smallDisk 2199552).Lists [⟨2048, 2197504⟩] := by
  refine ⟨by decide +kernel, fun h => ?_⟩
  exact absurd (h.inside _ (List.mem_singleton_self _)).2 (by decide)

end StainedGlass.Setup
