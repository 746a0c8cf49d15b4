import StainedGlass.Rdp.Frames
import StainedGlass.Rdp.PlanarLaws

namespace StainedGlass.Rdp.Planar

theorem length_runLoop_le (run : Nat) : (runLoop run).1.length ≤ (runLoop run).2 := by
  induction run using Nat.strongRecOn with
  | ind run ih =>
    rw [runLoop]
    split
    · simp
    · split
      · have hc : 32 ≤ (if 47 < run then 47 else run) := by split <;> omega
        have := ih (run - (if 47 < run then 47 else run)) (by omega)
        simp only [List.length_cons]
        omega
      · have := ih (run - run) (by omega)
        split <;> simp only [List.length_cons] <;> omega

theorem rawLoop_full {vs : List UInt8} (hstart : start ≤ 15) (h : (rawLoop start vs).2 = 0) :
    (rawLoop start vs).1 = 15 ∨ (rawLoop start vs).1 = start + vs.length := by
  induction vs generalizing start with
  | nil => exact .inr (by simp [rawLoop])
  | cons b vs ih =>
    simp only [rawLoop] at h ⊢
    split at h
    · next hlt =>
      split at h
      · next hfollow => simp only at h; omega
      · next hfollow =>
        rw [if_pos hlt, if_neg hfollow]
        obtain h15 | hall := ih (by omega) h
        · exact .inl h15
        · exact .inr (by simp only [List.length_cons]; omega)
    · next hge =>
      rw [if_neg hge]
      exact .inl (by omega)

theorem rleLineBound_mono (h : a ≤ b) : rleLineBound a ≤ rleLineBound b := by
  simp only [rleLineBound]
  omega

theorem length_rleFrom_le (last : UInt8) (vs : List UInt8) :
    (rleFrom last vs).length ≤ rleLineBound vs.length := by
  fun_induction rleFrom last vs with
  | case1 last => simp
  | case2 last v vs run h r _ ih =>
    have hpaid : r.1.length ≤ r.2 := length_runLoop_le run
    have hused : r.2 ≤ (v :: vs).length :=
      Nat.le_trans (runLoop_le run) (runOf_le last (v :: vs))
    simp only [List.length_append, List.length_drop, rleLineBound] at ih ⊢
    omega
  | case3 last v vs run h r follow _ ih =>
    have hspec : RawSpec 0 (v :: vs) r := rawLoop_spec 0 (v :: vs)
    have hraw := hspec.le_length
    have hfollow : r.2 = 0 ∧ (r.1 = 15 ∨ r.1 = (v :: vs).length) ∨ 3 ≤ follow := by
      obtain h0 | ⟨h3, -⟩ := hspec.follow
      · have hfull : r.1 = 15 ∨ r.1 = 0 + (v :: vs).length := rawLoop_full (Nat.zero_le 15) h0
        exact .inl ⟨h0, by omega⟩
      · refine .inr ?_
        change 3 ≤ if 15 < r.2 then 15 else r.2
        split <;> omega
    simp only [List.length_append, List.length_cons, List.length_take, List.length_drop,
      rleLineBound] at ih hraw hfollow ⊢
    omega

theorem length_rleLine_le (v : List UInt8) : (rleLine v).length ≤ rleLineBound v.length :=
  length_rleFrom_le 0 v

theorem sgPlanarBound_eq_max (w h : Nat) :
    sgPlanarBound w h = max (1 + 3 * h * rleLineBound w) (rawSize w h) := by
  rw [sgPlanarBound, max_def]
  split_ifs <;> omega

theorem sgPlanarBound_mono (hw : w ≤ w') (hh : h ≤ h') : sgPlanarBound w h ≤ sgPlanarBound w' h' := by
  have hline := rleLineBound_mono hw
  rw [sgPlanarBound_eq_max, sgPlanarBound_eq_max]
  apply max_le_max
  · gcongr
  · simp only [rawSize]
    gcongr

theorem rawSize_le_sgPlanarBound (w h : Nat) : rawSize w h ≤ sgPlanarBound w h := by
  rw [sgPlanarBound_eq_max]
  exact Nat.le_max_right _ _

def rleUpTo (m : Bitmap) (out : List UInt8) (planes lines : Nat) : Except (List UInt8) Scan :=
  ((List.range planes).foldlM (rlePlane m) ⟨[], copyTo out 0 [hdrNa ||| hdrRle], 1⟩).bind
    ((List.range lines).foldlM (rleScanline m (2 - planes)))

def rawUpTo (m : Bitmap) (out : List UInt8) (planes lines : Nat) : List UInt8 × Nat :=
  (List.range lines).foldl (rawScanline m (2 - planes))
    ((List.range planes).foldl (rawPlane m) (copyTo out 0 [hdrNa], 1))

/-- `n` bytes of `buf` are produced, all within `size`, and what lies behind is
as it was in `out`. -/
structure Within (size : Nat) (out buf : List UInt8) (n : Nat) : Prop where
  le_size : n ≤ size
  rest : buf.drop size = out.drop size

theorem Within.copyTo {out buf bs : List UInt8} (h : Within size out buf n)
    (hle : n + bs.length ≤ size) : Within size out (copyTo buf n bs) (n + bs.length) := by
  refine ⟨hle, Eq.trans ?_ h.rest⟩
  rw [Planar.copyTo, List.drop_append, List.drop_eq_nil_of_le
    (by simp only [List.length_append, List.length_take]; omega), List.nil_append, List.drop_drop]
  by_cases hn : n ≤ buf.length
  · congr 1
    simp only [List.length_append, List.length_take]
    omega
  · rw [List.drop_eq_nil_of_le (by omega), List.drop_eq_nil_of_le (by omega)]

theorem Within.mono (h : Within size out buf n) (hle : size ≤ size') : Within size' out buf n := by
  refine ⟨Nat.le_trans h.le_size hle, ?_⟩
  have := congrArg (List.drop (size' - size)) h.rest
  rwa [List.drop_drop, List.drop_drop, Nat.add_sub_cancel' hle] at this

theorem Within.header (size : Nat) (hsize : 1 ≤ size) (out : List UInt8) (b : UInt8) :
    Within size out (Planar.copyTo out 0 [b]) 1 :=
  Within.copyTo (n := 0) ⟨Nat.zero_le size, rfl⟩ hsize

def Attempt (m : Bitmap) (out : List UInt8) : Except (List UInt8) Scan → Prop
  | .ok st => Within (rawSize m.w m.h) out st.out st.n
  | .error buf => buf.drop (rawSize m.w m.h) = out.drop (rawSize m.w m.h)

variable {m : Bitmap} {st : Scan}

theorem attempt_rleScanline (hst : Within (rawSize m.w m.h) out st.out st.n) (byte y : Nat) :
    Attempt m out (rleScanline m byte st y) := by
  rw [rleScanline]
  simp only
  split
  · exact hst.rest
  · next hroom =>
    refine Within.copyTo hst ?_
    have hcoded : (if y ≠ 0 then List.zipWith foldDelta (m.line byte y) st.above
        else m.line byte y).length ≤ m.w := by
      split <;> simp
    have := Nat.le_trans (length_rleLine_le _) (rleLineBound_mono hcoded)
    omega

theorem attempt_foldlM (hstep : ∀ st k, Within (rawSize m.w m.h) out st.out st.n → Attempt m out (step st k))
    (ks : List Nat) (hst : Within (rawSize m.w m.h) out st.out st.n) : Attempt m out (ks.foldlM step st) := by
  induction ks generalizing st with
  | nil => exact hst
  | cons k ks ih =>
    rw [List.foldlM_cons]
    have hnext := hstep st k hst
    cases hk : step st k with
    | error buf => rwa [hk] at hnext
    | ok st' =>
      rw [hk] at hnext
      exact ih hnext

theorem attempt_rlePlane (plane : Nat)
    (hst : Within (rawSize m.w m.h) out st.out st.n) : Attempt m out (rlePlane m st plane) :=
  attempt_foldlM (fun _ y h => attempt_rleScanline h (2 - plane) y) (List.range m.h) hst

theorem one_le_rawSize (w h : Nat) : 1 ≤ rawSize w h := by
  simp only [rawSize]
  omega

theorem attempt_rleUpTo (m : Bitmap) (out : List UInt8) (planes lines : Nat) :
    Attempt m out (rleUpTo m out planes lines) := by
  have hplanes : Attempt m out ((List.range planes).foldlM (rlePlane m)
      ⟨[], copyTo out 0 [hdrNa ||| hdrRle], 1⟩) :=
    attempt_foldlM (fun _ plane h => attempt_rlePlane plane h) (List.range planes)
      (Within.header _ (one_le_rawSize m.w m.h) out _)
  rw [rleUpTo]
  cases h : (List.range planes).foldlM (rlePlane m) ⟨[], copyTo out 0 [hdrNa ||| hdrRle], 1⟩ with
  | error buf => rwa [h] at hplanes
  | ok st =>
    rw [h] at hplanes
    exact attempt_foldlM (fun _ y h => attempt_rleScanline h (2 - planes) y) (List.range lines)
      hplanes

theorem rlePlanes_eq_rleUpTo (m : Bitmap) (out : List UInt8) :
    rlePlanes m ⟨[], copyTo out 0 [hdrNa ||| hdrRle], 1⟩ = rleUpTo m out 3 0 := by
  rw [rleUpTo, rlePlanes]
  cases (List.range 3).foldlM (rlePlane m) ⟨[], copyTo out 0 [hdrNa ||| hdrRle], 1⟩ <;> rfl

variable {size : Nat}

theorem rawScanlines_within (m : Bitmap) (byte : Nat) (ys : List Nat) (st : List UInt8 × Nat)
    (hst : Within size out st.1 st.2) (hroom : st.2 + ys.length * m.w ≤ size) :
    Within size out (ys.foldl (rawScanline m byte) st).1 (ys.foldl (rawScanline m byte) st).2 ∧
      (ys.foldl (rawScanline m byte) st).2 = st.2 + ys.length * m.w := by
  induction ys generalizing st with
  | nil => exact ⟨hst, by simp⟩
  | cons y ys ih =>
    rw [List.length_cons, Nat.succ_mul] at hroom
    have hline : Within size out (rawScanline m byte st y).1 (rawScanline m byte st y).2 :=
      hst.copyTo (by rw [Bitmap.length_line]; omega)
    have hn : (rawScanline m byte st y).2 = st.2 + m.w := by simp [rawScanline]
    obtain ⟨hwithin, hlen⟩ := ih _ hline (by rw [hn]; omega)
    refine ⟨hwithin, ?_⟩
    rw [List.foldl_cons, hlen, hn, List.length_cons, Nat.succ_mul]
    omega

theorem rawPlanesUpTo_within (m : Bitmap) (planes : List Nat) (st : List UInt8 × Nat) (hst : Within size out st.1 st.2)
    (hroom : st.2 + planes.length * (m.h * m.w) ≤ size) :
    Within size out (planes.foldl (rawPlane m) st).1 (planes.foldl (rawPlane m) st).2 ∧
      (planes.foldl (rawPlane m) st).2 = st.2 + planes.length * (m.h * m.w) := by
  induction planes generalizing st with
  | nil => exact ⟨hst, by simp⟩
  | cons plane planes ih =>
    rw [List.length_cons, Nat.succ_mul] at hroom
    obtain ⟨hplane, hn⟩ := rawScanlines_within m (2 - plane) (List.range m.h) st hst
      (by rw [List.length_range]; omega)
    rw [List.length_range] at hn
    change Within size out (rawPlane m st plane).1 (rawPlane m st plane).2 at hplane
    change (rawPlane m st plane).2 = _ at hn
    obtain ⟨hwithin, hlen⟩ := ih _ hplane (by omega)
    refine ⟨hwithin, ?_⟩
    rw [List.foldl_cons, hlen, hn, List.length_cons, Nat.succ_mul]
    omega

theorem rawSize_eq (w h : Nat) : rawSize w h = 1 + 3 * (h * w) + 1 := by
  rw [rawSize, Nat.mul_assoc, Nat.mul_comm w h]

theorem rawUpTo_within (m : Bitmap) {out buf : List UInt8}
    (hbuf : buf.drop (rawSize m.w m.h) = out.drop (rawSize m.w m.h)) (hplanes : planes < 3) (hlines : lines ≤ m.h) :
    Within (rawSize m.w m.h) out (rawUpTo m buf planes lines).1 (rawUpTo m buf planes lines).2 := by
  have hhead : Within (rawSize m.w m.h) out (copyTo buf 0 [hdrNa]) 1 :=
    Within.copyTo (n := 0) ⟨Nat.zero_le _, hbuf⟩ (one_le_rawSize m.w m.h)
  have hwhole : planes * (m.h * m.w) ≤ 2 * (m.h * m.w) := Nat.mul_le_mul_right _ (by omega)
  have hpart : lines * m.w ≤ m.h * m.w := Nat.mul_le_mul_right _ hlines
  have hsize := rawSize_eq m.w m.h
  have hroom : 1 + (List.range planes).length * (m.h * m.w) ≤ rawSize m.w m.h := by
    rw [List.length_range]
    omega
  obtain ⟨hdone, hn⟩ := rawPlanesUpTo_within m (List.range planes) (copyTo buf 0 [hdrNa], 1) hhead hroom
  rw [List.length_range] at hn
  exact (rawScanlines_within m _ (List.range lines) _ hdone (by rw [List.length_range, hn]; omega)).1

theorem rawPlanes_within (m : Bitmap) {out buf : List UInt8}
    (hbuf : buf.drop (rawSize m.w m.h) = out.drop (rawSize m.w m.h)) :
    Within (rawSize m.w m.h) out (rawPlanes m buf).1 (rawPlanes m buf).2 ∧
      (rawPlanes m buf).2 = rawSize m.w m.h := by
  have hhead : Within (rawSize m.w m.h) out (copyTo buf 0 [hdrNa]) 1 :=
    Within.copyTo (n := 0) ⟨Nat.zero_le _, hbuf⟩ (one_le_rawSize m.w m.h)
  have hsize := rawSize_eq m.w m.h
  have hlen : (List.range 3).length * (m.h * m.w) = 3 * (m.h * m.w) := rfl
  obtain ⟨hdone, hn⟩ := rawPlanesUpTo_within m (List.range 3) (copyTo buf 0 [hdrNa], 1) hhead
    (by rw [hlen, hsize]; exact Nat.le_succ _)
  rw [hlen] at hn
  have hpad : ((List.range 3).foldl (rawPlane m) (copyTo buf 0 [hdrNa], 1)).2 + 1 =
      rawSize m.w m.h := by
    rw [hn, hsize]
  exact ⟨hdone.copyTo (Nat.le_of_eq hpad), hpad⟩

structure Fits (m : Bitmap) (out : List UInt8) (size : Nat) : Prop where
  attempt : ∀ planes lines st, planes < 3 → lines ≤ m.h →
    rleUpTo m out planes lines = .ok st → st.n ≤ size
  raw : ∀ buf planes lines, planes < 3 → lines ≤ m.h → (rawUpTo m buf planes lines).2 ≤ size
  result : (sgPlanarEncode m out).2 ≤ size
  behind : (sgPlanarEncode m out).1.drop size = out.drop size

/-- What the encoder returns: the RLE form, which is then the shorter one, or the
raw planes. -/
inductive Form (m : Bitmap) (r : List UInt8 × Nat) : Prop
  | rle (head : r.1.head? = some (hdrNa ||| hdrRle)) (shorter : r.2 < 3 * m.w * m.h + 2)
  | raw (head : r.1.head? = some hdrNa) (size : r.2 = 3 * m.w * m.h + 2)

theorem Written.head? {out bs : List UInt8} (h : Written out n (b :: bs)) : out.head? = some b := by
  obtain ⟨-, rest, rfl⟩ := h
  rfl

theorem form_rawPlanes (m : Bitmap) (out : List UInt8) : Form m (rawPlanes m out) := by
  refine .raw (rawPlanes_written m out).head? ?_
  rw [(rawPlanes_within m (rfl : out.drop _ = out.drop _)).2, rawSize]
  omega

theorem form_sgPlanarEncode (m : Bitmap) (out : List UInt8) (hw : 1 ≤ m.w ∧ m.w ≤ maxSide)
    (hh : 1 ≤ m.h ∧ m.h ≤ maxSide) : Form m (sgPlanarEncode m out) := by
  have hsides : ¬ (m.w = 0 ∨ m.h = 0 ∨ maxSide < m.w ∨ maxSide < m.h) := by omega
  rw [sgPlanarEncode, if_neg hsides]
  cases hrle : rlePlanes m ⟨[], copyTo out 0 [hdrNa ||| hdrRle], 1⟩ with
  | error buf => exact form_rawPlanes m buf
  | ok st =>
    simp only
    split
    · next hlt =>
      refine .rle (rlePlanes_ok hrle (Written.header out _)).head? ?_
      simp only [rawSize] at hlt
      simp only
      omega
    · exact form_rawPlanes m st.out

theorem sgPlanarEncode_within (m : Bitmap) (out : List UInt8) :
    Within (rawSize m.w m.h) out (sgPlanarEncode m out).1 (sgPlanarEncode m out).2 := by
  rw [sgPlanarEncode]
  split
  · exact ⟨Nat.zero_le _, rfl⟩
  · have hattempt := attempt_rleUpTo m out 3 0
    rw [← rlePlanes_eq_rleUpTo] at hattempt
    cases hrle : rlePlanes m ⟨[], copyTo out 0 [hdrNa ||| hdrRle], 1⟩ with
    | error buf =>
      rw [hrle] at hattempt
      exact (rawPlanes_within m hattempt).1
    | ok st =>
      rw [hrle] at hattempt
      simp only
      split
      · exact hattempt
      · exact (rawPlanes_within m hattempt.rest).1

theorem fits_of_rawSize_le (m : Bitmap) (out : List UInt8)
    (hsize : rawSize m.w m.h ≤ size) : Fits m out size where
  attempt planes lines st _ _ hst := by
    have := attempt_rleUpTo m out planes lines
    rw [hst] at this
    exact Nat.le_trans this.le_size hsize
  raw buf planes lines hplanes hlines :=
    Nat.le_trans (rawUpTo_within m (rfl : buf.drop _ = buf.drop _) hplanes hlines).le_size hsize
  result := ((sgPlanarEncode_within m out).mono hsize).le_size
  behind := ((sgPlanarEncode_within m out).mono hsize).rest

/-- The sizes the encoder is used with, and that the stream's buffer is enough for its tiles. -/
theorem sgPlanarEncode_sizes :
    (∀ v : List UInt8, (rleLine v).length ≤ v.length + v.length ⌈/⌉ 15) ∧
    (∀ (m : Bitmap) (out : List UInt8), m.w ≤ maxSide → m.h ≤ maxSide →
      (sgPlanarEncode m out).2 ≤ 3 * m.w * m.h + 2 ∧
      (1 ≤ m.w → 1 ≤ m.h → Form m (sgPlanarEncode m out)) ∧
      Fits m out (sgPlanarBound m.w m.h)) ∧
    (∀ w w' h h' : Nat, w ≤ w' → h ≤ h' → sgPlanarBound w h ≤ sgPlanarBound w' h') ∧
    (∀ (m : Bitmap) (out : List UInt8), m.w ≤ tile → m.h ≤ tile →
      Fits m out (sgPlanarBound tile tile)) := by
  refine ⟨fun v => ?_, fun m out hw hh => ⟨?_, ?_, ?_⟩, fun w w' h h' => sgPlanarBound_mono,
    fun m out hw hh => ?_⟩
  · rw [Nat.ceilDiv_eq_add_pred_div]
    exact length_rleLine_le v
  · have := (sgPlanarEncode_within m out).le_size
    simp only [rawSize] at this
    omega
  · exact fun hw1 hh1 => form_sgPlanarEncode m out ⟨hw1, hw⟩ ⟨hh1, hh⟩
  · exact fits_of_rawSize_le m out (rawSize_le_sgPlanarBound m.w m.h)
  · exact fits_of_rawSize_le m out
      (Nat.le_trans (rawSize_le_sgPlanarBound m.w m.h) (sgPlanarBound_mono hw hh))

theorem sgPlanarEncode_sizes_tile :
    (sgPlanarEncode ⟨fun a => UInt8.ofNat a, 256, tile, tile⟩ []).2 ≤ 12290 ∧
      Fits ⟨fun a => UInt8.ofNat a, 256, tile, tile⟩ [] (sgPlanarBound tile tile) :=
  ⟨(sgPlanarEncode_sizes.2.1 ⟨fun a => UInt8.ofNat a, 256, tile, tile⟩ [] (by decide)
      (by decide)).1,
    sgPlanarEncode_sizes.2.2.2 ⟨fun a => UInt8.ofNat a, 256, tile, tile⟩ [] (Nat.le_refl tile)
      (Nat.le_refl tile)⟩

end StainedGlass.Rdp.Planar
