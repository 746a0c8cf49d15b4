import StainedGlass.Rdp.Planar
import StainedGlass.Rdp.PlanarStream

namespace StainedGlass.Rdp.Planar

open PlanarStream

theorem ofByte_control (hrun : run = 0 ∨ 3 ≤ run ∧ run ≤ 15) (hraw : raw ≤ 15) :
    Segment.ofByte (control run raw) = ⟨raw, run⟩ := by
  have h : ∀ run < 16, ∀ raw < 16, (run = 0 ∨ 3 ≤ run) →
      Segment.ofByte (control run raw) = ⟨raw, run⟩ := by decide
  exact h run (by omega) raw (by omega) (by omega)

theorem ofByte_control_one (hk : k ≤ 15) : Segment.ofByte (control 1 k) = ⟨0, k + 16⟩ := by
  have h : ∀ k < 16, Segment.ofByte (control 1 k) = ⟨0, k + 16⟩ := by decide
  exact h k (by omega)

theorem ofByte_control_two (hk : k ≤ 15) : Segment.ofByte (control 2 k) = ⟨0, k + 32⟩ := by
  have h : ∀ k < 16, Segment.ofByte (control 2 k) = ⟨0, k + 32⟩ := by decide
  exact h k (by omega)

theorem unfoldDelta_add (code above : UInt8) :
    unfoldDelta code above = above + unfoldDelta code 0 := by
  simp only [unfoldDelta]
  split
  · simp
  · simp [UInt8.sub_eq_add_neg]

theorem unfoldDelta_foldDelta (cur above : UInt8) :
    unfoldDelta (foldDelta cur above) above = cur := by
  have h : ∀ n < 256, unfoldDelta (foldDelta (UInt8.ofNat n) 0) 0 = UInt8.ofNat n := by
    decide +kernel
  have hdelta : foldDelta cur above = foldDelta (cur - above) 0 := by simp [foldDelta]
  have hn := h (cur - above).toNat (UInt8.toNat_lt _)
  rw [UInt8.ofNat_toNat] at hn
  rw [unfoldDelta_add, hdelta, hn, UInt8.add_comm, UInt8.sub_add_cancel]

theorem zipWith_unfoldDelta {cur above : List UInt8} (h : cur.length = above.length) :
    List.zipWith unfoldDelta (List.zipWith foldDelta cur above) above = cur := by
  induction cur generalizing above with
  | nil => simp
  | cons c cur ih =>
    cases above with
    | nil => simp at h
    | cons a above => simp [unfoldDelta_foldDelta, ih (by simpa using h)]

theorem runOf_le (value : UInt8) (vs : List UInt8) : runOf value vs ≤ vs.length := by
  induction vs with
  | nil => simp [runOf]
  | cons v vs ih =>
    simp only [runOf, List.length_cons]
    split <;> omega

theorem replicate_append_drop {vs : List UInt8}
    (h : k ≤ runOf value vs) : List.replicate k value ++ vs.drop k = vs := by
  induction vs generalizing k with
  | nil =>
    obtain rfl : k = 0 := by simpa [runOf] using h
    simp
  | cons v vs ih =>
    cases k with
    | zero => simp
    | succ k =>
      simp only [runOf] at h
      split at h
      · next hv =>
        subst hv
        simp [List.replicate_succ, ih (Nat.le_of_succ_le_succ h)]
      · omega

theorem runLoop_le (run : Nat) : (runLoop run).2 ≤ run := by
  induction run using Nat.strongRecOn with
  | ind run ih =>
    rw [runLoop]
    split
    · simp
    · split
      · have hc : (if 47 < run then 47 else run) ≤ run ∧ 32 ≤ (if 47 < run then 47 else run) := by
          split <;> omega
        have := ih (run - (if 47 < run then 47 else run)) (by omega)
        simp only
        omega
      · have := ih (run - run) (by omega)
        split <;> simp only <;> omega

theorem readSegments_run (hc : Segment.ofByte c = ⟨0, k⟩) (hk : 0 < k) (hneed : k ≤ need) :
    readSegments need last (c :: bytes) =
      (readSegments (need - k) last bytes).map fun r => (List.replicate k last ++ r.1, r.2) := by
  have hneed' : need ≠ 0 := by omega
  rw [readSegments]
  simp [hc, hneed, hneed']

theorem readSegments_runLoop (run need : Nat) (last : UInt8) (bytes : List UInt8)
    (h : (runLoop run).2 ≤ need) :
    readSegments need last ((runLoop run).1 ++ bytes) =
      (readSegments (need - (runLoop run).2) last bytes).map fun r =>
        (List.replicate (runLoop run).2 last ++ r.1, r.2) := by
  induction run using Nat.strongRecOn generalizing need with
  | ind run ih =>
    have step : ∀ c k, 0 < k → k ≤ run → Segment.ofByte c = ⟨0, k⟩ →
        (runLoop run) = (c :: (runLoop (run - k)).1, k + (runLoop (run - k)).2) →
        readSegments need last ((runLoop run).1 ++ bytes) =
          (readSegments (need - (runLoop run).2) last bytes).map fun r =>
            (List.replicate (runLoop run).2 last ++ r.1, r.2) := by
      intro c k hk hle hc heq
      rw [heq] at h ⊢
      simp only at h ⊢
      rw [List.cons_append, readSegments_run hc hk (by omega),
        ih (run - k) (by omega) (need - k) (by omega), Option.map_map, Nat.sub_sub]
      congr 1
      funext r
      simp only [Function.comp_apply, List.replicate_add, List.append_assoc]
    by_cases h3 : run < 3
    · rw [runLoop]
      simp [h3]
    by_cases h32 : 32 ≤ run
    · have hc : (if 47 < run then 47 else run) ≤ 47 ∧ 32 ≤ (if 47 < run then 47 else run) ∧
          (if 47 < run then 47 else run) ≤ run := by split <;> omega
      refine step (control 2 ((if 47 < run then 47 else run) - 32)) _ (by omega) hc.2.2 ?_
        (by rw [runLoop]; simp [h3, h32])
      rw [ofByte_control_two (by omega)]
      congr 1
      omega
    by_cases h16 : 16 ≤ run
    · refine step (control 1 (run - 16)) run (by omega) (Nat.le_refl run) ?_
        (by rw [runLoop]; simp [h3, h32, h16])
      rw [ofByte_control_one (by omega)]
      congr 1
      omega
    · exact step (control run 0) run (by omega) (Nat.le_refl run)
        (ofByte_control (.inr ⟨by omega, by omega⟩) (by omega))
        (by rw [runLoop]; simp [h3, h32, h16])

structure RawSpec (start : Nat) (vs : List UInt8) (r : Nat × Nat) : Prop where
  le_length : r.1 ≤ start + vs.length
  le_fifteen : start ≤ 15 → r.1 ≤ 15
  follow : r.2 = 0 ∨ 3 ≤ r.2 ∧ ∃ k, r.1 = start + (k + 1) ∧ ∃ b, vs[k]? = some b ∧
    r.2 = runOf b (vs.drop (k + 1))

theorem rawLoop_spec (start : Nat) (vs : List UInt8) : RawSpec start vs (rawLoop start vs) := by
  induction vs generalizing start with
  | nil => exact ⟨by simp [rawLoop], by simp [rawLoop], .inl (by simp [rawLoop])⟩
  | cons b vs ih =>
    simp only [rawLoop]
    split
    · split
      · next hfollow =>
        refine ⟨by simp, by omega, .inr ⟨hfollow, 0, rfl, b, by simp, by simp⟩⟩
      · obtain ⟨hlen, hfifteen, hfollow⟩ := ih (start + 1)
        refine ⟨by simp only [List.length_cons]; omega, fun _ => hfifteen (by omega), ?_⟩
        obtain h | ⟨h3, k, hk, b', hb', hrun⟩ := hfollow
        · exact .inl h
        · exact .inr ⟨h3, k + 1, by omega, b', by simpa using hb', by simpa using hrun⟩
    · exact ⟨by simp, by simp, .inl rfl⟩

theorem RawSpec.split {vs : List UInt8} {r : Nat × Nat} (h : RawSpec 0 vs r) (hpos : 0 < r.1)
    {follow : Nat} (hfollow : follow ≤ r.2) (last : UInt8) :
    vs.take r.1 ++ List.replicate follow ((vs.take r.1).getLastD last) ++
        vs.drop (r.1 + follow) = vs ∧
      vs.getD (r.1 + follow - 1) 0 = (vs.take r.1).getLastD last := by
  obtain ⟨raw, run⟩ := r
  obtain ⟨n, rfl⟩ : ∃ n, raw = n + 1 := ⟨raw - 1, by simp only at hpos; omega⟩
  have hn : n < vs.length := by
    have := h.le_length
    simp only at this
    omega
  have hlast : (vs.take (n + 1)).getLastD last = vs[n] := by
    rw [List.take_succ_eq_append_getElem hn, List.getLastD_concat]
  have hsplit : List.replicate follow vs[n] ++ vs.drop (n + 1 + follow) = vs.drop (n + 1) := by
    rw [← List.drop_drop]
    apply replicate_append_drop
    obtain h0 | ⟨-, k, hk, b, hb, hrun⟩ := h.follow
    · simp only at h0 hfollow
      omega
    · obtain rfl : k = n := by simp only at hk; omega
      obtain rfl : vs[k] = b := by simpa [List.getElem?_eq_getElem hn] using hb
      exact hrun ▸ hfollow
  simp only [hlast]
  refine ⟨by rw [List.append_assoc, hsplit, List.take_append_drop], ?_⟩
  cases follow with
  | zero => simp [List.getD_eq_getElem?_getD, List.getElem?_eq_getElem hn]
  | succ m =>
    have hidx := congrArg (fun l => l[m]?) hsplit
    simp only [List.getElem?_append, List.length_replicate, Nat.lt_succ_self, if_true,
      List.getElem?_replicate, List.getElem?_drop] at hidx
    rw [List.getD_eq_getElem?_getD, show n + 1 + (m + 1) - 1 = n + 1 + m by omega, ← hidx]
    rfl

theorem readSegments_raw {raws bytes : List UInt8} (hc : Segment.ofByte c = ⟨raws.length, run⟩) (hpos : 0 < raws.length)
    (hneed : raws.length + run ≤ need) : readSegments need last (c :: (raws ++ bytes)) =
      (readSegments (need - (raws.length + run)) (raws.getLastD last) bytes).map fun r =>
        (raws ++ List.replicate run (raws.getLastD last) ++ r.1, r.2) := by
  have hneed' : need ≠ 0 := by omega
  rw [readSegments]
  simp [hc, hneed, hneed']

theorem readSegments_zero (last : UInt8) (bytes : List UInt8) :
    readSegments 0 last bytes = some ([], bytes) := by
  cases bytes <;> simp [readSegments]

theorem readSegments_run_turn {vs tail : List UInt8}
    (ih : readSegments (vs.drop (runLoop (runOf last vs)).2).length last
      (rleFrom last (vs.drop (runLoop (runOf last vs)).2) ++ tail) = some (vs.drop (runLoop (runOf last vs)).2, tail)) :
    readSegments vs.length last ((runLoop (runOf last vs)).1 ++
      rleFrom last (vs.drop (runLoop (runOf last vs)).2) ++ tail) = some (vs, tail) := by
  have hused := runLoop_le (runOf last vs)
  have hrun := runOf_le last vs
  rw [List.length_drop] at ih
  rw [List.append_assoc, readSegments_runLoop _ _ last _ (by omega), ih]
  simp [replicate_append_drop hused]

theorem readSegments_raw_turn {last : UInt8} {vs tail : List UInt8} {r : Nat × Nat} {follow : Nat}
    (h : RawSpec 0 vs r) (hpos : 0 < r.1) (hfollow : follow = if 15 < r.2 then 15 else r.2)
    (ih : readSegments (vs.drop (r.1 + follow)).length (vs.getD (r.1 + follow - 1) 0)
      (rleFrom (vs.getD (r.1 + follow - 1) 0) (vs.drop (r.1 + follow)) ++ tail) =
        some (vs.drop (r.1 + follow), tail)) :
    readSegments vs.length last (control follow r.1 :: vs.take r.1 ++
      rleFrom (vs.getD (r.1 + follow - 1) 0) (vs.drop (r.1 + follow)) ++ tail) =
        some (vs, tail) := by
  have hle : follow ≤ r.2 := by rw [hfollow]; split <;> omega
  obtain ⟨hsplit, hlast⟩ := h.split hpos hle last
  have htake : (vs.take r.1).length = r.1 := by
    have := h.le_length
    rw [List.length_take]
    omega
  have hc : Segment.ofByte (control follow r.1) = ⟨(vs.take r.1).length, follow⟩ := by
    rw [htake]
    refine ofByte_control ?_ (h.le_fifteen (by omega))
    obtain h0 | ⟨h3, -⟩ := h.follow
    · exact .inl (by omega)
    · exact .inr (by rw [hfollow]; split <;> omega)
  have htotal : r.1 + follow ≤ vs.length := by
    have := congrArg List.length hsplit
    simp only [List.length_append, List.length_replicate, htake] at this
    omega
  rw [List.length_drop] at ih
  rw [List.cons_append, List.cons_append, List.append_assoc,
    readSegments_raw hc (by rw [htake]; exact hpos) (by rw [htake]; exact htotal),
    htake, ← hlast, ih]
  simp only [Option.map_some, Option.some.injEq, Prod.mk.injEq, and_true]
  rw [hlast]
  exact hsplit

theorem readSegments_rleFrom (last : UInt8) (vs tail : List UInt8) :
    readSegments vs.length last (rleFrom last vs ++ tail) = some (vs, tail) := by
  fun_induction rleFrom last vs with
  | case1 last => exact readSegments_zero last tail
  | case2 last v vs run h r _ ih => exact readSegments_run_turn ih
  | case3 last v vs run h r follow _ ih =>
    exact readSegments_raw_turn (rawLoop_spec 0 (v :: vs)) (rawLoop_pos v vs) rfl ih

theorem readSegments_rleLine {v : List UInt8} (h : v.length = w) (tail : List UInt8) :
    readSegments w 0 (rleLine v ++ tail) = some (v, tail) := by
  subst h
  exact readSegments_rleFrom 0 v tail

def Written (out : List UInt8) (n : Nat) (bs : List UInt8) : Prop :=
  n = bs.length ∧ ∃ rest, out = bs ++ rest

theorem Written.copyTo (h : Written out n bs) (cs : List UInt8) :
    Written (copyTo out n cs) (n + cs.length) (bs ++ cs) := by
  obtain ⟨rfl, rest, rfl⟩ := h
  exact ⟨by simp, rest.drop cs.length, by simp [Planar.copyTo]⟩

theorem Written.header (out : List UInt8) (b : UInt8) : Written (Planar.copyTo out 0 [b]) 1 [b] :=
  ⟨rfl, out.drop 1, by simp [Planar.copyTo]⟩

theorem Written.take {out bs : List UInt8} (h : Written out n bs) : out.take n = bs := by
  obtain ⟨rfl, rest, rfl⟩ := h
  simp

@[simp] theorem Bitmap.length_line (m : Bitmap) (byte y : Nat) : (m.line byte y).length = m.w := by
  simp [Bitmap.line]

def Bitmap.codedLine (m : Bitmap) (byte y : Nat) : List UInt8 :=
  if y ≠ 0 then List.zipWith foldDelta (m.line byte y) (m.line byte (y - 1)) else m.line byte y

@[simp] theorem Bitmap.length_codedLine (m : Bitmap) (byte y : Nat) :
    (m.codedLine byte y).length = m.w := by
  rw [codedLine]
  split <;> simp

variable {bs : List UInt8} {st st' : Scan} {m : Bitmap}

theorem rleScanline_ok (hok : rleScanline m byte st y = .ok st') (hst : Written st.out st.n bs)
    (habove : y ≠ 0 → st.above = m.line byte (y - 1)) :
    Written st'.out st'.n (bs ++ rleLine (m.codedLine byte y)) ∧ st'.above = m.line byte y := by
  have hcoded : (if y ≠ 0 then List.zipWith foldDelta (m.line byte y) st.above
      else m.line byte y) = m.codedLine byte y := by
    rw [Bitmap.codedLine]
    split
    · next hy => rw [habove hy]
    · rfl
  simp only [rleScanline, hcoded] at hok
  split at hok
  · cases hok
  · obtain rfl := Except.ok.inj hok
    exact ⟨hst.copyTo _, rfl⟩

theorem rleScanlines_ok (hok : (List.range' y k).foldlM (rleScanline m byte) st = .ok st')
    (hst : Written st.out st.n bs) (habove : y ≠ 0 → st.above = m.line byte (y - 1)) : Written st'.out st'.n
      (bs ++ (List.range' y k).flatMap fun y => rleLine (m.codedLine byte y)) := by
  induction k generalizing y st bs with
  | zero =>
    obtain rfl := Except.ok.inj hok
    simpa using hst
  | succ k ih =>
    rw [List.range'_succ, List.foldlM_cons] at hok
    cases hline : rleScanline m byte st y with
    | error out => simp [hline, bind, Except.bind] at hok
    | ok mid =>
      obtain ⟨hmid, hmidAbove⟩ := rleScanline_ok hline hst habove
      have hrest : (List.range' (y + 1) k).foldlM (rleScanline m byte) mid = .ok st' := by
        simpa [hline, bind, Except.bind] using hok
      have := ih hrest hmid (fun _ => by simpa using hmidAbove)
      simpa [List.range'_succ] using this

def Bitmap.rleBytes (m : Bitmap) (byte : Nat) : List UInt8 :=
  (List.range m.h).flatMap fun y => rleLine (m.codedLine byte y)

def Bitmap.rawBytes (m : Bitmap) (byte : Nat) : List UInt8 :=
  (List.range m.h).flatMap fun y => m.line byte y

theorem rlePlane_ok (hok : rlePlane m st plane = .ok st') (hst : Written st.out st.n bs) :
    Written st'.out st'.n (bs ++ m.rleBytes (2 - plane)) := by
  rw [rlePlane, List.range_eq_range'] at hok
  have := rleScanlines_ok hok hst (fun h => absurd rfl h)
  simpa [Bitmap.rleBytes, List.range_eq_range'] using this

theorem rlePlanes_ok
    (hok : rlePlanes m st = .ok st') (hst : Written st.out st.n bs) :
    Written st'.out st'.n (bs ++ (m.rleBytes 2 ++ (m.rleBytes 1 ++ m.rleBytes 0))) := by
  rw [rlePlanes, show List.range 3 = [0, 1, 2] from rfl] at hok
  cases h0 : rlePlane m st 0 with
  | error out => simp [h0, bind, Except.bind] at hok
  | ok st0 =>
    cases h1 : rlePlane m st0 1 with
    | error out => simp [h0, h1, bind, Except.bind] at hok
    | ok st1 =>
      have h2 : rlePlane m st1 2 = .ok st' := by
        cases h2 : rlePlane m st1 2 <;> simp [h0, h1, h2, bind, Except.bind, pure, Except.pure] at hok ⊢
        exact hok
      have := rlePlane_ok h2 (rlePlane_ok h1 (rlePlane_ok h0 hst))
      simpa using this

theorem rawPlane_written (m : Bitmap) (plane : Nat) (st : List UInt8 × Nat)
    (hst : Written st.1 st.2 bs) :
    Written (rawPlane m st plane).1 (rawPlane m st plane).2 (bs ++ m.rawBytes (2 - plane)) := by
  rw [rawPlane, Bitmap.rawBytes]
  induction List.range m.h generalizing st bs with
  | nil => simpa using hst
  | cons y ys ih =>
    have := ih (rawScanline m (2 - plane) st y) (hst.copyTo _)
    simpa using this

theorem rawPlanes_written (m : Bitmap) (out : List UInt8) :
    Written (rawPlanes m out).1 (rawPlanes m out).2
      (hdrNa :: (m.rawBytes 2 ++ (m.rawBytes 1 ++ (m.rawBytes 0 ++ [0])))) := by
  have hred := rawPlane_written m 0 (copyTo out 0 [hdrNa], 1) (Written.header out hdrNa)
  have h := (rawPlane_written m 2 _ (rawPlane_written m 1 _ hred)).copyTo [0]
  simpa [rawPlanes, show List.range 3 = [0, 1, 2] from rfl] using h

theorem sgPlanarEncode_written (m : Bitmap) (out : List UInt8) (hw : 1 ≤ m.w ∧ m.w ≤ maxSide)
    (hh : 1 ≤ m.h ∧ m.h ≤ maxSide) :
    Written (sgPlanarEncode m out).1 (sgPlanarEncode m out).2
        ((hdrNa ||| hdrRle) :: (m.rleBytes 2 ++ (m.rleBytes 1 ++ m.rleBytes 0))) ∨
      Written (sgPlanarEncode m out).1 (sgPlanarEncode m out).2
        (hdrNa :: (m.rawBytes 2 ++ (m.rawBytes 1 ++ (m.rawBytes 0 ++ [0])))) := by
  have hsides : ¬ (m.w = 0 ∨ m.h = 0 ∨ maxSide < m.w ∨ maxSide < m.h) := by omega
  rw [sgPlanarEncode, if_neg hsides]
  cases hrle : rlePlanes m ⟨[], copyTo out 0 [hdrNa ||| hdrRle], 1⟩ with
  | error out' => exact .inr (rawPlanes_written m out')
  | ok st =>
    simp only
    split
    · exact .inl (rlePlanes_ok hrle (Written.header out _))
    · exact .inr (rawPlanes_written m st.out)

theorem readScanlines_rle (m : Bitmap) (byte k y : Nat) (tail : List UInt8) :
    readScanlines m.w k (if y = 0 then none else some (m.line byte (y - 1)))
        (((List.range' y k).flatMap fun y => rleLine (m.codedLine byte y)) ++ tail) =
      some ((List.range' y k).map (m.line byte), tail) := by
  induction k generalizing y with
  | zero => rfl
  | succ k ih =>
    have hread := readSegments_rleLine (m.length_codedLine byte y)
      (((List.range' (y + 1) k).flatMap fun y => rleLine (m.codedLine byte y)) ++ tail)
    have hrest := ih (y + 1)
    simp only [Nat.add_eq_zero_iff, Nat.one_ne_zero, and_false, if_false, Nat.add_sub_cancel] at hrest
    rw [List.range'_succ, List.flatMap_cons, List.append_assoc, readScanlines, hread]
    cases y with
    | zero =>
      have hline : m.codedLine byte 0 = m.line byte 0 := rfl
      simp [hline, hrest]
    | succ y =>
      have hline : List.zipWith unfoldDelta (m.codedLine byte (y + 1)) (m.line byte y) =
          m.line byte (y + 1) := by
        simp [Bitmap.codedLine, zipWith_unfoldDelta]
      simp [hline, hrest]

theorem readRaw_raw (m : Bitmap) (byte : Nat) (ys : List Nat) (tail : List UInt8) :
    readRaw m.w ys.length ((ys.flatMap fun y => m.line byte y) ++ tail) =
      some (ys.map (m.line byte), tail) := by
  induction ys with
  | nil => rfl
  | cons y ys ih =>
    have hdrop : ((m.line byte y) ++ ((ys.flatMap fun y => m.line byte y) ++ tail)).drop m.w =
        (ys.flatMap fun y => m.line byte y) ++ tail := List.drop_left' (m.length_line byte y)
    have htake : ((m.line byte y) ++ ((ys.flatMap fun y => m.line byte y) ++ tail)).take m.w =
        m.line byte y := List.take_left' (m.length_line byte y)
    rw [List.flatMap_cons, List.append_assoc, List.length_cons, readRaw, hdrop, htake, ih]
    simp [guard]

def Bitmap.channel (m : Bitmap) (byte : Nat) : List (List UInt8) :=
  (List.range m.h).map fun y => (List.range m.w).map fun x =>
    m.pixels (y * m.stride + (x * 4 + byte))

theorem Bitmap.reverse_lines (m : Bitmap) (byte : Nat) :
    ((List.range m.h).map (m.line byte)).reverse = m.channel byte := by
  rw [channel, ← List.map_reverse]
  apply List.ext_getElem
  · simp
  · intro y h₁ h₂
    have hy : y < m.h := by simpa using h₂
    simp only [List.getElem_map, List.getElem_reverse, List.getElem_range, List.length_range, line]
    rw [show m.h - 1 - (m.h - 1 - y) = y by omega]

theorem readPlane_rle (hdr : Header) (hrle : hdr.rle = true) (m : Bitmap) (byte : Nat)
    (tail : List UInt8) :
    readPlane hdr m.w m.h (m.rleBytes byte ++ tail) =
      some ((List.range m.h).map (m.line byte), tail) := by
  have := readScanlines_rle m byte m.h 0 tail
  simpa [readPlane, hrle, Bitmap.rleBytes, List.range_eq_range'] using this

theorem readPlane_raw (hdr : Header) (hrle : hdr.rle = false) (m : Bitmap) (byte : Nat)
    (tail : List UInt8) :
    readPlane hdr m.w m.h (m.rawBytes byte ++ tail) =
      some ((List.range m.h).map (m.line byte), tail) := by
  have := readRaw_raw m byte (List.range m.h) tail
  simpa [readPlane, hrle, Bitmap.rawBytes] using this

/-- Every bitmap survives; the stride does not matter. -/
theorem decode_sgPlanarEncode (m : Bitmap) (out : List UInt8) (hw : 1 ≤ m.w ∧ m.w ≤ maxSide)
    (hh : 1 ≤ m.h ∧ m.h ≤ maxSide) :
    (sgPlanarEncode m out).2 ≤ (sgPlanarEncode m out).1.length ∧
      decode m.w m.h ((sgPlanarEncode m out).1.take (sgPlanarEncode m out).2) =
        some ⟨m.channel 2, m.channel 1, m.channel 0⟩ := by
  obtain h | h := sgPlanarEncode_written m out hw hh
  · refine ⟨by obtain ⟨hn, rest, hout⟩ := h; simp [hn, hout], ?_⟩
    have hhdr : Header.ofByte (hdrNa ||| hdrRle) = ⟨0, false, true, true⟩ := by decide
    have hblue := readPlane_rle ⟨0, false, true, true⟩ rfl m 0 []
    rw [List.append_nil] at hblue
    rw [h.take, decode, hhdr]
    simp [readPlane_rle, hblue, m.reverse_lines, guard]
  · refine ⟨by obtain ⟨hn, rest, hout⟩ := h; simp [hn, hout], ?_⟩
    have hhdr : Header.ofByte hdrNa = ⟨0, false, false, true⟩ := by decide
    rw [h.take, decode, hhdr]
    simp [readPlane_raw, m.reverse_lines, guard]

theorem decode_sgPlanarEncode_pair :
    let m : Bitmap := ⟨UInt8.ofNat, 8, 2, 1⟩
    decode 2 1 ((sgPlanarEncode m []).1.take (sgPlanarEncode m []).2) =
      some ⟨[[2, 6]], [[1, 5]], [[0, 4]]⟩ :=
  (decode_sgPlanarEncode ⟨UInt8.ofNat, 8, 2, 1⟩ [] (by decide) (by decide)).2

end StainedGlass.Rdp.Planar
