import Mathlib

/-! The planar bitmap encoder, `rdp/sg-planar.c`; `out` is the caller's buffer. -/

namespace StainedGlass.Rdp.Planar

def hdrRle : UInt8 := 0x10
def hdrNa : UInt8 := 0x20
def maxSide : Nat := 8192

def rleLineBound (w : Nat) : Nat := w + (w + 14) / 15

def rawSize (w h : Nat) : Nat := 1 + 3 * w * h + 1

def sgPlanarBound (w h : Nat) : Nat :=
  let rle := 1 + 3 * h * rleLineBound w
  let raw := rawSize w h
  if rle > raw then rle else raw

def control (run raw : Nat) : UInt8 := UInt8.ofNat ((run &&& 0x0f) ||| ((raw &&& 0x0f) <<< 4))

def runOf (value : UInt8) : List UInt8 → Nat
  | [] => 0
  | v :: vs => if v = value then runOf value vs + 1 else 0

def runLoop (run : Nat) : List UInt8 × Nat :=
  if run < 3 then ([], 0)
  else if 32 ≤ run then
    let c := if 47 < run then 47 else run
    let r := runLoop (run - c)
    (control 2 (c - 32) :: r.1, c + r.2)
  else if 16 ≤ run then
    let r := runLoop (run - run)
    (control 1 (run - 16) :: r.1, run + r.2)
  else
    let r := runLoop (run - run)
    (control run 0 :: r.1, run + r.2)
termination_by run
decreasing_by all_goals (try split) <;> omega

def rawLoop (raw : Nat) : List UInt8 → Nat × Nat
  | [] => (raw, 0)
  | b :: vs =>
    if raw < 15 then
      let follow := runOf b vs
      if 3 ≤ follow then (raw + 1, follow) else rawLoop (raw + 1) vs
    else (raw, 0)

theorem le_rawLoop (raw : Nat) (vs : List UInt8) : raw ≤ (rawLoop raw vs).1 := by
  induction vs generalizing raw with
  | nil => simp [rawLoop]
  | cons b vs ih =>
    simp only [rawLoop]
    split
    · split
      · simp
      · exact Nat.le_of_succ_le (ih (raw + 1))
    · simp

theorem rawLoop_pos (b : UInt8) (vs : List UInt8) : 0 < (rawLoop 0 (b :: vs)).1 := by
  simp only [rawLoop, Nat.reduceLT, if_true]
  split
  · simp
  · exact le_rawLoop 1 vs

theorem runLoop_pos {run : Nat} (h : 3 ≤ run) : 0 < (runLoop run).2 := by
  rw [runLoop]
  simp only [Nat.not_lt.mpr h, if_false]
  have hpos : 0 < run := by omega
  split
  · split
    · simp
    · exact Nat.add_pos_left hpos _
  · split <;> exact Nat.add_pos_left hpos _

/-- `rle_line` from a position on: `vs` is what is left of the scanline, `last`
what a run repeats. -/
def rleFrom (last : UInt8) : List UInt8 → List UInt8
  | [] => []
  | v :: vs =>
    let run := runOf last (v :: vs)
    if h : 3 ≤ run then
      let r := runLoop run
      have _ : 0 < (runLoop (runOf last (v :: vs))).2 := runLoop_pos h
      r.1 ++ rleFrom last ((v :: vs).drop r.2)
    else
      let r := rawLoop 0 (v :: vs)
      let follow := if 15 < r.2 then 15 else r.2
      have _ := rawLoop_pos v vs
      control follow r.1 :: (v :: vs).take r.1 ++
        rleFrom ((v :: vs).getD (r.1 + follow - 1) 0) ((v :: vs).drop (r.1 + follow))
termination_by vs => vs.length
decreasing_by all_goals (simp only [List.length_drop, List.length_cons]; omega)

def rleLine (v : List UInt8) : List UInt8 := rleFrom 0 v

def foldDelta (cur above : UInt8) : UInt8 :=
  let d : Int := (cur - above).toInt8.toInt
  if 0 ≤ d then UInt8.ofNat (2 * d).toNat else UInt8.ofNat (2 * -d - 1).toNat

def copyTo (out : List UInt8) (n : Nat) (bs : List UInt8) : List UInt8 :=
  out.take n ++ bs ++ out.drop (n + bs.length)

structure Bitmap where
  pixels : Nat → UInt8
  stride : Nat
  w : Nat
  h : Nat

def Bitmap.line (m : Bitmap) (byte y : Nat) : List UInt8 :=
  (List.range m.w).map fun x => m.pixels ((m.h - 1 - y) * m.stride + (x * 4 + byte))

structure Scan where
  above : List UInt8
  out : List UInt8
  n : Nat

def rleScanline (m : Bitmap) (byte : Nat) (st : Scan) (y : Nat) : Except (List UInt8) Scan :=
  let line := m.line byte y
  let coded := if y ≠ 0 then List.zipWith foldDelta line st.above else line
  if st.n + rleLineBound m.w > rawSize m.w m.h then .error st.out
  else
    let bytes := rleLine coded
    .ok ⟨line, copyTo st.out st.n bytes, st.n + bytes.length⟩

def rlePlane (m : Bitmap) (st : Scan) (plane : Nat) : Except (List UInt8) Scan :=
  (List.range m.h).foldlM (rleScanline m (2 - plane)) st

def rlePlanes (m : Bitmap) (st : Scan) : Except (List UInt8) Scan :=
  (List.range 3).foldlM (rlePlane m) st

def rawScanline (m : Bitmap) (byte : Nat) (st : List UInt8 × Nat) (y : Nat) : List UInt8 × Nat :=
  let line := m.line byte y
  (copyTo st.1 st.2 line, st.2 + line.length)

def rawPlane (m : Bitmap) (st : List UInt8 × Nat) (plane : Nat) : List UInt8 × Nat :=
  (List.range m.h).foldl (rawScanline m (2 - plane)) st

def rawPlanes (m : Bitmap) (out : List UInt8) : List UInt8 × Nat :=
  let st := (List.range 3).foldl (rawPlane m) (copyTo out 0 [hdrNa], 1)
  (copyTo st.1 st.2 [0], st.2 + 1)

def sgPlanarEncode (m : Bitmap) (out : List UInt8) : List UInt8 × Nat :=
  if m.w = 0 ∨ m.h = 0 ∨ maxSide < m.w ∨ maxSide < m.h then (out, 0)
  else
    match rlePlanes m ⟨[], copyTo out 0 [hdrNa ||| hdrRle], 1⟩ with
    | .ok st => if st.n < rawSize m.w m.h then (st.out, st.n) else rawPlanes m st.out
    | .error out => rawPlanes m out

end StainedGlass.Rdp.Planar
