import Mathlib

/-! The stream format as the header comment of `rdp/sg-planar.c` states it. Nothing here refers to the encoder. -/

namespace StainedGlass.Rdp.PlanarStream

structure Header where
  cll : UInt8
  cs : Bool
  rle : Bool
  na : Bool
  deriving DecidableEq

def Header.ofByte (b : UInt8) : Header where
  cll := b &&& 0x07
  cs := b &&& 0x08 ≠ 0
  rle := b &&& 0x10 ≠ 0
  na := b &&& 0x20 ≠ 0

structure Segment where
  raw : Nat
  run : Nat
  deriving DecidableEq

def Segment.ofByte (c : UInt8) : Segment :=
  let nRunLength := (c &&& 0x0f).toNat
  let cRawBytes := (c >>> 4).toNat
  if nRunLength = 1 then ⟨0, cRawBytes + 16⟩
  else if nRunLength = 2 then ⟨0, cRawBytes + 32⟩
  else ⟨cRawBytes, nRunLength⟩

/-- `need` values are lacking; `last` is what a run repeats. A segment across the end is refused. -/
def readSegments (need : Nat) (last : UInt8) : List UInt8 → Option (List UInt8 × List UInt8)
  | [] => if need = 0 then some ([], []) else none
  | c :: bytes =>
    if need = 0 then some ([], c :: bytes)
    else
      let seg := Segment.ofByte c
      if seg.raw + seg.run ≤ need ∧ seg.raw ≤ bytes.length then
        let raws := bytes.take seg.raw
        let last := raws.getLastD last
        (readSegments (need - (seg.raw + seg.run)) last (bytes.drop seg.raw)).map fun r =>
          (raws ++ List.replicate seg.run last ++ r.1, r.2)
      else none
termination_by bytes => bytes.length

def unfoldDelta (code above : UInt8) : UInt8 :=
  if code % 2 = 0 then above + code / 2 else above - (code / 2 + 1)

def readScanlines (w : Nat) : Nat → Option (List UInt8) → List UInt8 →
    Option (List (List UInt8) × List UInt8)
  | 0, _, bytes => some ([], bytes)
  | k + 1, above, bytes => do
    let (values, bytes) ← readSegments w 0 bytes
    let line := match above with
      | none => values
      | some above => List.zipWith unfoldDelta values above
    let (lines, bytes) ← readScanlines w k (some line) bytes
    return (line :: lines, bytes)

def readRaw (w : Nat) : Nat → List UInt8 → Option (List (List UInt8) × List UInt8)
  | 0, bytes => some ([], bytes)
  | k + 1, bytes => do
    guard (w ≤ bytes.length)
    let (lines, rest) ← readRaw w k (bytes.drop w)
    return (bytes.take w :: lines, rest)

def readPlane (hdr : Header) (w h : Nat) (bytes : List UInt8) :
    Option (List (List UInt8) × List UInt8) :=
  if hdr.rle then readScanlines w h none bytes else readRaw w h bytes

structure Picture where
  red : List (List UInt8)
  green : List (List UInt8)
  blue : List (List UInt8)
  deriving DecidableEq

def decode (w h : Nat) : List UInt8 → Option Picture
  | [] => none
  | b :: bytes => do
    let hdr := Header.ofByte b
    guard (hdr.cll = 0 ∧ ¬ hdr.cs)
    let bytes ← if hdr.na then some bytes else (readPlane hdr w h bytes).map Prod.snd
    let (red, bytes) ← readPlane hdr w h bytes
    let (green, bytes) ← readPlane hdr w h bytes
    let (blue, bytes) ← readPlane hdr w h bytes
    guard (bytes.length = if hdr.rle then 0 else 1)
    return ⟨red.reverse, green.reverse, blue.reverse⟩

end StainedGlass.Rdp.PlanarStream
