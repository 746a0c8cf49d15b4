import StainedGlass.Lib.Text

/-! Where `bin/sg-install` can put a system. -/

namespace StainedGlass.Setup

open Lib

def mib : Nat := 1024 * 1024

def gib : Nat := 1024 * mib

def minRootBytes : Nat := 10 * gib

def espBytes : Nat := 512 * mib

def xbootBytes : Nat := gib

structure DumpLine where
  number : Nat
  start : Nat
  size : Nat
  more : List Str
  deriving DecidableEq

def padded (n : Nat) : Str := List.replicate (12 - (dec n).length) 32 ++ dec n

def DumpLine.text (l : DumpLine) : Str :=
  str "start=" ++ padded l.start ++ (str ", size=" ++ padded l.size) ++ l.more.flatMap fun f => str ", " ++ f

structure SectorDisk where
  sector : Nat
  bytes : Nat
  firstLba : Option Nat
  lastLba : Option Nat
  lines : List DumpLine
  sector_dvd : sector ∣ mib

def awkFields (line : Str) : List Str :=
  ((line.splitOn 44).take 1) ++ ((line.splitOn 44).drop 1).map fun f => f.dropWhile (· = 32)

def fieldKey (f : Str) : Str := ((f.splitOn 61).headD []).filter (· ≠ 32)

def fieldValue (f : Str) : Str := ((f.splitOn 61).tail.headD []).filter fun c => c ≠ 32 ∧ c ≠ 34

structure Row where
  number : Nat
  start : Str
  size : Str
  type : Str
  uuid : Str
  deriving DecidableEq

def Row.set (r : Row) (f : Str) : Row :=
  if fieldKey f = str "start" then { r with start := fieldValue f }
  else if fieldKey f = str "size" then { r with size := fieldValue f }
  else if fieldKey f = str "type" then { r with type := (fieldValue f).map asciiLower }
  else if fieldKey f = str "uuid" then { r with uuid := (fieldValue f).map asciiLower }
  else r

def DumpLine.row (l : DumpLine) : Row := (awkFields l.text).foldl Row.set ⟨l.number, [], [], [], []⟩

def isDigitChar (c : Nat) : Bool := 48 ≤ c && c ≤ 57

def digitOf (c : Nat) : Option Nat := if isDigitChar c then some (c - 48) else none

def column (s : Str) : Option Nat := if s = [] then none else digitsValue digitOf s

def Row.extent (r : Row) : Option (Int × Int) := do
  let start ← column r.start
  let size ← column r.size
  return (start, size)

def byStart (a b : Int × Int) : Prop := a.1 ≤ b.1

instance : DecidableRel byStart := fun a b => inferInstanceAs (Decidable (a.1 ≤ b.1))

def SectorDisk.partsOf (d : SectorDisk) : Option (List (Int × Int)) :=
  (d.lines.mapM fun (l : DumpLine) => l.row.extent).map fun es => es.insertionSort byStart

def SectorDisk.first (d : SectorDisk) : Int := (d.firstLba.getD (mib / d.sector) : Nat)

def SectorDisk.last (d : SectorDisk) : Int :=
  match d.lastLba with
  | some l => l
  | none => ((d.bytes / d.sector : Nat) : Int) - 34

structure Region where
  start : Int
  sectors : Int
  deriving DecidableEq

def Region.stop (r : Region) : Int := r.start + r.sectors

def emit (align min s e : Int) : List Region :=
  let s := (s + align - 1).tdiv align * align
  let n := (e - s + 1).tdiv align * align
  if min ≤ n then [⟨s, n⟩] else []

def sweepFrom (align min last : Int) : Int → List (Int × Int) → List Region
  | pos, [] => if pos ≤ last then emit align min pos last else []
  | pos, (start, size) :: es =>
    (if pos < start then emit align min pos (start - 1) else []) ++
      sweepFrom align min last (if pos < start + size then start + size else pos) es

def SectorDisk.align (d : SectorDisk) : Int := (mib / d.sector : Nat)

def SectorDisk.least (d : SectorDisk) : Int := (16 * mib / d.sector : Nat)

def SectorDisk.freeRegions (d : SectorDisk) : Option (List Region) :=
  d.partsOf.map (sweepFrom d.align d.least d.last d.first)

def bootBytes (hasEsp : Bool) : Nat := if hasEsp then xbootBytes else espBytes

def SectorDisk.freeParts (d : SectorDisk) (hasEsp : Bool) (r : Region) : Option (List Region) := do
  let rs ← d.freeRegions
  let need : Int := ((bootBytes hasEsp + minRootBytes) / d.sector : Nat)
  let boot : Int := (bootBytes hasEsp / d.sector : Nat)
  if r ∈ rs ∧ need ≤ r.sectors then
    some [⟨r.start, boot⟩, ⟨r.start + boot, r.sectors - boot⟩]
  else none

def SectorDisk.fresh (d : SectorDisk) (firstLba lastLba : Nat) : SectorDisk :=
  { d with firstLba := some firstLba, lastLba := some lastLba, lines := [] }

/-- `--disk`: everything on it is removed, and the first region of the new table is taken. -/
def SectorDisk.diskParts (d : SectorDisk) (firstLba lastLba : Nat) : Option (List Region) := do
  let rs ← (d.fresh firstLba lastLba).freeRegions
  let r ← rs.head?
  if minRootBytes + espBytes + 2 * mib ≤ d.bytes then (d.fresh firstLba lastLba).freeParts false r else none

end StainedGlass.Setup
