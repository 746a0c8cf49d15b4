import StainedGlass.Lib.Text

/-! A disk as `bin/sg-sysinfo` sees it. -/

namespace StainedGlass.Volumes

open Lib

@[irreducible] def mib : Nat := 1024 * 1024

structure Item where
  name : Str
  path : Str
  partn : Nat
  fstype : Str
  start : Nat
  size : Nat
  mounts : List Str
  letters : List Str
  esp : Bool
  system : Bool
  -- a disk with a file system and no partitions
  whole : Bool
  children : Bool
  deriving DecidableEq

def Item.end (it : Item) : Nat := it.start + it.size

structure Disk where
  name : Str
  path : Str
  rom : Bool
  readonly : Bool
  gpt : Bool
  size : Nat
  parts : List Item

def byStart (a b : Item) : Prop := a.start ≤ b.start

instance : DecidableRel byStart := fun a b => inferInstanceAs (Decidable (a.start ≤ b.start))

def Disk.items (d : Disk) : List Item := d.parts.insertionSort byStart

def Disk.system (d : Disk) : Bool := d.parts.any Item.system

abbrev Gap := Nat × Nat

def lead : Nat := mib

def gapUpTo (pos stop : Nat) : List Gap :=
  let start := if pos = 0 then lead else pos
  if pos + 2 * lead ≤ stop then [(start, stop - start)] else []

def sweep (pos : Nat) : List Item → List Gap × Nat
  | [] => ([], pos)
  | it :: items =>
    let r := sweep (max pos it.end) items
    (gapUpTo pos it.start ++ r.1, r.2)

def Disk.tailEnd (d : Disk) : Nat := d.size - if d.gpt then 34 * 512 else 0

def Disk.wholeVolume (d : Disk) : Bool :=
  match d.items with
  | [it] => it.whole
  | _ => false

def Disk.gaps (d : Disk) : List Gap :=
  if d.rom || d.wholeVolume then []
  else
    let r := sweep 0 d.items
    r.1 ++ gapUpTo r.2 d.tailEnd

end StainedGlass.Volumes
