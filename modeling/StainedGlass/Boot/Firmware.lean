import StainedGlass.Lib.Cpio
import StainedGlass.Lib.Utf8

/-! `sg-firmware-initrd update`. -/

namespace StainedGlass.Boot

open Lib

abbrev Text := List Char

structure Spaces where
  space : Char → Bool
  blank : space ' ' = true
  newline : space '\n' = true
  carriage : space '\r' = true

structure Firmware where
  file : Text → Option Bytes
  nul_free : (file name).isSome → '\x00' ∉ name

variable (u : Spaces)

def strip (t : Text) : Text := (t.dropWhile u.space).rdropWhile u.space

def after (literal t : Text) : Option Text := if literal <+: t then some (t.drop literal.length) else none

def word (t : Text) : Option (Text × Text) :=
  let w := t.takeWhile (!u.space ·)
  if w = [] then none else some (w, t.drop w.length)

def failedToLoad (t : Text) : Option (Text × Text) := (after "firmware: failed to load ".toList t).bind (word u)

def directLoad (t : Text) : Option (Text × Text) := do
  let t ← after "Direct firmware load for ".toList t
  let (w, rest) ← word u t
  let rest ← after " failed".toList rest
  pure (w, rest)

def extensions : List Text :=
  [".bin".toList, ".ri".toList, ".sfi".toList, ".ucode".toList, ".fw".toList, ".db".toList]

def extended (w : Text) : Option Text :=
  (List.range w.length).reverse.findSome? fun k =>
    if k = 0 then none else (extensions.find? (· <+: w.drop k)).map (w.take k ++ ·)

def failedDriver (t : Text) : Option (Text × Text) := do
  let t ← after "Failed to load ".toList t
  let (_, rest) ← word u t
  let t ← after " firmware ".toList rest
  let (w, _) ← word u t
  let name ← extended w
  pure (name, t.drop name.length)

def findAll (pattern : Text → Option (Text × Text)) : Nat → Text → List Text
  | 0, _ => []
  | _, [] => []
  | fuel + 1, c :: t =>
    match pattern (c :: t) with
    | some (name, rest) => name :: findAll pattern fuel rest
    | none => findAll pattern fuel t

def asked (log : Text) : List Text :=
  [failedToLoad u, directLoad u, failedDriver u].flatMap fun pattern => findAll pattern log.length log

def safe (name : Text) : Bool := name ≠ [] && name.head? ≠ some '/' && ['.', '.'] ∉ name.splitOn '/'

def readList (list : Option Text) : List Text :=
  (((list.getD []).splitOnP fun c => c = '\n' || c = '\r').map (strip u)).filter safe

structure Entry where
  path : Text
  mode : Nat
  data : Bytes
  deriving DecidableEq

def dirMode : Nat := 0o040755
def fileMode : Nat := 0o100644
def maxBytes : Nat := 64 * 2 ^ 20

def padding (n : Nat) : Bytes := List.replicate ((4 - n % 4) % 4) 0

def newcEntry (ino : Nat) (e : Entry) : Bytes :=
  let name := utf8 e.path ++ [0]
  ascii "070701" ++ [ino, e.mode, 0, 0, 1, 0, e.data.length, 0, 0, 0, 0, name.length, 0].flatMap Cpio.hex8 ++
    name ++ padding (110 + name.length) ++ e.data ++ padding e.data.length

def newcFrom : Nat → List Entry → Bytes
  | _, [] => []
  | ino, e :: es => newcEntry ino e ++ newcFrom (ino + 1) es

def trailer : Entry := ⟨"TRAILER!!!".toList, 0, []⟩

def newc (es : List Entry) : Bytes := newcFrom 1 (es ++ [trailer])

def parents (path : Text) : List Text :=
  let parts := path.splitOn '/'
  (List.range' 1 (parts.length - 1)).map fun i => ['/'].intercalate (parts.take i)

def newDirs : List Text → List Text → List Text
  | _, [] => []
  | dirs, d :: ds => if d ∈ dirs then newDirs dirs ds else d :: newDirs (d :: dirs) ds

def firmwarePath (name : Text) : Text := "usr/lib/firmware/".toList ++ name

def archiveLoop (fw : Firmware) : List Text → Nat → List Text → Option (List Entry)
  | _, _, [] => some []
  | dirs, total, name :: names =>
    match fw.file name with
    | none => none
    | some data =>
      if total + data.length > maxBytes then archiveLoop fw dirs total names
      else
        let new := newDirs dirs (parents (firmwarePath name))
        (archiveLoop fw (new ++ dirs) (total + data.length) names).map fun es =>
          new.map (⟨·, dirMode, []⟩) ++ ⟨firmwarePath name, fileMode, data⟩ :: es

def archive (fw : Firmware) (files : List Text) : Option Bytes := (archiveLoop fw [] 0 files).map newc

/-- The kernel's log, the firmware there is, whether the list can be written, and a boot partition. -/
structure Run where
  log : Text
  fw : Firmware
  writes : Bool
  boot : Bool

def Run.available (r : Run) (name : Text) : Bool := (r.fw.file name).isSome

def newNames (r : Run) (list : Option Text) : List Text :=
  (asked u r.log).eraseDups.filter fun n => safe n && n ∉ readList u list && r.available n

def files (r : Run) (list : Option Text) : List Text :=
  (readList u list ++ newNames u r list).filter r.available

/-- The list that `update` leaves and its archive; it then writes the entries' initrds. -/
def update (r : Run) (list : Option Text) : Option Text × Option Bytes :=
  if newNames u r list ≠ [] ∧ !r.writes then (list, none)
  else
    let list' := if newNames u r list ≠ [] then some ((files u r list).flatMap (· ++ ['\n'])) else list
    (list', if files u r list = [] ∨ !r.boot then none else archive r.fw (files u r list))

end StainedGlass.Boot
