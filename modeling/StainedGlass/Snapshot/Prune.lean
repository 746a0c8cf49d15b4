import Mathlib

/-! Restore points of `sg-snapshot` and how old ones go: `snapshots`, `surplus` and `prune`. -/

namespace StainedGlass.Snapshot

abbrev Sid := String

structure Info where
  source : Option String := none
  deriving DecidableEq

inductive Pool
  | update | store
  deriving DecidableEq

structure Entry where
  name : Sid
  hasSnapshot : Bool
  info : Info
  deriving DecidableEq

structure Drive where
  entries : List Entry
  nodup : (entries.map Entry.name).Nodup

def isAsciiDigit (c : Char) : Bool := '0' ≤ c && c ≤ '9'

def matchesIdRe (s : Sid) : Bool :=
  let cs := s.toList
  (cs.take 8).length == 8 && (cs.take 8).all isAsciiDigit && cs[8]? == some '-' &&
    ((cs.drop 9).take 6).length == 6 && ((cs.drop 9).take 6).all isAsciiDigit &&
    (cs.drop 15 == [] || cs.drop 15 == ['\n'])

def Entry.isPoint (e : Entry) : Bool := matchesIdRe e.name && e.hasSnapshot

abbrev Point := Sid × Info

def Entry.toPoint (e : Entry) : Point := (e.name, e.info)

def snapshots (d : Drive) : List Point :=
  ((d.entries.filter Entry.isPoint).map Entry.toPoint).mergeSort (fun a b => a.1 ≤ b.1)

def deleteSnapshot (d : Drive) (sid : Sid) : Drive where
  entries := d.entries.filter (fun e => e.name != sid)
  nodup := d.nodup.sublist (List.filter_sublist.map _)

def pool (info : Info) : Pool := if info.source = some "store" then .store else .update

structure Settings where
  keep : Int := 3
  keepStore : Int := 2
  low : Option Nat := none

def Settings.limit (cfg : Settings) : Pool → Int
  | .update => cfg.keep
  | .store => cfg.keepStore

def surplusLoop (keepIds : List Sid) : Int → List Sid → List Sid
  | _, [] => []
  | extra, sid :: mine =>
    if extra ≤ 0 then []
    else if sid ∈ keepIds then surplusLoop keepIds extra mine
    else sid :: surplusLoop keepIds (extra - 1) mine

def poolIds (p : Pool) (snaps : List Point) : List Sid :=
  (snaps.filter (fun s => pool s.2 = p)).map Prod.fst

def surplus (cfg : Settings) (snaps : List Point) (keepIds : List Sid) : List Sid :=
  [Pool.update, Pool.store].flatMap fun p =>
    let mine := poolIds p snaps
    surplusLoop keepIds (mine.length - cfg.limit p) mine

structure StatVfs where
  blocks : Nat
  frsize : Nat
  bavail : Nat

def lowMark (cfg : Settings) (st : StatVfs) : Nat :=
  cfg.low.getD (max (2 <<< 30) (st.blocks * st.frsize / 20))

def freeBytes (st : StatVfs) : Nat := st.bavail * st.frsize

/-- The readings of the low-space loop: at its `k`-th test one `statvfs` for the
free bytes and one for the mark. -/
abbrev Readings := Nat → StatVfs × StatVfs

def Readings.short (cfg : Settings) (r : Readings) (k : Nat) : Bool :=
  freeBytes (r k).1 < lowMark cfg (r k).2

structure Pruned where
  drive : Drive
  deleted : List Sid

def deleteAll (d : Drive) (sids : List Sid) : Drive := sids.foldl deleteSnapshot d

def protect (keepIds : List Sid) (snaps : List Point) : List Sid :=
  match snaps.getLast? with
  | none => []
  | some newest => if keepIds = [] then [newest.1] else keepIds

/-- The candidates of the low-space loop: `snaps.sort` is stable, so within a
pool the oldest stay first. -/
def spaceOrder (keepIds : List Sid) (snaps : List Point) : List Point :=
  (snaps.filter (fun s => s.1 ∉ protect keepIds snaps)).mergeSort
    (fun a b => (if pool a.2 = .store then 0 else 1) ≤ (if pool b.2 = .store then 0 else 1))

def spaceLoop (short : Nat → Bool) : Nat → Drive → List Point → Pruned
  | _, d, [] => ⟨d, []⟩
  | k, d, s :: snaps =>
    if short k then
      let r := spaceLoop short (k + 1) (deleteSnapshot d s.1) snaps
      ⟨r.drive, s.1 :: r.deleted⟩
    else ⟨d, []⟩

def prune (cfg : Settings) (d : Drive) (keepIds : List Sid) (r : Readings) : Pruned :=
  let counted := surplus cfg (snapshots d) keepIds
  let d := deleteAll d counted
  let spaced := spaceLoop (r.short cfg) 0 d (spaceOrder keepIds (snapshots d))
  ⟨spaced.drive, counted ++ spaced.deleted⟩

end StainedGlass.Snapshot
