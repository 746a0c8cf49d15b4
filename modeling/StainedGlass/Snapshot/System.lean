import StainedGlass.Lib.Action
import StainedGlass.Snapshot.Changes
import StainedGlass.Snapshot.Prune

/-! The system drive as `sg-snapshot` works on it. Every operation may fail. -/

namespace StainedGlass.Snapshot

open Lib

inductive Kind
  | auto | manual
  deriving DecidableEq

structure PointInfo extends Info where
  label : Str := []
  kind : Option Kind := none
  kernels : List Str := []
  changes : List Change := []
  deriving DecidableEq

structure Root where
  files : String → Option Str
  modules : List Str

structure Subvol where
  id : Nat
  root : Root

structure Dir where
  name : Sid
  snapshot : Option Root := none
  boot : Option Root := none
  info : PointInfo := {}

def Dir.isPoint (d : Dir) : Bool := matchesIdRe d.name && d.snapshot.isSome

structure BootEntry where
  name : Str
  text : Str
  deriving DecidableEq

/-- `nextId` is btrfs's next number; the boot entries of restore points are left out of `entries`. -/
@[ext]
structure System where
  dirs : List Dir
  subvols : String → Option Subvol
  default : Nat
  nextId : Nat
  entries : Option (List BootEntry)
  nodup : (dirs.map Dir.name).Nodup
  default_lt : default < nextId

namespace System

def names (s : System) : List Sid := s.dirs.map Dir.name

def dir? (s : System) (sid : Sid) : Option Dir := s.dirs.find? (·.name = sid)

def root? (s : System) : Option Root := (s.subvols "@").map Subvol.root

def removeDir (s : System) (sid : Sid) : System :=
  { s with
    dirs := s.dirs.filter (·.name ≠ sid)
    nodup := s.nodup.sublist (List.filter_sublist.map _) }

def putDir (s : System) (dir : Dir) : System :=
  { s with
    dirs := dir :: (s.removeDir dir.name).dirs
    nodup := by
      rw [List.map_cons, List.nodup_cons]
      refine ⟨?_, (s.removeDir dir.name).nodup⟩
      simp [removeDir] }

def setInfo (s : System) (sid : Sid) (info : PointInfo) : System :=
  { s with
    dirs := s.dirs.map fun d => if d.name = sid then { d with info } else d
    nodup := by
      rw [List.map_map]
      convert s.nodup using 2
      funext d
      simp only [Function.comp_apply]
      split <;> rfl }

def putSubvol (s : System) (name : String) (root : Root) : System :=
  { s with
    subvols := Function.update s.subvols name (some ⟨s.nextId, root⟩)
    nextId := s.nextId + 1
    default_lt := Nat.lt_succ_of_lt s.default_lt }

def rename (s : System) (src dst : String) : System :=
  { s with subvols := Function.update (Function.update s.subvols dst (s.subvols src)) src none }

def editRoot (s : System) (name : String) (f : Root → Root) : System :=
  { s with
    subvols := Function.update s.subvols name
      ((s.subvols name).map fun v => { v with root := f v.root }) }

def points (s : System) : List (Sid × PointInfo) :=
  ((s.dirs.filter Dir.isPoint).map fun d => (d.name, d.info)).mergeSort fun a b => a.1 ≤ b.1

def drive (s : System) : Drive where
  entries := s.dirs.map fun d => ⟨d.name, d.snapshot.isSome, d.info.toInfo⟩
  nodup := by simpa [Function.comp_def] using s.nodup

end System

def Root.write (path : String) (text : Str) (r : Root) : Root :=
  { r with files := Function.update r.files path (some text) }

def Root.unlink (path : String) (r : Root) : Root :=
  { r with files := Function.update r.files path none }

/-- The C library's calendar: `new_id` of a time, and the time `mktime` finds (`none`: no date). -/
structure Calendar where
  newId : Int → Sid
  mktime : Sid → Option Int
  newId_matches : ∀ t, matchesIdRe (newId t)

inductive Sub
  | boot | snapshot
  deriving DecidableEq

inductive Op
  | mount
  | takeDir | takeSnapshot | takeInfo | takeBoot
  | mergeInfo | unlinkWentBack
  | rename | snapshot | renameBack | rootId | setDefault | prefs | wentBack
  | entry (name : Str)
  | delete (sid : Sid) (sub : Sub)
  | deleteOld | remake (sid : Sid) | marker
  | menu | publish
  deriving DecidableEq

/-- `Fail`; an `OSError` or a timeout; or no message: an identifier that is no date, or none that is free. -/
inductive Error
  | fail (message : Str)
  | os
  | stuck
  deriving DecidableEq

inductive Tick
  | merge | take | old | went
  deriving DecidableEq

structure Env where
  u : Unicode
  cal : Calendar
  clock : Tick → Int
  fails : Op → Option Error
  cfg : Settings
  space : Readings
  /-- `ours_installed`. -/
  ours : Str → Bool
  fstype : String
  fsroot : String
  cmdline : List String
  /-- The text of `etc/kernel/cmdline`. -/
  kernelCmdline : Str

abbrev Cmd := Act System Error

def hasPrefix (s pre : String) : Bool := pre.toList.isPrefixOf s.toList

inductive Layout
  | btrfs | btrfsPlain
  | other (fstype : String)
  deriving DecidableEq

namespace Env

def op (env : Env) (o : Op) (f : System → System) : Cmd Unit := Act.op (env.fails o) f

def source (env : Env) (o : Op) (src : System → Option Root) : Cmd Root := do
  env.op o id
  match src (← Act.get) with
  | some root => pure root
  | none => Act.fail (.fail (str "btrfs failed"))

def arg (env : Env) (name : String) : Option String :=
  env.cmdline.findSome? fun w =>
    if w = name then some ""
    else if hasPrefix w (name ++ "=") then some (String.ofList (w.toList.drop (name.toList.length + 1)))
    else none

def live (env : Env) : Bool :=
  env.cmdline.any fun w => hasPrefix w "systemd.volatile=" || hasPrefix w "sg.live="

def bootedSnapshot (env : Env) : Option Sid := (env.arg "sg.snapshot").filter matchesIdRe

def layoutKind (env : Env) : Layout :=
  if env.fstype = "btrfs" then
    if env.fsroot = "/@" || hasPrefix env.fsroot "/@snapshots/" || hasPrefix env.fsroot "/@old-" then
      .btrfs
    else .btrfsPlain
  else .other (if env.fstype = "" then "unknown" else env.fstype)

end Env

def Layout.name : Layout → String
  | .btrfs => "btrfs"
  | .btrfsPlain => "btrfs-plain"
  | .other fstype => fstype

/-- The loop of `take`: one turn more than there are names is enough. -/
def freshId (cal : Calendar) (names : List Sid) : Nat → Sid → Option Sid
  | 0, _ => none
  | n + 1, sid =>
    if sid ∈ names then (cal.mktime sid).bind fun t => freshId cal names n (cal.newId (t + 1))
    else some sid

def System.freshId (s : System) (env : Env) : Option Sid :=
  Snapshot.freshId env.cal s.names (s.names.length + 1) (env.cal.newId (env.clock .take))

def newInfo (label : Str) (kind : Kind) (changes : List Change) (source : Option String)
    (root : Root) : PointInfo :=
  { source, label, kind := some kind, kernels := root.modules, changes }

def take (env : Env) (label : Str) (kind : Kind) (changes : List Change)
    (source : Option String) : Cmd Sid := do
  match (← Act.get).freshId env with
  | none => Act.fail .stuck
  | some sid =>
    env.op .takeDir (·.putDir { name := sid })
    let root ← env.source .takeSnapshot System.root?
    Act.op none (·.putDir { name := sid, snapshot := some root })
    let info := newInfo label kind changes source root
    env.op .takeInfo (·.putDir { name := sid, snapshot := some root, info })
    env.op .takeBoot (·.putDir { name := sid, snapshot := some root, boot := some root, info })
    pure sid

def deletePoint (env : Env) (sid : Sid) : Cmd Unit := do
  match (← Act.get).dir? sid with
  | none => pure ()
  | some d =>
    if d.boot.isSome then env.op (.delete sid .boot) (·.putDir { d with boot := none })
    if d.snapshot.isSome then
      env.op (.delete sid .snapshot) (·.putDir { d with boot := none, snapshot := none })
    Act.op none (·.removeDir sid)

def pruneAll (env : Env) (keepIds : List Sid) : Cmd Unit := do
  Act.each (deletePoint env) (prune env.cfg (← Act.get).drive keepIds env.space).deleted

end StainedGlass.Snapshot
