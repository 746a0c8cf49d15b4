import StainedGlass.Lib.Action
import StainedGlass.Volumes.Layout

/-! The requests of `bin/sg-sysinfo` that change disks. -/

namespace StainedGlass.Volumes

open Lib

inductive Kind
  | invalid
  | denied
  | unsupported
  | notfound
  | failed
  deriving DecidableEq

structure Fail where
  kind : Kind
  message : Str
  deriving DecidableEq

inductive Error
  | fail (f : Fail)
  | crash
  deriving DecidableEq

def Error.refuses : Error → Bool
  | .fail f => f.kind ≠ .failed
  | .crash => false

inductive Change
  | initialise (disk : Str)
  | append (disk : Str) (start sectors : Nat) (type : Str)
  | wipefs (node : Str)
  | mkfs (fs node label : Str)
  | delete (disk : Str) (number : Nat)
  | setSize (disk : Str) (number sectors : Nat)
  | fsck (node : Str)
  | growExt (node : Str)
  | growNtfs (node : Str)
  | shrinkExt (node : Str) (kib : Nat)
  | shrinkNtfs (node : Str) (bytes : Nat)
  deriving DecidableEq

inductive Outcome
  | done
  | exit (stderr : Str) (changes : Bool)
  | raised (changes : Bool)
  deriving DecidableEq

def Outcome.changes : Outcome → Bool
  | .done => true
  | .exit _ changes => changes
  | .raised changes => changes

abbrev Log := List (Change × Bool)

abbrev Cmd := Act Log Error

def refuse (kind : Kind) (message : Str) : Cmd α := Act.fail (.fail ⟨kind, message⟩)

def refuseIf (b : Bool) (kind : Kind) (message : Str) : Cmd Unit :=
  if b then refuse kind message else pure ()

def sfdisk (c : Change) (o : Outcome) (message : Str) : Cmd Unit := fun log =>
  (match o with
    | .done => .ok ()
    | .exit stderr _ => .error (.fail ⟨.failed, message ++ stderr⟩)
    | .raised _ => .error .crash,
  log ++ [(c, o.changes)])

def runChecked (c : Change) (o : Outcome) (program : Str) : Cmd Unit := fun log =>
  (match o with
    | .done => .ok ()
    | .exit stderr _ => .error (.fail ⟨.failed, program ++ str ": " ++ stderr⟩)
    | .raised _ => .error (.fail ⟨.failed, program⟩),
  log ++ [(c, o.changes)])

def runAnyway (c : Change) (changes : Bool) : Cmd Unit := Act.op none (· ++ [(c, changes)])

structure Python where
  isdigit : Str → Bool
  int : Str → Option Nat
  lower : Str → Str
  clean : Str → Str

structure Opts where
  fs : Option Str
  label : Option Str

def parseOpts (clean : Str → Str) (valued : List Str) : List Str → Except Fail (List Str × Opts)
  | [] => .ok ([], ⟨none, none⟩)
  | a :: rest =>
    if str "--" <+: a ∧ a.drop 2 ∈ valued then
      match rest with
      | [] => .error ⟨.invalid, a ++ str " needs a value"⟩
      | v :: rest => do
        let (pos, opts) ← parseOpts clean valued rest
        -- a later value of the same option stands
        if a.drop 2 = str "fs" then pure (pos, { opts with fs := opts.fs.or (some v) })
        else pure (pos, { opts with label := opts.label.or (some v) })
    else if str "--" <+: a then .error ⟨.invalid, str "unknown option " ++ clean a⟩
    else do
      let (pos, opts) ← parseOpts clean valued rest
      pure (a :: pos, opts)

/-- `sfdisk -J`, or nothing: the label, the sector size, and each partition's start and number. -/
structure Table where
  label : Str
  sectorsize : Nat
  parts : List (Nat × Option Nat)

def Table.sector (t : Table) : Nat := if t.sectorsize = 0 then 512 else t.sectorsize

structure Env where
  py : Python
  /-- What `disk_model` finds, or how lsblk fails. -/
  disks : Except Fail (List Disk)
  /-- `SG_SYSINFO_DISKS`. -/
  testDisks : List Str
  /-- Whether `path` is a loop, RAM or zram device. -/
  virtual : Str → Bool
  table : Table
  tableLabelled : Table
  tableAfter : Table
  appears : Bool
  installed : Str → Bool
  initialise : Outcome
  append : Outcome
  wipefs : Bool
  mkfs : Outcome
  delete : Outcome
  setSize : Outcome
  fsck : Bool
  /-- What the programs that only report tell of the smallest size. -/
  minimum : Option Nat
  resizeFs : Outcome

def formats : List (Str × Str) :=
  [(str "ntfs", str "mkfs.ntfs"), (str "exfat", str "mkfs.exfat"), (str "fat32", str "mkfs.vfat"),
    (str "ext4", str "mkfs.ext4")]

def labelLimit (fs : Str) : Nat :=
  if fs = str "fat32" then 11 else if fs = str "exfat" then 15 else if fs = str "ntfs" then 32 else 16

def isAlnum (c : Nat) : Bool := (48 ≤ c && c ≤ 57) || (65 ≤ c && c ≤ 90) || (97 ≤ c && c ≤ 122)

def labelOk (fs label : Str) : Bool :=
  label.length ≤ labelLimit fs && label.all fun c => isAlnum c || c ∈ str " _.-"

def badLabel (fs : Str) : Str :=
  str "a volume label is up to " ++ (Nat.toDigits 10 (labelLimit fs)).map Char.toNat ++
    str " letters, digits, spaces, _ . -"

def nameOk (name : Str) : Bool := 1 ≤ name.length && name.length ≤ 32 && name.all isAlnum

section

variable (e : Env)

def partNamed (name : Str) : Option (Disk × Item) :=
  e.disks.toOption.bind fun disks => disks.findSome? fun d => (d.items.find? (·.name = name)).map (d, ·)

def diskNamed (name : Str) : Option Disk :=
  e.disks.toOption.bind fun disks => disks.find? fun d => d.name = name && !d.rom

def findPart (name : Str) : Cmd (Disk × Item) :=
  if !nameOk name then refuse .invalid (str "no such partition")
  else
    match e.disks, partNamed e name with
    | .error f, _ => Act.fail (.fail f)
    | .ok _, some r => pure r
    | .ok _, none => refuse .notfound (str "no partition called " ++ e.py.clean name)

def findDisk (name : Str) : Cmd Disk :=
  if !nameOk name then refuse .invalid (str "no such disk")
  else
    match e.disks, diskNamed e name with
    | .error f, _ => Act.fail (.fail f)
    | .ok _, some d => pure d
    | .ok _, none => refuse .notfound (str "no disk called " ++ e.py.clean name)

def checkChangeable (d : Disk) : Cmd Unit := do
  refuseIf d.system .denied (str "Stained Glass cannot change the partitions of the disk the system is on")
  refuseIf (e.testDisks ≠ [] && d.path ∉ e.testDisks) .denied
    (e.py.clean d.path ++ str " is not one of the test disks (SG_SYSINFO_DISKS)")
  refuseIf (e.virtual d.path && d.path ∉ e.testDisks) .denied (e.py.clean d.path ++ str " is not a disk")
  refuseIf d.readonly .denied (str "the disk is write-protected")

def program (fs : Str) : Str := (formats.lookup fs).getD []

def formatUsage : Str := str "format PART ntfs|exfat|fat32|ext4 [--label L]"

def fileSystems : Str := str "file systems: ntfs, exfat, fat32, ext4"

def inUse (it : Item) : Str := it.name ++ str " is in use: remove its drive letter and unmount it first"

def holdsOthers (it : Item) : Str := it.name ++ str " is in use (it holds other volumes)"

def isWhole (it : Item) : Str := it.name ++ str " is a whole disk, not a partition"

def checkFormat (d : Disk) (it : Item) : Cmd Unit := do
  refuseIf d.system .denied (str "Stained Glass cannot format a volume on the disk the system is on")
  refuseIf (it.mounts ≠ [] || it.letters ≠ []) .denied (inUse it)
  refuseIf it.whole .invalid (isWhole it)
  refuseIf it.esp .denied (str "an EFI system partition cannot be formatted here")
  refuseIf it.children .denied (holdsOthers it)

def makeFs (fs node label : Str) : Cmd Unit := do
  refuseIf (!e.installed (program fs)) .unsupported (program fs ++ str " is not installed")
  runChecked (.mkfs fs node label) e.mkfs (program fs)

def cmdFormat (pos : List Str) (opts : Opts) : Cmd Unit :=
  match pos with
  | [name, kind] => do
    let fs := e.py.lower kind
    let label := opts.label.getD []
    refuseIf ((formats.lookup fs).isNone) .invalid fileSystems
    refuseIf (!labelOk fs label) .invalid (badLabel fs)
    let (d, it) ← findPart e name
    checkFormat d it
    makeFs e fs it.path label
  | _ => refuse .invalid formatUsage

def roundUp (n : Nat) : Nat := (n + mib - 1) / mib * mib

def roundDown (n : Nat) : Nat := n / mib * mib

def fits (gaps : List Gap) (start size : Nat) : Bool :=
  gaps.any fun g => g.1 ≤ start && start + size ≤ g.1 + g.2 + mib

def ptype (fs label : Str) : Str :=
  if label = str "dos" then
    if fs = str "fat32" then str "c" else if fs = str "ext4" then str "83" else str "7"
  else if fs = str "ext4" then str "0fc63daf-8483-4772-8e79-3d69d8477de4"
  else str "ebd0a0a2-b9e5-4433-87c0-68b6b72699c7"

def tableUsed : Table :=
  if e.table.label = [] then { e.tableLabelled with label := str "gpt" } else e.table

def initialise (path : Str) : Cmd Unit :=
  if e.table.label = [] then
    sfdisk (.initialise path) e.initialise (str "cannot initialise the disk: ")
  else pure ()

def checkTable (t : Table) : Cmd Unit :=
  if t.label = str "dos" then
    refuseIf (4 ≤ t.parts.length) .unsupported (str "this disk already has four primary partitions")
  else refuseIf (t.label ≠ str "gpt") .unsupported
    (str "the disk's partition table (" ++ e.py.clean t.label ++ str ") is not supported")

def newNumber (t : Table) (sector : Nat) : Option Nat :=
  t.parts.foldl (fun number p => if p.1 = sector then p.2 else number) none

def partNode (path : Str) (number : Nat) : Str :=
  path ++ (if path.getLast?.any (fun c => e.py.isdigit [c]) then str "p" else []) ++
    (Nat.toDigits 10 number).map Char.toNat

def newNode (path : Str) (sector : Nat) : Cmd Str :=
  match newNumber e.tableAfter sector with
  | none => refuse .failed (str "the new partition did not appear")
  | some number =>
    if e.appears then pure (partNode e path number)
    else refuse .failed (str "the new partition " ++ partNode e path number ++ str " did not appear")

def appendPartition (path fs : Str) (t : Table) (start size : Nat) : Cmd Str := do
  sfdisk (.append path (start / t.sector) (size / t.sector) (ptype fs t.label)) e.append
    (str "cannot create the partition: ")
  newNode e path (start / t.sector)

def formatNew (fs node : Str) (label : Str) : Cmd Unit := do
  runAnyway (.wipefs node) e.wipefs
  refuseIf (!e.installed (program fs)) .unsupported (program fs ++ str " is not installed")
  refuseIf (!labelOk fs label) .invalid (badLabel fs)
  runChecked (.mkfs fs node label) e.mkfs (program fs)

def createVolume (path fs label : Str) (start size : Nat) : Cmd Unit := do
  initialise e path
  checkTable e (tableUsed e)
  let node ← appendPartition e path fs (tableUsed e) start size
  formatNew e fs node label

def createUsage : Str := str "create DISK START SIZE [--fs ntfs|exfat|fat32|ext4] [--label L]"

def readNumber (s : Str) : Cmd Nat :=
  match e.py.int s with
  | some n => pure n
  | none => Act.fail .crash

def fsAsked (opts : Opts) : Str := e.py.lower (if opts.fs.getD [] = [] then str "ntfs" else opts.fs.getD [])

def cmdCreate (pos : List Str) (opts : Opts) : Cmd Unit :=
  match pos with
  | [name, startArg, sizeArg] => do
    refuseIf (!(e.py.isdigit startArg && e.py.isdigit sizeArg)) .invalid createUsage
    let fs := fsAsked e opts
    refuseIf ((formats.lookup fs).isNone) .invalid fileSystems
    let d ← findDisk e name
    checkChangeable e d
    let start ← readNumber e startArg
    let size ← readNumber e sizeArg
    refuseIf (roundDown size < 8 * mib) .invalid (str "a volume must be at least 8 MB")
    refuseIf (!fits d.gaps (roundUp start) (roundDown size)) .invalid
      (str "there is no unallocated space of that size there")
    createVolume e d.path fs (opts.label.getD []) (roundUp start) (roundDown size)
  | _ => refuse .invalid createUsage

def partInDisk (name : Str) : Cmd (Disk × Item) := do
  let (d, it) ← findPart e name
  refuseIf it.whole .invalid (isWhole it)
  checkChangeable e d
  refuseIf (it.mounts ≠ [] || it.letters ≠ []) .denied (inUse it)
  refuseIf it.esp .denied (str "an EFI system partition is protected and cannot be changed here")
  refuseIf it.children .denied (holdsOthers it)
  pure (d, it)

def cmdDelete (pos : List Str) : Cmd Unit :=
  match pos with
  | [name] => do
    let (d, it) ← partInDisk e name
    refuseIf (it.partn = 0) .failed (str "cannot find the partition's number")
    sfdisk (.delete d.path it.partn) e.delete (str "cannot delete " ++ it.name ++ str ": ")
  | _ => refuse .invalid (str "delete PART")

inductive FsKind
  | ntfs
  | ext4
  | other
  deriving DecidableEq

def fsKind (it : Item) : FsKind :=
  let t := e.py.lower it.fstype
  if t = str "ntfs" ∨ t = str "ntfs3" then .ntfs
  else if t = str "ext4" ∨ t = str "ext3" ∨ t = str "ext2" then .ext4
  else .other

def onlyNtfsExt4 : Str := str "only NTFS and ext4 volumes can be extended or shrunk"

def fsckExt (it : Item) : Cmd Unit :=
  if fsKind e it = .ext4 then runAnyway (.fsck it.path) e.fsck else pure ()

def minSize (it : Item) : Cmd Nat := do
  fsckExt e it
  match e.minimum with
  | some n => pure n
  | none => refuse .failed (str "cannot tell how far the volume can shrink")

def after (gaps : List Gap) (stop : Nat) : Nat :=
  ((gaps.filter fun g => g.1 < stop + mib && stop < g.1 + mib).map Prod.snd).foldl max 0

def setPartition (d : Disk) (it : Item) (size : Nat) : Cmd Unit :=
  sfdisk (.setSize d.path it.partn (size / e.table.sector)) e.setSize (str "cannot resize the partition: ")

def extend (d : Disk) (it : Item) (new : Nat) : Cmd Unit := do
  let d' ← findDisk e d.name
  refuseIf (after d'.gaps it.end + mib < new - it.size) .invalid
    (str "there is not that much unallocated space after the volume")
  setPartition e d it new
  fsckExt e it
  if fsKind e it = .ext4 then runChecked (.growExt it.path) e.resizeFs (str "resize2fs")
  else runChecked (.growNtfs it.path) e.resizeFs (str "ntfsresize")

def shrinkFs (it : Item) (new : Nat) : Cmd Unit :=
  if fsKind e it = .ext4 then
    runChecked (.shrinkExt it.path ((new - mib) / 1024)) e.resizeFs (str "resize2fs")
  else runChecked (.shrinkNtfs it.path (new - mib)) e.resizeFs (str "ntfsresize")

def shrink (d : Disk) (it : Item) (new : Nat) : Cmd Unit := do
  let least ← minSize e it
  refuseIf (new < least + 16 * mib / 2) .invalid
    (str "the volume cannot shrink that far: its files need more room")
  shrinkFs e it new
  setPartition e d it new

def cmdResize (pos : List Str) : Cmd Unit :=
  match pos with
  | [name, sizeArg] => do
    refuseIf (!e.py.isdigit sizeArg) .invalid (str "resize PART SIZE")
    let (d, it) ← partInDisk e name
    refuseIf (fsKind e it = .other) .unsupported onlyNtfsExt4
    let size ← readNumber e sizeArg
    let new := roundDown size
    if new = it.size then pure ()
    else if it.size < new then extend e d it new
    else shrink e d it new
  | _ => refuse .invalid (str "resize PART SIZE")

inductive Request
  | create (args : List Str)
  | delete (args : List Str)
  | format (args : List Str)
  | resize (args : List Str)

def withOpts (valued args : List Str) (k : List Str → Opts → Cmd Unit) : Cmd Unit :=
  match parseOpts e.py.clean valued args with
  | .ok (pos, opts) => k pos opts
  | .error f => Act.fail (.fail f)

def runService (mayUse admin : Bool) (r : Request) : Cmd Unit := do
  refuseIf (!mayUse) .denied (str "this account may not use the administrative tools")
  refuseIf (!admin) .denied (str "this needs an administrator")
  match r with
  | .create args => withOpts e [str "label", str "fs"] args (cmdCreate e)
  | .delete args => cmdDelete e args
  | .format args => withOpts e [str "label"] args (cmdFormat e)
  | .resize args => cmdResize e args

end

end StainedGlass.Volumes
