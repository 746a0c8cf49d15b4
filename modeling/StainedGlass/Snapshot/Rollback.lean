import StainedGlass.Snapshot.Hook

/-! Going back to a restore point, `cmd_rollback`, and histories of the commands. -/

namespace StainedGlass.Snapshot

open Lib

def endsWith (s suffix : Str) : Bool := suffix.isSuffixOf s

def hiddenSuffix : Str := str ".sg-hidden"

def isDigit (u : Unicode) (c : Nat) : Bool := (u.digit c).isSome

def entryField (u : Unicode) (key : Str) (text : Str) : Option Str :=
  (splitlines text).findSome? fun line =>
    let line := u.strip line
    if line.takeWhile (· ≠ 32) = key then some (u.strip ((line.dropWhile (· ≠ 32)).drop 1))
    else none

def ourPartuuid (env : Env) : Option Str :=
  (words env.u env.kernelCmdline).findSome? fun w =>
    if startsWith w (str "root=PARTUUID=") then some (env.u.lower (w.drop 14)) else none

def usedUpAt (u : Unicode) (s : Str) : Bool :=
  startsWith s (str "+0-") && ((s.drop 3).head?.any (isDigit u)) &&
    startsWith ((s.drop 3).dropWhile (isDigit u)) (str ".conf")

def versionEnds (u : Unicode) (s : Str) : Bool :=
  startsWith s (str ".conf") ||
    match s with
    | 43 :: t =>
      let rest := t.dropWhile (isDigit u)
      t.head?.any (isDigit u) &&
        (startsWith rest (str ".conf") ||
          (startsWith rest (str "-") && (rest.drop 1).head?.any (isDigit u) &&
            startsWith ((rest.drop 1).dropWhile (isDigit u)) (str ".conf")))
    | _ => false

def versionTail (u : Unicode) : Str → Option Str
  | [] => none
  | c :: s =>
    if versionEnds u (c :: s) then some []
    else if c = 43 then none
    else (versionTail u s).map (c :: ·)

def versionAt (u : Unicode) : Str → Option Str
  | 45 :: s =>
    match s.takeWhile (isDigit u), s.dropWhile (isDigit u) with
    | d :: major, 46 :: t =>
      match t.takeWhile (isDigit u) with
      | [] => none
      | e :: minor =>
        (versionTail u (t.dropWhile (isDigit u))).map fun tail => d :: major ++ 46 :: e :: minor ++ tail
    | _, _ => none
  | _ => none

structure KernelEntry where
  version : Str
  name : Str
  hidden : Bool
  deriving DecidableEq

/-- Not our own entries, nor live, recovery or used-up ones, and for this system's root. -/
def kernelEntry (u : Unicode) (partuuid : Str) (includeHidden : Bool) (e : BootEntry) :
    Option KernelEntry :=
  let hidden := endsWith e.name (str ".conf.sg-hidden")
  if !(endsWith e.name (str ".conf") || (includeHidden && hidden)) ||
      startsWith (u.lower e.name) (str "sg-") then none
  else if endsWith e.name (str "-live.conf") || endsWith e.name (str "-recovery.conf") ||
      e.name.tails.any (usedUpAt u) then none
  else if (str "root=partuuid=" ++ partuuid) ∉
      words u (u.lower ((entryField u (str "options") e.text).getD [])) then none
  else
    let version :=
      match entryField u (str "version") e.text with
      | some (c :: v) => some (c :: v)
      | _ => e.name.tails.findSome? (versionAt u)
    match version with
    | some (c :: v) => some ⟨c :: v, e.name, hidden⟩
    | _ => none

def kernelEntries (env : Env) (includeHidden : Bool) (entries : Option (List BootEntry)) :
    List KernelEntry :=
  match entries, ourPartuuid env with
  | some entries, some partuuid =>
    (entries.mergeSort fun a b => a.name ≤ b.name).filterMap
      (kernelEntry env.u partuuid includeHidden)
  | _, _ => []

def entryRenames (env : Env) (entries : Option (List BootEntry)) (kernels : List Str) :
    List (Str × Str) :=
  let kents := kernelEntries env true entries
  (kents.map KernelEntry.version).eraseDups.flatMap fun v =>
    (kents.filter (·.version = v)).filterMap fun e =>
      if v ∈ kernels then
        if e.hidden then some (e.name, e.name.take (e.name.length - hiddenSuffix.length)) else none
      else if e.hidden then none else some (e.name, e.name ++ hiddenSuffix)

def System.replaceEntry (s : System) (src dst : Str) : System :=
  { s with
    entries := s.entries.map fun entries =>
      (entries.filter (·.name ≠ dst)).map fun e => if e.name = src then { e with name := dst } else e }

def matchKernels (env : Env) (kernels : List Str) : Cmd Unit := do
  Act.each (fun (src, dst) => env.op (.entry src) (·.replaceEntry src dst))
    (entryRenames env (← Act.get).entries kernels)

def System.setDefault (s : System) (id : Nat) : System :=
  if h : id < s.nextId then { s with default := id, default_lt := h } else s

def human (sid : Sid) : Str :=
  let t := str sid
  t.take 4 ++ str "-" ++ (t.drop 4).take 2 ++ str "-" ++ (t.drop 6).take 2 ++ str " " ++
    (t.drop 9).take 2 ++ str ":" ++ (t.drop 11).take 2

def beforeWhat (info : PointInfo) (sid : Sid) : Option Str :=
  if info.kind ≠ some .auto then none
  else if info.source = some "store" then some (str "SG Store change of " ++ human sid)
  else some (str "update of " ++ human sid)

def whichPoint (info : PointInfo) (sid : Sid) : Str :=
  (beforeWhat info sid).getD (str "restore point of " ++ human sid)

def undoLabel (info : PointInfo) (sid : Sid) : Str :=
  match beforeWhat info sid with
  | some what => str "Before going back to the version from before the " ++ what
  | none => str "Before going back to the restore point of " ++ human sid

def whyWentBack (info : PointInfo) (sid : Sid) : Str :=
  str "went back to the version from before the " ++ whichPoint info sid

def noKernel (info : PointInfo) (sid : Sid) : Error :=
  .fail (str "The version from before the " ++ whichPoint info sid ++
    str " cannot be started: its Linux kernel is no longer on the boot partition.")

def prefsFile : String := "etc/apt/preferences.d/sg-went-back"

def jsonId (sid : Sid) : Str :=
  str "\"" ++ (str sid).flatMap (fun c => if c = 10 then str "\\n" else [c]) ++ str "\""

def Pool.name : Pool → Str
  | .update => str "update"
  | .store => str "store"

def wentBackNote (env : Env) (info : PointInfo) (sid : Sid) (undo : Option Sid) : Str :=
  str "\x7b\"id\": " ++ jsonId sid ++
    str ", \"when\": " ++ jsonId (env.cal.newId (env.clock .went)) ++
    str ", \"undo\": " ++ (undo.map jsonId).getD (str "null") ++
    str ", \"source\": \"" ++ (pool info.toInfo).name ++ str "\"\x7d\n"

def System.pointRoot? (s : System) (sid : Sid) : Option Root := (s.dir? sid).bind Dir.snapshot

def renameSubvol (env : Env) (o : Op) (src dst : String) : Cmd Unit := do
  let s ← Act.get
  if (s.subvols src).isNone ∨ (s.subvols dst).isSome then Act.fail ((env.fails o).getD .os)
  else env.op o (·.rename src dst)

def oldName (env : Env) : String := "@old-" ++ env.cal.newId (env.clock .old)

def replaceSystem (env : Env) (sid : Sid) : Cmd Unit := do
  renameSubvol env .rename "@" (oldName env)
  let root ← (env.source .snapshot (·.pointRoot? sid)).handle fun
    | .fail message => do
      renameSubvol env .renameBack (oldName env) "@"
      Act.fail (.fail message)
    | e => Act.fail e
  Act.op none (·.putSubvol "@" root)

def makeDefault (env : Env) : Cmd Unit := do
  env.op .rootId id
  match (← Act.get).subvols "@" with
  | some v => env.op .setDefault (·.setDefault v.id)
  | none => Act.fail (.fail (str "btrfs failed"))

def writePrefs (env : Env) (info : PointInfo) (sid : Sid) : Cmd Unit :=
  match wentBackPrefs info.changes (whyWentBack info sid) with
  | some text => env.op .prefs (·.editRoot "@" (Root.write prefsFile text))
  | none => pure ()

def followUp (env : Env) (info : PointInfo) (sid : Sid) (undo : Option Sid) : Cmd Unit := do
  env.op .wentBack (·.editRoot "@" (Root.write wentBackFile (wentBackNote env info sid undo)))
  matchKernels env info.kernels
  pruneAll env (sid :: undo.toList)
  tell env

def takeUndo (env : Env) (info : PointInfo) (sid : Sid) : Cmd (Option Sid) := do
  if (← Act.get).root?.isSome then
    let undo ← take env (undoLabel info sid) .manual [] none
    pure (some undo)
  else pure none

def goBackTo (env : Env) (info : PointInfo) (sid : Sid) : Cmd (List String) := do
  let undo ← takeUndo env info sid
  replaceSystem env sid
  makeDefault env
  writePrefs env info sid
  followUp env info sid undo
  pure ["PENDING " ++ sid]

def goBackIfFit (env : Env) (sid : Sid) (entries : Option (List BootEntry)) :
    Option PointInfo → Cmd (List String)
  | none => Act.fail (noSuchPoint sid)
  | some info =>
    if ∀ k ∈ info.kernels, k ∉ (kernelEntries env true entries).map KernelEntry.version then
      Act.fail (noKernel info sid)
    else goBackTo env info sid

def cmdRollback (env : Env) (sid : Sid) : Cmd (List String) := do
  if ¬ matchesIdRe sid then Act.fail (.fail (str "usage: rollback ID"))
  else if env.layoutKind ≠ .btrfs then Act.fail (noPoints env)
  else
    env.op .mount id
    let s ← Act.get
    goBackIfFit env sid s.entries (s.points.lookup sid)

inductive Event
  | before (r : Request)
  | create (label : Str) (kind : Kind)
  | delete (sid : Sid)
  | goBack (sid : Sid)

def Event.cmd (env : Env) : Event → Cmd (List String)
  | before r => Snapshot.before env r
  | create label kind => cmdCreate env label kind
  | delete sid => cmdDelete env sid
  | goBack sid => cmdRollback env sid

def System.after (s : System) (env : Env) (e : Event) : System := (e.cmd env s).2

structure Timed where
  env : Env
  time : Int
  event : Event

end StainedGlass.Snapshot
