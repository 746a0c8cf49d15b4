import StainedGlass.Snapshot.System

/-! Before packages change: `cmd_apt_hook`, `cmd_pre_offline`, `before_changes`. -/

namespace StainedGlass.Snapshot

open Lib

inductive Request
  /-- `apt-hook`, with its input, `SG_SNAP_SOURCE` and `SG_SNAP_UNDOING`. -/
  | hook (text : Str) (store undoing : Bool)
  /-- `pre-offline-update`, with the prepared list and the versions installed. -/
  | prepared (text : Str) (installed : Str → Option Str)

namespace Request

def changes (u : Unicode) : Request → List Change
  | hook text _ _ => (parseHook u text).getD []
  | prepared text installed => preparedChanges u installed text

def source : Request → Option String
  | hook _ store _ => if store then some "store" else none
  | prepared _ _ => none

def undoing : Request → Bool
  | hook _ _ undoing => undoing
  | prepared _ _ => false

end Request

inductive Decision
  | merge (sid : Sid) (info : PointInfo)
  | take
  /-- The newest identifier is no date. -/
  | crash

def System.decision (s : System) (env : Env) (source : Option String) : Decision :=
  match s.points.getLast? with
  | none => .take
  | some (sid, info) =>
    if info.kind = some .auto ∧ info.source = source then
      match env.cal.mktime sid with
      | none => .crash
      | some t => if env.clock .merge - t < 300 then .merge sid info else .take
    else .take

def mergedInfo (env : Env) (info : PointInfo) (changes : List Change) (source : Option String) :
    PointInfo :=
  let merged := mergeChanges info.changes changes
  { info with changes := merged, label := label env.ours source merged }

def wentBackFile : String := "var/lib/stained-glass-rollback/went-back"

def tell (env : Env) : Cmd Unit := do
  if (← Act.get).entries.isSome then env.op .menu id
  env.op .publish id

def clearUp (env : Env) (sid : Sid) : Cmd (List String) := do
  pruneAll env [sid]
  tell env
  pure ["SNAPSHOT " ++ sid]

def carryOut (env : Env) (changes : List Change) (source : Option String) :
    Decision → Cmd (List String)
  | .crash => Act.fail .stuck
  | .merge sid info => do
    env.op .mergeInfo (·.setInfo sid (mergedInfo env info changes source))
    env.op .publish id
    pure ["SNAPSHOT " ++ sid]
  | .take => do
    let sid ← take env (label env.ours source changes) .auto changes source
    env.op .unlinkWentBack (·.editRoot "@" (Root.unlink wentBackFile))
    clearUp env sid

def beforeChanges (env : Env) (changes : List Change) (source : Option String) :
    Cmd (List String) := do
  if changes = [] then pure []
  else if env.layoutKind ≠ .btrfs then pure []
  -- running a restore point, or going back waits for the restart
  else if env.bootedSnapshot.isSome ∨ hasPrefix env.fsroot "/@old-" then pure []
  else
    env.op .mount id
    carryOut env changes source ((← Act.get).decision env source)

def before (env : Env) (r : Request) : Cmd (List String) :=
  if env.live ∨ r.undoing then pure []
  else beforeChanges env (r.changes env.u) r.source

def noPoints (env : Env) : Error :=
  .fail (str "This PC's system drive has no restore points (it is " ++ str env.layoutKind.name ++
    str ").")

def noSuchPoint (sid : Sid) : Error :=
  .fail (str "There is no restore point " ++ str sid ++ str ".")

def cmdCreate (env : Env) (label : Str) (kind : Kind) : Cmd (List String) := do
  if env.layoutKind ≠ .btrfs then Act.fail (noPoints env)
  else
    env.op .mount id
    let sid ← take env (label.take 300) kind [] none
    clearUp env sid

def cmdDelete (env : Env) (sid : Sid) : Cmd (List String) := do
  if ¬ matchesIdRe sid then Act.fail (.fail (str "usage: delete ID"))
  else if env.layoutKind ≠ .btrfs then Act.fail (noPoints env)
  else
    env.op .mount id
    if sid ∉ (← Act.get).points.map Prod.fst then Act.fail (noSuchPoint sid)
    else if env.bootedSnapshot = some sid then
      Act.fail (.fail (str "That restore point is the one running now."))
    else
      deletePoint env sid
      tell env
      pure []

end StainedGlass.Snapshot
