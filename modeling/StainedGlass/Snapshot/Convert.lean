import StainedGlass.Lib.Words
import StainedGlass.Snapshot.System

/-! The conversion of the system drive after it was made. -/

namespace StainedGlass.Snapshot.Convert

open Lib

/-- `created` is the creation time of the old file system's subvolume, `before` the state file in it. -/
structure Machine where
  kind : Layout
  saved : Bool
  image : Bool
  created : Option Int
  state : Str
  before : Str
  entry : Bool
  oneshot : Bool

inductive Op
  | removeEntry | startFiles | writeEntry | bootctl | mount | delete | write
  | menu | marker | refresh | publish
  deriving DecidableEq

/-- `now` is compared with the deadline, `stamp` is for `new_id`; `oneshot` is whether the firmware takes
`set-oneshot`. -/
structure Env where
  now : Int
  stamp : Int
  fails : Op → Option Error
  oneshot : Bool
  power : Bool
  live : Bool
  booted : Bool

abbrev Cmd := Act Machine Error

def Env.op (env : Env) (o : Op) (f : Machine → Machine) : Cmd Unit := Act.op (env.fails o) f

def refuse {α : Type} (message : String) : Cmd α := Act.fail (.fail (str message))

variable (u : Unicode) (cal : Calendar)

def convertState (m : Machine) : Str × Str :=
  if u.lstrip m.state = [] then (str "none", [])
  else (u.word m.state, u.strip (u.afterWord m.state))

def toSid (s : Str) : Sid := String.ofList (s.map Char.ofNat)

def savedCreated (m : Machine) : Except Error (Option Int) :=
  let detail := (convertState u m).2
  if u.lstrip detail ≠ [] ∧ matchesIdRe (toSid (u.word detail)) then
    match cal.mktime (toSid (u.word detail)) with
    | some t => .ok (some t)
    | none => .error .stuck
  else .ok m.created

def convertDays : Int := 14

def convertDeadline (m : Machine) : Except Error (Option Int) :=
  if m.kind ≠ .btrfs ∨ (convertState u m).1 ≠ str "converted" then .ok none
  else if m.saved = false then .ok none
  else (savedCreated u cal m).map fun t => t.map (· + convertDays * 86400)

def convertDaysLeft (now deadline : Int) : Int := max 0 (-((now - deadline).fdiv 86400))

def deadline : Cmd (Option Int) := do
  match convertDeadline u cal (← Act.get) with
  | .ok d => pure d
  | .error e => Act.fail e

variable (env : Env)

def newId : Str := str (cal.newId env.stamp)

def writeState (text : Str) : Cmd Unit := env.op .write fun m => { m with state := text }

def removeConvertEntry : Cmd Unit := env.op .removeEntry fun m => { m with entry := false }

def setOneshot (on : Bool) : Cmd Unit := do
  env.op .bootctl fun m => if env.oneshot then { m with oneshot := on } else m

def scheduleConvert : Cmd Unit := do
  env.op .startFiles id
  env.op .writeEntry fun m => { m with entry := true }
  setOneshot env true
  if !env.oneshot then
    removeConvertEntry env
    refuse "The conversion could not be scheduled: the firmware did not take the boot entry"

def cmdConvertCancel : Cmd (List Str) := do
  let st := (convertState u (← Act.get)).1
  if st ≠ str "scheduled" ∧ st ≠ str "undo-scheduled" then
    refuse "No conversion is waiting for the next start."
  else
    setOneshot env false
    removeConvertEntry env
    writeState env ((if st = str "scheduled" then str "none" else str "converted") ++
      (str " cancelled " ++ newId cal env ++ [10]))
    env.op .publish id
    pure []

def deleteSaved : Cmd Unit := do
  if (← Act.get).saved then env.op .delete fun m => { m with saved := false, image := false }
  else pure ()

def keepConversion (auto : Bool) : Cmd Unit := do
  deleteSaved env
  writeState env (str "kept " ++ newId cal env ++ (if auto then str " auto" else []) ++ [10])

def cmdConvertKeep : Cmd (List Str) := do
  if (← Act.get).kind ≠ .btrfs then refuse "The system drive has not been converted."
  else
    env.op .mount id
    keepConversion cal env false
    env.op .publish id
    pure []

def expireConvert : Cmd Bool := do
  match ← deadline u cal with
  | none => pure false
  | some dl =>
    if env.now < dl then pure false
    else
      keepConversion cal env true
      pure true

def expireReply (done : Bool) (dl : Option Int) : List Str :=
  if done then [str "KEPT"]
  else
    match dl with
    | none => []
    | some dl => if dl = 0 then [] else [str "WAITING " ++ dec (convertDaysLeft env.now dl).toNat]

def cmdConvertExpire : Cmd (List Str) := do
  if (← Act.get).kind ≠ .btrfs then pure []
  else
    env.op .mount id
    let done ← expireConvert u cal env
    let dl ← deadline u cal
    env.op .publish id
    pure (expireReply env done dl)

def cmdConvertUndo : Cmd (List Str) := do
  let m ← Act.get
  if m.kind ≠ .btrfs ∧ m.kind ≠ .btrfsPlain then refuse "The system drive has not been converted."
  else
    env.op .mount id
    if !m.image then
      refuse "The old file system is no longer kept: the conversion cannot be undone."
    else if !env.power then refuse "Connect your PC to power first."
    else
      scheduleConvert env
      writeState env (str "undo-scheduled " ++ newId cal env ++ [10])
      env.op .publish id
      pure [str "SCHEDULED"]

def ext4 : Layout := .other "ext4"

def bootConverted (st : Str) : Cmd Unit := do
  if st ≠ str "converted" then pure ()
  else if !(← Act.get).saved then
    -- kept already: a restore point from before that was gone back to
    writeState env (str "kept " ++ newId cal env ++ [10])
  else do
    let _ ← expireConvert u cal env
    pure ()

def bootSystem (st : Str) : Cmd Unit :=
  if env.booted then env.op .marker id
  else do
    env.op .refresh id
    bootConverted u cal env st

def bootBtrfs (st : Str) : Cmd Unit := do
  env.op .mount id
  bootSystem u cal env st
  env.op .menu id
  env.op .publish id

def writeUndone (st : Str) : Cmd Unit :=
  if st = str "converted" then writeState env (str "undone " ++ newId cal env ++ [10]) else pure ()

def bootExt4 (st : Str) : Cmd Unit := do
  env.op .menu id
  writeUndone cal env st
  env.op .menu id
  env.op .publish id

def bootState (st : Str) (kind : Layout) : Cmd Unit :=
  if st = str "scheduled" ∧ kind = ext4 then
    writeState env (str "failed The conversion did not start.\n")
  else if st = str "undo-scheduled" ∧ kind ≠ ext4 then
    writeState env (str "converted The undo did not start.\n")
  else pure ()

def bootKind (st : Str) : Layout → Cmd Unit
  | .btrfs => bootBtrfs u cal env st
  | .btrfsPlain => do
    env.op .mount id
    env.op .publish id
  | .other fstype => if fstype = "ext4" then bootExt4 cal env st else env.op .publish id

def cmdBoot : Cmd (List Str) := do
  if env.live then pure []
  else
    let m ← Act.get
    let st := (convertState u m).1
    removeConvertEntry env
    bootState env st m.kind
    bootKind u cal env st m.kind
    pure []

structure Initrd where
  found : Bool
  mounts : Bool
  converts : Bool
  mountsAfter : Bool
  stamp : Str

def Machine.isBtrfs (m : Machine) : Bool := m.kind = .btrfs || m.kind = .btrfsPlain

def Machine.undo (m : Machine) (i : Initrd) : Machine :=
  if !i.found || !m.isBtrfs then m
  else if !(i.mounts && m.image) then m
  else if !i.converts then
    if i.mountsAfter then { m with state := str "converted The undo failed (btrfs-convert).\n" }
    else m
  else
    { m with
      kind := ext4
      saved := false
      image := false
      state := if i.mountsAfter then str "undone " ++ i.stamp ++ [10] else m.before }

def Machine.startInitrd (m : Machine) (i : Initrd) : Machine :=
  if m.oneshot && m.entry then { m with oneshot := false }.undo i else { m with oneshot := false }

inductive Event
  | boot (env : Env)
  | initrd (i : Initrd)
  | undo (env : Env)
  | cancel (env : Env)
  | keep (env : Env)
  | expire (env : Env)

def Machine.next (m : Machine) : Event → Machine
  | .boot env => (cmdBoot u cal env m).2
  | .initrd i => m.startInitrd i
  | .undo env => (cmdConvertUndo cal env m).2
  | .cancel env => (cmdConvertCancel u cal env m).2
  | .keep env => (cmdConvertKeep cal env m).2
  | .expire env => (cmdConvertExpire u cal env m).2

def Machine.run (m : Machine) (es : List Event) : Machine := es.foldl (Machine.next u cal) m

def Machine.Undoable (m : Machine) : Prop := m.kind = .btrfs ∧ m.saved = true

instance (m : Machine) : Decidable m.Undoable := inferInstanceAs (Decidable (_ ∧ _))

def Machine.Kept (m : Machine) : Prop := m.saved = false ∧ (convertState u m).1 = str "kept"

/-- The machine as a conversion at `t` leaves it. -/
structure Machine.ConvertedAt (m : Machine) (t : Int) : Prop where
  undoable : m.Undoable
  created : m.created = none
  state : ∃ sid, matchesIdRe sid ∧ '\n' ∉ sid.toList ∧ cal.mktime sid = some t ∧
    m.state = str "converted " ++ str sid ++ [10]

end StainedGlass.Snapshot.Convert
