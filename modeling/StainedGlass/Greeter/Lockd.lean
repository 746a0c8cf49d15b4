import StainedGlass.Broker.Consent

/-! The lock service, `greeter/sg-lockd.c`. -/

namespace StainedGlass.Greeter

open Lib
open Broker (Accounts Passwd Connection)

def maxField : Nat := 512

/-- A full buffer ends a line as a newline does; nothing is returned when the stream ends first. -/
def readLine : Nat → Bytes → Option (Bytes × Bytes)
  | 0, rest => some ([], rest)
  | _ + 1, [] => none
  | n + 1, c :: rest =>
    if c = 10 then some ([], rest)
    else if c = 13 then readLine (n + 1) rest
    else (readLine n rest).map fun r => (c :: r.1, r.2)

inductive Event where
  | watching (uid : UInt32)
  | gone
  | event (ev : CString)
  | started (sas : Bool) (output : Bytes)
  | stopped
  | line (line : CString)
  | told (text : Bytes)
  | checked (user pass : CString) (accepted : Bool)
  | command (cmd : CString)
  deriving DecidableEq

structure Ui where
  sas : Bool
  output : Bytes
  deriving DecidableEq

structure Session where
  user : CString
  watch : Bytes
  ui : Option Ui
  deriving DecidableEq

/-- `start` and `restart` are the whole outputs of the UIs it starts, `monitor` the monitor's byte. -/
structure Poll where
  event : Bool
  ui : Bool
  start : Option Bytes
  restart : Option Bytes
  monitor : Option UInt8
  control : Connection

def Session.uiStart (s : Session) (sas : Bool) : Option Bytes → Session × List Event
  | some output => ({ s with ui := some ⟨sas, output⟩ }, [.started sas output])
  | none => (s, [])

def Session.uiStop (s : Session) : Session × List Event :=
  match s.ui with
  | some _ => ({ s with ui := none }, [.stopped])
  | none => (s, [])

def checkPassword (user pass : CString) (monitor : Option UInt8) : Bool :=
  user.bytes.length < maxField && pass.bytes.length < maxField && monitor = some 1

def controlCommand (cmd : CString) : Connection → List Event × Option CString
  | .refused => ([], none)
  | .silent => ([.command cmd], none)
  | .replied [] => ([.command cmd], none)
  | .replied (b :: bs) => ([.command cmd], some (.ofBuffer ((b :: bs).take 63)))

def sasCommand (line : CString) : Option CString :=
  if line = .ofString "SAS lock" then some (.ofString "LOCK\n")
  else if line = .ofString "SAS cancel" ∨ line = .ofString "SAS taskmgr" ∨
      line = .ofString "SAS signout" then some (.ofBuffer (line.bytes ++ [10]))
  else none

def prompt (user : CString) : Event :=
  .told (ascii "PROMPT_SECRET Password for " ++ user.bytes ++ ascii ":")

def unlockCommand : CString := .ofString "UNLOCK\n"

def lockLine (user line : CString) (p : Poll) : Bool × List Event :=
  if ascii "HELLO" <+: line.bytes then (false, [prompt user])
  else if ascii "REPLY " <+: line.bytes then
    let pass := CString.ofBuffer (line.bytes.drop 6)
    if checkPassword user pass p.monitor then
      let (sent, reply) := controlCommand unlockCommand p.control
      match reply.filter fun r => ascii "OK unlocked" <+: r.bytes with
      | some _ => (true, .checked user pass true :: sent ++ [.told (ascii "SUCCESS")])
      | none =>
        (false, .checked user pass true :: sent ++
          [.told (ascii "FAILURE The session could not be unlocked.")])
    else
      (false, [.checked user pass false, .told (ascii "FAILURE The password is incorrect."),
        prompt user])
  else (false, [])

def uiLine (sas : Bool) (user line : CString) (p : Poll) : Bool × List Event :=
  if sas then
    match sasCommand line with
    | some cmd => (false, (controlCommand cmd p.control).1)
    | none => (false, [])
  else lockLine user line p

def Session.onEvent (s : Session) (start : Option Bytes) : Option (Session × List Event) :=
  match readLine 63 s.watch with
  | none => none
  | some (b, watch) =>
    let ev := CString.ofBuffer b
    let s := { s with watch }
    if (ev = .ofString "locked" ∨ ev = .ofString "OK locked") ∧ s.ui.all (·.sas) then
      let (s, stopped) := s.uiStop
      let (s, started) := s.uiStart false start
      some (s, .event ev :: stopped ++ started)
    else if ev = .ofString "sas" ∧ s.ui.isNone then
      let (s, started) := s.uiStart true start
      some (s, .event ev :: started)
    else if ev = .ofString "unlocked" ∨ ev = .ofString "OK unlocked" then
      let (s, stopped) := s.uiStop
      some (s, .event ev :: stopped)
    else some (s, [.event ev])

def Session.onUi (s : Session) (p : Poll) : Session × List Event :=
  match s.ui with
  | none => (s, [])
  | some ui =>
    match readLine (maxField + 15) ui.output with
    | none =>
      let (s, stopped) := s.uiStop
      let (s, started) := s.uiStart ui.sas p.restart
      (s, stopped ++ started)
    | some (b, output) =>
      let line := CString.ofBuffer b
      let s := { s with ui := some { ui with output } }
      let (unlocked, events) := uiLine ui.sas s.user line p
      let (s, stopped) := if unlocked then s.uiStop else (s, [])
      (s, .line line :: events ++ stopped)

/-- One turn of the inner loop.  A UI that was not yet there when `poll` was called is not
read in this turn. -/
def Session.poll (s : Session) (p : Poll) : Option Session × List Event :=
  match if p.event then s.onEvent p.start else some (s, []) with
  | none => (none, s.uiStop.2 ++ [.gone])
  | some (s', events) =>
    if p.ui ∧ s.ui.isSome then
      let (s', events') := s'.onUi p
      (some s', events ++ events')
    else (some s', events)

/-- A connection, with the peer's uid and all that the compositor sends, a turn, or a failing `poll`. -/
inductive Input where
  | connect (uid : UInt32) (watch : Bytes)
  | poll (p : Poll)
  | broken

def step (db : Accounts) : Option Session → Input → Option Session × List Event
  | none, .connect uid watch =>
    match db.getpwuid uid with
    | none => (none, [])
    | some pw =>
      (some ⟨.ofBuffer (pw.name.bytes.take (maxField - 1)), watch, none⟩, [.watching uid])
  | none, _ => (none, [])
  | some s, .poll p => s.poll p
  | some s, .broken => (none, s.uiStop.2 ++ [.gone])
  | some s, .connect .. => (some s, [])

def run (db : Accounts) (s : Option Session) : List Input → Option Session × List Event
  | [] => (s, [])
  | i :: is =>
    let (s, events) := step db s i
    let (s, events') := run db s is
    (s, events ++ events')

end StainedGlass.Greeter
