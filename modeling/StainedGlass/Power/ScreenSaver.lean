import StainedGlass.Lib.Bytes

/-! The `org.freedesktop.ScreenSaver` service, `power/sg-screensaverd.c`. -/

namespace StainedGlass.Power

open Lib

inductive Arg where
  | string (s : CString)
  | uint32 (n : UInt32)
  | boolean (b : Bool)
  | other
  deriving DecidableEq

inductive MessageType where
  | methodCall | signal | other
  deriving DecidableEq

structure Message where
  type : MessageType
  path : Option CString
  interface : Option CString
  member : Option CString
  sender : Option CString
  args : List Arg
  deriving DecidableEq

/-- `dbus_message_is_method_call` and `_is_signal`: an interface that is missing matches any. -/
def Message.is (msg : Message) (type : MessageType) (interface member : String) : Bool :=
  msg.type = type && msg.member = some (.ofString member) &&
    (msg.interface = none || msg.interface = some (.ofString interface))

def iface : String := "org.freedesktop.ScreenSaver"

def Message.atPath (msg : Message) : Bool :=
  msg.path = some (.ofString "/org/freedesktop/ScreenSaver") || msg.path = some (.ofString "/ScreenSaver")

def Message.calls (msg : Message) (interface member : String) : Bool :=
  msg.atPath && msg.is .methodCall interface member

def Message.departed (msg : Message) : Option CString :=
  if msg.is .signal "org.freedesktop.DBus" "NameOwnerChanged" then
    match msg.args with
    | .string name :: .string _ :: .string newOwner :: _ =>
      if name.bytes.head? = some 58 && newOwner = .empty then some name else none
    | _ => none
  else none

/-- An answer.  The text of an error about arguments is the bus library's own where there is none. -/
inductive Reply where
  | introspection
  | cookie (c : UInt32)
  | done
  | answer (b : Bool)
  | zero
  | invalidArgs (text : Option String)
  | noMemory (text : String)
  | unknownMethod (member : CString)
  deriving DecidableEq

structure Inhibition where
  cookie : UInt32
  owner : CString
  app : CString
  reason : CString
  deriving DecidableEq

structure State where
  held : List Inhibition
  size : Nat
  nextCookie : UInt32
  hold : Bool

def State.init : State := ⟨[], 0, 1, false⟩

/-- Whether `realloc` gives memory, and what the compositor says to a command, if anything. -/
structure World where
  memory : Bool
  control : String → Option CString

def World.answers (w : World) (command answer : String) : Bool :=
  (w.control command).any fun reply => (ascii answer).isPrefixOf reply.bytes

def updateHold (w : World) (st : State) : State :=
  if st.held ≠ [] ∧ !st.hold then { st with hold := w.answers "INHIBIT\n" "OK" }
  else if st.held = [] ∧ st.hold then { st with hold := false }
  else st

def drop (held : List Inhibition) (i : Nat) : List Inhibition :=
  match held.getLast? with
  | none => []
  | some last => (held.set i last).dropLast

@[simp] theorem length_drop (held : List Inhibition) (i : Nat) :
    (drop held i).length = held.length - 1 := by
  unfold drop
  split
  · next h => simp [List.getLast?_eq_none_iff.mp h]
  · simp

def dropOwned (name : CString) (held : List Inhibition) (i : Nat) : List Inhibition :=
  match h : held[i]? with
  | none => held
  | some x =>
    have _ : i < held.length := (List.getElem?_eq_some_iff.mp h).1
    if x.owner = name then dropOwned name (drop held i) i else dropOwned name held (i + 1)
termination_by held.length - i
decreasing_by
  · rw [length_drop]
    omega
  · omega

def cookieAfter (c : UInt32) : UInt32 := if c + 1 = 0 then 1 else c + 1

def add (w : World) (st : State) (owner app reason : CString) : UInt32 × State :=
  if st.held.length = st.size ∧ !w.memory then (0, st)
  else
    (st.nextCookie,
      { st with
        held := st.held ++ [⟨st.nextCookie, owner, app, reason⟩]
        size := if st.held.length = st.size then (if st.size = 0 then 8 else st.size * 2) else st.size
        nextCookie := cookieAfter st.nextCookie })

def isLocked (w : World) : Bool := w.answers "STATUS\n" "OK locked"

def inhibit (w : World) (st : State) (msg : Message) : State × Reply :=
  match msg.args with
  | .string app :: .string reason :: _ =>
    let (cookie, st) := add w st (msg.sender.getD .empty) app reason
    if cookie = 0 then (st, .noMemory "out of memory") else (updateHold w st, .cookie cookie)
  | _ => (st, .invalidArgs none)

def unInhibit (w : World) (st : State) (msg : Message) : State × Reply :=
  match msg.args with
  | .uint32 cookie :: _ =>
    match st.held.findIdx? fun x => x.cookie = cookie && msg.sender = some x.owner with
    | none => (st, .invalidArgs (some "no such inhibition"))
    | some i => (updateHold w { st with held := drop st.held i }, .done)
  | _ => (st, .invalidArgs none)

def setActive (w : World) (msg : Message) : Reply :=
  match msg.args with
  | .boolean active :: _ => .answer (active && w.answers "LOCK\n" "OK")
  | _ => .invalidArgs none

def handleMessage (w : World) (st : State) (msg : Message) : State × Option Reply :=
  if msg.is .signal "org.freedesktop.DBus" "NameOwnerChanged" then
    match msg.departed with
    | some name => (updateHold w { st with held := dropOwned name st.held 0 }, none)
    | none => (st, none)
  else if msg.type ≠ .methodCall || msg.member = none || !msg.atPath then (st, none)
  else if msg.calls "org.freedesktop.DBus.Introspectable" "Introspect" then (st, some .introspection)
  else if msg.calls iface "Inhibit" then (inhibit w st msg).map id some
  else if msg.calls iface "UnInhibit" then (unInhibit w st msg).map id some
  else if msg.calls iface "SimulateUserActivity" then (st, some .done)
  else if msg.calls iface "Lock" then (st, some .done)
  else if msg.calls iface "SetActive" then (st, some (setActive w msg))
  else if msg.calls iface "GetActive" then (st, some (.answer (isLocked w)))
  else if msg.calls iface "GetActiveTime" || msg.calls iface "GetSessionIdleTime" then (st, some .zero)
  else (st, some (.unknownMethod (msg.member.getD .empty)))

def run (st : State) : List (World × Message) → State × List (Message × Option Reply)
  | [] => (st, [])
  | (w, msg) :: msgs =>
    let (st, reply) := handleMessage w st msg
    let (st, trace) := run st msgs
    (st, (msg, reply) :: trace)

end StainedGlass.Power
