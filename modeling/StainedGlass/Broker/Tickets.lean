import StainedGlass.Broker.Monitor
import StainedGlass.Lib.Number

/-! The tickets directory of `broker/sg-brokerd.c`. -/

namespace StainedGlass.Broker

open Lib

structure Node where
  regular : Bool
  mode : Nat
  uid : UInt32
  content : Bytes
  mtime : Int
  serial : Nat
  deriving DecidableEq

structure Store where
  dir : CString → Option Node
  next : Nat
  serial_lt : dir n = some f → f.serial < next
  name_unique : dir n = some f → dir m = some g → f.serial = g.serial → n = m

def Store.restrict (s : Store) (keep : CString → Node → Bool) : Store where
  dir n := (s.dir n).filter (keep n)
  next := s.next
  serial_lt h := s.serial_lt (Option.filter_eq_some_iff.mp h).1
  name_unique h h' :=
    s.name_unique (Option.filter_eq_some_iff.mp h).1 (Option.filter_eq_some_iff.mp h').1

def Store.unlink (s : Store) (name : CString) : Store := s.restrict fun n _ => n ≠ name

def Store.create (s : Store) (name : CString) (f : Node) : Store where
  dir n := if n = name ∧ s.dir name = none then some { f with serial := s.next } else s.dir n
  next := s.next + 1
  serial_lt h := by
    split at h
    · cases h
      exact Nat.lt_succ_self _
    · exact Nat.lt_succ_of_lt (s.serial_lt h)
  name_unique {n f m g} h h' heq := by
    split at h <;> split at h'
    · next hn hm => rw [hn.1, hm.1]
    · cases h
      have : s.next = g.serial := heq
      exact absurd (s.serial_lt h') (by omega)
    · cases h'
      have : f.serial = s.next := heq
      exact absurd (s.serial_lt h) (by omega)
    · exact s.name_unique h h' heq

def ticketLifetime : Int := 30

def Store.sweep (s : Store) (now : Int) : Store :=
  s.restrict fun n f => n.bytes.head? = some 46 || !(f.mtime + 2 * ticketLifetime < now)

def ticketName (rnd : Bytes) : CString :=
  .ofBuffer (rnd.flatMap fun b => hex 2 b.toNat)

def ticketText (target requester type : UInt32) (now : Int) : Bytes :=
  ascii "uid=" ++ (decimal target.toNat ++ (ascii "\nfor=" ++ (decimal requester.toNat ++
    (ascii "\ntype=" ++ (decimal type.toNat ++ (ascii "\nexpires=" ++
      (signedDecimal (now + ticketLifetime) ++ ascii "\n")))))))

structure RateSlot where
  uid : UInt32
  start : Int
  failures : UInt32
  deriving DecidableEq

def logonWindow : Int := 60

def findSlot (uid : UInt32) (slot : Nat) (oldest : Int) (i : Nat) : List RateSlot → Nat × Bool
  | [] => (slot, false)
  | r :: rs =>
    if r.uid = uid ∧ r.start ≠ 0 then (i, true)
    else if r.start < oldest then findSlot uid i r.start (i + 1) rs
    else findSlot uid slot oldest (i + 1) rs

def logonRateLimited (limitEnv : Option CString) (now : Int) (uid : UInt32) (failed : Bool)
    (slots : List RateSlot) : Bool × List RateSlot :=
  let limit := (limitEnv.map fun v => UInt32.ofNat (strtoul v.bytes)).getD 5
  let (slot, found) := findSlot uid 0 now 0 slots
  let r := if found then slots.getD slot ⟨uid, now, 0⟩ else ⟨uid, now, 0⟩
  let r := if logonWindow ≤ now - r.start then { r with start := now, failures := 0 } else r
  let r := if failed then { r with failures := r.failures + 1 } else r
  (limit ≤ r.failures, slots.set slot r)

def envValue (key : String) (env : List CString) : Option CString :=
  (env.filter fun kv => (ascii key).isPrefixOf kv.bytes).getLast?.map fun kv =>
    .ofBuffer (kv.bytes.drop (ascii key).length)

/-- The requests and the wineserver's files, with what the machine answers. -/
structure LogonInput where
  peer : UInt32
  env : List CString
  limitEnv : Option CString
  sweepAt : Int
  askAt : Int
  failAt : Int
  ticketAt : Int
  random : Option Bytes
  opens : Bool
  written : Bool
  euid : UInt32
  reply : Option UInt8

structure LaunchInput where
  peer : UInt32
  env : List CString
  args : List CString
  euid : UInt32
  now : Int
  control : CString

inductive Input where
  | deposit (name : CString) (f : Node)
  | logon (i : LogonInput)
  | launch (i : LaunchInput)

structure State where
  store : Store
  rate : List RateSlot

def logonTarget (db : Accounts) (cfg : Config) (i : LogonInput) : Option Passwd :=
  match envValue "LOGON_USER=" i.env, envValue "LOGON_PASSWORD=" i.env with
  | some user, some pass =>
    if plainName user then
      (db.getpwnam user).filter fun pw => pw.uid ≠ 0 && pw.name ≠ cfg.systemUser &&
        (user.bytes.length < maxField && pass.bytes.length < maxField && i.reply = some 1)
    else none
  | _, _ => none

def makeTicket (s : Store) (target type : UInt32) (i : LogonInput) :
    Store × Option CString :=
  match i.random with
  | none => (s, none)
  | some rnd =>
    let name := ticketName rnd
    if rnd.length ≠ 16 ∨ !i.opens ∨ (s.dir name).isSome then (s, none)
    else
      let s := s.create name
        ⟨true, 0o600, i.euid, ticketText target i.peer type i.ticketAt, i.ticketAt, s.next⟩
      if i.written then (s, some name) else (s.unlink name, none)

def logonType (i : LogonInput) : UInt32 :=
  match envValue "LOGON_TYPE=" i.env with
  | some t => UInt32.ofNat (strtoul t.bytes)
  | none => 2

def handleLogon (db : Accounts) (cfg : Config) (st : State) (i : LogonInput) :
    State × UInt8 × Option CString :=
  let store := st.store.sweep i.sweepAt
  let (limited, rate) := logonRateLimited i.limitEnv i.askAt i.peer false st.rate
  match if limited then none else logonTarget db cfg i with
  | some pw =>
    match makeTicket store pw.uid (logonType i) i with
    | (store, some name) => (⟨store, rate⟩, 0, some name)
    | (store, none) => (⟨store, rate⟩, 2, none)
  | none =>
    let rate := if limited then rate
      else (logonRateLimited i.limitEnv i.failAt i.peer true rate).2
    (⟨store, rate⟩, 1, none)

structure Ticket where
  launch : Bool
  uid : UInt32
  forUid : UInt32
  expires : Int
  deriving DecidableEq

def ticketLine (t : Ticket) (p : Bytes) : Ticket :=
  if ascii "kind=launch\n" <+: p then { t with launch := true }
  else if ascii "uid=" <+: p then { t with uid := UInt32.ofNat (strtoul (p.drop 4)) }
  else if ascii "for=" <+: p then { t with forUid := UInt32.ofNat (strtoul (p.drop 4)) }
  else if ascii "expires=" <+: p then { t with expires := strtoll (p.drop 8) }
  else t

def ticketLines (t : Ticket) : Bytes → Ticket
  | [] => t
  | c :: p =>
    match _h : cut 10 (c :: p) with
    | none => ticketLine t (c :: p)
    | some (_, rest) => ticketLines (ticketLine t (c :: p)) rest
termination_by p => p.length
decreasing_by
  obtain ⟨heq, -⟩ := eq_of_cut _h
  rw [heq]
  simp only [List.length_append, List.length_cons]
  omega

def readTicket (content : Bytes) : Ticket :=
  ticketLines ⟨false, 0xffffffff, 0xffffffff, 0⟩ (cstr (content.take 255))

def isTicketName (s : CString) : Bool :=
  s.bytes.length = 32 && s.bytes.all fun c => c ∈ ascii "0123456789abcdef"

def Node.readable (f : Node) (euid : UInt32) : Bool :=
  f.regular && f.mode &&& 0o77 = 0 && (f.uid = euid || f.uid = 0) && !f.content.isEmpty

structure Launched where
  ticket : Node
  peer : UInt32
  now : Int
  spawn : Spawn
  run : Option (Passwd × SpawnFields)

def handleLaunch (db : Accounts) (cfg : Config) (s : Store) (i : LaunchInput) :
    Store × Option Launched :=
  match envValue "LAUNCH_TICKET=" i.env with
  | none => (s, none)
  | some name =>
    if h : isTicketName name ∧ i.args ≠ [] then
      match (s.dir name).filter (·.readable i.euid) with
      | none => (s, none)
      | some f =>
        let t := readTicket f.content
        if !t.launch ∨ t.forUid ≠ i.peer then (s, none)
        else if t.expires < i.now then (s.unlink name, none)
        else
          let cwd := (envValue "LAUNCH_CWD=" i.env).getD .empty
          let spawn : Spawn := ⟨t.uid, cwd, name, i.control, i.peer, i.args, h.2⟩
          match spawn.blob with
          | none => (s.unlink name, none)
          | some blob =>
            (s.unlink name, some ⟨f, i.peer, i.now, spawn, monitorSpawn db cfg t.uid blob⟩)
    else (s, none)

def step (db : Accounts) (cfg : Config) (st : State) : Input → State × Option Launched
  | .deposit name f => ({ st with store := st.store.create name f }, none)
  | .logon i => ((handleLogon db cfg st i).1, none)
  | .launch i =>
    let (store, e) := handleLaunch db cfg st.store i
    ({ st with store }, e)

def run (db : Accounts) (cfg : Config) (st : State) : List Input → State × List Launched
  | [] => (st, [])
  | i :: is =>
    let (st, e) := step db cfg st i
    let (st, es) := run db cfg st is
    (st, e.toList ++ es)

end StainedGlass.Broker
