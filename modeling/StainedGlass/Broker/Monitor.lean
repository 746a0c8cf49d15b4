import StainedGlass.Broker.Accounts
import StainedGlass.Lib.Process

/-! The broker and its root monitor: two processes and a socket pair. -/

namespace StainedGlass.Broker

open Lib

def monitorPolkitMark : UInt32 := 0xffffffff
def monitorLogonMark : UInt32 := 0xfffffffe
def monitorSpawnMark : UInt32 := 0xfffffffd

/-- What the monitor acts on: the arguments of `run_pamcheck`, `monitor_polkit`
and `monitor_spawn`. -/
inductive Request where
  | pam (user pass : CString) (service : Option CString)
  | polkit (agent identity : UInt32) (cookie : CString)
  | spawn (uid : UInt32) (blob : Bytes)
  deriving DecidableEq

inductive Ending where
  | again
  | exit (code : Nat)
  deriving DecidableEq

def logonService : CString := .ofString "stained-glass-logon"

def reply (ok : UInt8) : Proc Request Ending := .write [ok] (.done .again)

def passwordRequest (service : Option CString) (ulen : UInt32) : Proc Request Ending :=
  .read 4 fun w =>
    let plen := ofLe32 w
    if maxField ≤ ulen.toNat ∨ maxField ≤ plen.toNat then .done (.exit 1)
    else
      .read ulen.toNat fun user => .read plen.toNat fun pass =>
        .act (.pam (.ofBuffer user) (.ofBuffer pass) service) reply

def monitorLoop : Proc Request Ending :=
  .read 4 fun w =>
    let ulen := ofLe32 w
    if ulen = monitorSpawnMark then
      .read 4 fun uid => .read 4 fun blen =>
        if maxBlob < (ofLe32 blen).toNat then .done (.exit 0)
        else .read (ofLe32 blen).toNat fun blob => .act (.spawn (ofLe32 uid) blob) reply
    else if ulen = monitorPolkitMark then
      .read 4 fun agent => .read 4 fun identity => .read 4 fun clen =>
        if maxField ≤ (ofLe32 clen).toNat then .done (.exit 0)
        else .read (ofLe32 clen).toNat fun cookie =>
          .act (.polkit (ofLe32 agent) (ofLe32 identity) (.ofBuffer cookie)) reply
    else if ulen = monitorLogonMark then
      .read 4 fun w => passwordRequest (some logonService) (ofLe32 w)
    else passwordRequest none ulen

def isCookieByte (c : UInt8) : Bool := isAlnum c || c ∈ ascii "-_.:"

def monitorPolkit (db : Accounts) (cfg : Config) (agent identity : UInt32) (cookie : CString) :
    Option (List CString) :=
  match db.getpwuid identity with
  | none => none
  | some id =>
    let name := CString.ofBuffer (id.name.bytes.take (maxField - 1))
    if agent = 0 || isSystemUid db cfg agent || !isAdminName db cfg name ||
      cookie.bytes.isEmpty || !cookie.bytes.all isCookieByte then none
    else some [cfg.polkitRespond, .decimal agent.toNat, cookie, .decimal identity.toNat]

structure SpawnFields where
  cwd : CString
  ticket : CString
  control : CString
  requester : CString
  args : List CString
  deriving DecidableEq

/-- The four strings and the arguments of a spawn message; `argv` has room for
254 of them behind the program. -/
def parseSpawn (blob : Bytes) : Option SpawnFields :=
  if blob.getLast? ≠ some 0 then none
  else
    let (cwd, p) := nextString blob
    if p = [] then none
    else
      let (ticket, p) := nextString p
      if p = [] then none
      else
        let (control, p) := nextString p
        if p = [] then none
        else
          let (requester, p) := nextString p
          let args := (unpack p).take 254
          if args = [] then none else some ⟨cwd, ticket, control, requester, args⟩

def monitorSpawn (db : Accounts) (cfg : Config) (uid : UInt32) (blob : Bytes) :
    Option (Passwd × SpawnFields) :=
  match db.getpwuid uid with
  | none => none
  | some pw =>
    if uid < 1000 || isSystemUid db cfg uid then none
    else (parseSpawn blob).map (pw, ·)

def Request.admitted (db : Accounts) (cfg : Config) : Request → Bool
  | .pam .. => true
  | .polkit agent identity cookie => (monitorPolkit db cfg agent identity cookie).isSome
  | .spawn uid blob => (monitorSpawn db cfg uid blob).isSome

structure Field extends CString where
  short : bytes.length < 2 ^ 32
  deriving DecidableEq

structure Spawn where
  uid : UInt32
  cwd : CString
  ticket : CString
  control : CString
  requester : UInt32
  args : List CString
  args_ne_nil : args ≠ []
  deriving DecidableEq

/-- The directory, the ticket, the compositor and the requester, then every
argument that still fits. -/
def Spawn.blob (s : Spawn) : Option Bytes :=
  let head := pack [s.cwd, s.ticket, s.control, .decimal s.requester.toNat]
  if maxBlob ≤ head.length then none
  else s.args.foldlM (put maxBlob) head

inductive Call where
  | checkPasswordAs (user pass : Field) (logon : Bool)
  | polkitRespond (agent identity : UInt32) (cookie : Field)
  | spawn (s : Spawn)
  deriving DecidableEq

def Call.writes : Call → Option (List Bytes)
  | .checkPasswordAs user pass logon =>
    let ulen := UInt32.ofNat user.bytes.length
    let plen := UInt32.ofNat pass.bytes.length
    if maxField ≤ ulen.toNat ∨ maxField ≤ plen.toNat then none
    else some ((if logon then [le32 monitorLogonMark] else []) ++
      [le32 ulen, le32 plen, user.bytes.take ulen.toNat, pass.bytes.take plen.toNat])
  | .polkitRespond agent identity cookie =>
    let clen := UInt32.ofNat cookie.bytes.length
    if maxField ≤ clen.toNat then none
    else some [le32 monitorPolkitMark, le32 agent, le32 identity, le32 clen,
      cookie.bytes.take clen.toNat]
  | .spawn s =>
    s.blob.map fun blob =>
      let len := UInt32.ofNat blob.length
      [le32 monitorSpawnMark, le32 s.uid, le32 len, blob.take len.toNat]

def Call.result (ok : UInt8) : Call → Bool
  | .spawn _ => ok ≠ 0
  | _ => ok = 1

def Call.awaiting (c : Call) : Proc Empty Bool :=
  .readFull 1 fun r => .done (c.result (r.headD 0))

def Call.proc (c : Call) : Proc Empty Bool :=
  match c.writes with
  | none => .done false
  | some writes => writes.foldr .write c.awaiting

inductive Event where
  | called (c : Call)
  | acted (r : Request) (ok : Bool)
  | returned (ok : Bool)
  deriving DecidableEq

structure System where
  broker : Option (Proc Empty Bool)
  monitor : Proc Request Ending
  toMonitor : Bytes
  toBroker : Bytes
  trace : List Event

def System.init : System := ⟨none, monitorLoop, [], [], []⟩

/-- The machine answers a request as it likes; either process moves whenever it can. -/
inductive Step (db : Accounts) (cfg : Config) : System → System → Prop
  | call (c : Call) : s.broker = none →
      Step db cfg s { s with broker := some c.proc, trace := s.trace ++ [.called c] }
  | broker : s.broker = some P → Proc.Moves ⟨P, s.toBroker, s.toMonitor⟩ ⟨P', input, output⟩ →
      Step db cfg s { s with broker := some P', toBroker := input, toMonitor := output }
  | finish : s.broker = some (.done ok) →
      Step db cfg s { s with broker := none, trace := s.trace ++ [.returned ok] }
  | monitor : Proc.Moves ⟨s.monitor, s.toMonitor, s.toBroker⟩ ⟨M', input, output⟩ →
      Step db cfg s { s with monitor := M', toMonitor := input, toBroker := output }
  | act (ok : Bool) : s.monitor = .act r k → (ok → r.admitted db cfg) →
      Step db cfg s
        { s with monitor := k (if ok then 1 else 0), trace := s.trace ++ [.acted r ok] }
  | loop : s.monitor = .done .again → Step db cfg s { s with monitor := monitorLoop }

def Reachable (db : Accounts) (cfg : Config) (s : System) : Prop :=
  Relation.ReflTransGen (Step db cfg) .init s

end StainedGlass.Broker
