import StainedGlass.Broker.Launch
import StainedGlass.Broker.Monitor

/-! A polkit question: `broker/sg-polkit-agent.c`, `broker/sg-brokerd.c`. -/

namespace StainedGlass.Broker

open Lib

structure Identity where
  kind : CString
  uid : Option UInt32
  deriving DecidableEq

structure PolkitAsk where
  cookie : CString
  action : CString
  identities : List Identity
  shown : List CString
  shown_ne : shown ≠ []

def PolkitAsk.uids (a : PolkitAsk) : List UInt32 :=
  a.identities.filterMap fun i => if i.kind = .ofString "unix-user" then i.uid else none

def oneUid (ids : Bytes) (uid : UInt32) : Bytes := (if ids = [] then [] else [44]) ++ decimal uid.toNat

def addUid (ids : Bytes) (uid : UInt32) : Bytes :=
  if ids.length + (oneUid ids uid).length < 1024 then ids ++ oneUid ids uid else ids

def PolkitAsk.ids (a : PolkitAsk) : Bytes := a.uids.foldl addUid []

def PolkitAsk.env (a : PolkitAsk) : List CString :=
  [keyValue 4096 "POLKIT_COOKIE" a.cookie.bytes, keyValue 4096 "POLKIT_ACTION" a.action.bytes,
    keyValue 4096 "POLKIT_IDENTITIES" a.ids]

def PolkitAsk.blob (a : PolkitAsk) : Option Bytes :=
  let blob := pack (.ofString "@polkit" :: a.env ++ .empty :: a.shown)
  if a.ids = [] ∨ 16384 < blob.length then none else some blob

def tokens (sep : UInt8) (s : Bytes) : List Bytes := (s.splitOn sep).filter (· ≠ [])

def listedUids (ids : CString) : List UInt32 :=
  (tokens 44 (ids.bytes.take (maxField - 1))).map fun tok => .ofNat (strtoul tok)

def polkitRespond (agent identity : UInt32) (cookie : CString) : Option Request :=
  if maxField ≤ cookie.bytes.length then none else some (.polkit agent identity cookie)

def consenter (requester who : CString) : CString := if who.bytes.isEmpty then requester else who

/-- A request from `agent`, whose account is `requester`; `who` is what `obtain_consent` leaves when
it returns. -/
def polkitRequest (db : Accounts) (requester : CString) (agent : UInt32) (blob : Bytes) (who : Option CString) :
    Option Request :=
  if blob = [] ∨ maxBlob < blob.length then none
  else
    let p := parseBlock (blob.dropLast ++ [0])
    if p.args = [] ∨ p.cwd ≠ .ofString "@polkit" then none
    else
      match envValue "POLKIT_COOKIE=" p.env, envValue "POLKIT_ACTION=" p.env, envValue "POLKIT_IDENTITIES=" p.env,
        who with
      | some cookie, some _, some ids, some who =>
        match db.getpwnam (consenter requester who) with
        | some pw => if pw.uid ∈ listedUids ids then polkitRespond agent pw.uid cookie else none
        | none => none
      | _, _, _, _ => none

end StainedGlass.Broker
