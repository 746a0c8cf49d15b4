import StainedGlass.Broker.Accounts

/-! `obtain_consent` of `broker/sg-brokerd.c`. -/

namespace StainedGlass.Broker

open Lib

inductive UiEvent where
  | char (c : UInt8)
  | intr
  | stop
  deriving DecidableEq

def consentReadLine (max : Nat) (buf : Bytes) : List UiEvent → Option (CString × List UiEvent)
  | [] => if buf.length < max - 1 then none else some (.ofBuffer buf, [])
  | e :: evs =>
    if buf.length < max - 1 then
      match e with
      | .stop => none
      | .intr => consentReadLine max buf evs
      | .char c =>
        if c = 10 then some (.ofBuffer buf, evs)
        else if c = 13 then consentReadLine max buf evs
        else consentReadLine max (buf ++ [c]) evs
    else some (.ofBuffer buf, e :: evs)

inductive Connection where
  | refused
  | silent
  | replied (b : Bytes)
  deriving DecidableEq

def surfaceCommand : Connection → Option CString
  | .refused => none
  | .silent => none
  | .replied [] => none
  | .replied (b :: bs) =>
    some (.ofBuffer (((b :: bs).take 63).takeWhile fun c => c ≠ 13 ∧ c ≠ 10))

inductive ConsentEvent where
  | command (cmd : String) (came : Connection)
  | line (l : CString)
  | checked (user pass : CString) (accepted : Bool)
  | audited (account : CString)
  | failure
  deriving DecidableEq

structure ConsentEnv where
  test : Bool
  testConsent : Option CString
  testAdminUser : Option CString
  testAdminPass : Option CString

/-- `monitor` has the byte the monitor answers to each password check, or none when it is gone. -/
structure ConsentWorld where
  surface : Option CString
  secure : Connection
  uiStarts : Bool
  ui : List UiEvent
  monitor : List (Option UInt8)
  release : Connection

structure Consent where
  allowed : Bool
  who : Option CString
  trace : List ConsentEvent
  deriving DecidableEq

def Consent.after (trace : List ConsentEvent) (c : Consent) : Consent :=
  { c with trace := trace ++ c.trace }

def checkPassword (user pass : CString) (monitor : List (Option UInt8)) :
    Bool × List (Option UInt8) :=
  if maxField ≤ user.bytes.length ∨ maxField ≤ pass.bytes.length then (false, monitor)
  else (monitor.head? = some (some 1), monitor.tail)

structure Tried where
  ok : Option CString
  trace : List ConsentEvent
  monitor : List (Option UInt8)

def tryCredentials (db : Accounts) (cfg : Config) (wholen : Nat) (user : Bytes)
    (monitor : List (Option UInt8)) : Tried :=
  match cut 9 user with
  | none => ⟨none, [.audited .empty], monitor⟩
  | some (name, pass) =>
    if name.length < wholen then
      let user := CString.ofBuffer name
      let pass := CString.ofBuffer pass
      let (ok, monitor) := checkPassword user pass monitor
      if isAdminName db cfg user && ok then ⟨some user, [.checked user pass ok], monitor⟩
      else ⟨none, [.checked user pass ok, .audited user], monitor⟩
    else ⟨none, [.audited (.ofBuffer user)], monitor⟩

def copyName (wholen : Nat) (s : CString) : CString := .ofBuffer (s.bytes.take (wholen - 1))

def consentLoop (db : Accounts) (cfg : Config) (requesterAdmin : Bool) (requester : CString)
    (wholen attempts : Nat) (monitor : List (Option UInt8)) (ui : List UiEvent) : Consent :=
  match consentReadLine 1024 [] ui with
  | none => ⟨false, none, []⟩
  | some (line, ui) =>
    if requesterAdmin ∧ line = .ofString "ALLOW" then
      ⟨true, some (copyName wholen requester), [.line line]⟩
    else if ¬ requesterAdmin ∧ ascii "CRED " <+: line.bytes then
      let tried := tryCredentials db cfg wholen (line.bytes.drop 5) monitor
      match tried.ok with
      | some user => ⟨true, some user, .line line :: tried.trace⟩
      | none =>
        if 3 ≤ attempts + 1 then ⟨false, none, .line line :: tried.trace⟩
        else
          (consentLoop db cfg requesterAdmin requester wholen (attempts + 1) tried.monitor ui).after
            (.line line :: tried.trace ++ [.failure])
    else ⟨false, none, [.line line]⟩
termination_by 3 - attempts

def testConsent (db : Accounts) (cfg : Config) (env : ConsentEnv) (requesterAdmin : Bool)
    (requester : CString) (wholen : Nat) (monitor : List (Option UInt8)) : Consent :=
  if requesterAdmin then
    ⟨env.testConsent = some (.ofString "yes") ∨ env.testConsent = some (.ofString "y"),
      some (copyName wholen requester), []⟩
  else
    match env.testAdminUser, env.testAdminPass with
    | some u, some p =>
      if isAdminName db cfg u then
        let ok := (checkPassword u p monitor).1
        if ok then ⟨true, some (copyName wholen u), [.checked u p ok]⟩
        else ⟨false, none, [.checked u p ok, .audited u]⟩
      else ⟨false, none, [.audited u]⟩
    | _, _ => ⟨false, none, []⟩

def obtainConsent (db : Accounts) (cfg : Config) (env : ConsentEnv) (w : ConsentWorld)
    (requesterAdmin : Bool) (requester : CString) (wholen : Nat) : Consent :=
  if env.test then testConsent db cfg env requesterAdmin requester wholen w.monitor
  else
    match w.surface with
    | none => ⟨false, none, []⟩
    | some _ =>
      let secure := [.command "SECURE\n" w.secure]
      if surfaceCommand w.secure ≠ some (.ofString "OK secure") then ⟨false, none, secure⟩
      else
        let asked :=
          if w.uiStarts then consentLoop db cfg requesterAdmin requester wholen 0 w.monitor w.ui
          else ⟨false, none, []⟩
        { asked with trace := secure ++ asked.trace ++ [.command "RELEASE\n" w.release] }

end StainedGlass.Broker
