import StainedGlass.Greeter.Lockd
import StainedGlass.Lib.Json

/-! The requests of `greeter/sg-greet-bridge.c`, from the screen's boxes on (`greeter/sg-greeter.c`). -/

namespace StainedGlass.Greeter

open Lib

def lineSize : Nat := 2048

def fromUi (max : Nat) (stream : Bytes) : Option (Bytes × Bytes) := readLine (max - 1) stream

def jsonEscapeFrom (max : Nat) (out : Bytes) : Bytes → Bytes
  | [] => out
  | c :: rest =>
    if out.length + 7 < max then jsonEscapeFrom max (out ++ Json.escapeByte c) rest else out

def jsonEscape (max : Nat) (text : Bytes) : Bytes := jsonEscapeFrom max [] text

def snprintf (size : Nat) (text : Bytes) : Bytes := text.take (size - 1)

inductive Typed where
  | user
  | reply
  deriving DecidableEq

namespace Typed

def command : Typed → Bytes
  | user => ascii "USER "
  | reply => ascii "REPLY "

def escSize : Typed → Nat
  | user => 512
  | reply => 1024

def bufSize : Typed → Nat
  | user => 1024
  | reply => 2048

def head : Typed → Bytes
  | user => ascii "\x7b\"type\":\"create_session\",\"username\":\""
  | reply => ascii "\x7b\"type\":\"post_auth_message_response\",\"response\":\""

/-- `submit` and `send_line` of the screen: nothing for an empty user name, which it refuses. -/
def submit (a : Typed) (text : CString) : Option Bytes :=
  let buf := text.bytes.take 511
  if a = user ∧ buf = [] then none else some (snprintf (1024 - 2) (a.command ++ buf) ++ [10])

def request (a : Typed) (text : Bytes) : Bytes :=
  snprintf a.bufSize (a.head ++ jsonEscape a.escSize text ++ ascii "\"\x7d")

end Typed

def cancelSession : Bytes := ascii "\x7b\"type\":\"cancel_session\"\x7d"

def requestOf (line : CString) : Option Bytes :=
  if (ascii "HELLO").isPrefixOf line.bytes then none
  else if Typed.user.command.isPrefixOf line.bytes then some (Typed.user.request (line.bytes.drop 5))
  else if (ascii "CANCEL").isPrefixOf line.bytes then some cancelSession
  else if Typed.reply.command.isPrefixOf line.bytes then some (Typed.reply.request (line.bytes.drop 6))
  else none

end StainedGlass.Greeter
