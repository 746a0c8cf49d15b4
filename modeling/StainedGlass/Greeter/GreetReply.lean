import StainedGlass.Greeter.GreetBridge
import StainedGlass.Lib.JsonText

/-! greetd's replies in `greeter/sg-greet-bridge.c`. -/

namespace StainedGlass.Greeter

open Lib

def jsonUndo (e : UInt8) : UInt8 :=
  if e = 110 then 10 else if e = 114 then 13 else if e = 116 then 9 else e

def jsonCopy (max o : Nat) : Bytes → Bytes
  | [] => []
  | [b] => if b = 34 ∨ ¬ o + 1 < max then [] else [b]
  | b :: c :: rest =>
    if b = 34 ∨ ¬ o + 1 < max then []
    else if b = 92 then jsonUndo c :: jsonCopy max (o + 1) rest
    else b :: jsonCopy max (o + 1) (c :: rest)

def jsonString (json : CString) (key : Bytes) (max : Nat) : Option Bytes :=
  match Json.afterFirst (snprintf 64 (Json.quoted key)) json.bytes with
  | none => none
  | some p =>
    match p.dropWhile fun b => b = 32 || b = 58 with
    | 34 :: p => some (jsonCopy max 0 p)
    | _ => none

def toUi (line : Bytes) : Bytes := line ++ [10]

def incorrect : Bytes := ascii "The user name or password is incorrect. Try again."

def pamWords : List (Bytes × Bytes) :=
  [(ascii "AUTH_ERR", incorrect),
    (ascii "USER_UNKNOWN", incorrect),
    (ascii "PERM_DENIED", incorrect),
    (ascii "MAXTRIES", ascii "Too many attempts. Wait a moment, then try again."),
    (ascii "ACCT_EXPIRED", ascii "Your account has expired. Ask your administrator."),
    (ascii "NEW_AUTHTOK_REQD", ascii "Your password must be changed. Ask your administrator."),
    (ascii "AUTHINFO_UNAVAIL", ascii "Sign-in is not available right now. Try again later.")]

def contains (text pat : Bytes) : Bool := (Json.afterFirst pat text).isSome

def knownWords (etype text : Bytes) : Option Bytes :=
  if etype = ascii "auth_error" then some incorrect
  else
    match pamWords.find? fun p => contains text p.1 with
    | some p => some p.2
    | none =>
      if (ascii "pam_").isPrefixOf text || contains text (ascii "PAM") then
        some (ascii "Sign-in did not work. Try again, or ask your administrator.")
      else none

def failureWords (etype text : Bytes) : Bytes := (knownWords etype text).getD text

def promptWord (kind : Bytes) : Bytes :=
  if kind = ascii "secret" then ascii "PROMPT_SECRET "
  else if kind = ascii "visible" then ascii "PROMPT_VISIBLE "
  else if kind = ascii "error" then ascii "ERROR "
  else ascii "INFO "

structure Junk where
  text : Bytes
  kind : Bytes
  etype : Bytes

structure Reaction where
  ui : Bytes
  greetd : List Bytes
  result : Int

def startSession (cmd : Bytes) : Bytes :=
  snprintf 2048 (ascii "\x7b\"type\":\"start_session\",\"cmd\":[\"" ++ jsonEscape 1024 cmd ++ ascii "\"],\"env\":[]\x7d")

def sessionReply (next : Option CString) : Bytes × Int :=
  if (next.bind fun m => jsonString m (ascii "type") 64) = some (ascii "success") then (toUi (ascii "SUCCESS"), 1)
  else
    match next.bind fun m => jsonString m (ascii "description") 1024 with
    | some text => (toUi (ascii "FAILURE " ++ text), 0)
    | none => (toUi (ascii "FAILURE The session could not be started."), 0)

def onSuccess (sends : Bool) (next : Option CString) : Option Bytes → Reaction
  | none => ⟨[], [], 1⟩
  | some cmd =>
    if sends then ⟨(sessionReply next).1, [startSession cmd], (sessionReply next).2⟩
    else ⟨toUi (ascii "ERROR Could not start the session."), [], -1⟩

def onAuthMessage (junk : Junk) (msg : CString) : Reaction :=
  let text := (jsonString msg (ascii "auth_message") 1024).getD junk.text
  let kind := (jsonString msg (ascii "auth_message_type") 32).getD junk.kind
  ⟨toUi (promptWord kind ++ text), [], 0⟩

def onError (junk : Junk) (msg : CString) : Reaction :=
  let etype := (jsonString msg (ascii "error_type") 64).getD junk.etype
  let text := (jsonString msg (ascii "description") 1024).getD (ascii "Authentication failed.")
  ⟨toUi (ascii "FAILURE " ++ failureWords etype text), [cancelSession], 0⟩

/-- `handle_greetd_reply`: `sends` is whether the request to start the session goes out, `next`
the answer to it. -/
def handleGreetdReply (junk : Junk) (sends : Bool) (cmd : Option Bytes) (next : Option CString) :
    Option CString → Reaction
  | none => ⟨toUi (ascii "ERROR The login service closed the connection."), [], -1⟩
  | some msg =>
    match jsonString msg (ascii "type") 64 with
    | none => ⟨[], [], 0⟩
    | some type =>
      if type = ascii "auth_message" then onAuthMessage junk msg
      else if type = ascii "success" then onSuccess sends next cmd
      else if type = ascii "error" then onError junk msg
      else ⟨[], [], 0⟩

def replyKeys (type : Bytes) : List Bytes :=
  if type = ascii "auth_message" then [ascii "type", ascii "auth_message_type", ascii "auth_message"]
  else if type = ascii "error" then [ascii "type", ascii "error_type", ascii "description"]
  else [ascii "type"]

open Json in
/-- A reply: an object of strings that begins with its type and has what belongs to that. -/
structure Reply where
  lead : Gap
  type : Member
  rest : List Member
  trail : Gap
  isType : type.name = ascii "type"
  nodup : ((type :: rest).map Member.name).Nodup
  complete : ∀ key ∈ replyKeys type.value.value, key ∈ (type :: rest).map Member.name

namespace Reply

def members (r : Reply) : List Json.Member := r.type :: r.rest

def object (r : Reply) : Json.Object := ⟨r.lead, r.members, r.trail⟩

def text (r : Reply) : CString := ⟨r.object.text, Json.zero_notMem_object r.object⟩

def get (r : Reply) (key : Bytes) : Option Bytes := (r.members.find? (·.name = key)).map (·.value.value)

def keys (r : Reply) : List Bytes := replyKeys r.type.value.value

def line (r : Reply) : Option Bytes :=
  if r.type.value.value = ascii "auth_message" then do
    let kind ← r.get (ascii "auth_message_type")
    let text ← r.get (ascii "auth_message")
    return promptWord kind ++ text
  else if r.type.value.value = ascii "error" then do
    let etype ← r.get (ascii "error_type")
    let text ← r.get (ascii "description")
    return ascii "FAILURE " ++ failureWords etype text
  else none

end Reply

def bufferSize (key : Bytes) : Nat :=
  if key = ascii "auth_message" ∨ key = ascii "description" then 1024
  else if key = ascii "auth_message_type" then 32
  else 64

structure Handled (r : Reply) (reaction : Reaction) : Prop where
  strings : ∀ key ∈ r.keys, jsonString r.text key (bufferSize key) = r.get key
  line : ∀ line ∈ r.line, reaction.ui = line ++ [10] ∧ 10 ∉ line

def isSimple : Json.Item → Bool
  | .plain _ _ _ _ => true
  | .short e _ _ => e ≠ 98 && e ≠ 102
  | .unit _ _ => false
  | .pair _ _ _ _ => false

def undoItem : Json.Item → Bytes
  | .plain b _ _ _ => [b]
  | .short e _ _ => [jsonUndo e]
  | .unit x _ => 117 :: x.bytes
  | .pair x y _ _ => 117 :: (x.bytes ++ 117 :: y.bytes)

def undo (l : Json.Literal) : Bytes := l.flatMap undoItem

/-- A literal that fits and has no `\u`, `\b` or `\f`; or one whose value just fills the array. -/
def Reads (max : Nat) (l : Json.Literal) : Prop :=
  (l.all isSimple ∧ l.value.length < max) ∨ (l.value.length + 1 = max ∧ l.value <+: undo l)

def Spaced (m : Json.Member) : Prop := ∀ b ∈ m.toColon.bytes ++ m.toValue.bytes, b = 32

structure Found (r : Reply) (key : Bytes) : Prop where
  first : ∀ pre m post, r.members = pre ++ m :: post → m.name = key → ∀ m' ∈ pre, Json.hits key m'.value = false
  spaced : ∀ m ∈ r.members, m.name = key → Spaced m
  reads : ∀ m ∈ r.members, m.name = key → Reads (bufferSize key) m.value

structure Readable (r : Reply) : Prop where
  type : r.type.value.value ≠ ascii "auth_message"
  found : ∀ key ∈ r.keys, Found r key
  whole : ∀ etype ∈ r.get (ascii "error_type"), ∀ text ∈ r.get (ascii "description"),
    r.type.value.value = ascii "error" → (knownWords etype text).isSome ∨ 10 ∉ text

end StainedGlass.Greeter
