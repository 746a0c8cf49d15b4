import StainedGlass.Lib.Action
import StainedGlass.Lib.Text
import StainedGlass.Lib.Utf8

/-! `wifi_connect` of `bin/sg-netctl`, with what NetworkManager keeps. -/

namespace StainedGlass.Net.Wifi

open Lib

abbrev Uuid := Str

structure Fail where
  kind : String
  message : Str
  detail : Str := message
  deriving DecidableEq

inductive Error
  | fail (f : Fail)
  | crash
  deriving DecidableEq

/-- The files of `NM_DIR`, as their text is read, and what NetworkManager has of them. -/
@[ext]
structure Store (σ : Type) where
  files : Str → Option Str
  state : σ

/-- What NetworkManager has, and what its commands do where they take effect. -/
structure Manager (σ : Type) where
  has : σ → Uuid → Bool
  load : Str → Store σ → σ
  delete : Uuid → Store σ → Store σ

variable {σ : Type}

def Manager.loaded (M : Manager σ) (name : Str) (s : Store σ) : Store σ := { s with state := M.load name s }

def Store.put (name text : Str) (s : Store σ) : Store σ := { s with files := Function.update s.files name (some text) }

def Store.unlink (name : Str) (s : Store σ) : Store σ := { s with files := Function.update s.files name none }

/-- A refusal comes with what it printed; without an answer the command may have taken effect. -/
inductive Reply
  | done
  | refused (stderr : Str)
  | silent (takes : Bool)
  | missing

def Reply.takes : Reply → Bool
  | .done => true
  | .silent takes => takes
  | _ => false

abbrev Cmd (σ : Type) := Act (Store σ) Error

section

variable (u : Unicode)

def clean (text : Str) : Str := text.map fun c => if u.printable c then c else 63

def removePrefix (s pre : Str) : Str := if startsWith s pre then s.drop pre.length else s

def refusal (stderr : Str) : Fail :=
  let lines := (splitlines (u.strip stderr)).filter fun l => u.strip l ≠ []
  let first := lines.headD (str "nmcli failed")
  let message := clean u (removePrefix ((lines.find? (startsWith · (str "Error:"))).getD first)
    (str "Error: "))
  { kind := "failed", message, detail := if stderr = [] then message else stderr }

def Reply.trouble (check : Bool) : Reply → Option Fail
  | .done => none
  | .refused stderr => if check then some (refusal u stderr) else none
  | .silent _ => some { kind := "failed", message := str "NetworkManager did not answer in time" }
  | .missing => some { kind := "failed", message := str "NetworkManager is not installed" }

def nmcli (check : Bool) (r : Reply) (f : Store σ → Store σ) : Cmd σ Unit := fun s =>
  (match r.trouble u check with
    | none => .ok ()
    | some e => .error (.fail e),
  if r.takes then f s else s)

end

structure Opts where
  ssidHex : Option Str := none
  ssid : Option Str := none
  device : Option Str := none
  security : Option Str := none
  hidden : Bool := false
  noAutoconnect : Bool := false

def invalid (message : String) : Error := .fail { kind := "invalid", message := str message }

def hexDigit? (c : Nat) : Option Nat :=
  if 48 ≤ c ∧ c ≤ 57 then some (c - 48)
  else if 65 ≤ c ∧ c ≤ 70 then some (c - 55)
  else if 97 ≤ c ∧ c ≤ 102 then some (c - 87)
  else none

def fromHex : Str → Option Bytes
  | [] => some []
  | [_] => none
  | a :: b :: rest => do
    let a ← hexDigit? a
    let b ← hexDigit? b
    let more ← fromHex rest
    return UInt8.ofNat (16 * a + b) :: more

def encodeEscape : Str → Option Bytes
  | [] => some []
  | c :: rest => do
    let more ← encodeEscape rest
    if 0xdc80 ≤ c ∧ c ≤ 0xdcff then return UInt8.ofNat (c - 0xdc00) :: more
    else if isSurrogate c then none
    else return String.utf8EncodeChar (Char.ofNat c) ++ more

def ssidFrom (opts : Opts) : Except Error Bytes :=
  match opts.ssidHex, opts.ssid with
  | some hex, _ =>
    match fromHex hex with
    | some b => if 1 ≤ b.length ∧ b.length ≤ 32 then .ok b else .error (invalid "not an SSID in hex")
    | none => .error (invalid "not an SSID in hex")
  | none, some text =>
    match encodeEscape text with
    | none => .error .crash
    | some b =>
      if 1 ≤ b.length ∧ b.length ≤ 32 ∧ 0 ∉ b then .ok b
      else .error (invalid "a network name is 1 to 32 bytes")
  | none, none => .error (invalid "give --ssid or --ssid-hex")

def checkPsk (pw security : Str) : Except Error Unit :=
  if security = str "wpa-psk" then
    if pw.length = 64 ∧ pw.all fun c => (hexDigit? c).isSome then .ok ()
    else if 8 ≤ pw.length ∧ pw.length ≤ 63 ∧ pw.all fun c => 32 ≤ c && c ≤ 126 then .ok ()
    else .error (invalid "a WPA2 network security key is 8 to 63 printable characters")
  else if security = str "sae" then
    if 1 ≤ pw.length ∧ pw.length ≤ 128 ∧ pw.all fun c => 32 ≤ c && c ≠ 127 then .ok ()
    else .error (invalid "not a usable WPA3 password")
  else .ok ()

def keyfileEscape (value : Str) : Str :=
  value.flatMap fun c => if c = 92 then [92, 92] else if c = 32 then str "\\s" else [c]

def fileName (uuid : Uuid) : Str := str "sg-wifi-" ++ uuid ++ str ".nmconnection"

def yesNo (b : Bool) : Str := if b then str "true" else str "false"

section

variable (u : Unicode) (decode : Bytes → Str)

def profileText (ssid : Bytes) (security psk : Str) (hidden autoconnect : Bool) (uuid : Uuid) : Str :=
  let name := str "Wi-Fi " ++
    (decode ssid).map fun c => if u.printable c && c ≠ 92 && c ≠ 47 then c else 95
  let lines := [str "[connection]", str "id=" ++ keyfileEscape name, str "uuid=" ++ uuid,
    str "type=wifi", str "autoconnect=" ++ yesNo autoconnect, [], str "[wifi]",
    str "mode=infrastructure", str "ssid=" ++ ssid.flatMap (fun b => dec b.toNat ++ [59]),
    str "hidden=" ++ yesNo hidden, []]
  let key := if security = str "wpa-psk" ∨ security = str "sae" then
      [str "[wifi-security]", str "key-mgmt=" ++ security, str "psk=" ++ keyfileEscape psk, []]
    else []
  let addresses := [str "[ipv4]", str "method=auto", [], str "[ipv6]", str "method=auto",
    str "addr-gen-mode=default", []]
  [10].intercalate (lines ++ key ++ addresses)

/-- What `wifi_connect` meets: adapters, networks, profiles, the replies, and what a failing write
leaves. -/
structure Env where
  radios : Except Error (List Str)
  scan : Bool → Except Error (Bytes → Option Str)
  listing : Except Error (List (Uuid × Bytes))
  fresh : Uuid
  readable : Bool
  writable : Bool
  load : Reply
  activate : Reply
  delete : Reply
  unlinks : Bool
  putBack : Option Str
  reload : Reply
  reason : Str

structure Target where
  uuid : Uuid
  saved : Bool
  ssid : Bytes
  dev : Str
  text : Str

def Target.path (t : Target) : Str := fileName t.uuid

inductive Choice
  | known (uuid : Uuid) (dev : Str)
  | write (t : Target)

def failed (kind : String) (message : Str) : Error := .fail { kind, message }

def adapter (env : Env) (opts : Opts) : Except Error Str := do
  match ← env.radios with
  | [] => .error (failed "notfound" (str "this computer has no Wi-Fi adapter"))
  | first :: rest =>
    -- an empty name is no name
    let dev := match opts.device with
      | some dev => if dev = [] then first else dev
      | none => first
    if dev ∈ first :: rest then .ok dev
    else .error (failed "notfound" (clean u dev ++ str " is not a Wi-Fi adapter"))

def security (env : Env) (opts : Opts) (secret : Option Str) (ssid : Bytes) : Except Error Str :=
  match opts.security with
  | some security => .ok security
  | none => do
    let near ← env.scan false
    let found ← match near ssid with
      | some security => .ok (some security)
      | none => do
        let near ← env.scan true
        .ok (near ssid)
    match found with
    | some security => .ok security
    | none =>
      if opts.hidden then .ok (if secret.getD [] = [] then str "open" else str "wpa-psk")
      else .error (failed "notfound"
        (str "the network " ++ clean u (decode ssid) ++ str " is not in range"))

def checkKey (security : Str) : Option Str → Except Error Unit
  | none =>
    if security = str "open" then .ok ()
    else .error (failed "auth" (str "this network needs a security key"))
  | some secret => if security = str "open" then .ok () else checkPsk secret security

def target (env : Env) (opts : Opts) (secret : Option Str) (ssid : Bytes) (dev security : Str)
    (saved : Option Uuid) : Target :=
  let uuid := saved.getD env.fresh
  { uuid, saved := saved.isSome, ssid, dev
    text := profileText u decode ssid security (secret.getD []) opts.hidden (!opts.noAutoconnect)
      uuid }

def choose (env : Env) (opts : Opts) (secret : Option Str) : Except Error Choice := do
  let ssid ← ssidFrom opts
  let dev ← adapter u env opts
  let security ← security u decode env opts secret ssid
  if security ∉ [str "open", str "wpa-psk", str "sae"] then
    .error (failed "unsupported" (str "connecting to " ++ security ++ str " networks is not supported yet"))
  else do
    let listing ← env.listing
    match (listing.find? fun s => s.2 = ssid).map Prod.fst, secret with
    | some uuid, none => .ok (.known uuid dev)
    | saved, secret => do
      checkKey security secret
      .ok (.write (target u decode env opts secret ssid dev security saved))

def authReasons : List Str :=
  ["no-secrets", "802-1x-supplicant-disconnect", "802-1x-supplicant-config-failed",
    "802-1x-supplicant-failed", "802-1x-supplicant-timeout"].map str

def explain (env : Env) (t : Target) (e : Fail) : Error :=
  let name := clean u (decode t.ssid)
  let wrongKey := failed "auth" (str "the network security key isn't correct")
  if env.reason ∈ authReasons ∨ startsWith env.reason (str "supplicant") then wrongKey
  else if startsWith env.reason (str "ip-config") || startsWith env.reason (str "dhcp") then
    failed "failed" (name ++ str " did not give this PC an address (DHCP): the network or its router is not answering")
  else if env.reason = str "ssid-not-found" then
    failed "notfound" (str "the network " ++ name ++ str " is not in range")
  else if env.reason = [] ∧
      (["secrets", "supplicant", "802-1x", "802.1x", "no secrets", "auth"].any fun w =>
        str w <:+: u.lower e.detail) then wrongKey
  else if env.reason ≠ [] then
    failed "failed" (str "could not connect to " ++ name ++ str " (" ++ env.reason ++ str ")")
  else .fail e

variable (M : Manager σ)

def forget (env : Env) (t : Target) : Option Str → Cmd σ Unit
  | none => do
    nmcli u false env.delete (M.delete t.uuid)
    Act.op none fun s => if env.unlinks then s.unlink t.path else s
  | some old => do
    match env.putBack with
    | some left => do
      Act.op none (Store.put t.path left)
      Act.fail .crash
    | none =>
      Act.op none (Store.put t.path old)
      nmcli u false env.reload (M.loaded t.path)

def readOld (env : Env) (t : Target) : Cmd σ (Option Str) := fun s =>
  match t.saved, s.files t.path with
  | true, some old => if env.readable then (.ok (some old), s) else (.error .crash, s)
  | _, _ => (.ok none, s)

def join (env : Env) (t : Target) : Cmd σ Str := do
  let old ← readOld env t
  Act.op (if env.writable then none else some .crash) (Store.put t.path t.text)
  nmcli u true env.load (M.loaded t.path)
  match env.activate.trouble u true with
  | none => pure (str "CONNECTED " ++ t.dev)
  | some e => do
    forget u M env t old
    Act.fail (explain u decode env t e)

def wifiConnect (env : Env) (opts : Opts) (secret : Option Str) : Cmd σ Str :=
  match choose u decode env opts secret with
  | .error e => Act.fail e
  | .ok (.known _ dev) =>
    match env.activate.trouble u true with
    | none => pure (str "CONNECTED " ++ dev)
    | some e => Act.fail (failed "auth" (str "could not connect to the saved network: " ++ e.message))
  | .ok (.write t) => join u decode M env t

end

end StainedGlass.Net.Wifi
