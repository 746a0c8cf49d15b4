import StainedGlass.Lib.Records

/-! `setup/sg-setup-bridge.c`: the line buffers of both directions. -/

namespace StainedGlass.Setup

open Lib

def lineMaxLen : Nat := 2048

structure Buf where
  data : Bytes
  not_full : data.length < lineMaxLen

def Buf.empty : Buf := ⟨[], Nat.zero_lt_succ _⟩

def Buf.room (b : Buf) : Nat := lineMaxLen - b.data.length

def dropCr (line : Bytes) : Bytes := if line.getLast? = some 13 then line.dropLast else line

def lineString (line : Bytes) : CString := .ofBuffer (dropCr line)

theorem length_of_cut {data : Bytes} {r : Bytes × Bytes} (h : cut 10 data = some r) :
    r.2.length < data.length := by
  obtain ⟨rfl, -⟩ := eq_of_cut h
  rw [List.length_append, List.length_cons]
  omega

def handLines (fn : CString → σ → σ) (data : Bytes) (s : σ) : Bytes × σ :=
  match h : cut 10 data with
  | none => (data, s)
  | some r =>
    have := length_of_cut h
    handLines fn r.2 (fn (lineString r.1) s)
termination_by data.length

def pump (fn : CString → σ → σ) (b : Buf) (chunk : Bytes) (s : σ) : Buf × σ :=
  let r := handLines fn (b.data ++ chunk) s
  if h : r.1.length < lineMaxLen then (⟨r.1, h⟩, r.2) else (.empty, r.2)

def pumpAll (fn : CString → σ → σ) : Buf → List Bytes → σ → Buf × σ
  | b, [], s => (b, s)
  | b, chunk :: chunks, s => pumpAll fn (pump fn b chunk s).1 chunks (pump fn b chunk s).2

/-- `writes` holds what `write_all` still returns; `sent` and `shown` are the lines written to the
service and to the wizard. -/
structure Links where
  service : Bool
  writes : List Bool
  sent : List CString
  shown : List Bytes
  ready : Bool
  tried : Bool
  deriving DecidableEq

def okSetup : List String :=
  ["LIST", "LAYOUT", "DRIVERS", "NEW ", "DELETE ", "FORMAT ", "INSTALL ", "PASSWORD ", "REBOOT",
    "POWEROFF"]

def okOobe : List String :=
  ["STATE", "NETWORKS", "CONNECT ", "KEY", "KEY ", "ACCOUNT ", "PASSWORD ", "FINISH "]

def allowed (oobe : Bool) (line : CString) : Bool :=
  (if oobe then okOobe else okSetup).any fun ok =>
    if (ascii ok).getLast? = some 32 then (ascii ok).isPrefixOf line.bytes
    else line.bytes = ascii ok

def toWizard (text : Bytes) (l : Links) : Links :=
  { l with shown := l.shown ++ [text.take (lineMaxLen - 2)] }

def send (line : CString) (l : Links) : Bool × Links :=
  (l.writes.headD true, { l with writes := l.writes.tail, sent := l.sent ++ [line] })

def fromWizard (oobe : Bool) (line : CString) (l : Links) : Links :=
  if line.bytes = ascii "HELLO" then { l with ready := true }
  else if !oobe && line.bytes = ascii "TRY" then { l with tried := true }
  else if !allowed oobe line then l
  else if !l.service then
    toWizard (ascii (if oobe then "FAILED The setup service is not available."
      else "FAILED The installer service is not available.")) l
  else
    let r := send line l
    if r.1 then r.2 else toWizard (ascii "FAILED The installer service stopped.") r.2

def fromService (line : CString) (l : Links) : Links := toWizard line.bytes l

/-- What one turn of the loop finds: bytes of the wizard, bytes of the service, or the
end of the service's connection. -/
inductive Input where
  | ui (chunk : Bytes)
  | service (chunk : Bytes)
  | closed

structure Bridge where
  uiBuf : Buf
  svcBuf : Buf
  links : Links

def Bridge.step (oobe : Bool) (b : Bridge) : Input → Bridge
  | .ui chunk =>
    let r := pump (fromWizard oobe) b.uiBuf chunk b.links
    { b with uiBuf := r.1, links := r.2 }
  | .service chunk =>
    if b.links.service then
      let r := pump fromService b.svcBuf chunk b.links
      { b with svcBuf := r.1, links := r.2 }
    else b
  | .closed =>
    if b.links.service then
      { b with links := toWizard (ascii "FAILED The installer service stopped.")
                          { b.links with service := false } }
    else b

def Bridge.run (oobe : Bool) : Bridge → List Input → Bridge := List.foldl (Bridge.step oobe)

end StainedGlass.Setup
