import StainedGlass.Lib.Action
import StainedGlass.Lib.Text

/-! The engine of `pdf/sgpdf.py`. What MuPDF makes of a request is the request's own. -/

namespace StainedGlass.Pdf.Engine

open Lib

structure Lock where
  user : Str
  owner : Str
  perms : Nat
  deriving DecidableEq

structure File (κ : Type) where
  content : κ
  lock : Option Lock
  deriving DecidableEq

structure Doc (κ : Type) where
  file : File κ
  readable : Bool
  deriving DecidableEq

/-- MuPDF's own part: the length of a file's bytes, whether a lock needs a password, and what `authenticate` says to
one, 0 to a wrong one and with bit 4 to the owner's. -/
structure Mupdf (κ : Type) where
  size : File κ → Nat
  needsPass : Option Lock → Bool
  authenticate : Option Lock → Str → Nat

def openWith {κ : Type} (mu : Mupdf κ) (f : File κ) (password : Str) : Doc κ :=
  ⟨f, !mu.needsPass f.lock || mu.authenticate f.lock password ≠ 0⟩

inductive Kind
  | notopen
  | invalid
  | range
  | secured
  | password
  | failed
  | open
  deriving DecidableEq

inductive Raised
  | refusal (kind : Kind) (message : Str)
  | form
  | create
  | value
  | other
  deriving DecidableEq

inductive Security
  | none
  | aes256 (user owner : Str) (perms : Nat)
  deriving DecidableEq

structure State (κ : Type) where
  doc : Option (Doc κ)
  path : Option Str
  password : Option Str
  perms : Nat
  encrypted : Bool
  security : Option Security
  undo : List (File κ)
  redo : List (File κ)
  dirty : Bool
  /-- The files that were saved, the last one first. -/
  saved : List (Str × File κ)

abbrev Cmd (κ α : Type) := Act (State κ) Raised α

variable {κ : Type}

def permAll : Nat := 0xFFFFFFFF

def permNames : List (Str × Nat) :=
  [(str "print", 4), (str "modify", 8), (str "copy", 16), (str "annotate", 32), (str "form", 256),
    (str "accessibility", 512), (str "assemble", 1024), (str "print_hq", 2048)]

def permModify : Nat := 8
def permAnnotate : Nat := 32
def permForm : Nat := 256
def permAssemble : Nat := 1024

def undoLevels : Nat := 40
def undoBytes : Nat := 512 * 1024 * 1024

def refuse {α : Type} (kind : Kind) (message : Str) : Cmd κ α := .fail (.refusal kind message)

def modify (f : State κ → State κ) : Cmd κ Unit := .op none f

def needDoc : Cmd κ (Doc κ) := fun s =>
  match s.doc with
  | some d => (.ok d, s)
  | none => (.error (.refusal .notopen (str "no document is open")), s)

def tobytes : Cmd κ (File κ) := do
  let d ← needDoc
  if d.readable then pure d.file else .fail .value

def allowed (s : State κ) (perm : Nat) : Bool := s.perms &&& perm ≠ 0

variable (mu : Mupdf κ)

def trim : List (File κ) → List (File κ)
  | [] => []
  | f :: rest =>
    if undoLevels < rest.length + 1 ∨ (rest ≠ [] ∧ undoBytes < ((f :: rest).map mu.size).sum) then trim rest
    else f :: rest

def State.push (snap : File κ) (s : State κ) : State κ :=
  { s with undo := trim mu (s.undo ++ [snap]), redo := [] }

def begin (perm : Nat) : Cmd κ Unit := do
  let _ ← needDoc
  let s ← Act.get
  if allowed s perm then do
    let snap ← tobytes
    modify (·.push mu snap)
  else refuse .secured (str "the document's security does not allow this change")

def changed : Cmd κ Unit := modify fun s => { s with dirty := true }

def State.reopen (data : File κ) (s : State κ) : State κ :=
  { s with doc := some (openWith mu data (s.password.getD [])) }

def State.rollBack (s : State κ) : State κ :=
  match s.undo.getLast? with
  | some snap => ({ s with undo := s.undo.dropLast }).reopen mu snap
  | none => s

def State.setContent (c : κ) (s : State κ) : State κ :=
  { s with doc := s.doc.map fun d => { d with file := { d.file with content := c } } }

inductive Protect
  | keep
  | none
  | aes256
  deriving DecidableEq

structure Answer where
  undo : Nat
  redo : Nat
  dirty : Bool
  perms : Nat
  encrypted : Bool
  protect : Protect
  deriving DecidableEq

def protectField : Option Security → Protect
  | .none => .keep
  | some .none => .none
  | some (.aes256 ..) => .aes256

def state (trouble : Option Raised) : Cmd κ Answer := do
  let d ← needDoc
  let s ← Act.get
  match trouble with
  | some e => .fail e
  | none =>
    if d.readable then
      pure ⟨s.undo.length, s.redo.length, s.dirty, s.perms % 65536, s.encrypted, protectField s.security⟩
    else .fail .value

def openPerms (lock : Option Lock) (password : Option Str) : Except Raised Nat :=
  let rc := mu.authenticate lock (password.getD [])
  let perms := (lock.map Lock.perms).getD permAll
  if mu.needsPass lock then
    if password.getD [] = [] then .error (.refusal .password (str "the document needs a password"))
    else if rc = 0 then .error (.refusal .password (str "the password is not right"))
    else .ok (if rc &&& 4 = 0 then perms else permAll)
  else .ok (if password.getD [] ≠ [] ∧ rc &&& 4 ≠ 0 then permAll else perms)

def State.opened (path : Str) (password : Option Str) (f : File κ) (perms : Nat) (s : State κ) : State κ where
  doc := some (openWith mu f (password.getD []))
  path := some path
  password := password
  perms := perms
  encrypted := f.lock.isSome
  security := none
  undo := []
  redo := []
  dirty := false
  saved := s.saved

def openDoc (path : Str) (password : Option Str) (found : Except Raised (File κ)) (trouble : Option Raised) :
    Cmd κ Answer :=
  match found with
  | .error e => .fail e
  | .ok f =>
    match openPerms mu f.lock password with
    | .error e => .fail e
    | .ok perms => do
      modify (·.opened mu path password f perms)
      state trouble

def State.made (c : κ) (s : State κ) : State κ where
  doc := some ⟨⟨c, none⟩, true⟩
  path := none
  password := none
  perms := permAll
  encrypted := false
  security := none
  undo := []
  redo := []
  dirty := true
  saved := s.saved

def adopt (c : κ) (trouble : Option Raised) : Cmd κ Answer := do
  modify (·.made c)
  state trouble

/-- A point opens again: its bytes are what MuPDF wrote itself. -/
def goTo (message : Str) (points : State κ → List (File κ)) (take : File κ → State κ → State κ)
    (trouble : Option Raised) : Cmd κ Answer := do
  let _ ← needDoc
  let s ← Act.get
  match (points s).getLast? with
  | none => refuse .invalid message
  | some snap => do
    let now ← tobytes
    modify fun s => { (take now s).reopen mu snap with dirty := true }
    state trouble

def undo_ : Option Raised → Cmd κ Answer :=
  goTo mu (str "nothing to undo") State.undo fun now s =>
    { s with redo := s.redo ++ [now], undo := s.undo.dropLast }

def redo_ : Option Raised → Cmd κ Answer :=
  goTo mu (str "nothing to redo") State.redo fun now s =>
    { s with undo := s.undo ++ [now], redo := s.redo.dropLast }

structure ProtectOpts where
  mode : Str
  user : Str
  owner : Str
  perms : Str

def readPerms (u : Unicode) : List Str → Except Str Nat
  | [] => .ok 0
  | name :: names =>
    if u.strip name = [] then readPerms u names
    else match permNames.lookup (u.strip name) with
      | none => .error name
      | some p =>
        match readPerms u names with
        | .ok ps => .ok (p ||| ps)
        | .error name => .error name

def allPerms : Nat := (permNames.map Prod.snd).sum

def securityOf (u : Unicode) (o : ProtectOpts) : Except Raised Security :=
  if o.mode = str "none" then .ok .none
  else if o.mode = str "aes256" then
    if o.user = [] ∧ o.owner = [] then .error (.refusal .invalid (str "no password"))
    else match readPerms u (o.perms.splitOn 44) with
      | .error name => .error (.refusal .invalid (str "unknown permission " ++ name))
      | .ok perms =>
        if o.owner = [] then .ok (.aes256 o.user o.user allPerms) else .ok (.aes256 o.user o.owner perms)
  else .error (.refusal .invalid (str "unknown mode"))

def protect (u : Unicode) (o : ProtectOpts) (trouble : Option Raised) : Cmd κ Answer := do
  let _ ← needDoc
  let s ← Act.get
  if s.perms ≠ permAll then
    refuse .secured (str "enter the permissions password to change the document's security")
  else match securityOf u o with
    | .error e => .fail e
    | .ok security => do
      modify fun s => { s with security := some security, dirty := true }
      state trouble

def Security.lock : Security → Option Lock
  | .none => .none
  | .aes256 user owner perms => some ⟨user, if owner = [] then user else owner, perms⟩

def lockToWrite (s : State κ) (d : Doc κ) : Option Lock :=
  match s.security with
  | none => d.file.lock
  | some security => security.lock

/-- What the marks make of the document (`apply=1`), whether the file is written and can be read. -/
structure SaveRun (κ : Type) where
  path : Str
  apply : Option (κ × Option Raised)
  writes : Bool
  reads : Bool
  trouble : Option Raised

def applyMarks : Option (κ × Option Raised) → Cmd κ Unit
  | none => pure ()
  | some (c, none) => modify (·.setContent c)
  | some (c, some e) => do
    modify (·.setContent c)
    .fail e

def write (r : SaveRun κ) : Cmd κ (File κ) := do
  let d ← needDoc
  let s ← Act.get
  if d.readable && r.writes then do
    modify fun s' => { s' with saved := (r.path, ⟨d.file.content, lockToWrite s d⟩) :: s'.saved }
    pure ⟨d.file.content, lockToWrite s d⟩
  else refuse .failed (str "could not save")

def State.adoptSecurity (s : State κ) : State κ :=
  match s.security with
  | none => s
  | some .none => { s with encrypted := false, password := none, security := none }
  | some (.aes256 user owner _) =>
    { s with encrypted := true, password := some (if owner = [] then user else owner), security := none }

def readBack (r : SaveRun κ) (f : File κ) : Cmd κ Unit :=
  .op (if r.reads then none else some .other) fun s => { s.reopen mu f with path := some r.path, dirty := false }

def save (r : SaveRun κ) : Cmd κ Answer := do
  let _ ← needDoc
  if r.path = [] ∨ 0 ∈ r.path then refuse .invalid (str "no file name")
  else do
    applyMarks r.apply
    let f ← write r
    modify State.adoptSecurity
    readBack mu r f
    state r.trouble

inductive Ending (κ : Type)
  | done (c : κ)
  | raised (c : κ) (e : Raised)
  | rolledBack (e : Raised)
  | gaveUp (c : κ) (e : Raised)

def finish (ending : Ending κ) (trouble : Option Raised) : Cmd κ Answer :=
  match ending with
  | .done c => do
    modify (·.setContent c)
    changed
    state trouble
  | .raised c e => do
    modify (·.setContent c)
    .fail e
  | .rolledBack e => do
    modify (State.rollBack mu)
    .fail e
  | .gaveUp c e => do
    modify fun s => { s.setContent c with undo := s.undo.dropLast }
    .fail e

def edit (checks : Option Raised) (perm : Nat) (ending : Ending κ) (trouble : Option Raised) :
    Cmd κ Answer :=
  match checks with
  | some e => .fail e
  | none => do
    begin mu perm
    finish mu ending trouble

end StainedGlass.Pdf.Engine
