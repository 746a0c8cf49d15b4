import StainedGlass.Lib.Assoc
import StainedGlass.Lib.Bytes
import StainedGlass.Lib.Text
import StainedGlass.Lib.Watches

/-! `sg-defender`: watched folders, scans and the quarantine. -/

namespace StainedGlass.Defender

open Lib

abbrev Path := List Str

structure File where
  owner : Nat
  content : Bytes

def runnables : List Str := List.map str
  [".exe", ".msi", ".msix", ".msp", ".com", ".scr", ".pif", ".cpl", ".dll", ".sys", ".ocx",
    ".bat", ".cmd", ".ps1", ".psm1", ".vbs", ".vbe", ".js", ".jse", ".wsf", ".wsh", ".hta", ".lnk",
    ".jar", ".appx", ".appxbundle", ".reg", ".inf",
    ".sh", ".run", ".bin", ".appimage", ".deb", ".rpm", ".py", ".pl",
    ".zip", ".7z", ".rar", ".cab", ".tar", ".gz", ".tgz", ".xz", ".bz2", ".iso", ".img",
    ".doc", ".docm", ".xls", ".xlsm", ".ppt", ".pptm", ".rtf", ".pdf"]

def magic : List Bytes :=
  [[77, 90], [127, 69, 76, 70], [35, 33], [80, 75, 3, 4], [77, 83, 67, 70], [208, 207, 17, 224],
    [82, 97, 114, 33], [55, 122, 188, 175], [37, 80, 68, 70]]

def partials : List Str := List.map str [".part", ".crdownload", ".download", ".partial", ".tmp", ".opdownload"]

def extension (name : Str) : Str :=
  let stem := (name.reverse.dropWhile (· ≠ 46)).drop 1
  if stem.all (· = 46) then [] else 46 :: (name.reverse.takeWhile (· ≠ 46)).reverse

def runnable (u : Unicode) (path : Path) (content : Option Bytes) : Bool :=
  let name := u.lower (path.getLastD [])
  if partials.any (·.isSuffixOf name) then false
  else if runnables.contains (extension name) then true
  else match content with
    | some b => magic.any (·.isPrefixOf (b.take 8))
    | none => false

structure Pending where
  uid : Nat
  tries : Nat
  due : Nat

structure Event where
  how : Arrival
  folder : Bool
  path : Path

structure Job where
  path : Path
  uid : Nat
  tries : Nat

structure Kept (δ : Type) where
  path : Path
  uid : Nat
  signature : Str
  sha256 : δ
  content : Bytes

structure Scan where
  time : Nat
  path : Path
  content : Bytes
  found : Option Str

inductive Phase (δ : Type)
  | idle
  | looking (folders watched : List Path) (on : Bool)
  | handling (events : List Event)
  | sweeping (items : List (Path × Pending))
  | testing (job : Job) (rest : List (Path × Pending))
  | typing (job : Job) (rest : List (Path × Pending))
  | scanning (job : Job) (rest : List (Path × Pending))
  | judging (job : Job) (signature : Str) (rest : List (Path × Pending))
  | hashing (job : Job) (signature : Str) (rest : List (Path × Pending))
  | moving (job : Job) (signature : Str) (sha256 : δ) (rest : List (Path × Pending))

structure State (δ : Type) where
  world : Watched Str File
  enabled : Bool
  wd : Assoc (FolderId Str) Path
  pending : Assoc Path Pending
  phase : Phase δ
  allowed : List δ
  quarantine : List (Kept δ)
  log : List Scan

structure Machine (δ : Type) where
  unicode : Unicode
  digest : Bytes → δ
  /-- How many events the kernel keeps. -/
  limit : Nat

structure Answers where
  now : Nat
  verdict : Option (Option Str)
  canWatch : Bool
  canMove : Bool

variable {δ : Type}

def watchedNames : List Str := List.map str ["Downloads", "Desktop", "Applications"]

def encodable (path : Path) : Bool := path.all (·.all (!isSurrogate ·))

def State.restart (s : State δ) : State δ :=
  { s with world := { s.world with watches := [], queue := [] }, wd := .empty, pending := .empty, phase := .idle }

def State.watch (s : State δ) (path : Path) (canWatch : Bool) : State δ :=
  if !encodable path then s.restart
  else match s.world.folders path with
    | some d => if canWatch then { s with world := s.world.watch d, wd := s.wd.set d path } else s
    | none => s

def events : List (Note Str) → Assoc (FolderId Str) Path → List Event × Assoc (FolderId Str) Path
  | [], wd => ([], wd)
  | .gone d :: notes, wd => events notes (wd.erase d)
  | .entry d how folder name :: notes, wd =>
    match wd.get? d with
    | some dir => (⟨how, folder, dir ++ [name]⟩ :: (events notes wd).1, (events notes wd).2)
    | none => events notes wd

def State.read (s : State δ) (n : Nat) : State δ :=
  let (es, wd) := events (s.world.queue.take n) s.wd
  { s with world := { s.world with queue := s.world.queue.drop n }, wd := wd, phase := .handling es }

def ownerOf (w : Watched Str File) (path : Path) (fallback : Nat) : Nat :=
  match w.files path with
  | some f => f.owner
  | none => fallback

variable [DecidableEq δ] (m : Machine δ)

def allowed (s : State δ) (path : Path) : Bool :=
  match s.world.files path with
  | some f => s.allowed.contains (m.digest f.content)
  | none => false

def handle (s : State δ) (e : Event) (now : Nat) (canWatch : Bool) : State δ :=
  if e.folder then
    if e.how = .created ∨ e.how = .movedTo then s.watch e.path canWatch else s
  else if e.how = .written ∨ e.how = .movedTo then
    { s with pending := s.pending.set e.path ⟨ownerOf s.world e.path 0, 0, now + 500⟩ }
  else s

def State.note (s : State δ) (path : Path) (content : Bytes) (found : Option Str) : State δ :=
  { s with log := ⟨s.world.clock, path, content, found⟩ :: s.log }

/-- The line of a file that is found names it, and is decoded strictly. -/
def scan (s : State δ) (job : Job) (rest : List (Path × Pending)) (a : Answers) : State δ :=
  match s.world.files job.path, a.verdict with
  | some f, some none => { s.note job.path f.content none with phase := .sweeping rest }
  | some f, some (some signature) =>
    if encodable job.path then
      { s.note job.path f.content (some signature) with phase := .judging job signature rest }
    else s.restart
  | _, _ =>
    if job.tries < 20 then
      { s with pending := s.pending.set job.path ⟨job.uid, job.tries + 1, a.now + 15000⟩, phase := .sweeping rest }
    else { s with phase := .sweeping rest }

def keep (s : State δ) (job : Job) (signature : Str) (sha256 : δ) (canMove : Bool) : State δ :=
  match s.world.files job.path with
  | some f =>
    if canMove then
      { s with
        world := { s.world with files := Function.update s.world.files job.path none }
        quarantine := ⟨job.path, job.uid, signature, sha256, f.content⟩ :: s.quarantine }
    else s
  | none => s

def advance (a : Answers) (s : State δ) : State δ :=
  match s.phase with
  | .idle => s
  | .looking [] _ on => { s with enabled := on, phase := .idle }
  | .looking (d :: folders) watched on =>
    let s := { s with phase := .looking folders watched on }
    if watched.contains d || (s.world.folders d).isNone then s else s.watch d a.canWatch
  | .handling [] => { s with phase := .sweeping s.pending.items }
  | .handling (e :: events) => handle { s with phase := .handling events } e a.now a.canWatch
  | .sweeping [] => { s with phase := .idle }
  | .sweeping ((path, p) :: rest) =>
    if a.now < p.due then { s with phase := .sweeping rest }
    else { s with pending := s.pending.erase path, phase := .testing ⟨path, p.uid, p.tries⟩ rest }
  | .testing job rest =>
    if s.enabled && (s.world.files job.path).isSome then { s with phase := .typing job rest }
    else { s with phase := .sweeping rest }
  | .typing job rest =>
    if runnable m.unicode job.path ((s.world.files job.path).map File.content) then
      { s with phase := .scanning job rest }
    else { s with phase := .sweeping rest }
  | .scanning job rest => scan s job rest a
  | .judging job signature rest =>
    if allowed m s job.path then { s with phase := .sweeping rest }
    else { s with phase := .hashing job signature rest }
  | .hashing job signature rest =>
    match s.world.files job.path with
    | some f => { s with phase := .moving job signature (m.digest f.content) rest }
    | none => { s with phase := .sweeping rest }
  | .moving job signature sha256 rest =>
    keep { s with phase := .sweeping rest } job signature sha256 a.canMove

inductive Move (δ : Type)
  | files (op : FileOp Str File)
  /-- An administrator restores a file with this sum. -/
  | allow (sum : δ)
  /-- The half-minute look at the accounts' folders and at the switch. -/
  | refresh (homes : List Path) (on : Bool)
  /-- The events that one read returns. -/
  | read (n : Nat)
  | advance (a : Answers)

def step (s : State δ) : Move δ → State δ
  | .files op => { s with world := op.apply s.world m.limit }
  | .allow sum => { s with allowed := sum :: s.allowed }
  | .refresh homes on =>
    { s with phase := .looking (homes.flatMap fun h => watchedNames.map (h ++ [·])) s.wd.values on }
  | .read n => s.read n
  | .advance a => advance m a s

def Able (s : State δ) : Move δ → Prop
  | .files op => op.Able s.world
  | .refresh _ _ => s.phase = .idle
  | .read _ => s.phase = .idle
  | _ => True

def run (s : State δ) : List (Move δ) → State δ
  | [] => s
  | mv :: moves => run (step m s mv) moves

def Along (P : State δ → Move δ → Prop) (s : State δ) : List (Move δ) → Prop
  | [] => True
  | mv :: moves => P s mv ∧ Along P (step m s mv) moves

end StainedGlass.Defender
