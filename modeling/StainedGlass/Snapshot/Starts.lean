import StainedGlass.Snapshot.Rollback

/-! The starts of the machine. What `cmd_boot` does about conversions is left out. -/

namespace StainedGlass.Snapshot

open Lib

def markerFile : String := "var/lib/stained-glass-rollback/booted-snapshot"

def Root.nest (outer inner : Root) : Root :=
  { outer with
    files := fun path =>
      if hasPrefix path "snapshot/" then inner.files (String.ofList (path.toList.drop 9))
      else outer.files path }

def Dir.isDue (d : Dir) : Bool := d.boot.all fun copy => (copy.files markerFile).isSome

def Dir.withCopy (d : Dir) : Dir :=
  { d with boot := d.snapshot.map fun root => d.boot.elim root (·.nest root) }

def System.editBoot (s : System) (sid : Sid) (f : Root → Root) : System :=
  match s.dir? sid with
  | none => s
  | some d => s.putDir { d with boot := d.boot.map f }

def Env.attempt (env : Env) (o : Op) (f : System → System) : Cmd Unit :=
  (env.op o f).handle fun e =>
    match e with
    | .fail _ => pure ()
    | e => Act.fail e

def System.deleteOld (s : System) : System :=
  { s with subvols := fun name => if hasPrefix name "@old-" then none else s.subvols name }

def makeCopy (env : Env) (sid : Sid) : Cmd Unit := do
  match (← Act.get).dir? sid with
  | none => pure ()
  | some d => env.attempt (.remake sid) (·.putDir d.withCopy)

def remakeCopy (env : Env) (sid : Sid) : Cmd Unit := do
  match (← Act.get).dir? sid with
  | none => pure ()
  | some d =>
    if d.isDue then
      if d.boot.isSome then env.attempt (.delete sid .boot) (·.putDir { d with boot := none })
      makeCopy env sid

def refresh (env : Env) : Cmd Unit := do
  env.attempt .deleteOld System.deleteOld
  Act.each (remakeCopy env) ((← Act.get).points.map Prod.fst)

def cmdBoot (env : Env) : Cmd (List String) := do
  if env.live then pure []
  else
    match env.layoutKind with
    | .btrfs =>
      env.op .mount id
      match env.bootedSnapshot with
      -- this copy was started: made again from its snapshot next time
      | some sid => env.op .marker (·.editBoot sid (Root.write markerFile (str (sid ++ "\n"))))
      | none => refresh env
      tell env
      pure []
    | .btrfsPlain =>
      env.op .mount id
      env.op .publish id
      pure []
    | .other _ =>
      env.op .publish id
      pure []

/-- A start, and what whoever runs it changes in the copy that runs, before `sg-snapshot boot`. -/
structure Start where
  env : Env
  early : Root → Root
  late : Root → Root

def System.editRunning (s : System) (env : Env) (f : Root → Root) : System :=
  match env.bootedSnapshot with
  | some sid => s.editBoot sid f
  | none => s.editRoot "@" f

def System.start (s : System) (b : Start) : System :=
  ((cmdBoot b.env (s.editRunning b.env b.early)).2).editRunning b.env b.late

inductive Happening
  | start (b : Start)
  | command (env : Env) (e : Event)

def System.next (s : System) : Happening → System
  | .start b => s.start b
  | .command env e => s.after env e

def starts (s : System) : List Happening → List (System × Start)
  | [] => []
  | .start b :: hs => (s, b) :: starts (s.next (.start b)) hs
  | .command env e :: hs => starts (s.next (.command env e)) hs

def BeginsAsSaved (s : System) (b : Start) : Prop :=
  ∀ sid ∈ b.env.bootedSnapshot, ∀ d ∈ s.dirs, d.name = sid →
    ∀ copy ∈ d.boot, d.snapshot = some copy

end StainedGlass.Snapshot
