import StainedGlass.Snapshot.Rollback

/-! The boot entries of a system's root that the boot loader shows, and the kernels they start. -/

namespace StainedGlass.Snapshot

open Lib

namespace BootEntry

def visible (e : BootEntry) : Bool := endsWith e.name (str ".conf")

def isHidden (e : BootEntry) : Bool := endsWith e.name (str ".conf.sg-hidden")

def isOwn (u : Unicode) (e : BootEntry) : Bool := startsWith (u.lower e.name) (str "sg-")

def isLive (e : BootEntry) : Bool := endsWith e.name (str "-live.conf")

def isTwin (e : BootEntry) : Bool := endsWith e.name (str "-recovery.conf")

def usedUp (u : Unicode) (e : BootEntry) : Bool := e.name.tails.any (usedUpAt u)

def OfRoot (env : Env) (e : BootEntry) : Prop :=
  ∃ partuuid, ourPartuuid env = some partuuid ∧
    (str "root=partuuid=" ++ partuuid) ∈ words env.u (env.u.lower ((entryField env.u (str "options") e.text).getD []))

def readVersion (u : Unicode) (e : BootEntry) : Option Str :=
  match entryField u (str "version") e.text with
  | some (c :: v) => some (c :: v)
  | _ => e.name.tails.findSome? (versionAt u)

/-- The kernel that an entry starts: a twin has its entry's `version`, or its name with
`-recovery` behind it. -/
def version (u : Unicode) (e : BootEntry) : Option Str :=
  match entryField u (str "version") e.text with
  | some (c :: v) => some (c :: v)
  | _ => (e.name.tails.findSome? (versionAt u)).map fun v =>
      if e.isTwin && endsWith v (str "-recovery") then v.take (v.length - 9) else v

def hide (e : BootEntry) : BootEntry := { e with name := e.name ++ hiddenSuffix }

end BootEntry

def LowersStart (u : Unicode) : Prop :=
  ∀ e : BootEntry, e.visible → e.hide.isOwn u = e.isOwn u

/-- A visible entry of this root that starts a kernel which is not among these, live entries and
our own aside. -/
structure Stale (env : Env) (kernels : List Str) (e : BootEntry) : Prop where
  visible : e.visible
  root : e.OfRoot env
  own : e.isOwn env.u = false
  live : e.isLive = false
  version : ∃ v, e.version env.u = some v ∧ v ∉ kernels

def replaceIn (src dst : Str) (entries : List BootEntry) : List BootEntry :=
  (entries.filter (·.name ≠ dst)).map fun e => if e.name = src then { e with name := dst } else e

def matchEntries (env : Env) (kernels : List Str) (entries : List BootEntry) : List BootEntry :=
  (entryRenames env (some entries) kernels).foldl (fun entries p => replaceIn p.1 p.2 entries) entries

/-- What going back is to leave: entries for the point's kernels only, and what is hidden comes back. -/
structure Follows (env : Env) (kernels : List Str) (before after : List BootEntry) : Prop where
  starts : ∃ e ∈ after, e.visible ∧ e.OfRoot env ∧ ∃ v ∈ kernels, e.version env.u = some v
  hides : ∀ e ∈ after, ¬ Stale env kernels e
  again : ∀ e ∈ before, Stale env kernels e → ∀ (between : List (List Str)) (kernels' : List Str),
    (∃ v ∈ kernels', e.version env.u = some v) →
      e ∈ matchEntries env kernels' (between.foldl (fun entries k => matchEntries env k entries) after)

structure ComesBack (env : Env) (kernels : List Str) (e : BootEntry) : Prop where
  hidden : e.isHidden
  root : e.OfRoot env
  own : e.isOwn env.u = false
  tries : e.usedUp env.u = false
  version : ∃ v ∈ kernels, e.readVersion env.u = some v

/-- Where `match_kernels` can do its work: nothing is in the way of an entry that is hidden or shown. -/
structure Fits (env : Env) (kernels : List Str) (entries : List BootEntry) : Prop where
  listed : ∀ e ∈ entries, Stale env kernels e → e.isTwin = false ∧ e.usedUp env.u = false
  apart : ∀ e ∈ entries, ∀ e' ∈ entries, Stale env kernels e → ComesBack env kernels e' → e'.name ≠ e.hide.name
  twins : ∀ e, e.hide ∈ entries → ComesBack env kernels e.hide → ¬ Stale env kernels e

end StainedGlass.Snapshot
