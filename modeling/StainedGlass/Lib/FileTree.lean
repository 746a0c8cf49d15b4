import Mathlib

/-! A tree of files: directories with their owners, files and symbolic links. -/

namespace StainedGlass.Lib

inductive PathStep (α : Type)
  | name (a : α)
  | up
  deriving DecidableEq

structure LinkTarget (α : Type) where
  absolute : Bool
  steps : List (PathStep α)
  deriving DecidableEq

inductive FileNode (α : Type)
  | dir (owner : Nat)
  | file (owner : Nat)
  | link (target : LinkTarget α)
  deriving DecidableEq

def FileNode.isDir {α : Type} : FileNode α → Bool
  | .dir _ => true
  | _ => false

structure FileTree (α : Type) where
  nodes : List (List α × FileNode α)

namespace FileTree

variable {α : Type} [DecidableEq α] (t : FileTree α)

def get (p : List α) : Option (FileNode α) :=
  if p = [] then some (.dir 0) else (t.nodes.find? (·.1 = p)).map Prod.snd

def set (p : List α) (n : FileNode α) : FileTree α := ⟨(p, n) :: t.nodes⟩

def erase (p : List α) : FileTree α := ⟨t.nodes.filter (·.1 ≠ p)⟩

def isEmptyDir (p : List α) : Bool := t.nodes.all fun x => !(p.isPrefixOf x.1 && x.1 ≠ p)

def movePath (src dst p : List α) : List α := if src <+: p then dst ++ p.drop src.length else p

def move (src dst : List α) : FileTree α :=
  ⟨(t.nodes.filter fun x => ¬ dst <+: x.1).map fun x => (movePath src dst x.1, x.2)⟩

def walkWith (follow : List α → List (PathStep α) → Option (List α)) :
    List α → List (PathStep α) → Option (List α)
  | base, [] => some base
  | base, .up :: rest => walkWith follow base.dropLast rest
  | base, .name a :: rest =>
    match t.get (base ++ [a]) with
    | some (.dir _) => walkWith follow (base ++ [a]) rest
    | some (.link target) => follow (if target.absolute then [] else base) (target.steps ++ rest)
    | _ => none

def walk : Nat → List α → List (PathStep α) → Option (List α)
  | 0 => t.walkWith fun _ _ => none
  | n + 1 => t.walkWith (walk n)

def resolve (p : List α) : Option (List α) := t.walk 40 [] (p.map .name)

def locate (p : List α) : Option (List α) :=
  p.getLast?.bind fun a => (t.resolve p.dropLast).map (· ++ [a])

inductive OwnerOp (α : Type)
  | mkdir (dir : List α) (a : α)
  | create (dir : List α) (a : α)
  | symlink (dir : List α) (a : α) (target : LinkTarget α)
  | remove (dir : List α) (a : α)
  | rename (dir : List α) (a : α) (dir' : List α) (b : α)
  deriving DecidableEq

def owns (uid : Nat) (dir : List α) : Bool := t.get dir = some (.dir uid)

def add (uid : Nat) (dir : List α) (a : α) (n : FileNode α) : FileTree α :=
  if t.owns uid dir ∧ t.get (dir ++ [a]) = none then t.set (dir ++ [a]) n else t

def mayMove (uid : Nat) (dir : List α) (a : α) (dir' : List α) (b : α) : Bool :=
  t.owns uid dir && t.owns uid dir' && !(dir ++ [a]).isPrefixOf (dir' ++ [b]) &&
    t.isEmptyDir (dir' ++ [b]) &&
    match t.get (dir ++ [a]) with
    | some (.dir owner) => owner = uid || dir = dir'
    | some _ => true
    | none => false

def perform (uid : Nat) : OwnerOp α → FileTree α
  | .mkdir dir a => t.add uid dir a (.dir uid)
  | .create dir a => t.add uid dir a (.file uid)
  | .symlink dir a target => t.add uid dir a (.link target)
  | .remove dir a =>
    if t.owns uid dir ∧ t.isEmptyDir (dir ++ [a]) then t.erase (dir ++ [a]) else t
  | .rename dir a dir' b =>
    if t.mayMove uid dir a dir' b then t.move (dir ++ [a]) (dir' ++ [b]) else t

variable {t} {p q src dst : List α}

theorem get_set (hq : q ≠ []) (p : List α) (n : FileNode α) :
    (t.set p n).get q = if q = p then some n else t.get q := by
  by_cases h : q = p
  · subst h
    simp [get, set, hq]
  · simp [get, set, hq, h, Ne.symm h]

theorem get_set_of_ne (h : q ≠ p) (n : FileNode α) : (t.set p n).get q = t.get q := by
  by_cases hq : q = []
  · simp [get, hq]
  · rw [get_set hq, if_neg h]

theorem get_erase_of_ne (h : q ≠ p) : (t.erase p).get q = t.get q := by
  by_cases hq : q = []
  · simp [get, hq]
  · rw [get, get, if_neg hq, if_neg hq, erase, List.find?_filter]
    congr 2
    funext x
    by_cases hx : x.1 = q
    · simp [hx, h]
    · simp [hx]

theorem find?_map_movePath {nodes : List (List α × FileNode α)} (hsrc : ¬ src <+: q) (hdst : ¬ dst <+: q) :
    (nodes.map fun x => (movePath src dst x.1, x.2)).find? (·.1 = q) = nodes.find? (·.1 = q) := by
  induction nodes with
  | nil => rfl
  | cons x nodes ih =>
    rw [List.map_cons, List.find?_cons, List.find?_cons, ih]
    by_cases hx : src <+: x.1
    · have hne : x.1 ≠ q := fun h => hsrc (h ▸ hx)
      have hmoved : movePath src dst x.1 ≠ q := by
        rw [movePath, if_pos hx]
        exact fun h => hdst (h ▸ List.prefix_append _ _)
      simp [hne, hmoved]
    · simp only [movePath, if_neg hx]

theorem get_move (hsrc : ¬ src <+: q) (hdst : ¬ dst <+: q) : (t.move src dst).get q = t.get q := by
  by_cases hq : q = []
  · simp [get, hq]
  · rw [get, get, if_neg hq, if_neg hq, move, find?_map_movePath hsrc hdst, List.find?_filter]
    congr 2
    funext x
    by_cases hx : x.1 = q
    · simp [hx, hdst]
    · simp [hx]

theorem get_perform (h : ∀ d, d <+: q → d ≠ q → t.get d ≠ some (.dir uid))
    (op : OwnerOp α) : (t.perform uid op).get q = t.get q := by
  have hbelow {dir : List α} {a : α} (howns : t.owns uid dir = true) : ¬ dir ++ [a] <+: q := by
    intro hpre
    refine h dir ((List.prefix_append _ _).trans hpre) ?_ (by simpa [owns] using howns)
    rintro rfl
    simpa using hpre.length_le
  have hne {dir : List α} {a : α} (howns : t.owns uid dir = true) : q ≠ dir ++ [a] := by
    intro heq
    apply hbelow howns
    rw [← heq]
  have hadd {dir : List α} {a : α} {n : FileNode α} : (t.add uid dir a n).get q = t.get q := by
    rw [add]
    split
    · next hcan => exact get_set_of_ne (hne hcan.1) n
    · rfl
  cases op with
  | mkdir dir a => exact hadd
  | create dir a => exact hadd
  | symlink dir a target => exact hadd
  | remove dir a =>
    rw [perform]
    split
    · next hcan => exact get_erase_of_ne (hne hcan.1)
    · rfl
  | rename dir a dir' b =>
    rw [perform]
    split
    · next hcan =>
      simp only [mayMove, Bool.and_eq_true] at hcan
      exact get_move (hbelow hcan.1.1.1.1) (hbelow hcan.1.1.1.2)
    · rfl

def Straight (t : FileTree α) (p : List α) : Prop := ∀ q, q <+: p → ∀ target, t.get q ≠ some (.link target)

theorem walkWith_straight (h : ∀ q, q <+: p → ∀ target, t.get (base ++ q) ≠ some (.link target))
    (hr : t.walkWith follow base (p.map .name) = some r) : r = base ++ p := by
  induction p generalizing base with
  | nil =>
    cases hr
    simp
  | cons a p ih =>
    rw [List.map_cons, walkWith] at hr
    split at hr
    · have htail : ∀ q, q <+: p → ∀ target, t.get (base ++ [a] ++ q) ≠ some (.link target) := by
        intro q hq target
        rw [List.append_assoc]
        exact h ([a] ++ q) (by simpa using hq) target
      rw [ih htail hr, List.append_assoc]
      rfl
    · next target hlink => exact absurd hlink (h [a] (by simp) target)
    · cases hr

theorem resolve_straight (h : t.Straight p) (hr : t.resolve p = some r) : r = p :=
  walkWith_straight (fun q hq => h q hq) hr

theorem locate_straight (h : t.Straight p.dropLast) (hr : t.locate p = some r) : r = p := by
  obtain ⟨a, ha, hr⟩ := Option.bind_eq_some_iff.mp hr
  obtain ⟨d, hd, rfl⟩ := Option.map_eq_some_iff.mp hr
  rw [resolve_straight h hd, List.dropLast_append_getLast?]
  exact ha

end FileTree

end StainedGlass.Lib
