import StainedGlass.Snapshot.System
import StainedGlass.Snapshot.PruneLaws

namespace StainedGlass.Snapshot

open Lib

def tried (cal : Calendar) (sid : Sid) : Nat → Option Sid
  | 0 => some sid
  | k + 1 => (cal.mktime sid).bind fun t => tried cal (cal.newId (t + 1)) k

variable {cal : Calendar} {names : List Sid}

theorem freshId_eq_some
    (h : freshId cal names n sid = some found) : found ∉ names ∧ ∃ k, tried cal sid k = some found := by
  induction n generalizing sid with
  | zero => exact absurd h (by simp [freshId])
  | succ n ih =>
    rw [freshId] at h
    split at h
    · obtain ⟨t, ht, h⟩ := Option.bind_eq_some_iff.mp h
      obtain ⟨hfree, k, hk⟩ := ih h
      exact ⟨hfree, k + 1, by simp [tried, ht, hk]⟩
    · next hfree =>
      cases h
      exact ⟨hfree, 0, rfl⟩

theorem tried_add (h : tried cal sid i = some mid) (j : Nat) : tried cal sid (i + j) = tried cal mid j := by
  induction i generalizing sid with
  | zero =>
    cases h
    rw [Nat.zero_add]
  | succ i ih =>
    obtain ⟨t, ht, h⟩ := Option.bind_eq_some_iff.mp h
    rw [Nat.succ_add, tried, ht]
    exact ih h

theorem freshId_of_tried (hk : tried cal sid k = some found) (hfree : found ∉ names) (hn : k < n) :
    (freshId cal names n sid).isSome := by
  induction k generalizing sid n with
  | zero =>
    cases hk
    cases n with
    | zero => exact absurd hn (Nat.not_lt_zero 0)
    | succ n => simp [freshId, hfree]
  | succ k ih =>
    obtain ⟨t, ht, hk⟩ := Option.bind_eq_some_iff.mp hk
    cases n with
    | zero => exact absurd hn (Nat.not_lt_zero _)
    | succ n =>
      rw [freshId]
      split
      · rw [ht]
        exact ih hk (Nat.lt_of_succ_lt_succ hn)
      · rfl

theorem tried_of_add (h : tried cal sid (i + j) = some found) : ∃ mid, tried cal sid i = some mid := by
  induction i generalizing sid with
  | zero => exact ⟨sid, rfl⟩
  | succ i ih =>
    rw [Nat.succ_add] at h
    obtain ⟨t, ht, h⟩ := Option.bind_eq_some_iff.mp h
    obtain ⟨mid, hmid⟩ := ih h
    exact ⟨mid, by simp [tried, ht, hmid]⟩

theorem freshId_isSome (hk : tried cal sid k = some found) (hfree : found ∉ names) :
    (freshId cal names (names.length + 1) sid).isSome := by
  classical
  have hex : ∃ k found, tried cal sid k = some found ∧ found ∉ names := ⟨k, found, hk, hfree⟩
  obtain ⟨found, hfound, hfree⟩ := Nat.find_spec hex
  apply freshId_of_tried hfound hfree
  apply Nat.lt_succ_of_le
  -- before the first free identifier only names are tried, each of them once
  have hnames : ((Finset.range (Nat.find hex)).image (tried cal sid)) ⊆ (names.map some).toFinset := by
    intro used hused
    obtain ⟨i, hi, rfl⟩ := Finset.mem_image.mp hused
    have hi := Finset.mem_range.mp hi
    obtain ⟨mid, hmid⟩ := tried_of_add (i := i) (j := Nat.find hex - i)
      ((congrArg _ (by omega)).trans hfound)
    have hmem : mid ∈ names := by
      by_contra hmid'
      exact Nat.find_min hex hi ⟨mid, hmid, hmid'⟩
    simpa [hmid] using hmem
  have honce : Set.InjOn (tried cal sid) (Finset.range (Nat.find hex)) := by
    have hlt {i j : Nat} (hij : i < j) (hj : j < Nat.find hex) : tried cal sid i ≠ tried cal sid j := by
      intro heq
      obtain ⟨mid, hmid⟩ := tried_of_add (i := j) (j := Nat.find hex - j)
        ((congrArg _ (by omega)).trans hfound)
      apply Nat.find_min hex (m := i + (Nat.find hex - j)) (by omega)
      refine ⟨found, ?_, hfree⟩
      rw [tried_add (heq.trans hmid), ← tried_add hmid, ← hfound]
      congr 1
      omega
    intro i hi j hj heq
    have hi : i < Nat.find hex := by simpa using hi
    have hj : j < Nat.find hex := by simpa using hj
    obtain hij | hij | hij := Nat.lt_trichotomy i j
    · exact absurd heq (hlt hij hj)
    · exact hij
    · exact absurd heq.symm (hlt hij hi)
  calc Nat.find hex
      = ((Finset.range (Nat.find hex)).image (tried cal sid)).card := by
        rw [Finset.card_image_of_injOn honce, Finset.card_range]
    _ ≤ (names.map some).toFinset.card := Finset.card_le_card hnames
    _ ≤ names.length := by simpa using List.toFinset_card_le (names.map some)

namespace System

variable {s : System}

@[simp] theorem putDir_putDir (s : System) {d d' : Dir} (h : d.name = d'.name) :
    (s.putDir d).putDir d' = s.putDir d' := by
  ext1 <;> simp [putDir, removeDir, h, List.filter_filter]

theorem mem_dirs_putDir {d x : Dir} :
    x ∈ (s.putDir d).dirs ↔ x = d ∨ x ∈ s.dirs ∧ x.name ≠ d.name := by
  simp [putDir, removeDir]

theorem dirs_putDir {d : Dir} (h : d.name ∉ s.names) : (s.putDir d).dirs = d :: s.dirs := by
  have hother : ∀ x ∈ s.dirs, decide (x.name ≠ d.name) = true := by
    intro x hx
    rw [decide_eq_true_eq]
    exact fun heq => h (heq ▸ List.mem_map_of_mem hx)
  change d :: s.dirs.filter _ = d :: s.dirs
  rw [List.filter_eq_self.mpr hother]

@[simp] theorem root?_putDir (s : System) (d : Dir) : (s.putDir d).root? = s.root? := rfl

theorem freshId_notMem (h : s.freshId env = some sid) : sid ∉ s.names :=
  (freshId_eq_some h).1

theorem matchesIdRe_tried (h : matchesIdRe sid) (hk : tried cal sid k = some found) : matchesIdRe found := by
  induction k generalizing sid with
  | zero =>
    cases hk
    exact h
  | succ k ih =>
    obtain ⟨t, -, hk⟩ := Option.bind_eq_some_iff.mp hk
    exact ih (cal.newId_matches _) hk

theorem matchesIdRe_freshId (h : s.freshId env = some sid) : matchesIdRe sid := by
  obtain ⟨-, k, hk⟩ := freshId_eq_some h
  exact matchesIdRe_tried (env.cal.newId_matches _) hk

end System

def wholeDir (sid : Sid) (root : Root) (info : PointInfo) : Dir :=
  { name := sid, snapshot := some root, boot := some root, info }

def takeOps : List Op := [.takeDir, .takeSnapshot, .takeInfo, .takeBoot]

@[simp] theorem Env.ends_op {env : Env}
    : (env.op o f).Ends s Q E ↔ (env.fails o = none → Q () (f s)) ∧ ∀ e, env.fails o = some e → E e s :=
  Act.ends_op _ _

theorem Env.ends_source {env : Env} : (env.source o src).Ends s Q E ↔
      (env.fails o = none → (∀ root, src s = some root → Q root s) ∧
        (src s = none → E (.fail (str "btrfs failed")) s)) ∧ ∀ e, env.fails o = some e → E e s := by
  rw [source, Act.ends_bind, Env.ends_op]
  simp only [Act.ends_bind, Act.ends_get, id]
  cases src s with
  | none => simp
  | some root => simp

section Take

variable {env : Env} {s : System} {label : Str} {kind : Kind} {changes : List Change}
  {source : Option String} {Q : Sid → System → Prop} {E : Error → System → Prop}

def Begun (label : Str) (kind : Kind) (changes : List Change) (source : Option String)
    (info : PointInfo) : Prop :=
  info = {} ∨ ∃ root, info = newInfo label kind changes source root

theorem ends_take (hs : ∀ e, E e s)
    (hd : ∀ e d, d.name ∉ s.names → d.boot = none → Begun label kind changes source d.info →
      E e (s.putDir d)) :
    (take env label kind changes source).Ends s Q E ↔
      ∀ sid root, s.freshId env = some sid → s.root? = some root →
        (∀ o ∈ takeOps, env.fails o = none) →
        Q sid (s.putDir (wholeDir sid root (newInfo label kind changes source root))) := by
  rw [take, Act.ends_bind, Act.ends_get]
  cases hsid : s.freshId env with
  | none => simp [hs]
  | some sid =>
    have hfree := System.freshId_notMem hsid
    have hbare (e : Error) (snapshot : Option Root) :
        E e (s.putDir { name := sid, snapshot }) := hd e _ hfree rfl (.inl rfl)
    have htold (e : Error) (root : Root) :
        E e (s.putDir { name := sid, snapshot := some root,
                        info := newInfo label kind changes source root }) :=
      hd e _ hfree rfl (.inr ⟨root, rfl⟩)
    simp only [Act.ends_bind, Env.ends_op, Env.ends_source, Act.ends_op, Act.ends_pure,
      System.root?_putDir, System.putDir_putDir, hs, hbare, htold, implies_true, and_true,
      true_implies]
    constructor
    · intro h sid' root hsid' hroot hops
      cases hsid'
      exact h (hops _ (by simp [takeOps])) (hops _ (by simp [takeOps])) root hroot
        (hops _ (by simp [takeOps])) (hops _ (by simp [takeOps]))
    · intro h hdir hsnapshot root hroot hinfo hboot
      apply h sid root rfl hroot
      simp [takeOps, hdir, hsnapshot, hinfo, hboot]

theorem ends_take_of_works (hsid : s.freshId env = some sid)
    (hroot : s.root? = some root) (hops : ∀ o ∈ takeOps, env.fails o = none) :
    (take env label kind changes source).Ends s Q E ↔
      Q sid (s.putDir (wholeDir sid root (newInfo label kind changes source root))) := by
  have hnone {o : Op} (ho : o ∈ takeOps) : env.fails o = none := hops o ho
  rw [take, Act.ends_bind, Act.ends_get, hsid]
  simp [Act.ends_bind, Env.ends_source, hroot, hnone (o := .takeDir) (by decide),
    hnone (o := .takeSnapshot) (by decide), hnone (o := .takeInfo) (by decide),
    hnone (o := .takeBoot) (by decide), wholeDir]

end Take

structure Shrinks (keepIds : List Sid) (s s' : System) : Prop where
  subvols : s'.subvols = s.subvols
  default : s'.default = s.default
  entries : s'.entries = s.entries
  dirs : ∀ x ∈ s'.dirs, ∃ y ∈ s.dirs, x.name = y.name ∧ x.info = y.info ∧ (x = y ∨ x.boot = none)
  kept : ∀ d ∈ s.dirs, d.name ∈ keepIds → d ∈ s'.dirs

namespace Shrinks

variable {keepIds : List Sid} {s s' s'' : System} {sid : Sid}

theorem refl (keepIds : List Sid) (s : System) : Shrinks keepIds s s :=
  ⟨rfl, rfl, rfl, fun x hx => ⟨x, hx, rfl, rfl, .inl rfl⟩, fun _ hd _ => hd⟩

theorem trans (h : Shrinks keepIds s s') (h' : Shrinks keepIds s' s'') : Shrinks keepIds s s'' where
  subvols := h'.subvols.trans h.subvols
  default := h'.default.trans h.default
  entries := h'.entries.trans h.entries
  dirs x hx := by
    obtain ⟨y, hy, hxy, hinfo, hboot⟩ := h'.dirs x hx
    obtain ⟨z, hz, hyz, hinfo', hboot'⟩ := h.dirs y hy
    refine ⟨z, hz, hxy.trans hyz, hinfo.trans hinfo', ?_⟩
    obtain rfl | hboot := hboot
    · exact hboot'
    · exact .inr hboot
  kept d hd hkeep := h'.kept d (h.kept d hd hkeep) hkeep

theorem putDir {d d' : Dir} (hd : d ∈ s.dirs) (hname : d'.name = d.name) (hinfo : d'.info = d.info)
    (hboot : d'.boot = none) (hfree : d.name ∉ keepIds) : Shrinks keepIds s (s.putDir d') where
  subvols := rfl
  default := rfl
  entries := rfl
  dirs x hx := by
    obtain rfl | ⟨hx, -⟩ := System.mem_dirs_putDir.mp hx
    · exact ⟨d, hd, hname, hinfo, .inr hboot⟩
    · exact ⟨x, hx, rfl, rfl, .inl rfl⟩
  kept x hx hkeep := by
    refine System.mem_dirs_putDir.mpr (.inr ⟨hx, ?_⟩)
    rw [hname]
    exact fun heq => hfree (heq ▸ hkeep)

theorem removeDir (s : System) (hfree : sid ∉ keepIds) : Shrinks keepIds s (s.removeDir sid) where
  subvols := rfl
  default := rfl
  entries := rfl
  dirs x hx := ⟨x, List.mem_of_mem_filter hx, rfl, rfl, .inl rfl⟩
  kept x hx hkeep := by
    refine List.mem_filter.mpr ⟨hx, ?_⟩
    rw [decide_eq_true_eq]
    exact fun heq => hfree (heq ▸ hkeep)

end Shrinks

theorem System.removeDir_putDir (s : System) (d : Dir) :
    (s.putDir d).removeDir d.name = s.removeDir d.name := by
  ext1 <;> simp [System.putDir, System.removeDir]

theorem System.dir?_eq_some {s : System} {d : Dir} (h : s.dir? sid = some d) : d ∈ s.dirs ∧ d.name = sid :=
  ⟨List.mem_of_find?_eq_some h, by simpa using List.find?_some h⟩

def Dir.deleteOps (d : Dir) : List Op :=
  (if d.boot.isSome then [.delete d.name .boot] else []) ++
    if d.snapshot.isSome then [.delete d.name .snapshot] else []

theorem System.removeDir_of_dir?_eq_none {s : System} (h : s.dir? sid = none) : s.removeDir sid = s := by
  have hother : ∀ x ∈ s.dirs, decide (x.name ≠ sid) = true := by
    intro x hx
    simpa using List.find?_eq_none.mp h x hx
  ext1 <;> try rfl
  exact List.filter_eq_self.mpr hother

theorem ends_deletePoint {env : Env} (hfree : sid ∉ keepIds) {s : System} (hE : ∀ e s', Shrinks keepIds s s' → E e s') :
    (deletePoint env sid).Ends s Q E ↔ ((∀ d, s.dir? sid = some d → ∀ o ∈ d.deleteOps, env.fails o = none) →
        Q () (s.removeDir sid)) := by
  rw [deletePoint, Act.ends_bind, Act.ends_get]
  cases hdir : s.dir? sid with
  | none => simp [System.removeDir_of_dir?_eq_none hdir]
  | some d =>
    obtain ⟨hd, rfl⟩ := System.dir?_eq_some hdir
    have hrefl (e : Error) : E e s := hE e s (.refl _ s)
    have hput (e : Error) (snapshot : Option Root) :
        E e (s.putDir { d with snapshot, boot := none }) := hE e _ (.putDir hd rfl rfl rfl hfree)
    have hremove (snapshot boot : Option Root) :
        (s.putDir { d with snapshot, boot }).removeDir d.name = s.removeDir d.name :=
      s.removeDir_putDir { d with snapshot, boot }
    have hone : (∀ d', some d = some d' → ∀ o ∈ d'.deleteOps, env.fails o = none) ↔
        ∀ o ∈ d.deleteOps, env.fails o = none := by simp
    rw [hone]
    cases hboot : d.boot with
    | none =>
      cases hsnapshot : d.snapshot with
      | none => simp [Dir.deleteOps, hboot, hsnapshot]
      | some root => simp [Dir.deleteOps, hboot, hsnapshot, hrefl, hremove]
    | some copy =>
      cases hsnapshot : d.snapshot with
      | none => simp [Dir.deleteOps, hboot, hsnapshot, hrefl, hremove]
      | some root => simp [Dir.deleteOps, hboot, hsnapshot, hrefl, hremove, hput]

def System.removeDirs (s : System) (sids : List Sid) : System := sids.foldl System.removeDir s

def deleteOps : System → List Sid → List Op
  | _, [] => []
  | s, sid :: sids =>
    (match s.dir? sid with
      | some d => d.deleteOps
      | none => []) ++ deleteOps (s.removeDir sid) sids

theorem ends_each_deletePoint {env : Env} (hfree : ∀ sid ∈ sids, sid ∉ keepIds) {s : System}
    (hE : ∀ e s', Shrinks keepIds s s' → E e s') : (Act.each (deletePoint env) sids).Ends s Q E ↔
      ((∀ o ∈ deleteOps s sids, env.fails o = none) → Q () (s.removeDirs sids)) := by
  induction sids generalizing s with
  | nil => simp [Act.each, deleteOps, System.removeDirs]
  | cons sid sids ih =>
    have hsid := hfree sid (.head _)
    have hrest : ∀ e s', Shrinks keepIds (s.removeDir sid) s' → E e s' :=
      fun e s' h => hE e s' ((Shrinks.removeDir s hsid).trans h)
    rw [Act.each, Act.ends_bind, ends_deletePoint hsid hE,
      ih (fun sid hsid => hfree sid (.tail _ hsid)) hrest]
    cases hdir : s.dir? sid with
    | none => simp [deleteOps, hdir, System.removeDirs]
    | some d =>
      simp only [deleteOps, hdir, List.forall_mem_append, and_imp, Option.some.injEq,
        forall_eq']
      rfl

theorem shrinks_removeDirs (hfree : ∀ sid ∈ sids, sid ∉ keepIds)
    (s : System) : Shrinks keepIds s (s.removeDirs sids) := by
  induction sids generalizing s with
  | nil => exact .refl _ s
  | cons sid sids ih =>
    apply (Shrinks.removeDir s (hfree sid (.head _))).trans
    exact ih (fun sid hsid => hfree sid (.tail _ hsid)) _

def System.surplus (s : System) (env : Env) (keepIds : List Sid) : List Sid :=
  (prune env.cfg s.drive keepIds env.space).deleted

theorem ends_pruneAll {env : Env} {s : System} (hE : ∀ e s', Shrinks keepIds s s' → E e s') :
    (pruneAll env keepIds).Ends s Q E ↔ ((∀ o ∈ deleteOps s (s.surplus env keepIds), env.fails o = none) →
        Q () (s.removeDirs (s.surplus env keepIds))) := by
  rw [pruneAll, Act.ends_bind, Act.ends_get]
  apply ends_each_deletePoint
  · exact fun sid hsid => notMem_keepIds_of_mem_deleted hsid
  · exact hE

theorem shrinks_pruneAll (env : Env) (keepIds : List Sid) (s : System) :
    (pruneAll env keepIds).Ends s (fun _ s' => Shrinks keepIds s s')
      (fun _ s' => Shrinks keepIds s s') := by
  rw [ends_pruneAll (fun _ _ h => h)]
  intro _
  exact shrinks_removeDirs (fun sid hsid => notMem_keepIds_of_mem_deleted hsid) s

def Calendar.ofNewYear : Calendar where
  newId t := if t < 300 then "20260101-000000" else "20260101-000500"
  mktime sid := some (if sid = "20260101-000500" then 300 else 0)
  newId_matches t := by split <;> decide

def Env.ofNewYear (cmdline : List String) (now : Int) : Env where
  u := .ascii
  cal := .ofNewYear
  clock _ := now
  fails _ := none
  cfg := {}
  space _ := (⟨1, 1, 2 ^ 40⟩, ⟨1, 1, 2 ^ 40⟩)
  ours _ := false
  fstype := "btrfs"
  fsroot := "/@"
  cmdline
  kernelCmdline := []

theorem first_lt_next : 256 < 257 := Nat.lt_succ_self 256

def System.bare : System where
  dirs := []
  subvols name := if name = "@" then some ⟨256, ⟨fun _ => none, []⟩⟩ else none
  default := 256
  nextId := 257
  entries := none
  nodup := .nil
  default_lt := first_lt_next

end StainedGlass.Snapshot
