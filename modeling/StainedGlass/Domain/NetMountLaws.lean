import StainedGlass.Domain.NetMount

namespace StainedGlass.Domain.NetMount

open Lib

variable {s : State} {t : FileTree Name} {p q : Path} {uid : Nat}

inductive Rooted : Path → Prop
  | run : Rooted [run]
  | net : Rooted netRoot
  | unc : Rooted [run, net, unc]
  | server (server : Name) : Rooted [run, net, unc, server]
  | users : Rooted [run, net, users]
  | drives : Rooted [run, net, drives]
  | driveDir (uid : Name) : Rooted [run, net, drives, uid]

inductive Given : Path → Prop
  | share (server share : Name) : Given [run, net, unc, server, share]
  | user (uid : Name) : Given [run, net, users, uid]

def Theirs (p : Path) : Prop := ∃ uid a rest, p = run :: net :: users :: uid :: a :: rest

structure Safe (t : FileTree Name) : Prop where
  run : t.get [run] = some (.dir 0)
  net : t.get netRoot = some (.dir 0)
  rooted : ∀ p, Rooted p → t.get p = none ∨ t.get p = some (.dir 0)
  given : ∀ p, Given p → ∀ target, t.get p ≠ some (.link target)

def OnWay (p : Path) : Prop := ∀ q, q <+: p → q = [] ∨ Rooted q ∨ Given q ∨ Theirs q

def Clear (t : FileTree Name) (p : Path) : Prop :=
  ∀ q, q <+: p → Theirs q → ∀ target, t.get q ≠ some (.link target)

theorem Safe.straight (h : Safe t) (hway : OnWay p) (hclear : Clear t p) : t.Straight p := by
  intro q hq target
  rcases hway q hq with rfl | hrooted | hgiven | htheirs
  · simp [FileTree.get]
  · rcases h.rooted q hrooted with hnone | hdir
    · simp [hnone]
    · simp [hdir]
  · exact h.given q hgiven target
  · exact hclear q hq htheirs target

theorem prefix_concat (h : q <+: l ++ [a]) : q <+: l ∨ q = l ++ [a] := by
  rw [List.prefix_concat_iff] at h
  exact h.symm

theorem way_net (h : q <+: netRoot) : q = [] ∨ Rooted q := by
  rcases prefix_concat (l := [run]) h with h | rfl
  · rcases prefix_concat (l := []) h with h | rfl
    · exact .inl (List.prefix_nil.mp h)
    · exact .inr .run
  · exact .inr .net

theorem way_net_concat (ha : Rooted (netRoot ++ [a])) (h : q <+: netRoot ++ [a]) : q = [] ∨ Rooted q := by
  rcases prefix_concat h with h | rfl
  · exact way_net h
  · exact .inr ha

theorem Rooted.parents (h : Rooted p) (hq : q <+: p) : q = [] ∨ Rooted q := by
  cases h with
  | run =>
    rcases prefix_concat (l := []) hq with h | rfl
    · exact .inl (List.prefix_nil.mp h)
    · exact .inr .run
  | net => exact way_net hq
  | unc => exact way_net_concat .unc hq
  | users => exact way_net_concat .users hq
  | drives => exact way_net_concat .drives hq
  | server server =>
    rcases prefix_concat (l := [NetMount.run, NetMount.net, NetMount.unc]) hq with h | rfl
    · exact way_net_concat .unc h
    · exact .inr (.server server)
  | driveDir uid =>
    rcases prefix_concat (l := [NetMount.run, NetMount.net, NetMount.drives]) hq with h | rfl
    · exact way_net_concat .drives h
    · exact .inr (.driveDir uid)

theorem Given.parents (h : Given p) (hq : q <+: p) (hne : q ≠ p) : q = [] ∨ Rooted q := by
  cases h with
  | share server share =>
    rcases prefix_concat (l := [run, net, unc, server]) hq with h | rfl
    · exact (Rooted.server server).parents h
    · exact absurd rfl hne
  | user uid =>
    rcases prefix_concat (l := [run, net, users]) hq with h | rfl
    · exact Rooted.users.parents h
    · exact absurd rfl hne

theorem Rooted.onWay (h : Rooted p) : OnWay p := fun _ hq => (h.parents hq).imp_right .inl

theorem Given.onWay (h : Given p) : OnWay p := by
  intro q hq
  by_cases hne : q = p
  · exact .inr (.inr (.inl (hne ▸ h)))
  · exact (h.parents hq hne).imp_right .inl

theorem onWay_theirs (uid a : Name) (rest : Path) : OnWay (run :: net :: users :: uid :: a :: rest) := by
  intro q hq
  have hdir : [run, net, users, uid] <+: run :: net :: users :: uid :: a :: rest := ⟨a :: rest, rfl⟩
  by_cases hlen : q.length ≤ 4
  · exact (Given.user uid).onWay q (List.prefix_of_prefix_length_le hq hdir hlen)
  · obtain ⟨r, rfl⟩ := List.prefix_of_prefix_length_le hdir hq (by simp; omega)
    cases r with
    | nil => exact absurd (by simp) hlen
    | cons b r => exact .inr (.inr (.inr ⟨uid, b, r, rfl⟩))

theorem Safe.perform (h : Safe t) (huid : uid ≠ 0) (op : FileTree.OwnerOp Name) :
    Safe (t.perform uid op) := by
  have hroot {q : Path} (hq : q = [] ∨ Rooted q) : t.get q ≠ some (.dir uid) := by
    rcases hq with rfl | hq
    · simp [FileTree.get, huid.symm]
    · rcases h.rooted q hq with hnone | hdir
      · simp [hnone]
      · simp [hdir, huid.symm]
  have hrooted {p : Path} (hp : Rooted p) : (t.perform uid op).get p = t.get p :=
    FileTree.get_perform (fun d hd _ => hroot (hp.parents hd)) op
  have hgiven {p : Path} (hp : Given p) : (t.perform uid op).get p = t.get p :=
    FileTree.get_perform (fun d hd hne => hroot (hp.parents hd hne)) op
  constructor
  · rw [hrooted .run, h.run]
  · rw [hrooted .net, h.net]
  · intro p hp
    rw [hrooted hp]
    exact h.rooted p hp
  · intro p hp
    rw [hgiven hp]
    exact h.given p hp

def Call.followed : Call → Path
  | .ask => []
  | .isMounted _ => []
  | .umount p => p
  | .mkdir p => p.dropLast
  | .chown p _ => p
  | .mkstemp => []
  | .mount p _ => p
  | .rmdir p => p.dropLast
  | .unlink p => p.dropLast
  | .symlink _ p => p.dropLast

def Call.Meant : Call → Prop
  | .mkdir p => OnWay p.dropLast ∧ (p = [run] ∨ netRoot <+: p)
  | .chown p _ => Given p
  | .mount p _ => OnWay p ∧ netRoot <+: p ∧ ¬ Rooted p
  | .rmdir p => OnWay p.dropLast ∧ 2 < p.length
  | .unlink p => OnWay p.dropLast ∧ 2 < p.length
  | .symlink _ p => OnWay p.dropLast ∧ netRoot <+: p ∧ ¬ Rooted p ∧ ¬ Given p
  | _ => True

inductive Proc.Meant : Proc → Prop
  | reply (r : Reply) : Proc.Meant (.reply r)
  | call {c : Call} {k : Answer → Proc} (hc : c.Meant) (hk : ∀ a, (k a).Meant) : Proc.Meant (.call c k)

variable {k : Bool → Proc}

theorem meant_mkdirThen (hp : Call.Meant (.mkdir p)) (hk : ∀ b, (k b).Meant) : (mkdirThen p k).Meant := by
  refine .call hp fun a => ?_
  split
  · exact hk false
  · exact hk true

theorem meant_mkdirEach (hps : ∀ p ∈ ps, Call.Meant (.mkdir p)) (hk : ∀ b, (k b).Meant) : (mkdirEach ps k).Meant := by
  induction ps with
  | nil => exact hk true
  | cons p ps ih =>
    refine meant_mkdirThen (hps p List.mem_cons_self) fun b => ?_
    split
    · exact ih fun p hp => hps p (List.mem_cons_of_mem _ hp)
    · exact hk false

theorem dropLast_prefix {l m : Path} (h : l <+: m) : l.dropLast <+: m.dropLast := by
  by_cases heq : l = m
  · rw [heq]
  · have hlt : l.length < m.length := lt_of_le_of_ne h.length_le fun hl => heq (h.eq_of_length hl)
    refine (List.dropLast_prefix l).trans (List.prefix_of_prefix_length_le h (List.dropLast_prefix m) ?_)
    rw [List.length_dropLast]
    omega

theorem meant_mkdirs (hway : OnWay p.dropLast) (hnet : netRoot <+: p)
    (hk : ∀ b, (k b).Meant) : (mkdirs p k).Meant := by
  refine meant_mkdirEach (fun p' hp' => ?_) hk
  obtain ⟨rest, rfl⟩ := hnet
  change p' ∈ ((NetMount.net :: rest).inits.map (run :: ·)) at hp'
  obtain ⟨x, hx, rfl⟩ := List.mem_map.mp hp'
  have hpre : x <+: NetMount.net :: rest := (List.mem_inits _ _).mp hx
  refine ⟨fun q hq => hway q (hq.trans ?_), ?_⟩
  · exact dropLast_prefix (List.cons_prefix_cons.mpr ⟨rfl, hpre⟩)
  · cases x with
    | nil => exact .inl rfl
    | cons a x =>
      rw [List.cons_prefix_cons] at hpre
      exact .inr ⟨x, by rw [hpre.1]; rfl⟩

theorem meant_askThen (hk : ∀ b, (k b).Meant) : (askThen k).Meant := by
  refine .call trivial fun a => ?_
  split
  · exact hk true
  · exact hk false

theorem meant_isMountedThen (hk : ∀ b, (k b).Meant) : (isMountedThen p k).Meant := by
  refine .call trivial fun a => ?_
  split
  · exact hk true
  · exact hk false

theorem meant_mountThen (hp : Call.Meant (.mount p uid)) (hk : ∀ b, (k b).Meant) :
    (mountThen p uid k).Meant := by
  refine .call hp fun a => ?_
  split
  · exact hk true
  · exact hk false

structure Place (p : Path) : Prop where
  way : OnWay p
  net : netRoot <+: p
  deep : 4 < p.length

theorem OnWay.of_prefix (h : OnWay p) (hq : q <+: p) : OnWay q := fun r hr => h r (hr.trans hq)

theorem Rooted.length_le (h : Rooted p) : p.length ≤ 4 := by
  cases h <;> simp [netRoot]

theorem Place.mount (h : Place p) : Call.Meant (.mount p uid) :=
  ⟨h.way, h.net, fun hr => absurd hr.length_le (Nat.not_le.mpr h.deep)⟩

theorem Place.rmdir (h : Place p) : Call.Meant (.rmdir p) :=
  ⟨h.way.of_prefix (List.dropLast_prefix p), Nat.lt_of_le_of_lt (by decide) h.deep⟩

theorem Place.mkdirs (h : Place p) (hk : ∀ b, (k b).Meant) : (mkdirs p k).Meant :=
  meant_mkdirs (h.way.of_prefix (List.dropLast_prefix p)) h.net hk

theorem place_unc (server share : Name) : Place (uncPath server share) :=
  ⟨(Given.share server share).onWay, ⟨_, rfl⟩, Nat.lt_succ_self 4⟩

theorem place_user (uid : Nat) (server share : Name) : Place (userPath uid server share) :=
  ⟨onWay_theirs _ _ _, ⟨_, rfl⟩, by simp [userPath]⟩

theorem meant_mountOrRmdir {k : Option Path → Proc} (hp : Place p) (hk : ∀ r, (k r).Meant) :
    (mountOrRmdir p uid k).Meant := by
  refine meant_mountThen hp.mount fun ok => ?_
  split
  · exact hk _
  · exact .call hp.rmdir fun _ => hk _

theorem meant_doMount {server share : Name} {k : Option Path → Proc} (hk : ∀ r, (k r).Meant) :
    (doMount uid server share k).Meant := by
  have hp := place_unc server share
  rw [doMount]
  refine meant_isMountedThen fun own => ?_
  split
  · exact hk _
  refine meant_isMountedThen fun mounted => ?_
  split
  · exact hk _
  refine meant_askThen fun found => ?_
  split
  · exact hk _
  refine hp.mkdirs fun made => ?_
  split
  · exact hk _
  refine meant_askThen fun domain => ?_
  split
  · refine meant_mountThen hp.mount fun ok => ?_
    split
    · exact hk _
    · exact meant_mountOrRmdir hp hk
  · exact meant_mountOrRmdir hp hk

theorem meant_unlink_cred (x : Suffix) : Call.Meant (.unlink [run, net, credName x]) :=
  ⟨Rooted.net.onWay, Nat.lt_succ_self 2⟩

theorem meant_mountLogon {k : Option Path → Proc} (hp : Place p) (hk : ∀ r, (k r).Meant) :
    (mountLogon uid p k).Meant := by
  refine .call trivial fun a => ?_
  split
  · refine meant_mountThen hp.mount fun ok => .call (meant_unlink_cred _) fun _ => ?_
    split
    · exact hk _
    · exact .call hp.rmdir fun _ => hk _
  · exact hk _

theorem meant_makeUserDir (hk : ∀ b, (k b).Meant) : (makeUserDir uid k).Meant := by
  refine meant_mkdirEach ?_ fun made => ?_
  · have hway {q : Path} (hq : q <+: [run, net, users]) : OnWay q := Rooted.users.onWay.of_prefix hq
    intro p hp
    change p ∈ [[run], [run, net], [run, net, users], [run, net, users]] at hp
    simp only [List.mem_cons, List.not_mem_nil, or_false] at hp
    rcases hp with rfl | rfl | rfl | rfl
    · exact ⟨hway (List.nil_prefix), .inl rfl⟩
    · exact ⟨hway ⟨[net, users], rfl⟩, .inr ⟨[], rfl⟩⟩
    · exact ⟨hway ⟨[users], rfl⟩, .inr ⟨[users], rfl⟩⟩
    · exact ⟨hway ⟨[users], rfl⟩, .inr ⟨[users], rfl⟩⟩
  · split
    · exact hk _
    refine meant_mkdirThen ⟨Rooted.users.onWay, .inr ⟨_, rfl⟩⟩ fun made => ?_
    split
    · exact hk _
    refine .call (Given.user _) fun a => ?_
    split
    · exact hk _
    · exact hk _

theorem meant_doLogon {server share : Name} {k : Option Path → Proc} (hk : ∀ r, (k r).Meant) :
    (doLogon uid server share k).Meant := by
  have hp := place_user uid server share
  have hgo : (askThen fun found => if !found then k none
      else makeUserDir uid fun made => if !made then k none
      else mkdirs (userPath uid server share) fun made => if !made then k none
      else mountLogon uid (userPath uid server share) k).Meant := by
    refine meant_askThen fun found => ?_
    split
    · exact hk _
    refine meant_makeUserDir fun made => ?_
    split
    · exact hk _
    refine hp.mkdirs fun made => ?_
    split
    · exact hk _
    · exact meant_mountLogon hp hk
  rw [doLogon]
  refine meant_askThen fun account => ?_
  split
  · exact hk _
  refine meant_isMountedThen fun mounted => ?_
  dsimp only
  split
  · exact .call trivial fun _ => hgo
  · exact hgo

theorem meant_cannotMount (r : Option Path) : (cannotMount r).Meant := by
  cases r with
  | none => exact .reply _
  | some p => exact .reply _

theorem meant_unlink_drive (letter : Name) : Call.Meant (.unlink (driveDir uid ++ [letter])) :=
  ⟨(Rooted.driveDir _).onWay, by simp [driveDir]⟩

theorem meant_symlink_drive (target : Path) (letter : Name) :
    Call.Meant (.symlink target (driveDir uid ++ [letter])) := by
  refine ⟨(Rooted.driveDir _).onWay, ⟨_, rfl⟩, fun h => ?_, fun h => ?_⟩
  · exact absurd h.length_le (by simp [driveDir])
  · cases h

theorem meant_linkDrive : (linkDrive uid letter target).Meant := by
  refine meant_mkdirs Rooted.net.onWay ⟨_, rfl⟩ fun made => ?_
  split
  · exact .reply _
  refine meant_mkdirThen ⟨Rooted.drives.onWay, .inr ⟨_, rfl⟩⟩ fun made => ?_
  split
  · exact .reply _
  refine .call (meant_unlink_drive letter) fun _ => .call (meant_symlink_drive target letter) fun a => ?_
  split
  · exact .reply _
  · exact .reply _

theorem meant_handleLogon (rest : Bytes) : (handleLogon uid rest).Meant := by
  rw [handleLogon]
  split
  · exact .reply _
  split
  · exact .reply _
  split
  · exact .reply _
  split
  · split
    · exact .reply _
    · exact meant_doLogon meant_cannotMount
  · exact .reply _

theorem meant_handleMount (server share : Bytes) : (handleMount uid server share).Meant := by
  rw [handleMount]
  split
  · exact meant_doMount meant_cannotMount
  · exact .reply _

theorem meant_handleMap (letter server share : Bytes) (dirs : List Bytes) :
    (handleMap uid letter server share dirs).Meant := by
  rw [handleMap]
  split
  · exact .reply _
  split
  · refine meant_doMount fun r => ?_
    cases r with
    | none => exact .reply _
    | some p => exact meant_linkDrive
  · exact .reply _

theorem meant_handleUnmap (letter : Bytes) : (handleUnmap uid letter).Meant := by
  rw [handleUnmap]
  split
  · exact .reply _
  · refine .call (meant_unlink_drive _) fun a => ?_
    split
    · exact .reply _
    · exact .reply _

theorem meant_handleLogoff (server share : Bytes) : (handleLogoff uid server share).Meant := by
  rw [handleLogoff]
  split
  · have hgo {server share : Name} :
        (Proc.call (.rmdir (userPath uid server share)) fun _ => .reply .ok).Meant :=
      .call (place_user uid server share).rmdir fun _ => .reply _
    refine meant_isMountedThen fun mounted => ?_
    split
    · refine .call trivial fun a => ?_
      split
      · exact hgo
      · exact .reply _
    · exact hgo
  · exact .reply _

theorem meant_handle (line : Bytes) : (handle uid line).Meant := by
  rw [handle]
  split
  · exact meant_handleLogon _
  · split
    · exact .reply _
    · split
      · exact meant_handleMount _ _
      · split
        · exact meant_handleLogoff _ _
        · exact .reply _
    · split
      · exact meant_handleUnmap _
      · exact .reply _
    · split
      · exact meant_handleMap _ _ _ _
      · exact .reply _
    · exact .reply _

/-- What the daemon made is its own, and so is what it goes on to do. -/
structure Sound (s : State) : Prop where
  safe : Safe s.tree
  procs : ∀ p ∈ s.procs, p.Meant
  made : ∀ p ∈ s.made, netRoot <+: p

def State.Clear (s : State) : Event → Prop
  | .request _ _ => True
  | .call i _ => ∀ c k, s.procs[i]? = some (.call c k) → NetMount.Clear s.tree c.followed
  | .owner uid _ => uid ≠ 0

theorem Rooted.ne_nil (h : Rooted p) : p ≠ [] := by
  cases h <;> simp [netRoot]

theorem Given.ne_nil (h : Given p) : p ≠ [] := by
  cases h <;> simp

theorem Given.not_rooted (h : Given p) : ¬ Rooted p := by
  have hne : users ≠ unc := by decide
  have hne' : users ≠ drives := by decide
  intro hr
  cases h with
  | share server share => nomatch hr
  | user uid =>
    generalize hq : [run, net, users, uid] = q at hr
    cases hr with
    | server server => simp [hne] at hq
    | driveDir uid => simp [hne'] at hq
    | _ => simp [netRoot] at hq

theorem credName_ne (x : Suffix) : credName x ≠ unc ∧ credName x ≠ users ∧ credName x ≠ drives := by
  have hne {b : Name} (hb : b.1.head? ≠ some 99) : credName x ≠ b := by
    rintro rfl
    exact hb rfl
  exact ⟨hne (by decide), hne (by decide), hne (by decide)⟩

theorem cred_not_rooted (x : Suffix) : ¬ Rooted [run, net, credName x] := by
  obtain ⟨hunc, husers, hdrives⟩ := credName_ne x
  intro hr
  generalize hq : [run, net, credName x] = q at hr
  cases hr with
  | unc => simp [hunc] at hq
  | users => simp [husers] at hq
  | drives => simp [hdrives] at hq
  | _ => simp [netRoot] at hq

theorem clear_netRoot : Clear t netRoot := by
  rintro q hq ⟨uid, a, rest, rfl⟩
  exact absurd hq.length_le (by simp [netRoot])

theorem Safe.set (h : Safe t) (hgiven : Given p → ∀ target, n ≠ .link target)
    (hrooted : Rooted p → n = .dir 0) : Safe (t.set p n) := by
  have hroot {q : Path} (hq : Rooted q) :
      (t.set p n).get q = some (.dir 0) ∨ (t.set p n).get q = t.get q := by
    rw [FileTree.get_set hq.ne_nil]
    split
    · next heq => exact .inl (by rw [hrooted (heq ▸ hq)])
    · exact .inr rfl
  constructor
  · rcases hroot .run with hq | hq
    · exact hq
    · rw [hq, h.run]
  · rcases hroot .net with hq | hq
    · exact hq
    · rw [hq, h.net]
  · intro q hq
    rcases hroot hq with hq' | hq'
    · exact .inr hq'
    · rw [hq']
      exact h.rooted q hq
  · intro q hq target
    rw [FileTree.get_set hq.ne_nil]
    split
    · next heq => simpa using hgiven (heq ▸ hq) target
    · exact h.given q hq target

theorem Safe.erase (h : Safe t) (hp : 2 < p.length) : Safe (t.erase p) := by
  have hget (q : Path) : (t.erase p).get q = none ∨ (t.erase p).get q = t.get q := by
    by_cases heq : q = p
    · subst heq
      left
      rw [FileTree.get, if_neg (by rintro rfl; simp at hp), FileTree.erase, List.find?_filter]
      simp
    · exact .inr (FileTree.get_erase_of_ne heq)
  constructor
  · rw [FileTree.get_erase_of_ne (by rintro rfl; simp at hp), h.run]
  · rw [FileTree.get_erase_of_ne (by rintro rfl; simp [netRoot] at hp), h.net]
  · intro q hq
    rcases hget q with hq' | hq'
    · exact .inl hq'
    · rw [hq']
      exact h.rooted q hq
  · intro q hq target
    rcases hget q with hq' | hq'
    · simp [hq']
    · rw [hq']
      exact h.given q hq target

structure Sound.Keeps (s s' : State) : Prop where
  safe : Safe s'.tree
  procs : s'.procs = s.procs
  made : ∀ p ∈ s'.made, netRoot <+: p

theorem Sound.keeps (h : Sound s) : Sound.Keeps s s := ⟨h.safe, rfl, h.made⟩

theorem Sound.make (h : Sound s) (hway : OnWay p.dropLast)
    (hclear : NetMount.Clear s.tree p.dropLast) (hnet : p = [run] ∨ netRoot <+: p)
    (hgiven : Given p → ∀ target, n ≠ .link target) (hrooted : Rooted p → n = .dir 0) :
    Sound.Keeps s (s.make p n a).2 := by
  rw [State.make]
  cases hr : s.tree.locate p with
  | none => exact h.keeps
  | some r =>
    obtain rfl := FileTree.locate_straight (h.safe.straight hway hclear) hr
    dsimp only
    cases hget : s.tree.get r with
    | some n => exact h.keeps
    | none =>
      refine ⟨h.safe.set hgiven hrooted, rfl, ?_⟩
      have hnet : netRoot <+: r := by
        rcases hnet with rfl | hnet
        · rw [h.safe.run] at hget
          cases hget
        · exact hnet
      intro q hq
      rcases List.mem_cons.mp hq with rfl | hq
      · exact hnet
      · exact h.made q hq

theorem Sound.erase (h : Sound s) (hp : 2 < p.length) :
    Sound.Keeps s { s with tree := s.tree.erase p } :=
  ⟨h.safe.erase hp, rfl, h.made⟩

theorem Sound.perform (h : Sound s) {c : Call} (hc : c.Meant)
    (hclear : NetMount.Clear s.tree c.followed) (o : Outcome) :
    Sound.Keeps s (s.perform o c).2 := by
  cases c with
  | ask => exact h.keeps
  | isMounted p => exact h.keeps
  | umount p =>
    rw [State.perform]
    split
    · exact h.keeps
    · split
      · exact ⟨h.safe, rfl, h.made⟩
      · exact h.keeps
  | mkdir p =>
    rw [State.perform]
    split
    · exact h.keeps
    · exact h.make hc.1 hclear hc.2 (fun _ _ h => nomatch h) fun _ => rfl
  | chown p uid =>
    rw [State.perform]
    cases hr : s.tree.resolve p with
    | none => exact h.keeps
    | some r =>
      obtain rfl := FileTree.resolve_straight (h.safe.straight (Given.onWay hc) hclear) hr
      dsimp only
      split
      · exact h.keeps
      · exact ⟨h.safe.set (fun _ _ h => nomatch h) fun hr => absurd hr (Given.not_rooted hc), rfl, h.made⟩
  | mkstemp =>
    rw [State.perform]
    split
    · exact h.keeps
    · exact h.make Rooted.net.onWay clear_netRoot (.inr ⟨_, rfl⟩) (fun hg => nomatch hg)
        fun hr => absurd hr (cred_not_rooted o.suffix)
  | mount p uid =>
    rw [State.perform]
    cases hr : s.tree.resolve p with
    | none => exact h.keeps
    | some r =>
      obtain rfl := FileTree.resolve_straight (h.safe.straight hc.1 hclear) hr
      dsimp only
      split
      · exact h.keeps
      · refine ⟨h.safe.set (fun _ _ h => nomatch h) fun hrooted => absurd hrooted hc.2.2, rfl, ?_⟩
        intro q hq
        rcases List.mem_cons.mp hq with rfl | hq
        · exact hc.2.1
        · exact h.made q hq
  | rmdir p =>
    rw [State.perform]
    cases hr : s.tree.locate p with
    | none => exact h.keeps
    | some r =>
      obtain rfl := FileTree.locate_straight (h.safe.straight hc.1 hclear) hr
      dsimp only
      split
      · exact h.keeps
      · exact h.erase hc.2
  | unlink p =>
    rw [State.perform]
    cases hr : s.tree.locate p with
    | none => exact h.keeps
    | some r =>
      obtain rfl := FileTree.locate_straight (h.safe.straight hc.1 hclear) hr
      dsimp only
      split
      · exact h.keeps
      · split
        · exact h.keeps
        · exact h.erase hc.2
  | symlink target p =>
    rw [State.perform]
    split
    · exact h.keeps
    · exact h.make hc.1 hclear (.inr hc.2.1) (fun hg => absurd hg hc.2.2.2)
        fun hr => absurd hr hc.2.2.1

theorem Sound.ownerStep (h : Sound s) (huid : uid ≠ 0) (op : FileTree.OwnerOp Name) :
    Sound (s.ownerStep uid op) := by
  have hsafe : Safe (s.tree.perform uid op) := h.safe.perform huid op
  cases op with
  | mkdir dir a => exact ⟨hsafe, h.procs, h.made⟩
  | create dir a => exact ⟨hsafe, h.procs, h.made⟩
  | symlink dir a target => exact ⟨hsafe, h.procs, h.made⟩
  | remove dir a =>
    rw [State.ownerStep]
    split
    · exact h
    · exact ⟨hsafe, h.procs, h.made⟩
  | rename dir a dir' b =>
    rw [State.ownerStep]
    split
    · exact h
    · exact ⟨hsafe, h.procs, h.made⟩

theorem Sound.next (h : Sound s) (hclear : s.Clear e) : Sound (s.next e) := by
  cases e with
  | request uid line =>
    refine ⟨h.safe, fun p hp => ?_, h.made⟩
    rcases List.mem_append.mp hp with hp | hp
    · exact h.procs p hp
    · rw [List.mem_singleton.mp hp]
      exact meant_handle line
  | call i o =>
    rw [State.next]
    split
    · next c k hi =>
      cases h.procs _ (List.mem_of_getElem? hi) with
      | call hc hk =>
        have hkeeps := h.perform hc (hclear c k hi) o
        refine ⟨hkeeps.safe, fun p hp => ?_, hkeeps.made⟩
        replace hp : p ∈ (s.perform o c).2.procs.set i (k (s.perform o c).1) := hp
        rw [hkeeps.procs] at hp
        rcases List.mem_or_eq_of_mem_set hp with hp | rfl
        · exact h.procs p hp
        · exact hk _
    · exact h
  | owner uid op => exact h.ownerStep hclear op

structure Start (s : State) : Prop where
  safe : Safe s.tree
  procs : s.procs = []
  made : s.made = []

theorem Start.sound (h : Start s) : Sound s :=
  ⟨h.safe, by simp [h.procs], by simp [h.made]⟩

theorem State.run_concat (s : State) (es : List Event) (e : Event) :
    s.run (es ++ [e]) = (s.run es).next e := by
  rw [run, run, List.foldl_append]
  rfl

def State.ClearRun (s : State) (es : List Event) : Prop :=
  ∀ pre e, pre ++ [e] <+: es → (s.run pre).Clear e

theorem Sound.run (h : Sound s) (hclear : s.ClearRun es) : Sound (s.run es) := by
  induction es using List.reverseRecOn with
  | nil => exact h
  | append_singleton es e ih =>
    rw [State.run_concat]
    refine (ih fun pre e' hpre => ?_).next (hclear es e (List.prefix_refl _))
    exact hclear pre e' (hpre.trans (List.prefix_append _ _))

theorem made_under_netRoot (h : Start s) {es : List Event} (hclear : s.ClearRun es) :
    ∀ p ∈ (s.run es).made, netRoot <+: p :=
  (h.sound.run hclear).made

theorem isName_etc : IsName (ascii "etc") := by decide

theorem isName_moved : IsName (ascii "moved") := by decide

def etc : Name := ⟨ascii "etc", isName_etc⟩

def moved : Name := ⟨ascii "moved", isName_moved⟩

theorem validServer_files : validServer (ascii "files") = true := by decide

theorem validComponent_public : validComponent (ascii "public") = true := by decide

def files : Name := serverName (ascii "files") validServer_files

def publicShare : Name := shareName (ascii "public") validComponent_public

def boot : State where
  tree := ⟨[([run], .dir 0), (netRoot, .dir 0), ([etc], .dir 0)]⟩
  mounts := []
  procs := []
  made := []

theorem slash_free_nil : 47 ∉ ([] : Bytes) := List.not_mem_nil

theorem nul_free_nil : 0 ∉ ([] : Bytes) := List.not_mem_nil

def succeeds : Outcome := ⟨false, ⟨[], slash_free_nil, nul_free_nil⟩⟩

def logonRun (i : Nat) : List Event :=
  .request 1000 (ascii "LOGON\tFiles\tPublic\tguest\tsecret\n") :: List.replicate 19 (.call i succeeds)

def linkUnc : List Event :=
  [.owner 1000 (.rename (userDir 1000) unc (userDir 1000) moved),
    .owner 1000 (.symlink (userDir 1000) unc ⟨true, [.name etc]⟩)]

theorem boot_get (p : Path) :
    boot.tree.get p = none ∨ boot.tree.get p = some (.dir 0) := by
  rw [FileTree.get]
  split
  · exact .inr rfl
  · simp only [boot, List.find?_cons, List.find?_nil]
    repeat' split
    all_goals simp

theorem boot_start : Start boot where
  safe := by
    refine ⟨by decide, by decide, fun p _ => boot_get p, fun p _ target => ?_⟩
    rcases boot_get p with h | h
    · simp [h]
    · simp [h]
  procs := rfl
  made := rfl

theorem linkUnc_mounts_in_etc : Start boot ∧
    [etc, files, publicShare] ∈ (boot.run (logonRun 0 ++ linkUnc ++ logonRun 1)).mounts ∧
    [etc, files, publicShare] ∈ (boot.run (logonRun 0 ++ linkUnc ++ logonRun 1)).made ∧
    ¬ netRoot <+: [etc, files, publicShare] :=
  ⟨boot_start, by decide +kernel, by decide +kernel, by decide⟩

def isLink : FileNode Name → Bool
  | .link _ => true
  | _ => false

def linkFree (t : FileTree Name) : Bool := t.nodes.all fun x => !isLink x.2

theorem clear_of_linkFree (h : linkFree t = true) : Clear t p := by
  rintro q - ⟨uid, a, rest, rfl⟩ target hget
  rw [FileTree.get, if_neg (List.cons_ne_nil _ _)] at hget
  obtain ⟨x, hx, heq⟩ := Option.map_eq_some_iff.mp hget
  have hlink := List.all_eq_true.mp h x (List.mem_of_find?_eq_some hx)
  rw [heq] at hlink
  cases hlink

theorem logonRun_clear : boot.ClearRun (logonRun 0) := by
  have hfree : (logonRun 0).inits.all (fun pre => linkFree (boot.run pre).tree) = true := by
    decide +kernel
  intro pre e hpre
  have he : e ∈ logonRun 0 := hpre.subset (by simp)
  cases e with
  | request uid line => trivial
  | call i o =>
    intro c k _
    refine clear_of_linkFree (List.all_eq_true.mp hfree pre ?_)
    exact (List.mem_inits _ _).mpr ((List.prefix_append _ _).trans hpre)
  | owner uid op => simp [logonRun] at he

theorem logonRun_made_under_netRoot : Start boot ∧ boot.ClearRun (logonRun 0) ∧
    userPath 1000 files publicShare ∈ (boot.run (logonRun 0)).mounts ∧
    netRoot <+: userPath 1000 files publicShare :=
  ⟨boot_start, logonRun_clear, by decide +kernel,
    made_under_netRoot boot_start logonRun_clear _ (by decide +kernel)⟩

end StainedGlass.Domain.NetMount
