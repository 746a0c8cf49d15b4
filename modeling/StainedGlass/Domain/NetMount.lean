import StainedGlass.Lib.Bytes
import StainedGlass.Lib.FileTree

/-! `sg-netmountd`, as the system calls it makes, on a tree that its users change as well. -/

namespace StainedGlass.Domain.NetMount

open Lib

def IsName (b : Bytes) : Prop := b ≠ [] ∧ 47 ∉ b ∧ 0 ∉ b ∧ b ≠ [46] ∧ b ≠ [46, 46]

instance (b : Bytes) : Decidable (IsName b) := inferInstanceAs (Decidable (_ ∧ _))

abbrev Name := { b : Bytes // IsName b }

abbrev Path := List Name

def toLower (c : UInt8) : UInt8 := if 65 ≤ c ∧ c ≤ 90 then c + 32 else c

def lower (s : Bytes) : Bytes := s.map toLower

def isAlnum (c : UInt8) : Bool := (48 ≤ c && c ≤ 57) || (65 ≤ c && c ≤ 90) || (97 ≤ c && c ≤ 122)

def validServer (s : Bytes) : Bool :=
  s ≠ [] && s.length ≤ 253 && s.head? ≠ some 46 && s.head? ≠ some 45 &&
    s.all (fun c => isAlnum c || c = 46 || c = 45) && !(([46, 46] : Bytes) <:+: s)

def validComponent (s : Bytes) : Bool :=
  s ≠ [] && s.length ≤ 80 && s ≠ [46] && s ≠ [46, 46] &&
    s.all fun c => 32 ≤ c && c ≠ 127 && c ∉ ascii "\\/:*?\"<>|[]+=;,"

theorem toLower_eq (hd : ¬ (97 ≤ d ∧ d ≤ 122)) (h : toLower c = d) : c = d := by
  rw [toLower] at h
  split at h
  · next hc =>
    subst h
    have hlo : 65 ≤ c.toNat := UInt8.le_iff_toNat_le.mp hc.1
    have hhi : c.toNat ≤ 90 := UInt8.le_iff_toNat_le.mp hc.2
    have hsum : (c + 32).toNat = c.toNat + 32 := by
      rw [UInt8.toNat_add]
      exact Nat.mod_eq_of_lt (by change c.toNat + 32 < 256; omega)
    refine absurd ⟨UInt8.le_iff_toNat_le.mpr ?_, UInt8.le_iff_toNat_le.mpr ?_⟩ hd
    · rw [hsum]
      change 97 ≤ c.toNat + 32
      omega
    · rw [hsum]
      change c.toNat + 32 ≤ 122
      omega
  · exact h

theorem mem_lower (hd : ¬ (97 ≤ d ∧ d ≤ 122)) (h : d ∈ lower s) : d ∈ s := by
  obtain ⟨c, hc, heq⟩ := List.mem_map.mp h
  rwa [← toLower_eq hd heq]

theorem eq_of_lower (ht : ∀ d ∈ t, ¬ (97 ≤ d ∧ d ≤ 122)) (h : lower s = t) : s = t := by
  subst h
  induction s with
  | nil => rfl
  | cons c s ih =>
    rw [lower, List.map_cons, ← lower] at ht ⊢
    rw [← ih fun d hd => ht d (List.mem_cons_of_mem _ hd), ← toLower_eq (ht _ List.mem_cons_self) rfl]

theorem isName_lower (h : IsName s) : IsName (lower s) := by
  obtain ⟨hne, hslash, hnul, hdot, hdots⟩ := h
  refine ⟨by simpa [lower] using hne, fun hmem => hslash (mem_lower (by decide) hmem),
    fun hmem => hnul (mem_lower (by decide) hmem), ?_, ?_⟩
  · exact fun heq => hdot (eq_of_lower (by simp) heq)
  · exact fun heq => hdots (eq_of_lower (by simp) heq)

theorem isName_server (h : validServer s = true) : IsName s := by
  simp only [validServer, Bool.and_eq_true, decide_eq_true_eq, List.all_eq_true, Bool.not_eq_true',
    decide_eq_false_iff_not, ne_eq] at h
  obtain ⟨⟨⟨⟨⟨hne, -⟩, hdot⟩, -⟩, hall⟩, hdots⟩ := h
  refine ⟨hne, fun hmem => absurd (hall _ hmem) (by decide), fun hmem => absurd (hall _ hmem) (by decide),
    ?_, ?_⟩
  · rintro rfl
    exact hdot rfl
  · rintro rfl
    exact hdot rfl

theorem isName_component (h : validComponent s = true) : IsName s := by
  simp only [validComponent, Bool.and_eq_true, decide_eq_true_eq, List.all_eq_true, ne_eq] at h
  obtain ⟨⟨⟨⟨hne, -⟩, hdot⟩, hdots⟩, hall⟩ := h
  refine ⟨hne, fun hmem => absurd (hall _ hmem).2 (by decide),
    fun hmem => absurd (hall _ hmem).1.1 (by decide), hdot, hdots⟩

theorem isName_decimal (n : Nat) : IsName (decimal n) := by
  have hdigit : ∀ c ∈ decimal n, 48 ≤ c := fun c hc => (isDigit_of_mem_decimal hc).1
  refine ⟨by simp [decimal, Nat.toDigits_ne_nil], fun hmem => absurd (hdigit _ hmem) (by decide),
    fun hmem => absurd (hdigit _ hmem) (by decide), ?_, ?_⟩
  · intro heq
    exact absurd (hdigit 46 (by simp [heq])) (by decide)
  · intro heq
    exact absurd (hdigit 46 (by simp [heq])) (by decide)

def serverName (s : Bytes) (h : validServer s = true) : Name := ⟨lower s, isName_lower (isName_server h)⟩

def shareName (s : Bytes) (h : validComponent s = true) : Name :=
  ⟨lower s, isName_lower (isName_component h)⟩

def componentName (s : Bytes) (h : validComponent s = true) : Name := ⟨s, isName_component h⟩

def uidName (uid : Nat) : Name := ⟨decimal uid, isName_decimal uid⟩

theorem isName_run : IsName (ascii "run") := by decide

theorem isName_net : IsName (ascii "stained-glass-net") := by decide

theorem isName_unc : IsName (ascii "unc") := by decide

theorem isName_drives : IsName (ascii "drives") := by decide

theorem isName_users : IsName (ascii "users") := by decide

def run : Name := ⟨ascii "run", isName_run⟩

def net : Name := ⟨ascii "stained-glass-net", isName_net⟩

def unc : Name := ⟨ascii "unc", isName_unc⟩

def drives : Name := ⟨ascii "drives", isName_drives⟩

def users : Name := ⟨ascii "users", isName_users⟩

def netRoot : Path := [run, net]

def uncPath (server share : Name) : Path := [run, net, unc, server, share]

def userDir (uid : Nat) : Path := [run, net, users, uidName uid]

def userPath (uid : Nat) (server share : Name) : Path := [run, net, users, uidName uid, unc, server, share]

def driveDir (uid : Nat) : Path := [run, net, drives, uidName uid]

structure Suffix where
  text : Bytes
  slash_free : 47 ∉ text
  nul_free : 0 ∉ text

theorem isName_cred (x : Suffix) : IsName (ascii "cred." ++ x.text) := by
  have hslash : 47 ∉ ascii "cred." := by decide
  have hnul : 0 ∉ ascii "cred." := by decide
  refine ⟨by simp [ascii], ?_, ?_, by simp [ascii], by simp [ascii]⟩
  · simp only [List.mem_append, hslash, x.slash_free, or_self, not_false_eq_true]
  · simp only [List.mem_append, hnul, x.nul_free, or_self, not_false_eq_true]

def credName (x : Suffix) : Name := ⟨ascii "cred." ++ x.text, isName_cred x⟩

/-- A system call, or `mount`. `ask` is what does not touch the tree. -/
inductive Call
  | ask
  | isMounted (p : Path)
  | umount (p : Path)
  | mkdir (p : Path)
  | chown (p : Path) (uid : Nat)
  | mkstemp
  | mount (p : Path) (uid : Nat)
  | rmdir (p : Path)
  | unlink (p : Path)
  | symlink (target p : Path)

inductive Answer
  | ok
  | exists
  | missing
  | failed
  | temp (x : Suffix)

inductive Reply
  | ok
  | okPath (p : Path)
  | err (why : String)
  | silent

inductive Proc
  | reply (r : Reply)
  | call (c : Call) (k : Answer → Proc)

def mkdirThen (p : Path) (k : Bool → Proc) : Proc :=
  .call (.mkdir p) fun
    | .failed => k false
    | _ => k true

def mkdirEach : List Path → (Bool → Proc) → Proc
  | [], k => k true
  | p :: ps, k => mkdirThen p fun ok => if ok then mkdirEach ps k else k false

def mkdirs (p : Path) (k : Bool → Proc) : Proc := mkdirEach p.inits.tail k

def askThen (k : Bool → Proc) : Proc :=
  .call .ask fun
    | .ok => k true
    | _ => k false

def isMountedThen (p : Path) (k : Bool → Proc) : Proc :=
  .call (.isMounted p) fun
    | .ok => k true
    | _ => k false

def mountThen (p : Path) (uid : Nat) (k : Bool → Proc) : Proc :=
  .call (.mount p uid) fun
    | .ok => k true
    | _ => k false

def mountOrRmdir (p : Path) (uid : Nat) (k : Option Path → Proc) : Proc :=
  mountThen p uid fun ok => if ok then k (some p) else .call (.rmdir p) fun _ => k none

def doMount (uid : Nat) (server share : Name) (k : Option Path → Proc) : Proc :=
  let own := userPath uid server share
  let path := uncPath server share
  isMountedThen own fun mounted =>
    if mounted then k (some own)
    else isMountedThen path fun mounted =>
      if mounted then k (some path)
      -- the host's name, and whether a file server answers there
      else askThen fun found =>
        if !found then k none
        else mkdirs path fun made =>
          if !made then k none
          -- a domain, and the user's ticket
          else askThen fun domain =>
            if domain then mountThen path uid fun ok =>
              if ok then k (some path) else mountOrRmdir path uid k
            else mountOrRmdir path uid k

def mountLogon (uid : Nat) (path : Path) (k : Option Path → Proc) : Proc :=
  .call .mkstemp fun
    | .temp x => mountThen path uid fun ok =>
        .call (.unlink [run, net, credName x]) fun _ =>
          if ok then k (some path) else .call (.rmdir path) fun _ => k none
    | _ => k none

def makeUserDir (uid : Nat) (k : Bool → Proc) : Proc :=
  -- `USER_ROOT "/"`: the slash at the end is one more directory on the way
  mkdirEach ([run, net, users].inits.tail ++ [[run, net, users]]) fun made =>
    if !made then k false
    else mkdirThen (userDir uid) fun made =>
      if !made then k false
      else .call (.chown (userDir uid) uid) fun
        | .ok => k true
        | _ => k false

def doLogon (uid : Nat) (server share : Name) (k : Option Path → Proc) : Proc :=
  let path := userPath uid server share
  askThen fun account =>
    if !account then k none
    else isMountedThen path fun mounted =>
      let go := askThen fun found =>
        if !found then k none
        else makeUserDir uid fun made =>
          if !made then k none
          else mkdirs path fun made => if !made then k none else mountLogon uid path k
      if mounted then .call (.umount path) fun _ => go else go

def cannotMount : Option Path → Proc
  | some p => .reply (.okPath p)
  | none => .reply (.err "cannot mount")

def validLetter : Bytes → Option UInt8
  | [c] =>
    let letter := toLower c
    if (65 ≤ c ∧ c ≤ 90 ∨ 97 ≤ c ∧ c ≤ 122) ∧ letter ≠ 99 ∧ letter ≠ 122 then some letter else none
  | _ => none

theorem isName_letter (h : validLetter s = some letter) : IsName [letter, 58] := by
  match s, h with
  | [c], h =>
    rw [validLetter] at h
    split at h
    · next hc =>
      cases h
      have hne (d : UInt8) (hd : ¬ (65 ≤ d ∧ d ≤ 90 ∨ 97 ≤ d ∧ d ≤ 122)) : toLower c ≠ d := by
        intro heq
        have := toLower_eq (fun h => hd (.inr h)) heq
        exact hd (this ▸ hc.1)
      have hslash := hne 47 (by decide)
      have hnul := hne 0 (by decide)
      refine ⟨by simp, ?_, ?_, by simp, by simp⟩
      · simpa using hslash.symm
      · simpa using hnul.symm
    · cases h

def letterName (s : Bytes) (letter : UInt8) (h : validLetter s = some letter) : Name :=
  ⟨[letter, 58], isName_letter h⟩

def linkDrive (uid : Nat) (letter : Name) (target : Path) : Proc :=
  mkdirs [run, net, drives] fun made =>
    if !made then .reply (.err "no drive directory")
    else mkdirThen (driveDir uid) fun made =>
      if !made then .reply (.err "no drive directory")
      else .call (.unlink (driveDir uid ++ [letter])) fun _ =>
        .call (.symlink target (driveDir uid ++ [letter])) fun
          | .ok => .reply (.okPath target)
          | _ => .reply (.err "cannot map")

def badName : Proc := .reply (.err "bad name")

def handleLogon (uid : Nat) (rest : Bytes) : Proc :=
  match cut 9 rest with
  | none => .reply (.err "bad request")
  | some (server, rest) =>
    match cut 9 rest with
    | none => .reply (.err "bad request")
    | some (share, rest) =>
      match cut 9 rest with
      | none => .reply (.err "bad request")
      | some (user, _) =>
        if h : validServer server = true ∧ validComponent share = true then
          if user = [] ∨ 200 < user.length ∨ 44 ∈ user ∨ 61 ∈ user then badName
          else doLogon uid (serverName server h.1) (shareName share h.2) cannotMount
        else badName

def handleMount (uid : Nat) (server share : Bytes) : Proc :=
  if h : validServer server = true ∧ validComponent share = true then
    doMount uid (serverName server h.1) (shareName share h.2) cannotMount
  else badName

def handleMap (uid : Nat) (letter server share : Bytes) (dirs : List Bytes) : Proc :=
  match hl : validLetter letter with
  | none => badName
  | some l =>
    if h : validServer server = true ∧ validComponent share = true ∧
        ∀ d ∈ dirs, validComponent d = true then
      doMount uid (serverName server h.1) (shareName share h.2.1) fun
        | none => .reply (.err "cannot mount")
        | some p => linkDrive uid (letterName letter l hl) (p ++ dirs.pmap componentName h.2.2)
    else badName

def handleUnmap (uid : Nat) (letter : Bytes) : Proc :=
  match hl : validLetter letter with
  | none => badName
  | some l =>
    .call (.unlink (driveDir uid ++ [letterName letter l hl])) fun
      | .failed => .reply (.err "cannot unmap")
      | _ => .reply .ok

def handleLogoff (uid : Nat) (server share : Bytes) : Proc :=
  if h : validServer server = true ∧ validComponent share = true then
    let path := userPath uid (serverName server h.1) (shareName share h.2)
    let go := Proc.call (.rmdir path) fun _ => .reply .ok
    isMountedThen path fun mounted =>
      if mounted then .call (.umount path) fun
        | .ok => go
        | _ => .reply (.err "cannot disconnect")
      else go
  else badName

def handle (uid : Nat) (line : Bytes) : Proc :=
  let line := (cstr line).takeWhile fun c => c ≠ 13 && c ≠ 10
  if ascii "LOGON\t" <+: line then handleLogon uid (line.drop 6)
  else
    match ((line.splitOn 9).filter (· ≠ [])).take 16 with
    | [] => .reply .silent
    | [command, a, b] =>
      if command = ascii "MOUNT" then handleMount uid a b
      else if command = ascii "LOGOFF" then handleLogoff uid a b
      else .reply (.err "unknown request")
    | [command, a] =>
      if command = ascii "UNMAP" then handleUnmap uid a else .reply (.err "unknown request")
    | command :: letter :: server :: share :: dirs =>
      if command = ascii "MAP" then handleMap uid letter server share dirs
      else .reply (.err "unknown request")
    | _ => .reply (.err "unknown request")

def handleLine (uid : Nat) (line : Bytes) : Proc := handle uid ((line ++ [10]).take 2047)

/-- `made` is every directory, file and link the daemon made, and every place it mounted on. -/
structure State where
  tree : FileTree Name
  mounts : List Path
  procs : List Proc
  made : List Path

structure Outcome where
  fails : Bool
  suffix : Suffix

namespace State

def make (s : State) (p : Path) (n : FileNode Name) (answer : Answer) : Answer × State :=
  match s.tree.locate p with
  | none => (.failed, s)
  | some r =>
    match s.tree.get r with
    | some _ => (.exists, s)
    | none => (answer, { s with tree := s.tree.set r n, made := r :: s.made })

def perform (s : State) (o : Outcome) : Call → Answer × State
  | .ask => (if o.fails then .failed else .ok, s)
  | .isMounted p => (if p ∈ s.mounts then .ok else .failed, s)
  | .umount p =>
    match s.tree.resolve p with
    | none => (.failed, s)
    | some r =>
      if r ∈ s.mounts ∧ !o.fails then (.ok, { s with mounts := s.mounts.erase r }) else (.failed, s)
  | .mkdir p => if o.fails then (.failed, s) else s.make p (.dir 0) .ok
  | .chown p uid =>
    match s.tree.resolve p with
    | none => (.failed, s)
    | some r => if o.fails then (.failed, s) else (.ok, { s with tree := s.tree.set r (.dir uid) })
  | .mkstemp =>
    if o.fails then (.failed, s) else s.make [run, net, credName o.suffix] (.file 0) (.temp o.suffix)
  | .mount p uid =>
    match s.tree.resolve p with
    | none => (.failed, s)
    | some r =>
      if o.fails then (.failed, s)
      -- the share's top directory: theirs, or one that everyone may write in
      else (.ok, { s with
        tree := s.tree.set r (.dir uid)
        mounts := r :: s.mounts
        made := r :: s.made })
  | .rmdir p =>
    match s.tree.locate p with
    | none => (.failed, s)
    | some r =>
      if o.fails ∨ r ∈ s.mounts ∨ !s.tree.isEmptyDir r then (.failed, s)
      else (.ok, { s with tree := s.tree.erase r })
  | .unlink p =>
    match s.tree.locate p with
    | none => (.missing, s)
    | some r =>
      match s.tree.get r with
      | none => (.missing, s)
      | some n =>
        if o.fails ∨ n.isDir then (.failed, s) else (.ok, { s with tree := s.tree.erase r })
  | .symlink target p =>
    if o.fails then (.failed, s) else s.make p (.link ⟨true, target.map .name⟩) .ok

def ownerStep (s : State) (uid : Nat) (op : FileTree.OwnerOp Name) : State :=
  match op with
  | .remove dir a =>
    if dir ++ [a] ∈ s.mounts then s else { s with tree := s.tree.perform uid op }
  | .rename dir a dir' b =>
    if dir ++ [a] ∈ s.mounts ∨ dir' ++ [b] ∈ s.mounts ∨ !s.tree.mayMove uid dir a dir' b then s
    else
      { s with
        tree := s.tree.perform uid op
        mounts := s.mounts.map (FileTree.movePath (dir ++ [a]) (dir' ++ [b])) }
  | op => { s with tree := s.tree.perform uid op }

end State

/-- What happens: a request comes in, a process makes its next call, or a user changes
what is in a directory of their own. -/
inductive Event
  | request (uid : Nat) (line : Bytes)
  | call (i : Nat) (o : Outcome)
  | owner (uid : Nat) (op : FileTree.OwnerOp Name)

def State.next (s : State) : Event → State
  | .request uid line => { s with procs := s.procs ++ [handle uid line] }
  | .call i o =>
    match s.procs[i]? with
    | some (.call c k) =>
      let r := s.perform o c
      { r.2 with procs := r.2.procs.set i (k r.1) }
    | _ => s
  | .owner uid op => s.ownerStep uid op

def State.run (s : State) (es : List Event) : State := es.foldl State.next s

end StainedGlass.Domain.NetMount
