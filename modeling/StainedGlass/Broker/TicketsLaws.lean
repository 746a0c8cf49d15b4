import StainedGlass.Broker.MonitorLaws
import StainedGlass.Broker.Tickets

namespace StainedGlass.Broker

open Lib

theorem ticketLines_cons (h : 10 ∉ line) :
    ticketLines t (line ++ 10 :: rest) = ticketLines (ticketLine t (line ++ 10 :: rest)) rest := by
  obtain ⟨c, p, hcp⟩ : ∃ c p, line ++ 10 :: rest = c :: p := by
    cases line <;> simp
  have hcut := cut_append h rest
  rw [hcp] at hcut ⊢
  rw [ticketLines]
  split
  · next hnone => simp [hcut] at hnone
  · next a b hsome =>
    cases hcut.symm.trans hsome
    rfl

-- The lines are told apart by their first letters.
theorem ascii_kind : ascii "kind=launch\n" = 107 :: ascii "ind=launch\n" := by decide

theorem ascii_uid : ascii "uid=" = [117, 105, 100, 61] := by decide

theorem ascii_for : ascii "for=" = [102, 111, 114, 61] := by decide

theorem ascii_type : ascii "type=" = 116 :: ascii "ype=" := by decide

theorem ascii_expires : ascii "expires=" = [101, 120, 112, 105, 114, 101, 115, 61] := by decide

theorem ticketLine_uid (t : Ticket) (p : Bytes) :
    ticketLine t (ascii "uid=" ++ p) = { t with uid := UInt32.ofNat (strtoul p) } := by
  simp [ticketLine, ascii_uid, ascii_kind, List.cons_prefix_cons]

theorem ticketLine_for (t : Ticket) (p : Bytes) :
    ticketLine t (ascii "for=" ++ p) = { t with forUid := UInt32.ofNat (strtoul p) } := by
  simp [ticketLine, ascii_for, ascii_kind, ascii_uid, List.cons_prefix_cons]

theorem ticketLine_type (t : Ticket) (p : Bytes) : ticketLine t (ascii "type=" ++ p) = t := by
  simp [ticketLine, ascii_type, ascii_kind, ascii_uid, ascii_for, ascii_expires, List.cons_prefix_cons]

theorem ticketLine_expires (t : Ticket) (p : Bytes) :
    ticketLine t (ascii "expires=" ++ p) = { t with expires := strtoll p } := by
  simp [ticketLine, ascii_expires, ascii_kind, ascii_uid, ascii_for, List.cons_prefix_cons]

theorem notMem_signedDecimal (z : Int) (hc : c < 45) : c ∉ signedDecimal z := by
  have hlt : c < 48 := UInt8.lt_trans hc (by decide)
  cases z with
  | ofNat n => exact notMem_decimal n hlt
  | negSucc n =>
    rw [signedDecimal, List.mem_cons, not_or]
    exact ⟨UInt8.ne_of_lt hc, notMem_decimal _ hlt⟩

theorem length_signedDecimal_le {z : Int} (h : z.natAbs < 10 ^ 19) : (signedDecimal z).length ≤ 20 := by
  cases z with
  | ofNat n => exact Nat.le_succ_of_le (length_decimal_le (by decide) h)
  | negSucc n => exact Nat.succ_le_succ (length_decimal_le (by decide) h)

theorem readTicket_ticketText (target requester type : UInt32)
    (hlo : -2 ^ 63 ≤ now + ticketLifetime) (hhi : now + ticketLifetime < 2 ^ 63) :
    readTicket (ticketText target requester type now) = ⟨false, target, requester, now + ticketLifetime⟩ := by
  have htext : ticketText target requester type now =
      (ascii "uid=" ++ decimal target.toNat) ++ 10 :: ((ascii "for=" ++ decimal requester.toNat) ++
        10 :: ((ascii "type=" ++ decimal type.toNat) ++ 10 :: ((ascii "expires=" ++
          signedDecimal (now + ticketLifetime)) ++ 10 :: []))) := by
    simp [ticketText, show ascii "\nfor=" = 10 :: ascii "for=" by decide,
      show ascii "\ntype=" = 10 :: ascii "type=" by decide,
      show ascii "\nexpires=" = 10 :: ascii "expires=" by decide, show ascii "\n" = [10] by decide]
  have hword (x : UInt32) : (decimal x.toNat).length ≤ 10 :=
    length_decimal_le (by decide) (Nat.lt_trans x.toNat_lt (by decide))
  have hlen : (ticketText target requester type now).length ≤ 255 := by
    have h₁ := hword target
    have h₂ := hword requester
    have h₃ := hword type
    have h₄ : (signedDecimal (now + ticketLifetime)).length ≤ 20 :=
      length_signedDecimal_le (by omega)
    simp only [ticketText, List.length_append, show (ascii "uid=").length = 4 from rfl,
      show (ascii "\nfor=").length = 5 from rfl, show (ascii "\ntype=").length = 6 from rfl,
      show (ascii "\nexpires=").length = 9 from rfl, show (ascii "\n").length = 1 from rfl]
    omega
  have hnul : 0 ∉ ticketText target requester type now := by
    simp only [ticketText, List.mem_append, not_or]
    exact ⟨by decide, notMem_decimal _ (by decide), by decide, notMem_decimal _ (by decide),
      by decide, notMem_decimal _ (by decide), by decide, notMem_signedDecimal _ (by decide),
      by decide⟩
  rw [readTicket, List.take_of_length_le hlen, cstr_eq_self hnul, htext]
  have hline {key : Bytes} {n : Nat} (hkey : 10 ∉ key) : 10 ∉ key ++ decimal n := by
    rw [List.mem_append, not_or]
    exact ⟨hkey, notMem_decimal _ (by decide)⟩
  have hexpires : 10 ∉ ascii "expires=" ++ signedDecimal (now + ticketLifetime) := by
    rw [List.mem_append, not_or]
    exact ⟨by decide, notMem_signedDecimal _ (by decide)⟩
  have hnumber (x : UInt32) (rest : Bytes) :
      UInt32.ofNat (strtoul (decimal x.toNat ++ 10 :: rest)) = x := by
    rw [strtoul_decimal (Nat.lt_trans x.toNat_lt (by decide)) (by simp [isDigit])]
    exact UInt32.ofNat_toNat
  rw [ticketLines_cons (hline (by decide)), List.append_assoc, ticketLine_uid, hnumber,
    ticketLines_cons (hline (by decide)), List.append_assoc, ticketLine_for, hnumber,
    ticketLines_cons (hline (by decide)), List.append_assoc, ticketLine_type,
    ticketLines_cons hexpires, List.append_assoc, ticketLine_expires,
    strtoll_signedDecimal hlo hhi (by simp [isDigit]), ticketLines]

structure Launched.Ok (db : Accounts) (cfg : Config) (e : Launched) : Prop where
  launch : (readTicket e.ticket.content).launch = true
  requester : (readTicket e.ticket.content).forUid = e.peer
  inTime : e.now ≤ (readTicket e.ticket.content).expires
  account : e.spawn.uid = (readTicket e.ticket.content).uid
  run : e.run = some (pw, f) → pw.uid = (readTicket e.ticket.content).uid ∧ 1000 ≤ pw.uid ∧
    isSystemUid db cfg pw.uid = false

variable {db : Accounts} {cfg : Config}

theorem monitorSpawn_run {pw : Passwd} (h : monitorSpawn db cfg uid blob = some (pw, f)) :
    pw.uid = uid ∧ 1000 ≤ pw.uid ∧ isSystemUid db cfg pw.uid = false := by
  rw [monitorSpawn] at h
  split at h
  · cases h
  · next pw' hpw =>
    split at h
    · cases h
    · next hchecks =>
      obtain ⟨f', -, heq⟩ := Option.map_eq_some_iff.mp h
      cases heq
      have huid := db.uid_of_getpwuid hpw
      simp only [Bool.or_eq_true, decide_eq_true_eq, not_or, Bool.not_eq_true] at hchecks
      exact ⟨huid, huid ▸ UInt32.not_lt.mp hchecks.1, huid ▸ hchecks.2⟩

theorem handleLaunch_cases (db : Accounts) (cfg : Config) (s : Store) (i : LaunchInput) :
    handleLaunch db cfg s i = (s, none) ∨
      ∃ name f, s.dir name = some f ∧ (handleLaunch db cfg s i).1 = s.unlink name ∧
        ∀ e ∈ (handleLaunch db cfg s i).2, e.ticket = f ∧ e.Ok db cfg := by
  rw [handleLaunch]
  split
  · exact .inl rfl
  · next name hname =>
    split
    · next hargs =>
      split
      · exact .inl rfl
      · next f hf =>
        have hdir := (Option.filter_eq_some_iff.mp hf).1
        simp only
        split
        · exact .inl rfl
        · next hkind =>
          simp only [Bool.not_eq_true', ne_eq, not_or, Bool.not_eq_false, not_not] at hkind
          split
          · exact .inr ⟨name, f, hdir, rfl, by simp⟩
          · next hexpires =>
            split
            · exact .inr ⟨name, f, hdir, rfl, by simp⟩
            · next blob hblob =>
              refine .inr ⟨name, f, hdir, rfl, ?_⟩
              rintro e ⟨⟩
              exact ⟨rfl, hkind.1, hkind.2, Int.not_lt.mp hexpires, rfl, monitorSpawn_run⟩
    · exact .inl rfl

def Store.Has (s : Store) (serial : Nat) : Prop := ∃ n f, s.dir n = some f ∧ f.serial = serial

structure Store.Grows (s s' : Store) : Prop where
  next_le : s.next ≤ s'.next
  has : s'.Has k → s.Has k ∨ s.next ≤ k

namespace Store.Grows

theorem refl (s : Store) : s.Grows s := ⟨Nat.le_refl _, .inl⟩

theorem trans {s₁ s₂ s₃ : Store} (h₁ : s₁.Grows s₂) (h₂ : s₂.Grows s₃) : s₁.Grows s₃ where
  next_le := Nat.le_trans h₁.next_le h₂.next_le
  has hk := (h₂.has hk).elim h₁.has fun hle => .inr (Nat.le_trans h₁.next_le hle)

theorem restrict (s : Store) (keep : CString → Node → Bool) : s.Grows (s.restrict keep) where
  next_le := Nat.le_refl _
  has := by
    rintro k ⟨n, f, hf, rfl⟩
    exact .inl ⟨n, f, (Option.filter_eq_some_iff.mp hf).1, rfl⟩

theorem create (s : Store) (name : CString) (f : Node) : s.Grows (s.create name f) where
  next_le := Nat.le_succ _
  has := by
    rintro k ⟨n, g, hg, rfl⟩
    simp only [Store.create] at hg
    split at hg
    · cases hg
      exact .inr (Nat.le_refl _)
    · exact .inl ⟨n, g, hg, rfl⟩

end Store.Grows

theorem makeTicket_grows (s : Store) (target type : UInt32) (i : LogonInput) :
    s.Grows (makeTicket s target type i).1 := by
  rw [makeTicket]
  split
  · exact .refl s
  · simp only
    split
    · exact .refl s
    · split
      · exact .create s _ _
      · exact (Store.Grows.create s _ _).trans (.restrict _ _)

theorem handleLogon_grows (db : Accounts) (cfg : Config) (st : State) (i : LogonInput) :
    st.store.Grows (handleLogon db cfg st i).1.store := by
  have hsweep : st.store.Grows (st.store.sweep i.sweepAt) := .restrict _ _
  simp only [handleLogon]
  split
  · next pw _ =>
    have hmake := hsweep.trans (makeTicket_grows _ pw.uid (logonType i) i)
    split
    · next heq => rw [heq] at hmake; exact hmake
    · next heq => rw [heq] at hmake; exact hmake
  · exact hsweep

theorem step_grows (db : Accounts) (cfg : Config) (st : State) (i : Input) :
    st.store.Grows (step db cfg st i).1.store := by
  cases i with
  | deposit name f => exact .create _ _ _
  | logon i => exact handleLogon_grows db cfg st i
  | launch i =>
    simp only [step]
    obtain h | ⟨name, f, -, h, -⟩ := handleLaunch_cases db cfg st.store i
    · rw [h]
      exact .refl _
    · rw [h]
      exact .restrict _ _

theorem step_launched {st : State} {e : Launched} (h : (step db cfg st i).2 = some e) :
    st.store.Has e.ticket.serial ∧ ¬ (step db cfg st i).1.store.Has e.ticket.serial ∧
      e.ticket.serial < (step db cfg st i).1.store.next ∧ e.Ok db cfg := by
  cases i with
  | deposit => cases h
  | logon => cases h
  | launch i =>
    simp only [step] at h ⊢
    obtain hno | ⟨name, f, hdir, hstore, hall⟩ := handleLaunch_cases db cfg st.store i
    · rw [hno] at h
      cases h
    · obtain ⟨rfl, hok⟩ := hall e h
      rw [hstore]
      refine ⟨⟨name, _, hdir, rfl⟩, ?_, st.store.serial_lt hdir, hok⟩
      rintro ⟨n, g, hg, hserial⟩
      obtain ⟨hg, hne⟩ := Option.filter_eq_some_iff.mp hg
      exact (by simpa using hne : n ≠ name) (st.store.name_unique hg hdir hserial)

theorem run_launched {st : State} {e : Launched} (h : e ∈ (run db cfg st is).2) :
    (st.store.Has e.ticket.serial ∨ st.store.next ≤ e.ticket.serial) ∧ e.Ok db cfg := by
  induction is generalizing st with
  | nil => cases h
  | cons i is ih =>
    simp only [run, List.mem_append, Option.mem_toList] at h
    obtain h | h := h
    · obtain ⟨hhas, -, -, hok⟩ := step_launched h
      exact ⟨.inl hhas, hok⟩
    · obtain ⟨hold, hok⟩ := ih h
      have hgrows := step_grows db cfg st i
      exact ⟨hold.elim hgrows.has fun hle => .inr (Nat.le_trans hgrows.next_le hle), hok⟩

theorem run_nodup (db : Accounts) (cfg : Config) (st : State) (is : List Input) :
    ((run db cfg st is).2.map fun e => e.ticket.serial).Nodup := by
  induction is generalizing st with
  | nil => exact .nil
  | cons i is ih =>
    simp only [run]
    cases he : (step db cfg st i).2 with
    | none => exact ih _
    | some e =>
      obtain ⟨-, hgone, hlt, -⟩ := step_launched he
      simp only [Option.toList_some, List.singleton_append, List.map_cons, List.nodup_cons]
      refine ⟨fun hmem => ?_, ih _⟩
      obtain ⟨e', he', hserial⟩ := List.mem_map.mp hmem
      obtain hhas | hle := (run_launched he').1
      · exact hgone (hserial ▸ hhas)
      · omega

/-- A ticket leads to one `monitor_spawn` at most, for its requester, in its time and as its account. -/
theorem run_launch_tickets (db : Accounts) (cfg : Config) (st : State) (is : List Input) :
    ((run db cfg st is).2.map fun e => e.ticket.serial).Nodup ∧
      ∀ e ∈ (run db cfg st is).2, e.Ok db cfg ∧
        ∀ target requester type now, -2 ^ 63 ≤ now + ticketLifetime → now + ticketLifetime < 2 ^ 63 →
          e.ticket.content ≠ ticketText target requester type now := by
  refine ⟨run_nodup db cfg st is, fun e he => ?_⟩
  have hok := (run_launched he).2
  refine ⟨hok, fun target requester type now hlo hhi hcontent => ?_⟩
  have hlaunch := hok.launch
  rw [hcontent, readTicket_ticketText target requester type hlo hhi] at hlaunch
  cases hlaunch

section Samples

def emptyState : State where
  store := ⟨fun _ => none, 0, nofun, nofun⟩
  rate := []

def launchTicket : Node where
  regular := true
  mode := 0o600
  uid := 999
  content := ascii "kind=launch\nuid=1000\nfor=1000\nexpires=100\n"
  mtime := 70
  serial := 0

def launchAt (now : Int) : LaunchInput where
  peer := 1000
  env := [.ofString "LAUNCH_TICKET=00000000000000000000000000000000"]
  args := [.ofString "notepad"]
  euid := 999
  now := now
  control := .empty

theorem readTicket_launchTicket : readTicket launchTicket.content = ⟨true, 1000, 1000, 100⟩ := by
  have htext : cstr (launchTicket.content.take 255) = ascii "kind=launch" ++ 10 ::
      (ascii "uid=1000" ++ 10 :: (ascii "for=1000" ++ 10 :: (ascii "expires=100" ++ 10 :: []))) := by
    decide
  rw [readTicket, htext, ticketLines_cons (by decide), ticketLines_cons (by decide),
    ticketLines_cons (by decide), ticketLines_cons (by decide), ticketLines]
  decide

theorem launch_at_expiry :
    ∃ e ∈ (run users {} emptyState [.deposit (.ofString "00000000000000000000000000000000")
        launchTicket, .launch (launchAt 100)]).2,
      e.now = (readTicket e.ticket.content).expires ∧ e.run.isSome := by
  let name := CString.ofString "00000000000000000000000000000000"
  let store := emptyState.store.create name launchTicket
  let spawn : Spawn := ⟨1000, .empty, name, .empty, 1000, [.ofString "notepad"], by decide⟩
  let blob := pack (.empty :: name :: .empty :: .decimal 1000 :: [.ofString "notepad"])
  have hlaunch : (handleLaunch users {} store (launchAt 100)).2 =
      some ⟨launchTicket, 1000, 100, spawn, monitorSpawn users {} 1000 blob⟩ := by
    have hname : envValue "LAUNCH_TICKET=" (launchAt 100).env = some name := by decide
    have hargs : isTicketName name ∧ (launchAt 100).args ≠ [] := by decide
    have hfile : (store.dir name).filter (·.readable (launchAt 100).euid) = some launchTicket := by
      decide
    have hblob : spawn.blob = some blob := by decide
    simp only [handleLaunch, hname, dif_pos hargs, hfile, readTicket_launchTicket]
    rw [if_neg (by decide), if_neg (by decide)]
    split
    · next hnone => cases hnone.symm.trans hblob
    · next hsome =>
      cases hsome.symm.trans hblob
      rfl
  refine ⟨⟨launchTicket, 1000, 100, spawn, monitorSpawn users {} 1000 blob⟩, ?_, ?_, ?_⟩
  · change _ ∈ (handleLaunch users {} store (launchAt 100)).2.toList ++ []
    rw [hlaunch]
    exact .head _
  · rw [readTicket_launchTicket]
  · rw [monitorSpawn, parseSpawn_pack _ _ _ _ (by decide)]
    decide

end Samples

end StainedGlass.Broker
