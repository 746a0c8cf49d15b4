import StainedGlass.Broker.Tickets

namespace StainedGlass.Broker

open Lib

def slotOf (uid : UInt32) (slots : List RateSlot) : Option RateSlot :=
  slots.find? fun r => r.uid = uid && r.start ≠ 0

def Unique (slots : List RateSlot) : Prop :=
  ∀ (i j : Nat) (r r' : RateSlot), slots[i]? = some r → slots[j]? = some r' → r.start ≠ 0 → r'.start ≠ 0 →
    r.uid = r'.uid → i = j

def RateSlot.touch (now : Int) (failed : Bool) (r : RateSlot) : RateSlot :=
  let r := if logonWindow ≤ now - r.start then { r with start := now, failures := 0 } else r
  if failed then { r with failures := r.failures + 1 } else r

def limitOf (limitEnv : Option CString) : UInt32 :=
  (limitEnv.map fun v => UInt32.ofNat (strtoul v.bytes)).getD 5

theorem findSlot_found (h : findSlot uid slot oldest i slots = (k, true)) :
    ∃ j r, k = i + j ∧ slots[j]? = some r ∧ r.uid = uid ∧ r.start ≠ 0 := by
  induction slots generalizing slot oldest i with
  | nil => cases h
  | cons r rs ih =>
    rw [findSlot] at h
    split at h
    · next hr =>
      cases h
      exact ⟨0, r, rfl, rfl, hr⟩
    · have hnext : ∃ j r', k = i + 1 + j ∧ rs[j]? = some r' ∧ r'.uid = uid ∧ r'.start ≠ 0 := by
        split at h
        · exact ih h
        · exact ih h
      obtain ⟨j, r', hk, hj⟩ := hnext
      exact ⟨j + 1, r', by omega, hj⟩

theorem findSlot_missed (h : findSlot uid slot oldest i slots = (k, false)) :
    (∀ r ∈ slots, ¬ (r.uid = uid ∧ r.start ≠ 0)) ∧ ((k = slot ∧ ∀ r ∈ slots, oldest ≤ r.start) ∨
        ∃ j r, k = i + j ∧ slots[j]? = some r ∧ r.start < oldest ∧ ∀ r' ∈ slots, r.start ≤ r'.start) := by
  induction slots generalizing slot oldest i with
  | nil =>
    cases h
    exact ⟨List.forall_mem_nil _, .inl ⟨rfl, List.forall_mem_nil _⟩⟩
  | cons r rs ih =>
    rw [findSlot] at h
    simp only [List.forall_mem_cons]
    split at h
    · cases h
    · next hr =>
      split at h
      · next hlt =>
        obtain ⟨hrs, ⟨hk, hall⟩ | ⟨j, r', hk, hj, hless, hall⟩⟩ := ih h
        · exact ⟨⟨hr, hrs⟩, .inr ⟨0, r, hk, rfl, hlt, le_refl _, hall⟩⟩
        · exact ⟨⟨hr, hrs⟩, .inr ⟨j + 1, r', by omega, hj, hless.trans hlt, hless.le, hall⟩⟩
      · next hle =>
        obtain ⟨hrs, ⟨hk, hall⟩ | ⟨j, r', hk, hj, hless, hall⟩⟩ := ih h
        · exact ⟨⟨hr, hrs⟩, .inl ⟨hk, not_lt.mp hle, hall⟩⟩
        · exact ⟨⟨hr, hrs⟩, .inr ⟨j + 1, r', by omega, hj, hless, by omega, hall⟩⟩

theorem slotOf_eq_some {r : RateSlot} (h : slotOf uid slots = some r) : r ∈ slots ∧ r.uid = uid ∧ r.start ≠ 0 := by
  have hp := List.find?_some h
  simp only [Bool.and_eq_true, decide_eq_true_eq, ne_eq] at hp
  exact ⟨List.mem_of_find?_eq_some h, hp⟩

theorem slotOf_eq_none (h : slotOf uid slots = none) : ∀ r ∈ slots, ¬ (r.uid = uid ∧ r.start ≠ 0) := by
  intro r hr hmatch
  exact absurd (List.find?_eq_none.mp h r hr) (by simpa using hmatch)

theorem Unique.slotOf_eq {slots : List RateSlot} (h : Unique slots) {i : Nat} {r : RateSlot}
    (hi : slots[i]? = some r) (hr : r.start ≠ 0) : slotOf r.uid slots = some r := by
  cases hslot : slotOf r.uid slots with
  | none => exact absurd ⟨rfl, hr⟩ (slotOf_eq_none hslot r (List.mem_of_getElem? hi))
  | some r' =>
    obtain ⟨hmem, huid, hstart⟩ := slotOf_eq_some hslot
    obtain ⟨j, hj⟩ := List.mem_iff_getElem?.mp hmem
    have hij := h i j r r' hi hj hr hstart huid.symm
    subst hij
    rw [Option.some.inj (hi.symm.trans hj)]

theorem find?_set_of_not {slots : List RateSlot}
    (hk : slots[k]? = some y) (hy : p y = false) (hx : p x = false) : (slots.set k x).find? p = slots.find? p := by
  induction slots generalizing k with
  | nil => cases hk
  | cons z zs ih =>
    cases k with
    | zero =>
      cases hk
      rw [List.set_cons_zero, List.find?_cons, List.find?_cons, hx, hy]
    | succ k => rw [List.set_cons_succ, List.find?_cons, List.find?_cons, ih hk]

structure Table (accounts : Finset UInt32) (now : Int) (slots : List RateSlot) : Prop where
  length : slots.length = 64
  unique : Unique slots
  start : ∀ r ∈ slots, 0 ≤ r.start ∧ r.start ≤ now
  account : ∀ r ∈ slots, r.start ≠ 0 → r.uid ∈ accounts

variable {accounts : Finset UInt32} {now now' : Int} {slots : List RateSlot} {uid : UInt32}

theorem Table.exists_free (h : Table accounts now slots) (hcard : accounts.card ≤ 64) (huid : uid ∈ accounts)
    (hnone : ∀ r ∈ slots, ¬ (r.uid = uid ∧ r.start ≠ 0)) : ∃ r ∈ slots, r.start = 0 := by
  by_contra hall
  push Not at hall
  have hnodup : (slots.map RateSlot.uid).Nodup := by
    rw [List.nodup_iff_injective_get]
    intro i j hij
    have hi : (i : Nat) < slots.length := by simpa using i.2
    have hj : (j : Nat) < slots.length := by simpa using j.2
    have hij' : slots[(i : Nat)].uid = slots[(j : Nat)].uid := by simpa using hij
    exact Fin.ext (h.unique i j _ _ (List.getElem?_eq_getElem hi) (List.getElem?_eq_getElem hj)
      (hall _ (List.getElem_mem hi)) (hall _ (List.getElem_mem hj)) hij')
  have hsub : (slots.map RateSlot.uid).toFinset ⊆ accounts.erase uid := by
    intro u hu
    obtain ⟨r, hr, rfl⟩ := List.mem_map.mp (List.mem_toFinset.mp hu)
    exact Finset.mem_erase.mpr ⟨fun heq => hnone r hr ⟨heq, hall r hr⟩, h.account r hr (hall r hr)⟩
  have hle := Finset.card_le_card hsub
  rw [List.toFinset_card_of_nodup hnodup, List.length_map, h.length, Finset.card_erase_of_mem huid] at hle
  omega

theorem RateSlot.touch_uid (now : Int) (failed : Bool) (r : RateSlot) : (r.touch now failed).uid = r.uid := by
  simp only [touch]
  split <;> split <;> rfl

theorem RateSlot.touch_start (now : Int) (failed : Bool) (r : RateSlot) :
    (r.touch now failed).start = if logonWindow ≤ now - r.start then now else r.start := by
  simp only [touch]
  split <;> split <;> rfl

theorem Table.set (h : Table accounts now slots) (hnow : now ≤ now') (huid : uid ∈ accounts) {k : Nat}
    {x y : RateSlot} (hk : slots[k]? = some y) (hy : y.start = 0 ∨ y.uid = uid) (hx : x.uid = uid)
    (hnone : y.start = 0 → ∀ r ∈ slots, ¬ (r.uid = uid ∧ r.start ≠ 0)) (hstart : 0 < x.start ∧ x.start ≤ now') :
    Table accounts now' (slots.set k x) ∧ slotOf uid (slots.set k x) = some x ∧
      ∀ v ≠ uid, slotOf v (slots.set k x) = slotOf v slots := by
  have hlt : k < slots.length := (List.getElem?_eq_some_iff.mp hk).1
  have hother {j : Nat} {r : RateSlot} (hjk : j ≠ k) (hj : slots[j]? = some r) (hr : r.start ≠ 0) : r.uid ≠ uid := by
    intro heq
    by_cases hfree : y.start = 0
    · exact hnone hfree r (List.mem_of_getElem? hj) ⟨heq, hr⟩
    · exact hjk (h.unique j k r y hj hk hr hfree (heq.trans (hy.resolve_left hfree).symm))
  have hunique : Unique (slots.set k x) := by
    intro i j r r' hi hj hr hr' heq
    rw [List.getElem?_set] at hi hj
    by_cases hki : k = i
    · by_cases hkj : k = j
      · exact hki.symm.trans hkj
      · rw [if_pos hki, if_pos hlt] at hi
        rw [if_neg hkj] at hj
        cases hi
        exact absurd (heq.symm.trans hx) (hother (Ne.symm hkj) hj hr')
    · rw [if_neg hki] at hi
      by_cases hkj : k = j
      · rw [if_pos hkj, if_pos hlt] at hj
        cases hj
        exact absurd (heq.trans hx) (hother (Ne.symm hki) hi hr)
      · rw [if_neg hkj] at hj
        exact h.unique i j r r' hi hj hr hr' heq
  have hx' : x.start ≠ 0 := by omega
  have hslot := hunique.slotOf_eq (i := k) (by rw [List.getElem?_set_self hlt]) hx'
  rw [hx] at hslot
  refine ⟨⟨by rw [List.length_set, h.length], hunique, ?_, ?_⟩, hslot, ?_⟩
  · intro r hr
    obtain hr | rfl := List.mem_or_eq_of_mem_set hr
    · have := h.start r hr
      omega
    · omega
  · intro r hr hstart
    obtain hr | rfl := List.mem_or_eq_of_mem_set hr
    · exact h.account r hr hstart
    · rwa [hx]
  · intro v hv
    apply find?_set_of_not hk
    · obtain hy | hy := hy
      · simp [hy]
      · simp [hy, hv.symm]
    · simp [hx, hv.symm]

theorem logonRateLimited_spec (h : Table accounts now slots) (hcard : accounts.card ≤ 64)
    (huid : uid ∈ accounts) (hnow : now ≤ now') (hpos : 0 < now') (limitEnv : Option CString) (failed : Bool) :
    ∃ slots', logonRateLimited limitEnv now' uid failed slots =
        (decide (limitOf limitEnv ≤ (((slotOf uid slots).getD ⟨uid, now', 0⟩).touch now' failed).failures), slots') ∧
      Table accounts now' slots' ∧
      slotOf uid slots' = some (((slotOf uid slots).getD ⟨uid, now', 0⟩).touch now' failed) ∧
      ∀ v ≠ uid, slotOf v slots' = slotOf v slots := by
  cases hfind : findSlot uid 0 now' 0 slots with
  | mk k found =>
  cases found with
  | true =>
    obtain ⟨j, r, hk, hj, hr, hstart⟩ := findSlot_found hfind
    rw [Nat.zero_add] at hk
    subst hk
    have hslot := h.unique.slotOf_eq hj hstart
    rw [hr] at hslot
    have hget : slots.getD k ⟨uid, now', 0⟩ = r := by rw [List.getD_eq_getElem?_getD, hj, Option.getD_some]
    have hle := h.start r (List.mem_of_getElem? hj)
    refine ⟨slots.set k (r.touch now' failed), ?_, ?_⟩
    · rw [logonRateLimited, hfind, hslot]
      simp only [if_true, hget, Option.getD_some]
      rfl
    · rw [hslot, Option.getD_some]
      apply h.set hnow huid hj (.inr hr) ((r.touch_uid now' failed).trans hr)
      · exact fun hfree => absurd hfree hstart
      · rw [RateSlot.touch_start]
        split <;> omega
  | false =>
    obtain ⟨hnone, hslot⟩ := findSlot_missed hfind
    obtain ⟨free, hfree, hzero⟩ := h.exists_free hcard huid hnone
    have hindex : ∃ r, slots[k]? = some r ∧ r.start = 0 := by
      obtain ⟨-, hall⟩ | ⟨j, r, hk, hj, -, hall⟩ := hslot
      · have := hall free hfree
        omega
      · have hle := hall free hfree
        have hge := (h.start r (List.mem_of_getElem? hj)).1
        exact ⟨r, by rw [hk, Nat.zero_add, hj], by omega⟩
    obtain ⟨r, hk, hr⟩ := hindex
    have hnew : slotOf uid slots = none := by
      rw [slotOf, List.find?_eq_none]
      intro r' hr' hmatch
      exact hnone r' hr' (by simpa using hmatch)
    refine ⟨slots.set k ((RateSlot.mk uid now' 0).touch now' failed), ?_, ?_⟩
    · rw [logonRateLimited, hfind, hnew]
      rfl
    · rw [hnew, Option.getD_none]
      apply h.set hnow huid hk (.inl hr) (RateSlot.touch_uid now' failed _)
      · exact fun _ => hnone
      · rw [RateSlot.touch_start]
        split
        · omega
        · exact ⟨hpos, le_refl _⟩

structure Kept (limit : Nat) (r : RateSlot) (times : List Int) : Prop where
  before : ∀ t ∈ times, t < r.start + logonWindow
  counted : times.countP (r.start ≤ ·) ≤ r.failures.toNat
  counted_both : times.countP (r.start - logonWindow ≤ ·) ≤ limit + r.failures.toNat
  limited : r.failures.toNat ≤ limit

theorem countP_eq_zero_of_lt {times : List Int} (h : ∀ t ∈ times, t < a) : times.countP (a ≤ ·) = 0 := by
  rw [List.countP_eq_zero]
  intro t ht
  simpa using h t ht

theorem countP_le_of_le {times : List Int} (h : a ≤ b) : times.countP (b ≤ ·) ≤ times.countP (a ≤ ·) := by
  apply List.countP_mono_left
  intro t _ ht
  simp only [decide_eq_true_eq] at ht ⊢
  exact h.trans ht

theorem countP_concat_le (times : List Int) (a t : Int) :
    (times ++ [t]).countP (a ≤ ·) ≤ times.countP (a ≤ ·) + 1 := by
  rw [List.countP_append]
  exact Nat.add_le_add_left List.countP_le_length _

section Account

variable {limit : Nat} {r : RateSlot} {times : List Int}

theorem Kept.restart (h : Kept limit r times) (hnow : r.start + logonWindow ≤ now) :
    times.countP (now ≤ ·) = 0 ∧ times.countP (now - logonWindow ≤ ·) ≤ limit := by
  refine ⟨countP_eq_zero_of_lt fun t ht => (h.before t ht).trans_le hnow, ?_⟩
  exact (countP_le_of_le (by omega)).trans (h.counted.trans h.limited)

theorem RateSlot.touch_over (h : logonWindow ≤ now - r.start) (failed : Bool) :
    r.touch now failed = ⟨r.uid, now, if failed then 1 else 0⟩ := by
  simp only [touch, if_pos h]
  split <;> rfl

theorem RateSlot.touch_within (h : ¬ logonWindow ≤ now - r.start) (failed : Bool) :
    r.touch now failed = ⟨r.uid, r.start, if failed then r.failures + 1 else r.failures⟩ := by
  simp only [touch, if_neg h]
  split <;> rfl

theorem Kept.ask (h : Kept limit r times) (now : Int) : Kept limit (r.touch now false) times := by
  by_cases hover : logonWindow ≤ now - r.start
  · have hrestart : r.start + logonWindow ≤ now := by omega
    obtain ⟨hzero, hboth⟩ := h.restart hrestart
    rw [RateSlot.touch_over hover]
    refine ⟨fun t ht => ?_, hzero.le.trans (Nat.zero_le _), hboth.trans (Nat.le_add_right _ _), Nat.zero_le _⟩
    have hbefore := h.before t ht
    simp only [logonWindow] at *
    omega
  · rw [RateSlot.touch_within hover]
    exact h

theorem Kept.fail (h : Kept limit r times) (hlimit : limit < 2 ^ 32) (hless : r.failures.toNat < limit)
    (hstart : r.start ≤ t) (hnow : t ≤ now) :
    Kept limit (r.touch now true) (times ++ [t]) ∧ (times ++ [t]).countP (t - logonWindow ≤ ·) ≤ 2 * limit := by
  have hboth : (times ++ [t]).countP (t - logonWindow ≤ ·) ≤ 2 * limit := by
    have hconcat := countP_concat_le times (t - logonWindow) t
    have hle : times.countP (t - logonWindow ≤ ·) ≤ times.countP (r.start - logonWindow ≤ ·) :=
      countP_le_of_le (by omega)
    have hkept := h.counted_both
    omega
  refine ⟨?_, hboth⟩
  by_cases hover : logonWindow ≤ now - r.start
  · have hrestart : r.start + logonWindow ≤ now := by omega
    obtain ⟨hzero, hlast⟩ := h.restart hrestart
    have hone := countP_concat_le times now t
    have hone' := countP_concat_le times (now - logonWindow) t
    rw [RateSlot.touch_over hover]
    refine ⟨?_, ?_, hone'.trans (Nat.add_le_add_right hlast 1), ?_⟩
    · rw [List.forall_mem_append, List.forall_mem_singleton]
      simp only [logonWindow] at *
      refine ⟨fun t' ht' => ?_, by omega⟩
      have hbefore := h.before t' ht'
      simp only [logonWindow] at hbefore
      omega
    · rw [hzero] at hone
      exact hone
    · change 1 ≤ limit
      omega
  · have hfailures : (r.failures + 1).toNat = r.failures.toNat + 1 := by
      rw [UInt32.toNat_add]
      change (r.failures.toNat + 1) % 2 ^ 32 = _
      rw [Nat.mod_eq_of_lt (by omega)]
    have hone := countP_concat_le times r.start t
    have hone' := countP_concat_le times (r.start - logonWindow) t
    have hcounted := h.counted
    have hcounted' := h.counted_both
    have hbefore : t < r.start + logonWindow := by omega
    rw [RateSlot.touch_within hover]
    refine ⟨?_, ?_, ?_, ?_⟩
    · rw [List.forall_mem_append, List.forall_mem_singleton]
      exact ⟨h.before, hbefore⟩
    · exact (hone.trans (Nat.add_le_add_right hcounted 1)).trans hfailures.ge
    · exact (hone'.trans (Nat.add_le_add_right hcounted' 1)).trans (congrArg (limit + ·) hfailures).ge
    · exact hfailures.le.trans hless

def Spaced (limit : Nat) (times : List Int) : Prop :=
  ∀ a, times.countP (fun t => a ≤ t && t ≤ a + logonWindow) ≤ 2 * limit

theorem Spaced.concat (h : Spaced limit times)
    (ht : (times ++ [t]).countP (t - logonWindow ≤ ·) ≤ 2 * limit) : Spaced limit (times ++ [t]) := by
  intro a
  by_cases hin : a ≤ t ∧ t ≤ a + logonWindow
  · refine (List.countP_mono_left fun t' _ ht' => ?_).trans ht
    simp only [Bool.and_eq_true, decide_eq_true_eq] at ht' ⊢
    omega
  · rw [List.countP_append, List.countP_singleton, if_neg (by simpa using hin)]
    exact h a

end Account

structure Faithful (limit : Nat) (slots : List RateSlot) (uid : UInt32) (times : List Int) : Prop where
  absent : slotOf uid slots = none → times = []
  kept : ∀ r, slotOf uid slots = some r → Kept limit r times
  spaced : Spaced limit times

theorem kept_new (limit : Nat) (uid : UInt32) (now : Int) : Kept limit ⟨uid, now, 0⟩ [] :=
  ⟨List.forall_mem_nil _, Nat.zero_le _, Nat.zero_le _, Nat.zero_le _⟩

theorem Faithful.getD (h : Faithful limit slots uid times) (now : Int) :
    Kept limit ((slotOf uid slots).getD ⟨uid, now, 0⟩) times := by
  cases hslot : slotOf uid slots with
  | none =>
    rw [h.absent hslot]
    exact kept_new limit uid now
  | some r => exact h.kept r hslot

theorem Faithful.of_slotOf_eq (h : Faithful limit slots uid times) (heq : slotOf uid slots' = slotOf uid slots) :
    Faithful limit slots' uid times :=
  ⟨fun hnone => h.absent (heq ▸ hnone), fun r hr => h.kept r (heq ▸ hr), h.spaced⟩

section Requests

variable (db : Accounts) (cfg : Config)

def hasPassword (i : LogonInput) : Bool :=
  match envValue "LOGON_USER=" i.env, envValue "LOGON_PASSWORD=" i.env with
  | some user, some pass => plainName user && user.bytes.length < maxField && pass.bytes.length < maxField &&
      (db.getpwnam user).any fun pw => pw.uid ≠ 0 && pw.name ≠ cfg.systemUser
  | _, _ => false

def limited (st : State) (i : LogonInput) : Bool := (logonRateLimited i.limitEnv i.askAt i.peer false st.rate).1

def checked (st : State) (i : LogonInput) : Bool := !limited st i && hasPassword db cfg i

def counted (st : State) (i : LogonInput) : Bool := !limited st i && (logonTarget db cfg i).isNone

def failedCheck (st : State) (i : LogonInput) : Bool := checked db cfg st i && (logonTarget db cfg i).isNone

def logons (st : State) (is : List LogonInput) : State := is.foldl (fun st i => (handleLogon db cfg st i).1) st

def during (p : State → LogonInput → Bool) (st : State) : List LogonInput → List LogonInput
  | [] => []
  | i :: is => (if p st i then [i] else []) ++ during p (handleLogon db cfg st i).1 is

/-- The monitor sleeps two seconds before it answers that a check failed. -/
def LogonInput.Slept (i : LogonInput) : Prop := hasPassword db cfg i = true → i.reply = some 0 → i.askAt + 2 ≤ i.failAt

instance (i : LogonInput) : Decidable (i.Slept db cfg) := inferInstanceAs (Decidable (_ → _))

inductive Requests (accounts : Finset UInt32) (limitEnv : Option CString) : Int → List LogonInput → Prop
  | nil : Requests accounts limitEnv since []
  | cons (hask : since ≤ i.askAt) (hfail : i.askAt ≤ i.failAt) (hpeer : i.peer ∈ accounts)
      (henv : i.limitEnv = limitEnv) (h : Requests accounts limitEnv i.failAt is) :
      Requests accounts limitEnv since (i :: is)

theorem rate_handleLogon (st : State) (i : LogonInput) :
    (handleLogon db cfg st i).1.rate =
      if counted db cfg st i then
        (logonRateLimited i.limitEnv i.failAt i.peer true
          (logonRateLimited i.limitEnv i.askAt i.peer false st.rate).2).2
      else (logonRateLimited i.limitEnv i.askAt i.peer false st.rate).2 := by
  by_cases hlim : (logonRateLimited i.limitEnv i.askAt i.peer false st.rate).1 = true
  · simp [handleLogon, counted, limited, hlim]
  · cases htarget : logonTarget db cfg i with
    | none => simp [handleLogon, counted, limited, hlim, htarget]
    | some pw =>
      simp only [handleLogon, counted, limited, hlim, htarget, if_false, Option.isNone_some, Bool.and_false,
        Bool.false_eq_true]
      cases makeTicket (st.store.sweep i.sweepAt) pw.uid (logonType i) i with
      | mk store name => cases name <;> rfl

variable {limitEnv : Option CString} {st : State} {i : LogonInput}

theorem table_handleLogon (h : Table accounts now st.rate) (hcard : accounts.card ≤ 64)
    (hpeer : i.peer ∈ accounts) (hpos : 0 < now) (hask : now ≤ i.askAt) (hfail : i.askAt ≤ i.failAt) :
    Table accounts i.failAt (handleLogon db cfg st i).1.rate ∧
      ∀ v ≠ i.peer, slotOf v (handleLogon db cfg st i).1.rate = slotOf v st.rate := by
  obtain ⟨slots, hslots, htable, -, hothers⟩ :=
    logonRateLimited_spec h hcard hpeer hask (by omega) i.limitEnv false
  obtain ⟨slots', hslots', htable', -, hothers'⟩ :=
    logonRateLimited_spec htable hcard hpeer hfail (by omega) i.limitEnv true
  rw [rate_handleLogon, hslots]
  split
  · rw [hslots']
    exact ⟨htable', fun v hv => (hothers' v hv).trans (hothers v hv)⟩
  · exact ⟨⟨htable.length, htable.unique, fun r hr => ⟨(htable.start r hr).1, (htable.start r hr).2.trans hfail⟩,
      htable.account⟩, hothers⟩

theorem limited_eq (h : Table accounts now st.rate) (hcard : accounts.card ≤ 64) (hpeer : i.peer ∈ accounts)
    (hpos : 0 < now) (hask : now ≤ i.askAt) :
    limited st i = decide (limitOf i.limitEnv ≤
      (((slotOf i.peer st.rate).getD ⟨i.peer, i.askAt, 0⟩).touch i.askAt false).failures) := by
  obtain ⟨slots, hslots, -⟩ := logonRateLimited_spec h hcard hpeer hask (by omega) i.limitEnv false
  rw [limited, hslots]

theorem limited_of_failures (h : Table accounts now st.rate) (hcard : accounts.card ≤ 64)
    (hpeer : i.peer ∈ accounts) (hpos : 0 < now) (hask : now ≤ i.askAt) {r : RateSlot}
    (hslot : slotOf i.peer st.rate = some r) (hlimit : limitOf i.limitEnv ≤ r.failures)
    (hwithin : i.askAt < r.start + logonWindow) : limited st i = true := by
  rw [limited_eq h hcard hpeer hpos hask, hslot, Option.getD_some, RateSlot.touch_within (by omega)]
  simpa using hlimit

theorem faithful_handleLogon (h : Table accounts now st.rate) (hcard : accounts.card ≤ 64)
    (hpeer : i.peer ∈ accounts) (hpos : 0 < now) (hask : now ≤ i.askAt) (hfail : i.askAt ≤ i.failAt)
    (hfaithful : Faithful (limitOf i.limitEnv).toNat st.rate i.peer times) (ht : i.askAt ≤ t ∧ t ≤ i.failAt) :
    Faithful (limitOf i.limitEnv).toNat (handleLogon db cfg st i).1.rate i.peer
      (times ++ if counted db cfg st i then [t] else []) := by
  have hlimited := limited_eq h hcard hpeer hpos hask
  have hkept := (hfaithful.getD i.askAt).ask i.askAt
  obtain ⟨slots, hslots, htable, hslot, -⟩ :=
    logonRateLimited_spec h hcard hpeer hask (by omega) i.limitEnv false
  obtain ⟨slots', hslots', -, hslot', -⟩ :=
    logonRateLimited_spec htable hcard hpeer hfail (by omega) i.limitEnv true
  rw [rate_handleLogon, hslots]
  split
  · next hcounted =>
    have hnot : limited st i = false := by
      rw [counted, Bool.and_eq_true, Bool.not_eq_true'] at hcounted
      exact hcounted.1
    rw [hlimited, decide_eq_false_iff_not, UInt32.not_le, UInt32.lt_iff_toNat_lt] at hnot
    have hstart : (((slotOf i.peer st.rate).getD ⟨i.peer, i.askAt, 0⟩).touch i.askAt false).start ≤ t :=
      ((htable.start _ (slotOf_eq_some hslot).1).2).trans ht.1
    obtain ⟨hkept', hboth⟩ := hkept.fail (UInt32.toNat_lt _) hnot hstart ht.2
    rw [hslots']
    rw [hslot, Option.getD_some] at hslot'
    refine ⟨fun hnone => ?_, fun r hr => ?_, hfaithful.spaced.concat hboth⟩
    · cases hnone.symm.trans hslot'
    · cases hr.symm.trans hslot'
      exact hkept'
  · rw [List.append_nil]
    refine ⟨fun hnone => ?_, fun r hr => ?_, hfaithful.spaced⟩
    · cases hnone.symm.trans hslot
    · cases hr.symm.trans hslot
      exact hkept

theorem table_logons (h : Table accounts now st.rate) (hcard : accounts.card ≤ 64)
    (hpos : 0 < now) (hreqs : Requests accounts limitEnv now (is ++ js)) :
    ∃ now', 0 < now' ∧ Table accounts now' (logons db cfg st is).rate ∧ Requests accounts limitEnv now' js := by
  induction is generalizing st now with
  | nil => exact ⟨now, hpos, h, hreqs⟩
  | cons i is ih =>
    cases hreqs with
    | cons hask hfail hpeer henv hreqs =>
      exact ih (table_handleLogon db cfg h hcard hpeer hpos hask hfail).1 (by omega) hreqs

theorem faithful_logons
    (hat : ∀ i ∈ is, i.askAt ≤ checkedAt i ∧ checkedAt i ≤ i.failAt) (h : Table accounts now st.rate)
    (hcard : accounts.card ≤ 64) (hpos : 0 < now) (hreqs : Requests accounts limitEnv now is)
    (hfaithful : Faithful (limitOf limitEnv).toNat st.rate uid times) :
    Faithful (limitOf limitEnv).toNat (logons db cfg st is).rate uid
      (times ++ ((during db cfg (counted db cfg) st is).filter (·.peer = uid)).map checkedAt) := by
  induction is generalizing st now times with
  | nil => simpa [during, logons] using hfaithful
  | cons i is ih =>
    rw [List.forall_mem_cons] at hat
    cases hreqs with
    | cons hask hfail hpeer henv hreqs =>
      obtain ⟨htable, hothers⟩ := table_handleLogon db cfg h hcard hpeer hpos hask hfail
      rw [during, List.filter_append, List.map_append, ← List.append_assoc]
      apply ih hat.2 htable (by omega) hreqs
      by_cases hpeer' : i.peer = uid
      · subst hpeer' henv
        have hstep := faithful_handleLogon db cfg h hcard hpeer hpos hask hfail hfaithful hat.1
        split
        · next hcounted => simpa [hcounted] using hstep
        · next hcounted => simpa [hcounted] using hstep
      · have hnone : ((if counted db cfg st i then [i] else []).filter (·.peer = uid)).map checkedAt = [] := by
          split <;> simp [hpeer']
        rw [hnone, List.append_nil]
        exact hfaithful.of_slotOf_eq (hothers uid (Ne.symm hpeer'))

theorem during_sublist (h : ∀ st i, p st i = true → q st i = true) (st : State)
    (is : List LogonInput) : (during db cfg p st is).Sublist (during db cfg q st is) := by
  induction is generalizing st with
  | nil => exact .slnil
  | cons i is ih =>
    rw [during, during]
    refine List.Sublist.append ?_ (ih _)
    by_cases hp : p st i = true
    · rw [if_pos hp, if_pos (h st i hp)]
    · rw [if_neg hp]
      exact List.nil_sublist _

theorem counted_of_failedCheck (h : failedCheck db cfg st i = true) : counted db cfg st i = true := by
  simp only [failedCheck, checked, counted, Bool.and_eq_true] at h ⊢
  exact ⟨h.1.1, h.2⟩

end Requests

def emptyTable : List RateSlot := List.replicate 64 ⟨0, 0, 0⟩

theorem table_empty (accounts : Finset UInt32) : Table accounts 1 emptyTable := by
  have hzero {r : RateSlot} (hr : r ∈ emptyTable) : r.start = 0 := by rw [List.eq_of_mem_replicate hr]
  refine ⟨by simp [emptyTable], ?_, fun r hr => by simp [hzero hr], fun r hr h => absurd (hzero hr) h⟩
  intro i j r r' hi _ hr
  exact absurd (hzero (List.mem_of_getElem? hi)) hr

theorem faithful_empty (limit : Nat) (uid : UInt32) : Faithful limit emptyTable uid [] := by
  refine ⟨fun _ => rfl, fun r hr => ?_, fun a => Nat.zero_le _⟩
  obtain ⟨hmem, -, hstart⟩ := slotOf_eq_some hr
  exact absurd (by rw [List.eq_of_mem_replicate hmem]) hstart

/-- Past the Epoch and with a slot for each account: in no minute more than twice the limit of an
account's checks fail, and nobody changes another's slot. -/
theorem logons_limited (db : Accounts) (cfg : Config) {limitEnv : Option CString} {accounts : Finset UInt32}
    (hcard : accounts.card ≤ 64) {is : List LogonInput} (hreqs : Requests accounts limitEnv 1 is) {st : State}
    (hst : st.rate = emptyTable) :
    (∀ pre post, is = pre ++ post → Unique (logons db cfg st pre).rate) ∧
    (∀ pre i post, is = pre ++ i :: post →
      (∀ r, slotOf i.peer (logons db cfg st pre).rate = some r → limitOf limitEnv ≤ r.failures →
        i.askAt < r.start + 60 → checked db cfg (logons db cfg st pre) i = false) ∧
      ∀ v ≠ i.peer, slotOf v (logons db cfg st (pre ++ [i])).rate = slotOf v (logons db cfg st pre).rate) ∧
    ∀ (uid : UInt32) (checkedAt : LogonInput → Int),
      (∀ i ∈ is, i.askAt ≤ checkedAt i ∧ checkedAt i ≤ i.failAt) → ∀ a,
        ((during db cfg (failedCheck db cfg) st is).filter fun i =>
          i.peer = uid && (a ≤ checkedAt i && checkedAt i ≤ a + 60)).length ≤ 2 * (limitOf limitEnv).toNat := by
  have hempty : Table accounts 1 st.rate := hst ▸ table_empty accounts
  refine ⟨?_, ?_, ?_⟩
  · rintro pre post rfl
    obtain ⟨now, -, htable, -⟩ := table_logons db cfg hempty hcard (by decide) hreqs
    exact htable.unique
  · rintro pre i post rfl
    obtain ⟨now, hpos, htable, hrest⟩ := table_logons db cfg hempty hcard (by decide) hreqs
    cases hrest with
    | cons hask hfail hpeer henv hrest =>
      refine ⟨fun r hslot hlimit hwithin => ?_, ?_⟩
      · rw [checked, limited_of_failures htable hcard hpeer hpos hask hslot (henv ▸ hlimit) hwithin]
        rfl
      · rw [logons, List.foldl_append]
        exact (table_handleLogon db cfg htable hcard hpeer hpos hask hfail).2
  · intro uid checkedAt hat a
    have hfaithful := (faithful_logons db cfg hat hempty hcard (by decide) hreqs
      (hst ▸ faithful_empty (limitOf limitEnv).toNat uid)).spaced a
    rw [List.nil_append, List.countP_map, List.countP_filter] at hfaithful
    rw [← List.countP_eq_length_filter]
    refine ((during_sublist db cfg (fun st i => counted_of_failedCheck db cfg) st is).countP_le).trans (le_trans ?_ hfaithful)
    apply List.countP_mono_left
    intro i _ hi
    simp only [Bool.and_eq_true, decide_eq_true_eq, Function.comp_apply] at hi ⊢
    exact ⟨hi.2, hi.1⟩

def bob : Passwd := ⟨.ofString "bob", 1001, 1001, .ofString "/home/bob", .ofString "/bin/sh"⟩

def bobByName (name : CString) : Option Passwd := if name = bob.name then some bob else none

def bobByUid (uid : UInt32) : Option Passwd := if uid = bob.uid then some bob else none

theorem bobByName_name {pw : Passwd} (h : bobByName name = some pw) : pw.name = name := by
  rw [bobByName] at h
  split at h
  · next hname =>
    cases h
    exact hname.symm
  · cases h

theorem bobByUid_uid {pw : Passwd} (h : bobByUid uid = some pw) : pw.uid = uid := by
  rw [bobByUid] at h
  split at h
  · next huid =>
    cases h
    exact huid.symm
  · cases h

def bobAlone : Accounts := ⟨bobByName, bobByUid, fun _ => none, bobByName_name, bobByUid_uid⟩

def guess (clock : Int) : LogonInput where
  peer := 1000
  env := [.ofString "LOGON_USER=bob", .ofString "LOGON_PASSWORD=x"]
  limitEnv := none
  sweepAt := clock
  askAt := clock
  failAt := clock + 2
  ticketAt := clock
  random := none
  opens := false
  written := false
  euid := 0
  reply := some 0

def guesses (clock : Int) : Nat → List LogonInput
  | 0 => []
  | n + 1 => guess clock :: guesses (clock + 2) n

theorem requests_guesses (h : since ≤ clock) (n : Nat) : Requests {1000} none since (guesses clock n) := by
  induction n generalizing since clock with
  | zero => exact .nil
  | succ n ih => exact .cons h (by simp [guess]) (Finset.mem_singleton_self _) rfl (ih le_rfl)

theorem askAt_le_failAt {i : LogonInput} (h : i ∈ guesses clock n) : i.askAt ≤ i.failAt := by
  induction n generalizing clock with
  | zero => cases h
  | succ n ih =>
    rcases List.mem_cons.1 h with rfl | h
    · simp [guess]
    · exact ih h

def noFile (_ : CString) : Option Node := none

theorem noFile_lt {f : Node} (h : noFile n = some f) : f.serial < 0 := by
  cases h

theorem noFile_unique {f g : Node} (h : noFile n = some f) (_ : noFile m = some g)
    (_ : f.serial = g.serial) : n = m := by
  cases h

def freshBroker : State := ⟨⟨noFile, 0, noFile_lt, noFile_unique⟩, emptyTable⟩

theorem sevenGuesses_limited :
    Requests {1000} none 1 (guesses 1 7) ∧ freshBroker.rate = emptyTable ∧ (∀ i ∈ guesses 1 7, i.Slept bobAlone {}) ∧
    ((during bobAlone {} (failedCheck bobAlone {}) freshBroker (guesses 1 7)).filter fun i =>
      i.peer = 1000 && (1 ≤ i.askAt && i.askAt ≤ 1 + 60)).length ≤ 2 * (limitOf none).toNat :=
  ⟨requests_guesses le_rfl 7, rfl, by decide, (logons_limited bobAlone {} (Finset.card_singleton 1000 ▸ by decide)
    (requests_guesses le_rfl 7) (rfl : freshBroker.rate = emptyTable)).2.2 1000 LogonInput.askAt
    (fun i hi => ⟨le_rfl, askAt_le_failAt hi⟩) 1⟩

def unknownName : LogonInput :=
  { guess 0 with env := [.ofString "LOGON_USER=eve", .ofString "LOGON_PASSWORD=x"], limitEnv := some (.ofString "1"),
                 failAt := 0 }

def rightGuess : LogonInput := { guess 0 with limitEnv := some (.ofString "1"), failAt := 0, reply := some 1 }

/-- At the limit, and checked in the same second. -/
theorem epochGuess_checked :
    Requests {1000} (some (.ofString "1")) 0 [unknownName, rightGuess] ∧ freshBroker.rate = emptyTable ∧
    (∀ i ∈ [unknownName, rightGuess], i.Slept bobAlone {}) ∧
    (logons bobAlone {} freshBroker [unknownName]).rate[0]? = some ⟨1000, 0, limitOf (some (.ofString "1"))⟩ ∧
    checked bobAlone {} (logons bobAlone {} freshBroker [unknownName]) rightGuess = true := by
  refine ⟨?_, rfl, by decide, by decide +kernel, by decide +kernel⟩
  exact .cons (by decide) (by decide) (by decide) rfl (.cons (by decide) (by decide) (by decide) rfl .nil)

end StainedGlass.Broker
