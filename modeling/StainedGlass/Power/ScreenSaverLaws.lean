import StainedGlass.Power.ScreenSaver

namespace StainedGlass.Power

open Lib

theorem take_drop_subset (held : List Inhibition) (i : Nat) : (drop held i).take i ⊆ held.take i := by
  unfold drop
  split
  · simp
  · rw [List.dropLast_eq_take, List.take_take, List.take_set_of_le (Nat.min_le_left _ _)]
    exact List.take_subset_take_left held (Nat.min_le_left _ _)

variable {held : List Inhibition}

theorem drop_perm (h : i < held.length) : (drop held i).Perm (held.eraseIdx i) := by
  induction held using List.reverseRecOn with
  | nil => cases h
  | append_singleton xs last _ =>
    simp only [drop, List.getLast?_concat]
    obtain hi | rfl := Nat.lt_succ_iff_lt_or_eq.mp (by simpa using h)
    · rw [List.set_append_left _ _ hi, List.dropLast_concat, List.eraseIdx_append_of_lt_length hi]
      apply (List.set_perm_cons_eraseIdx hi last).trans
      exact (List.perm_append_singleton last _).symm
    · rw [List.set_append_right _ _ (Nat.le_refl _), Nat.sub_self, List.eraseIdx_append_of_length_le (Nat.le_refl _)]
      simp

theorem mem_drop (hi : i < held.length) (hnodup : held.Nodup)
    (x : Inhibition) : x ∈ drop held i ↔ x ∈ held ∧ x ≠ held[i] := by
  rw [(drop_perm hi).mem_iff, List.mem_eraseIdx_iff_getElem, List.mem_iff_getElem]
  constructor
  · rintro ⟨k, hk, hne, rfl⟩
    exact ⟨⟨k, hk, rfl⟩, fun heq => hne ((hnodup.getElem_inj_iff).mp heq)⟩
  · rintro ⟨⟨k, hk, rfl⟩, hne⟩
    refine ⟨k, hk, ?_, rfl⟩
    rintro rfl
    exact hne rfl

theorem dropOwned_perm (name : CString) (h : ∀ x ∈ held.take i, x.owner ≠ name) :
    (dropOwned name held i).Perm (held.filter (·.owner ≠ name)) := by
  fun_induction dropOwned name held i with
  | case1 held i hnone =>
    rw [List.take_of_length_le (List.getElem?_eq_none_iff.mp hnone)] at h
    rw [List.filter_eq_self.mpr (by simpa using h)]
  | case2 held i x hx hlt hown ih =>
    have hsplit : held = held.take i ++ x :: held.drop (i + 1) := by
      obtain ⟨_, rfl⟩ := List.getElem?_eq_some_iff.mp hx
      simp
    have hkeep : (held.eraseIdx i).filter (·.owner ≠ name) = held.filter (·.owner ≠ name) := by
      conv_rhs => rw [hsplit]
      simp [List.eraseIdx_eq_take_drop_succ, hown]
    rw [← hkeep]
    apply (ih _).trans
    · exact (drop_perm hlt).filter _
    · intro y hy
      exact h y (take_drop_subset held i hy)
  | case3 held i x hx hlt hown ih =>
    apply ih
    obtain ⟨_, rfl⟩ := List.getElem?_eq_some_iff.mp hx
    rw [List.take_succ_eq_append_getElem hlt]
    intro y hy
    obtain hy | hy := List.mem_append.mp hy
    · exact h y hy
    · exact List.mem_singleton.mp hy ▸ hown

theorem perm_dropOwned_zero (name : CString) (held : List Inhibition) :
    (dropOwned name held 0).Perm (held.filter (·.owner ≠ name)) := by
  apply dropOwned_perm
  simp

structure State.Inv (st : State) : Prop where
  nodup : (st.held.map Inhibition.cookie).Nodup
  below : ∀ x ∈ st.held, x.cookie < st.nextCookie
  pos : 0 < st.nextCookie

def Message.asks (msg : Message) (x : Inhibition) : Prop :=
  msg.calls iface "Inhibit" ∧ msg.sender.getD .empty = x.owner ∧
    ∃ rest, msg.args = .string x.app :: .string x.reason :: rest

def Message.releases (msg : Message) (x : Inhibition) : Prop :=
  (msg.calls iface "UnInhibit" ∧ msg.sender = some x.owner ∧
    ∃ rest, msg.args = .uint32 x.cookie :: rest) ∨ msg.departed = some x.owner

@[simp] theorem held_updateHold (w : World) (st : State) : (updateHold w st).held = st.held := by
  unfold updateHold
  split_ifs <;> rfl

@[simp] theorem nextCookie_updateHold (w : World) (st : State) :
    (updateHold w st).nextCookie = st.nextCookie := by
  unfold updateHold
  split_ifs <;> rfl

def State.Holds (st : State) : Prop := st.hold = true ↔ st.held ≠ []

theorem holds_updateHold {w : World} (hw : w.answers "INHIBIT\n" "OK" = true) (st : State) :
    (updateHold w st).Holds := by
  unfold updateHold State.Holds
  split_ifs with h₁ h₂
  · simp [hw, h₁.1]
  · simp [h₂.1]
  · by_cases hheld : st.held = []
    · simpa [hheld] using h₂
    · simpa [hheld] using h₁

theorem calls_iff (msg : Message) (interface member : String) :
    msg.calls interface member = true ↔ msg.atPath = true ∧ msg.type = .methodCall ∧
      msg.member = some (.ofString member) ∧
      (msg.interface = none ∨ msg.interface = some (.ofString interface)) := by
  simp [Message.calls, Message.is, and_assoc]

theorem calls_ne {msg : Message} (h : msg.calls i m = true)
    (hne : CString.ofString m ≠ .ofString m') (j : String) : msg.calls j m' = false := by
  rw [calls_iff] at h
  rw [← Bool.not_eq_true, calls_iff, h.2.2.1]
  rintro ⟨-, -, hm, -⟩
  exact hne (Option.some.inj hm)

theorem departed_of_calls {msg : Message} (h : msg.calls i m = true) : msg.departed = none := by
  rw [calls_iff] at h
  simp [Message.departed, Message.is, h.2.1]

inductive Handled (w : World) (st : State) (msg : Message) : State × Option Reply → Prop
  | gone (name : CString) : msg.departed = some name →
      Handled w st msg (updateHold w { st with held := dropOwned name st.held 0 }, none)
  | granted (x : Inhibition) (st' : State) : msg.asks x → x.cookie = st.nextCookie →
      st'.held = st.held ++ [x] → st'.nextCookie = cookieAfter st.nextCookie →
      Handled w st msg (updateHold w st', some (.cookie x.cookie))
  | released (i : Nat) (hi : i < st.held.length) : msg.releases st.held[i] → msg.departed = none →
      Handled w st msg (updateHold w { st with held := drop st.held i }, some .done)
  | kept (reply : Option Reply) : (∀ x ∈ st.held, ¬ msg.releases x) →
      (∀ c, reply ≠ some (.cookie c)) → Handled w st msg (st, reply)

section Handled

variable {w : World} {st : State} {msg : Message}

theorem handled_inhibit (hpos : 0 < st.nextCookie) (h : msg.calls iface "Inhibit" = true) :
    Handled w st msg ((inhibit w st msg).map id some) := by
  have hkept : ∀ x ∈ st.held, ¬ msg.releases x := by
    have hun := calls_ne h (by decide : _ ≠ CString.ofString "UnInhibit") iface
    simp [Message.releases, departed_of_calls h, hun]
  unfold inhibit
  split
  · next app reason rest hargs =>
    by_cases hfull : st.held.length = st.size ∧ !w.memory
    · rw [add, if_pos hfull]
      exact .kept (some (.noMemory "out of memory")) hkept (by simp)
    · rw [add, if_neg hfull]
      simp only [Ne.symm (UInt32.ne_of_lt hpos), if_false]
      exact .granted ⟨st.nextCookie, msg.sender.getD .empty, app, reason⟩ _ ⟨h, rfl, rest, hargs⟩ rfl rfl rfl
  · exact .kept _ hkept (by simp)

theorem handled_unInhibit (h : msg.calls iface "UnInhibit" = true) :
    Handled w st msg ((unInhibit w st msg).map id some) := by
  have hname := departed_of_calls h
  unfold unInhibit
  split
  · next cookie rest hargs =>
    split
    · next hnone =>
      rw [List.findIdx?_eq_none_iff] at hnone
      apply Handled.kept _ _ (by simp)
      rintro x hx (⟨-, hsender, rest', hargs'⟩ | hgone)
      · obtain ⟨rfl, -⟩ : cookie = x.cookie ∧ rest = rest' := by simpa [hargs] using hargs'
        simpa [hsender] using hnone x hx
      · simp [hname] at hgone
    · next i hsome =>
      obtain ⟨hi, hx, -⟩ := List.findIdx?_eq_some_iff_getElem.mp hsome
      simp only [Bool.and_eq_true, decide_eq_true_eq] at hx
      exact .released i hi (.inl ⟨h, hx.2, rest, hx.1 ▸ hargs⟩) hname
  · next hargs =>
    apply Handled.kept _ _ (by simp)
    rintro x hx (⟨-, -, rest', hargs'⟩ | hgone)
    · exact hargs x.cookie rest' hargs'
    · simp [hname] at hgone

theorem handleMessage_calls (h : msg.calls iface member = true)
    (hne : CString.ofString member ≠ .ofString "Introspect") : handleMessage w st msg =
      if msg.calls iface "Inhibit" then (inhibit w st msg).map id some
      else if msg.calls iface "UnInhibit" then (unInhibit w st msg).map id some else handleMessage w st msg := by
  obtain ⟨hpath, htype, hmember, -⟩ := (calls_iff _ _ _).mp h
  have hintro := calls_ne h hne "org.freedesktop.DBus.Introspectable"
  split_ifs with hin hun
  · simp [handleMessage, Message.is, hpath, htype, hmember, hin, hintro]
  · simp [handleMessage, Message.is, hpath, htype, hmember, hin, hun, hintro]
  · rfl

theorem handled (w : World) (hpos : 0 < st.nextCookie) (msg : Message) :
    Handled w st msg (handleMessage w st msg) := by
  have hset (c : UInt32) : setActive w msg ≠ .cookie c := by
    unfold setActive
    split <;> simp
  by_cases hin : msg.calls iface "Inhibit" = true
  · rw [handleMessage_calls hin (by decide), if_pos hin]
    exact handled_inhibit hpos hin
  by_cases hun : msg.calls iface "UnInhibit" = true
  · rw [handleMessage_calls hun (by decide), if_neg hin, if_pos hun]
    exact handled_unInhibit hun
  cases hname : msg.departed with
  | some name =>
    have hsignal : msg.is .signal "org.freedesktop.DBus" "NameOwnerChanged" = true := by
      by_contra hno
      simp [Message.departed, hno] at hname
    rw [handleMessage, if_pos hsignal, hname]
    exact .gone name hname
  | none =>
    have hkept : ∀ x ∈ st.held, ¬ msg.releases x := by simp [Message.releases, hname, hun]
    simp only [handleMessage, hname]
    split_ifs
    all_goals exact .kept _ hkept (by simp [hset])

variable {r : State × Option Reply}

theorem Handled.mem_iff (hinv : st.Inv) (h : Handled w st msg r) (x : Inhibition) : x ∈ r.1.held ↔
      x ∈ st.held ∧ ¬ msg.releases x ∨ r.2 = some (.cookie x.cookie) ∧ msg.asks x := by
  cases h with
  | gone name hname =>
    have hcalls : msg.calls iface "UnInhibit" = false := by
      by_contra hcalls
      simp [departed_of_calls (Bool.not_eq_false _ ▸ hcalls)] at hname
    have hreleases : msg.releases x ↔ x.owner = name := by
      simp [Message.releases, hcalls, hname, eq_comm (a := name)]
    have hperm := perm_dropOwned_zero name st.held
    rw [held_updateHold, hperm.mem_iff, hreleases]
    simp
  | granted y st' hasks hcookie hheld hnext =>
    have hun := calls_ne hasks.1 (by decide : _ ≠ CString.ofString "UnInhibit") iface
    have hkept : ¬ msg.releases x := by simp [Message.releases, departed_of_calls hasks.1, hun]
    rw [held_updateHold, hheld, List.mem_append, List.mem_singleton]
    apply or_congr (by simp [hkept])
    constructor
    · rintro rfl
      exact ⟨rfl, hasks⟩
    · rintro ⟨hcookie', hx⟩
      obtain ⟨-, howner, rest, hargs⟩ := hasks
      obtain ⟨-, howner', rest', hargs'⟩ := hx
      cases x
      cases y
      simp_all
  | released i hi hreleases hname =>
    rw [held_updateHold, mem_drop hi (hinv.nodup.of_map _)]
    simp only [Option.some.injEq, reduceCtorEq, false_and, or_false]
    apply and_congr_right
    intro hx
    have hinj := List.inj_on_of_nodup_map hinv.nodup hx (List.getElem_mem hi)
    simp only [Message.releases, hname] at hreleases ⊢
    grind
  | kept reply hkept hreply =>
    simp only [hreply, false_and, or_false]
    exact ⟨fun hx => ⟨hx, hkept x hx⟩, And.left⟩

theorem lt_cookieAfter {c : UInt32} (h : c.toNat < 2 ^ 32 - 1) :
    c < cookieAfter c ∧ (cookieAfter c).toNat = c.toNat + 1 := by
  have hnext : (c + 1).toNat = c.toNat + 1 := by
    rw [UInt32.toNat_add, UInt32.toNat_one]
    omega
  have hne : c + 1 ≠ 0 := by
    intro hzero
    simp [hzero] at hnext
  rw [cookieAfter, if_neg hne]
  exact ⟨UInt32.lt_iff_toNat_lt.mpr (by omega), hnext⟩

theorem State.Inv.sublist {st' : State} (hinv : st.Inv) {held : List Inhibition}
    (hsub : held.Sublist st.held) (hperm : st'.held.Perm held) (hnext : st'.nextCookie = st.nextCookie) :
    st'.Inv := by
  refine ⟨?_, fun x hx => ?_, hnext ▸ hinv.pos⟩
  · exact (hperm.map _).nodup_iff.mpr (hinv.nodup.sublist (hsub.map _))
  · exact hnext ▸ hinv.below x (hsub.subset (hperm.mem_iff.mp hx))

theorem Handled.inv (hinv : st.Inv) (h : Handled w st msg r)
    (hroom : msg.calls iface "Inhibit" = true → st.nextCookie.toNat < 2 ^ 32 - 1) :
    r.1.Inv ∧ r.1.nextCookie.toNat ≤ st.nextCookie.toNat + (msg.calls iface "Inhibit").toNat := by
  cases h with
  | gone name hname =>
    have hperm := perm_dropOwned_zero name st.held
    exact ⟨hinv.sublist List.filter_sublist (by simpa using hperm) (by simp), by simp⟩
  | granted y st' hasks hcookie hheld hnext =>
    obtain ⟨hlt, hsucc⟩ := lt_cookieAfter (hroom hasks.1)
    have hfresh (x : Inhibition) (hx : x ∈ st.held) : x.cookie ≠ y.cookie :=
      hcookie ▸ UInt32.ne_of_lt (hinv.below x hx)
    refine ⟨⟨?_, ?_, ?_⟩, ?_⟩
    · simpa [hheld, List.nodup_append, hinv.nodup] using hfresh
    · simp only [held_updateHold, nextCookie_updateHold, hheld, hnext, List.mem_append,
        List.mem_singleton]
      rintro x (hx | rfl)
      · exact UInt32.lt_trans (hinv.below x hx) hlt
      · exact hcookie ▸ hlt
    · simpa [hnext] using UInt32.lt_trans hinv.pos hlt
    · simp [hnext, hsucc, hasks.1]
  | released i hi hreleases hname =>
    exact ⟨hinv.sublist (List.eraseIdx_sublist _ i) (by simpa using drop_perm hi) (by simp), by simp⟩
  | kept reply hkept hreply => exact ⟨hinv, Nat.le_add_right _ _⟩

theorem Handled.holds (hw : w.answers "INHIBIT\n" "OK" = true) (hst : st.Holds)
    (h : Handled w st msg r) : r.1.Holds := by
  cases h with
  | gone | granted | released => exact holds_updateHold hw _
  | kept => exact hst

end Handled

def Outstanding (trace : List (Message × Option Reply)) (x : Inhibition) : Prop :=
  ∃ before msg after, trace = before ++ (msg, some (.cookie x.cookie)) :: after ∧ msg.asks x ∧
    ∀ m ∈ after, ¬ m.1.releases x

theorem outstanding_cons (msg : Message) (reply : Option Reply) (trace : List (Message × Option Reply))
    (x : Inhibition) : Outstanding ((msg, reply) :: trace) x ↔
      reply = some (.cookie x.cookie) ∧ msg.asks x ∧ (∀ m ∈ trace, ¬ m.1.releases x) ∨
        Outstanding trace x := by
  constructor
  · rintro ⟨before, msg', after, htrace, hasks, hafter⟩
    cases before with
    | nil =>
      obtain ⟨⟨rfl, rfl⟩, rfl⟩ : (msg = msg' ∧ reply = some (.cookie x.cookie)) ∧ trace = after := by
        simpa using htrace
      exact .inl ⟨rfl, hasks, hafter⟩
    | cons m before =>
      exact .inr ⟨before, msg', after, (List.cons.inj htrace).2, hasks, hafter⟩
  · rintro (⟨rfl, hasks, hafter⟩ | ⟨before, msg', after, rfl, hasks, hafter⟩)
    · exact ⟨[], msg, trace, rfl, hasks, hafter⟩
    · exact ⟨(msg, reply) :: before, msg', after, rfl, hasks, hafter⟩

def inhibits (msgs : List (World × Message)) : Nat := msgs.countP fun m => m.2.calls iface "Inhibit"

theorem run_spec {st : State} (hinv : st.Inv) (msgs : List (World × Message))
    (hroom : st.nextCookie.toNat + inhibits msgs < 2 ^ 32) :
    (run st msgs).1.Inv ∧
    (∀ x, x ∈ (run st msgs).1.held ↔
      x ∈ st.held ∧ (∀ m ∈ (run st msgs).2, ¬ m.1.releases x) ∨ Outstanding (run st msgs).2 x) ∧
    ((∀ m ∈ msgs, m.1.answers "INHIBIT\n" "OK" = true) → st.Holds → (run st msgs).1.Holds) := by
  induction msgs generalizing st with
  | nil => exact ⟨hinv, by simp [run, Outstanding], fun _ h => h⟩
  | cons m msgs ih =>
    obtain ⟨w, msg⟩ := m
    have hstep := handled w hinv.pos msg
    rw [inhibits, List.countP_cons] at hroom
    obtain ⟨hinv', hnext⟩ := hstep.inv hinv fun h => by simp [h] at hroom; omega
    have hroom' : (handleMessage w st msg).1.nextCookie.toNat + inhibits msgs < 2 ^ 32 := by
      cases h : msg.calls iface "Inhibit" <;> simp [h, inhibits] at hroom hnext ⊢ <;> omega
    obtain ⟨hlast, hmem, hholds⟩ := ih hinv' hroom'
    refine ⟨hlast, fun x => ?_, fun hw hst => ?_⟩
    · simp only [run, hmem, hstep.mem_iff hinv, outstanding_cons, List.forall_mem_cons]
      tauto
    · rw [List.forall_mem_cons] at hw
      exact hholds hw.2 (hstep.holds hw.1 hst)

/-- The service holds exactly what it granted and nobody ended, and keeps idle off just while it does. -/
theorem run_held (msgs : List (World × Message)) (hcalls : inhibits msgs < 2 ^ 32 - 1) :
    (∀ x, x ∈ (run .init msgs).1.held ↔ Outstanding (run .init msgs).2 x) ∧
    ((run .init msgs).1.held.map Inhibition.cookie).Nodup ∧
    ((∀ m ∈ msgs, m.1.answers "INHIBIT\n" "OK" = true) →
      ((run .init msgs).1.hold = true ↔ (run .init msgs).1.held ≠ [])) := by
  have hinit : State.init.Inv := ⟨List.nodup_nil, List.forall_mem_nil _, by decide⟩
  obtain ⟨hinv, hmem, hholds⟩ := run_spec hinit msgs (by simp [State.init]; omega)
  refine ⟨fun x => ?_, hinv.nodup, fun hw => hholds hw (by simp [State.Holds, State.init])⟩
  rw [hmem x]
  simp [State.init]

def accepting : World := ⟨true, fun _ => some (.ofString "OK\n")⟩

def call (member sender : String) (args : List Arg) : World × Message :=
  (accepting, ⟨.methodCall, some (.ofString "/ScreenSaver"), some (.ofString iface), some (.ofString member),
    some (.ofString sender), args⟩)

def leaves (name : String) : World × Message :=
  (accepting, ⟨.signal, none, some (.ofString "org.freedesktop.DBus"), some (.ofString "NameOwnerChanged"), none,
    [.string (.ofString name), .string (.ofString name), .string .empty]⟩)

/-- Three players; the first ends its inhibition and the second leaves the bus. -/
def playing : List (World × Message) :=
  [call "Inhibit" ":1.7" [.string (.ofString "player"), .string (.ofString "video")],
    call "Inhibit" ":1.8" [.string (.ofString "player"), .string (.ofString "video")],
    call "Inhibit" ":1.9" [.string (.ofString "reader"), .string (.ofString "aloud")],
    call "UnInhibit" ":1.7" [.uint32 1], leaves ":1.8"]

theorem run_held_playing :
    inhibits playing < 2 ^ 32 - 1 ∧ (∀ m ∈ playing, m.1.answers "INHIBIT\n" "OK" = true) ∧
    (run .init playing).2.map Prod.snd = [some (.cookie 1), some (.cookie 2), some (.cookie 3), some .done, none] ∧
    (∀ x, x ∈ (run .init playing).1.held ↔ Outstanding (run .init playing).2 x) ∧
    ((run .init playing).1.hold = true ↔ (run .init playing).1.held ≠ []) :=
  have hcalls : inhibits playing < 2 ^ 32 - 1 := by decide
  have hanswers : ∀ m ∈ playing, m.1.answers "INHIBIT\n" "OK" = true := by decide
  have hheld := run_held playing hcalls
  ⟨hcalls, hanswers, by decide, hheld.1, hheld.2.2 hanswers⟩

end StainedGlass.Power
