import Mathlib
import StainedGlass.Broker.Monitor

namespace StainedGlass.Broker

open Lib

def Call.request : Call → Option Request
  | .checkPasswordAs user pass logon =>
    if maxField ≤ user.bytes.length ∨ maxField ≤ pass.bytes.length then none
    else some (.pam user.toCString pass.toCString (if logon then some logonService else none))
  | .polkitRespond agent identity cookie =>
    if maxField ≤ cookie.bytes.length then none
    else some (.polkit agent identity cookie.toCString)
  | .spawn s => s.blob.map (.spawn s.uid)

inductive Fields where
  | pam (user pass : CString) (service : Option CString)
  | polkit (agent identity : UInt32) (cookie : CString)
  | spawn (uid : UInt32) (f : SpawnFields)
  deriving DecidableEq

def Call.fields : Call → Fields
  | .checkPasswordAs user pass logon =>
    .pam user.toCString pass.toCString (if logon then some logonService else none)
  | .polkitRespond agent identity cookie => .polkit agent identity cookie.toCString
  | .spawn s =>
    .spawn s.uid ⟨s.cwd, s.ticket, s.control, .decimal s.requester.toNat, s.args⟩

def Request.fields : Request → Option Fields
  | .pam user pass service => some (.pam user pass service)
  | .polkit agent identity cookie => some (.polkit agent identity cookie)
  | .spawn uid blob => (parseSpawn blob).map (.spawn uid)

theorem Spawn.blob_eq (s : Spawn) :
    s.blob =
      let all := pack (s.cwd :: s.ticket :: s.control :: .decimal s.requester.toNat :: s.args)
      if maxBlob < all.length then none else some all := by
  have hall : pack (s.cwd :: s.ticket :: s.control :: .decimal s.requester.toNat :: s.args) =
      pack [s.cwd, s.ticket, s.control, .decimal s.requester.toNat] ++ pack s.args :=
    (pack_append [_, _, _, _] s.args)
  have hargs : 0 < (pack s.args).length := by
    cases h : s.args with
    | nil => exact absurd h s.args_ne_nil
    | cons => simp only [pack_cons, List.length_append, CString.length_terminated]; omega
  rw [Spawn.blob, hall]
  simp only
  split
  · next hhead => rw [if_pos (by rw [List.length_append]; omega)]
  · next hhead => rw [foldlM_put s.args (by omega)]

theorem Spawn.blob_eq_some {s : Spawn} {blob : Bytes} (h : s.blob = some blob) :
    blob = pack (s.cwd :: s.ticket :: s.control :: .decimal s.requester.toNat :: s.args) ∧
      blob.length ≤ maxBlob := by
  rw [Spawn.blob_eq] at h
  simp only at h
  split at h
  · cases h
  · next hfit => exact ⟨(Option.some.inj h).symm, Option.some.inj h ▸ Nat.not_lt.mp hfit⟩

theorem parseSpawn_pack (cwd ticket control requester : CString) {args : List CString}
    (h : args ≠ []) :
    parseSpawn (pack (cwd :: ticket :: control :: requester :: args)) =
      some ⟨cwd, ticket, control, requester, args.take 254⟩ := by
  rw [parseSpawn, getLast?_pack]
  simp [unpack_pack, h]

def Call.argc : Call → Nat
  | .spawn s => s.args.length
  | _ => 0

theorem fields_request_iff {c : Call} {r : Request} (h : c.request = some r) :
    r.fields = some c.fields ↔ c.argc ≤ 254 := by
  cases c with
  | checkPasswordAs user pass logon =>
    rw [Call.request] at h
    split at h
    · cases h
    · cases h
      simp [Request.fields, Call.fields, Call.argc]
  | polkitRespond agent identity cookie =>
    rw [Call.request] at h
    split at h
    · cases h
    · cases h
      simp [Request.fields, Call.fields, Call.argc]
  | spawn s =>
    obtain ⟨blob, hblob, rfl⟩ := Option.map_eq_some_iff.mp h
    obtain ⟨rfl, -⟩ := s.blob_eq_some hblob
    rw [Request.fields, parseSpawn_pack _ _ _ _ s.args_ne_nil]
    simp [Call.fields, Call.argc]

theorem toNat_length (h : n < 2 ^ 32) : (UInt32.ofNat n).toNat = n :=
  UInt32.toNat_ofNat_of_lt' h

theorem ofNat_ne_mark (h : n < maxField) {mark : UInt32} (hmark : maxField ≤ mark.toNat) : UInt32.ofNat n ≠ mark := by
  have hlt : maxField < 2 ^ 32 := by decide
  rintro rfl
  rw [toNat_length (by omega)] at hmark
  omega

theorem takes_passwordRequest (service : Option CString) (user pass : CString)
    (hu : user.bytes.length < maxField) (hp : pass.bytes.length < maxField) :
    Proc.Takes (passwordRequest service (UInt32.ofNat user.bytes.length))
      (le32 (UInt32.ofNat pass.bytes.length) ++ (user.bytes ++ (pass.bytes ++ [])))
      (.act (.pam user pass service) reply) := by
  have hlt : maxField < 2 ^ 32 := by decide
  have hulen := toNat_length (show user.bytes.length < 2 ^ 32 by omega)
  have hplen := toNat_length (show pass.bytes.length < 2 ^ 32 by omega)
  refine Proc.Takes.read rfl ?_
  simp only [ofLe32_le32, hulen, hplen]
  rw [if_neg (by omega)]
  refine Proc.Takes.read rfl (Proc.Takes.read rfl ?_)
  rw [CString.ofBuffer_bytes, CString.ofBuffer_bytes]
  exact .refl

theorem takes_logon (h : Proc.Takes (passwordRequest (some logonService) ulen) bs Q) :
    Proc.Takes monitorLoop (le32 monitorLogonMark ++ (le32 ulen ++ bs)) Q := by
  refine Proc.Takes.read rfl ?_
  rw [ofLe32_le32, if_neg (by decide), if_neg (by decide), if_pos rfl]
  refine Proc.Takes.read rfl ?_
  rwa [ofLe32_le32]

theorem takes_plain (hn : n < maxField) (h : Proc.Takes (passwordRequest none (UInt32.ofNat n)) bs Q) :
    Proc.Takes monitorLoop (le32 (UInt32.ofNat n) ++ bs) Q := by
  refine Proc.Takes.read rfl ?_
  rwa [ofLe32_le32, if_neg (ofNat_ne_mark hn (by decide)), if_neg (ofNat_ne_mark hn (by decide)),
    if_neg (ofNat_ne_mark hn (by decide))]

theorem takes_polkit (agent identity : UInt32) (cookie : CString)
    (hc : cookie.bytes.length < maxField) :
    Proc.Takes monitorLoop
      (le32 monitorPolkitMark ++ (le32 agent ++ (le32 identity ++
        (le32 (UInt32.ofNat cookie.bytes.length) ++ (cookie.bytes ++ [])))))
      (.act (.polkit agent identity cookie) reply) := by
  have hlt : maxField < 2 ^ 32 := by decide
  have hclen := toNat_length (show cookie.bytes.length < 2 ^ 32 by omega)
  refine Proc.Takes.read rfl ?_
  rw [ofLe32_le32, if_neg (by decide), if_pos rfl]
  refine Proc.Takes.read rfl (Proc.Takes.read rfl (Proc.Takes.read rfl ?_))
  simp only [ofLe32_le32, hclen]
  rw [if_neg (by omega)]
  refine Proc.Takes.read rfl ?_
  rw [CString.ofBuffer_bytes]
  exact .refl

theorem takes_spawn (uid : UInt32) {blob : Bytes} (h : blob.length ≤ maxBlob) :
    Proc.Takes monitorLoop
      (le32 monitorSpawnMark ++ (le32 uid ++ (le32 (UInt32.ofNat blob.length) ++ (blob ++ []))))
      (.act (.spawn uid blob) reply) := by
  have hlt : maxBlob < 2 ^ 32 := by decide
  have hlen := toNat_length (show blob.length < 2 ^ 32 by omega)
  refine Proc.Takes.read rfl ?_
  rw [ofLe32_le32, if_pos rfl]
  refine Proc.Takes.read rfl (Proc.Takes.read rfl ?_)
  simp only [ofLe32_le32, hlen]
  rw [if_neg (by omega)]
  exact Proc.Takes.read rfl .refl

theorem takes_writes {c : Call} {writes : List Bytes} (h : c.writes = some writes) :
    ∃ r, c.request = some r ∧ Proc.Takes monitorLoop writes.flatten (.act r reply) := by
  cases c with
  | checkPasswordAs user pass logon =>
    simp only [Call.writes, toNat_length user.short, toNat_length pass.short] at h
    split at h
    · cases h
    · next hfit =>
      obtain rfl := Option.some.inj h
      have htake := takes_passwordRequest (if logon then some logonService else none)
        user.toCString pass.toCString (by omega) (by omega)
      refine ⟨_, by rw [Call.request, if_neg hfit], ?_⟩
      cases logon with
      | true => simpa using takes_logon htake
      | false => simpa using takes_plain (by omega) htake
  | polkitRespond agent identity cookie =>
    simp only [Call.writes, toNat_length cookie.short] at h
    split at h
    · cases h
    · next hfit =>
      obtain rfl := Option.some.inj h
      refine ⟨_, by rw [Call.request, if_neg hfit], ?_⟩
      simpa using takes_polkit agent identity cookie.toCString (by omega)
  | spawn s =>
    obtain ⟨blob, hblob, rfl⟩ := Option.map_eq_some_iff.mp h
    have hlen := (s.blob_eq_some hblob).2
    have hlt : maxBlob < 2 ^ 32 := by decide
    refine ⟨_, by rw [Call.request, hblob]; rfl, ?_⟩
    simpa [toNat_length (show blob.length < 2 ^ 32 by omega)] using takes_spawn s.uid hlen

theorem request_eq_none {c : Call} (h : c.writes = none) : c.request = none := by
  cases c with
  | checkPasswordAs user pass logon =>
    simp only [Call.writes, toNat_length user.short, toNat_length pass.short] at h
    simpa [Call.request] using h
  | polkitRespond agent identity cookie =>
    simp only [Call.writes, toNat_length cookie.short] at h
    simpa [Call.request] using h
  | spawn s => simpa [Call.writes, Call.request] using h

theorem gives_writes (writes : List Bytes) (P : Proc ι ρ) : Proc.Gives (writes.foldr .write P) writes.flatten P := by
  induction writes with
  | nil => exact .refl
  | cons b writes ih => exact Proc.Gives.write ih

inductive Follows : Event → Event → Prop
  | call : Follows (.returned ok) (.called c)
  | refuse : c.request = none → Follows (.called c) (.returned false)
  | act {c : Call} {r : Request} {ok : Bool} : c.request = some r →
      Follows (.called c) (.acted r ok)
  | answer : Follows (.acted r ok) (.returned ok)

inductive FollowsExactly : Event → Event → Prop
  | call : FollowsExactly (.returned ok) (.called c)
  | refuse : c.request = none → FollowsExactly (.called c) (.returned false)
  | act : r.fields = some c.fields → FollowsExactly (.called c) (.acted r ok)
  | answer : FollowsExactly (.acted r ok) (.returned ok)

structure Talk (R : Event → Event → Prop) (trace : List Event) : Prop where
  start : ∀ e ∈ trace.head?, ∃ c, e = .called c
  chain : trace.IsChain R

theorem Talk.snoc {trace : List Event} (h : Talk R trace)
    (hlast : trace.getLast? = some e) (hR : R e e') : Talk R (trace ++ [e']) where
  start := by
    cases trace with
    | nil => cases hlast
    | cons => exact h.start
  chain := List.isChain_append.mpr ⟨h.chain, .singleton _, by simpa [hlast] using hR⟩

def awake : Proc Request Ending → Proc Request Ending
  | .done .again => monitorLoop
  | M => M

inductive Phase (s : System) : Prop
  | idle (broker : s.broker = none) (waits : awake s.monitor = monitorLoop)
      (toMonitor : s.toMonitor = []) (toBroker : s.toBroker = [])
      (last : ∀ e ∈ s.trace.getLast?, ∃ ok, e = .returned ok)
  | sending (c : Call) (r : Request) (B : Proc Empty Bool) (unsent : Bytes)
      (request : c.request = some r) (broker : s.broker = some B)
      (gives : Proc.Gives B unsent c.awaiting)
      (takes : Proc.Takes (awake s.monitor) (s.toMonitor ++ unsent) (.act r reply))
      (toBroker : s.toBroker = []) (last : s.trace.getLast? = some (.called c))
  | replying (c : Call) (r : Request) (ok : Bool) (broker : s.broker = some c.awaiting)
      (monitor : s.monitor = reply (if ok then 1 else 0)) (toMonitor : s.toMonitor = [])
      (toBroker : s.toBroker = []) (last : s.trace.getLast? = some (.acted r ok))
  | replied (c : Call) (r : Request) (ok : Bool) (broker : s.broker = some c.awaiting)
      (waits : awake s.monitor = monitorLoop) (toMonitor : s.toMonitor = [])
      (toBroker : s.toBroker = [if ok then 1 else 0])
      (last : s.trace.getLast? = some (.acted r ok))
  | returning (e : Event) (ok : Bool) (broker : s.broker = some (.done ok))
      (waits : awake s.monitor = monitorLoop) (toMonitor : s.toMonitor = [])
      (toBroker : s.toBroker = []) (last : s.trace.getLast? = some e)
      (follows : Follows e (.returned ok))

structure Inv (s : System) : Prop where
  talk : Talk Follows s.trace
  phase : Phase s

theorem monitorLoop_eq : ∃ k, monitorLoop = .readFull 4 k := ⟨_, rfl⟩

theorem not_moves_of_waits (hM : awake M = monitorLoop) : ¬ Proc.Moves ⟨M, [], output⟩ ⟨M', input', output'⟩ := by
  obtain ⟨k, hk⟩ := monitorLoop_eq
  intro h
  generalize hp : (⟨M, [], output⟩ : Proc.Port Request Ending) = p at h
  cases h with
  | write b₁ b₂ => cases hp; rw [hk] at hM; cases hM
  | read c hc => simp only [Proc.Port.mk.injEq] at hp; exact hc (List.append_eq_nil_iff.mp hp.2.1.symm).1

theorem awake_cases (M : Proc Request Ending) :
    (M = .done .again ∧ awake M = monitorLoop) ∨ awake M = M := by
  cases M with
  | done e =>
    cases e with
    | again => exact .inl ⟨rfl, rfl⟩
    | exit => exact .inr rfl
  | writeFull => exact .inr rfl
  | readFull => exact .inr rfl
  | act => exact .inr rfl

theorem awake_act : awake (.act r k) = .act r k := rfl

theorem awake_of_takes (h : Proc.Takes M bs (.act r k)) : awake M = M := by
  cases h <;> rfl

theorem result_bit (c : Call) (ok : Bool) : c.result (if ok then 1 else 0) = ok := by
  cases c <;> cases ok <;> rfl

theorem awaiting_ne_writeFull (c : Call) (b : Bytes) (P : Proc Empty Bool) :
    c.awaiting ≠ .writeFull b P := nofun

theorem not_gives_done {c : Call} : ¬ Proc.Gives (.done ok) bs c.awaiting := nofun

section Steps

variable {s : System} (h : Inv s)

include h

theorem Inv.call (c : Call) (hb : s.broker = none) :
    Inv { s with broker := some c.proc, trace := s.trace ++ [.called c] } := by
  obtain ⟨htalk, hphase⟩ := h
  cases hphase with
  | idle _ waits toMonitor toBroker last =>
    have htalk' : Talk Follows (s.trace ++ [.called c]) := by
      cases hlast : s.trace.getLast? with
      | none =>
        obtain hnil := List.getLast?_eq_none_iff.mp hlast
        rw [hnil]
        exact ⟨by simp, .singleton _⟩
      | some e =>
        obtain ⟨ok, rfl⟩ := last e hlast
        exact htalk.snoc hlast .call
    refine ⟨htalk', ?_⟩
    cases hw : c.writes with
    | none =>
      exact .returning (.called c) false (by simp [Call.proc, hw]) waits toMonitor toBroker
        (by simp) (.refuse (request_eq_none hw))
    | some writes =>
      obtain ⟨r, hr, htakes⟩ := takes_writes hw
      refine .sending c r c.proc writes.flatten hr rfl ?_ ?_ toBroker (by simp)
      · simpa [Call.proc, hw] using gives_writes writes c.awaiting
      · simpa [waits, toMonitor] using htakes
  | sending c r B unsent request broker => simp [hb] at broker
  | replying c r ok broker => simp [hb] at broker
  | replied c r ok broker => simp [hb] at broker
  | returning e ok broker => simp [hb] at broker

theorem Inv.broker (hb : s.broker = some P) (hmove : Proc.Moves ⟨P, s.toBroker, s.toMonitor⟩ ⟨P', input, output⟩) :
    Inv { s with broker := some P', toBroker := input, toMonitor := output } := by
  obtain ⟨htalk, hphase⟩ := h
  refine ⟨htalk, ?_⟩
  generalize hp : (⟨P, s.toBroker, s.toMonitor⟩ : Proc.Port Empty Bool) = p at hmove
  cases hmove with
  | write b₁ b₂ hne =>
    simp only [Proc.Port.mk.injEq] at hp
    obtain ⟨rfl, hin, hout⟩ := hp
    cases hphase with
    | idle broker => simp [broker] at hb
    | sending c r B unsent request broker gives takes toBroker last =>
      obtain rfl := Option.some.inj (broker.symm.trans hb)
      obtain ⟨rest, rfl, hgives⟩ := gives.chunk (awaiting_ne_writeFull c)
      refine .sending c r _ rest request rfl hgives ?_ (hin ▸ toBroker) last
      simpa [← hout] using takes
    | replying c r ok broker => simp [broker, Call.awaiting] at hb
    | replied c r ok broker => simp [broker, Call.awaiting] at hb
    | returning e ok broker => simp [broker] at hb
  | @read n k input' output' chunk hne hle =>
    simp only [Proc.Port.mk.injEq] at hp
    obtain ⟨rfl, hin, hout⟩ := hp
    have hnonempty : s.toBroker ≠ [] := by simp [hin, hne]
    cases hphase with
    | idle broker => simp [broker] at hb
    | sending c r B unsent request broker gives takes toBroker => exact absurd toBroker hnonempty
    | replying c r ok broker monitor toMonitor toBroker => exact absurd toBroker hnonempty
    | replied c r ok broker waits toMonitor toBroker last =>
      obtain hB := Option.some.inj (broker.symm.trans hb)
      obtain ⟨rfl, rfl⟩ : chunk = [if ok then 1 else 0] ∧ input = [] := by
        rw [toBroker] at hin
        cases chunk with
        | nil => exact absurd rfl hne
        | cons x xs => simp_all
      cases hB
      refine .returning (.acted r ok) ok ?_ waits (hout ▸ toMonitor) rfl last .answer
      simp [Proc.read, result_bit]
    | returning e ok broker waits toMonitor toBroker => exact absurd toBroker hnonempty

theorem Inv.finish (hb : s.broker = some (.done ok)) :
    Inv { s with broker := none, trace := s.trace ++ [.returned ok] } := by
  obtain ⟨htalk, hphase⟩ := h
  cases hphase with
  | idle broker => simp [broker] at hb
  | sending c r B unsent request broker gives =>
    obtain rfl := Option.some.inj (broker.symm.trans hb)
    exact absurd gives not_gives_done
  | replying c r ok broker => simp [broker, Call.awaiting] at hb
  | replied c r ok broker => simp [broker, Call.awaiting] at hb
  | returning e ok' broker waits toMonitor toBroker last follows =>
    cases Option.some.inj (broker.symm.trans hb)
    exact ⟨htalk.snoc last follows, .idle rfl waits toMonitor toBroker (by simp)⟩

theorem Inv.monitor (hmove : Proc.Moves ⟨s.monitor, s.toMonitor, s.toBroker⟩ ⟨M', input, output⟩) :
    Inv { s with monitor := M', toMonitor := input, toBroker := output } := by
  obtain ⟨htalk, hphase⟩ := h
  refine ⟨htalk, ?_⟩
  cases hphase with
  | idle broker waits toMonitor => exact absurd (toMonitor ▸ hmove) (not_moves_of_waits waits)
  | replied c r ok broker waits toMonitor => exact absurd (toMonitor ▸ hmove) (not_moves_of_waits waits)
  | returning e ok broker waits toMonitor => exact absurd (toMonitor ▸ hmove) (not_moves_of_waits waits)
  | sending c r B unsent request broker gives takes toBroker last =>
    generalize hp : (⟨s.monitor, s.toMonitor, s.toBroker⟩ : Proc.Port Request Ending) = p at hmove
    cases hmove with
    | write b₁ b₂ hne =>
      simp only [Proc.Port.mk.injEq] at hp
      rw [hp.1] at takes
      cases takes.writeFull
    | @read n k _ _ chunk hne hle =>
      simp only [Proc.Port.mk.injEq] at hp
      obtain ⟨hM, hin, hout⟩ := hp
      rw [hM, hin, List.append_assoc] at takes
      have htakes := Proc.Takes.chunk takes hne hle
      refine .sending c r B unsent request broker gives ?_ (hout ▸ toBroker) last
      rwa [awake_of_takes htakes]
  | replying c r ok broker monitor toMonitor toBroker last =>
    generalize hp : (⟨s.monitor, s.toMonitor, s.toBroker⟩ : Proc.Port Request Ending) = p at hmove
    cases hmove with
    | write b₁ b₂ hne =>
      simp only [Proc.Port.mk.injEq] at hp
      obtain ⟨hM, hin, hout⟩ := hp
      rw [monitor] at hM
      have hsplit : [if ok then 1 else 0] = b₁ ++ b₂ := (Proc.writeFull.inj hM).1
      have hdone := (Proc.writeFull.inj hM).2
      obtain ⟨rfl, rfl⟩ : b₁ = [if ok then 1 else 0] ∧ b₂ = [] := by
        cases b₁ with
        | nil => exact absurd rfl hne
        | cons x xs => simp_all
      refine .replied c r ok broker ?_ (hin ▸ toMonitor) ?_ last
      · rw [← hdone]
        rfl
      · simp [← hout, toBroker]
    | read => 
      simp only [Proc.Port.mk.injEq] at hp
      rw [monitor] at hp
      cases hp.1

theorem Inv.act (ok : Bool) (hm : s.monitor = .act r k) :
    Inv { s with monitor := k (if ok then 1 else 0), trace := s.trace ++ [.acted r ok] } := by
  obtain ⟨htalk, hphase⟩ := h
  obtain ⟨kl, hloop⟩ := monitorLoop_eq
  cases hphase with
  | idle broker waits => rw [hm, hloop] at waits; cases waits
  | sending c r' B unsent request broker gives takes toBroker last =>
    rw [hm, awake_act] at takes
    obtain ⟨hnil, hact⟩ := takes.act
    cases hact
    obtain ⟨htoMonitor, rfl⟩ := List.append_eq_nil_iff.mp hnil
    obtain rfl := gives.eq_of_nil
    exact ⟨htalk.snoc last (.act request),
      .replying c r ok broker rfl htoMonitor toBroker (by simp)⟩
  | replying c r ok broker monitor => rw [hm] at monitor; cases monitor
  | replied c r ok broker waits => rw [hm, hloop] at waits; cases waits
  | returning e ok broker waits => rw [hm, hloop] at waits; cases waits

theorem Inv.loop (hm : s.monitor = .done .again) : Inv { s with monitor := monitorLoop } := by
  obtain ⟨htalk, hphase⟩ := h
  have hawake : awake s.monitor = awake monitorLoop := by rw [hm]; rfl
  refine ⟨htalk, ?_⟩
  cases hphase with
  | idle broker waits toMonitor toBroker last => exact .idle broker rfl toMonitor toBroker last
  | sending c r B unsent request broker gives takes toBroker last =>
    exact .sending c r B unsent request broker gives (hawake ▸ takes) toBroker last
  | replying c r ok broker monitor => rw [hm] at monitor; cases monitor
  | replied c r ok broker waits toMonitor toBroker last =>
    exact .replied c r ok broker rfl toMonitor toBroker last
  | returning e ok broker waits toMonitor toBroker last follows =>
    exact .returning e ok broker rfl toMonitor toBroker last follows

end Steps

theorem inv_init : Inv .init :=
  ⟨⟨by simp [System.init], .nil⟩, .idle rfl rfl rfl rfl (by simp [System.init])⟩

theorem inv_step (h : Inv s) (hs : Step db cfg s s') : Inv s' := by
  cases hs with
  | call c hb => exact h.call c hb
  | broker hb hmove => exact h.broker hb hmove
  | finish hb => exact h.finish hb
  | monitor hmove => exact h.monitor hmove
  | act ok hm _ => exact h.act ok hm
  | loop hm => exact h.loop hm

theorem Reachable.inv (h : Reachable db cfg s) : Inv s := by
  induction h with
  | refl => exact inv_init
  | tail _ hs ih => exact inv_step ih hs

section Completes

variable {db : Accounts} {cfg : Config} {s : System}

def Completes (db : Accounts) (cfg : Config) (s : System) : Prop :=
  ∃ s' more, Relation.ReflTransGen (Step db cfg) s s' ∧ s'.broker = none ∧
    s'.trace = s.trace ++ more ∧ ∀ c, .called c ∉ more

theorem Completes.of_steps {s' : System} (hs : Relation.ReflTransGen (Step db cfg) s s')
    (htrace : s'.trace = s.trace) (h : Completes db cfg s') : Completes db cfg s := by
  obtain ⟨t, more, ht, hb, hmore, hcalled⟩ := h
  exact ⟨t, more, hs.trans ht, hb, htrace ▸ hmore, hcalled⟩

def System.withBroker (s : System) (p : Proc.Port Empty Bool) : System :=
  { s with broker := some p.proc, toBroker := p.input, toMonitor := p.output }

def System.withMonitor (s : System) (p : Proc.Port Request Ending) : System :=
  { s with monitor := p.proc, toMonitor := p.input, toBroker := p.output }

theorem steps_withBroker (db : Accounts) (cfg : Config) (s : System) (h : Relation.ReflTransGen Proc.Moves p p') :
    Relation.ReflTransGen (Step db cfg) (s.withBroker p) (s.withBroker p') :=
  h.lift s.withBroker fun _ _ hmove => .broker rfl hmove

theorem steps_withMonitor (db : Accounts) (cfg : Config) (s : System) (h : Relation.ReflTransGen Proc.Moves p p') :
    Relation.ReflTransGen (Step db cfg) (s.withMonitor p) (s.withMonitor p') :=
  h.lift s.withMonitor fun _ _ hmove => .monitor hmove

theorem completes_returning (hb : s.broker = some (.done ok)) : Completes db cfg s :=
  ⟨_, [.returned ok], .single (.finish hb), rfl, rfl, by simp⟩

theorem completes_replied {c : Call} (hb : s.broker = some c.awaiting)
    (hin : s.toBroker = [b]) : Completes db cfg s := by
  have hmove : Proc.Moves ⟨c.awaiting, s.toBroker, s.toMonitor⟩
      ⟨.done (c.result b), [], s.toMonitor⟩ := by
    rw [hin]
    exact .read [b] (List.cons_ne_nil _ _) (Nat.le_refl 1)
  exact .of_steps (.single (.broker hb hmove)) rfl (completes_returning rfl)

theorem completes_replying {c : Call} (hb : s.broker = some c.awaiting)
    (hm : s.monitor = reply b) (hout : s.toBroker = []) : Completes db cfg s := by
  have hmove : Proc.Moves ⟨s.monitor, s.toMonitor, s.toBroker⟩ ⟨.done .again, s.toMonitor, [b]⟩ := by
    rw [hm, hout]
    exact .write [b] [] (List.cons_ne_nil _ _)
  exact .of_steps (.single (.monitor hmove)) rfl (completes_replied hb rfl)

theorem completes_acting {c : Call} (hb : s.broker = some c.awaiting)
    (hm : s.monitor = .act r reply) (hout : s.toBroker = []) : Completes db cfg s := by
  let s' : System := { s with monitor := reply 0, trace := s.trace ++ [.acted r false] }
  have hact : Step db cfg s s' := .act false hm (by simp)
  have hrest : Completes db cfg s' := completes_replying hb rfl hout
  obtain ⟨t, more, ht, hnone, hmore, hcalled⟩ := hrest
  refine ⟨t, .acted r false :: more, .head hact ht, hnone, by simp [hmore, s'], ?_⟩
  simpa using hcalled

theorem steps_to_act {c : Call} (hb : s.broker = some B) (hgives : Proc.Gives B unsent c.awaiting)
    (htakes : Proc.Takes (awake s.monitor) (s.toMonitor ++ unsent) (.act r reply)) :
    Relation.ReflTransGen (Step db cfg) s
      { s with broker := some c.awaiting, monitor := .act r reply, toMonitor := [] } := by
  have hsend : Relation.ReflTransGen (Step db cfg) s
      { s with broker := some c.awaiting, toMonitor := s.toMonitor ++ unsent } := by
    have := steps_withBroker db cfg s (hgives.moves s.toBroker s.toMonitor)
    simpa only [System.withBroker, ← hb] using this
  have hwake : Relation.ReflTransGen (Step db cfg)
      { s with broker := some c.awaiting, toMonitor := s.toMonitor ++ unsent }
      { s with broker := some c.awaiting, monitor := awake s.monitor,
               toMonitor := s.toMonitor ++ unsent } := by
    obtain ⟨hm, hawake⟩ | hawake := awake_cases s.monitor
    · rw [hawake]
      exact .single (.loop hm)
    · rw [hawake]
  have hread := htakes.moves [] s.toBroker
  rw [List.append_nil] at hread
  exact hsend.trans (hwake.trans (steps_withMonitor db cfg { s with broker := some c.awaiting } hread))

theorem Inv.completes (h : Inv s) : Completes db cfg s := by
  cases h.phase with
  | idle broker => exact ⟨s, [], .refl, broker, by simp, by simp⟩
  | sending c r B unsent request broker gives takes toBroker last =>
    exact .of_steps (steps_to_act broker gives takes) rfl (completes_acting rfl rfl toBroker)
  | replying c r ok broker monitor toMonitor toBroker last =>
    exact completes_replying broker monitor toBroker
  | replied c r ok broker waits toMonitor toBroker last => exact completes_replied broker toBroker
  | returning e ok broker => exact completes_returning broker

theorem Inv.monitor_ne_exit (h : Inv s) (code : Nat) : s.monitor ≠ .done (.exit code) := by
  obtain ⟨kl, hloop⟩ := monitorLoop_eq
  intro hm
  cases h.phase with
  | idle broker waits => rw [hm, hloop] at waits; cases waits
  | sending c r B unsent request broker gives takes =>
    rw [hm] at takes
    cases takes.done
  | replying c r ok broker monitor => rw [hm] at monitor; cases monitor
  | replied c r ok broker waits => rw [hm, hloop] at waits; cases waits
  | returning e ok broker waits => rw [hm, hloop] at waits; cases waits

end Completes

theorem followsExactly_iff (h : Follows e e') :
    FollowsExactly e e' ↔ ∀ c r ok, e = .called c → e' = .acted r ok → c.argc ≤ 254 := by
  cases h with
  | call => exact ⟨nofun, fun _ => .call⟩
  | refuse hr => exact ⟨nofun, fun _ => .refuse hr⟩
  | @act c r ok hr =>
    have hfields := fields_request_iff hr
    constructor
    · rintro (_ | _ | hf) c' r' ok' ⟨⟩ ⟨⟩
      exact hfields.mp hf
    · intro hargc
      exact .act (hfields.mpr (hargc c r ok rfl rfl))
  | answer => exact ⟨nofun, fun _ => .answer⟩

/-- However the bytes are cut, the monitor acts once on each call; the fields come over whole just when
no call had more than 254 arguments. -/
theorem monitor_exact_iff {db : Accounts} {cfg : Config} {s : System} (h : Reachable db cfg s) :
    Talk Follows s.trace ∧
      (Talk FollowsExactly s.trace ↔
        ∀ p c r ok q, s.trace = p ++ .called c :: .acted r ok :: q → c.argc ≤ 254) ∧
      (∀ code, s.monitor ≠ .done (.exit code)) ∧ Completes db cfg s := by
  have hinv := h.inv
  refine ⟨hinv.talk, ?_, hinv.monitor_ne_exit, hinv.completes⟩
  have hfollows := List.isChain_iff_forall_rel_of_append_cons_cons.mp hinv.talk.chain
  constructor
  · intro hexact p c r ok q htrace
    have hstep := List.isChain_iff_forall_rel_of_append_cons_cons.mp hexact.chain htrace
    exact (followsExactly_iff (hfollows htrace)).mp hstep c r ok rfl rfl
  · intro hargc
    refine ⟨hinv.talk.start, List.isChain_iff_forall_rel_of_append_cons_cons.mpr ?_⟩
    intro e e' p q htrace
    refine (followsExactly_iff (hfollows htrace)).mpr ?_
    rintro c r ok rfl rfl
    exact hargc p c r ok q htrace

theorem reachable_acted (db : Accounts) (cfg : Config) {c : Call} {r : Request}
    (hr : c.request = some r) (ok : Bool) (hok : ok → r.admitted db cfg) :
    ∃ s, Reachable db cfg s ∧ s.trace = [.called c, .acted r ok] := by
  cases hw : c.writes with
  | none => rw [request_eq_none hw] at hr; cases hr
  | some writes =>
    obtain ⟨r', hr', htakes⟩ := takes_writes hw
    obtain rfl := Option.some.inj (hr'.symm.trans hr)
    let s : System := { System.init with broker := some c.proc, trace := [.called c] }
    have hcall : Step db cfg .init s := .call c rfl
    have hgives : Proc.Gives c.proc writes.flatten c.awaiting := by
      simpa [Call.proc, hw] using gives_writes writes c.awaiting
    have hsteps : Relation.ReflTransGen (Step db cfg) s
        { s with broker := some c.awaiting, monitor := .act r' reply, toMonitor := [] } :=
      steps_to_act rfl hgives htakes
    exact ⟨_, .trans (.head hcall hsteps) (.single (.act ok rfl hok)), rfl⟩

section Dropped

def user : Passwd := ⟨.ofString "user", 1000, 1000, .ofString "/home/user", .ofString "/bin/sh"⟩

def users : Accounts where
  getpwnam n := if n = user.name then some user else none
  getpwuid u := if u = user.uid then some user else none
  getgrnam _ := none
  name_of_getpwnam h := by split at h <;> simp_all
  uid_of_getpwuid h := by split at h <;> simp_all

theorem monitor_exact_password :
    ∃ s, Reachable users {} s ∧ Completes users {} s ∧ s.trace =
      [.called (.checkPasswordAs ⟨.ofString "user", by decide⟩ ⟨.ofString "secret", by decide⟩ true),
        .acted (.pam (.ofString "user") (.ofString "secret") (some logonService)) true] := by
  obtain ⟨s, hs, htrace⟩ := reachable_acted users {}
    (c := .checkPasswordAs ⟨.ofString "user", by decide⟩ ⟨.ofString "secret", by decide⟩ true)
    rfl true fun _ => rfl
  exact ⟨s, hs, (monitor_exact_iff hs).2.2.2, htrace⟩

def spawnOf (n : Nat) : Spawn where
  uid := 1000
  cwd := .ofString "/"
  ticket := .ofString "00000000000000000000000000000000"
  control := .empty
  requester := 1000
  args := List.replicate n .empty ++ [.ofString "x"]
  args_ne_nil := by simp

theorem length_pack_replicate (n : Nat) : (pack (List.replicate n .empty)).length = n := by
  induction n with
  | zero => rfl
  | succ n ih => simp [List.replicate_succ, ih, Nat.add_comm]

theorem request_spawnOf (h : n ≤ 1000) : (Call.spawn (spawnOf n)).request = some (.spawn 1000 (pack ((spawnOf n).cwd ::
      (spawnOf n).ticket :: (spawnOf n).control :: .decimal 1000 :: (spawnOf n).args))) := by
  have hhead : (pack [(spawnOf n).cwd, (spawnOf n).ticket, (spawnOf n).control,
      .decimal (spawnOf n).requester.toNat]).length = 41 := by
    change (pack [.ofString "/", .ofString "00000000000000000000000000000000", .empty,
      .decimal 1000]).length = 41
    decide
  have hargs : (pack (spawnOf n).args).length = n + 2 := by
    rw [spawnOf, pack_append, List.length_append, length_pack_replicate]
    rfl
  have hmax : maxBlob = 65536 := rfl
  have hall := pack_append [(spawnOf n).cwd, (spawnOf n).ticket, (spawnOf n).control,
    .decimal (spawnOf n).requester.toNat] (spawnOf n).args
  rw [Call.request, Spawn.blob_eq]
  simp only
  rw [if_neg]
  · rfl
  · change ¬ maxBlob < (pack ([_, _, _, _] ++ _)).length
    rw [hall, List.length_append]
    omega

theorem monitor_drops_argument :
    ∃ s r f, Reachable users {} s ∧ s.trace = [.called (.spawn (spawnOf 254)), .acted r true] ∧
      r.fields = some (.spawn 1000 f) ∧ f.args = List.replicate 254 .empty ∧
      ¬ Talk FollowsExactly s.trace := by
  have hreq := request_spawnOf (show 254 ≤ 1000 by decide)
  have hparse := parseSpawn_pack (spawnOf 254).cwd (spawnOf 254).ticket (spawnOf 254).control
    (.decimal 1000) (spawnOf 254).args_ne_nil
  have hadmitted : (Request.spawn 1000 (pack ((spawnOf 254).cwd :: (spawnOf 254).ticket ::
      (spawnOf 254).control :: .decimal 1000 :: (spawnOf 254).args))).admitted users {} := by
    rw [Request.admitted, monitorSpawn, hparse]
    decide
  obtain ⟨s, hs, htrace⟩ := reachable_acted users {} hreq true fun _ => hadmitted
  refine ⟨s, _, _, hs, htrace, by rw [Request.fields, hparse]; rfl,
    List.take_left' List.length_replicate, ?_⟩
  intro hexact
  rw [htrace] at hexact
  cases List.isChain_pair.mp hexact.chain with
  | act hfields =>
    have hargc := (fields_request_iff hreq).mp hfields
    rw [Call.argc, spawnOf, List.length_append, List.length_replicate] at hargc
    exact absurd hargc (by decide)

end Dropped

end StainedGlass.Broker
