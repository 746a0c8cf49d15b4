import StainedGlass.Net.Wifi

namespace StainedGlass.Net.Wifi

open Lib

variable {σ : Type} {M : Manager σ} {u : Unicode} {decode : Bytes → Str} {uuidOf : Str → Option Uuid} {env : Env}
  {opts : Opts} {secret : Option Str} {s : Store σ} {t : Target}

/-- What is documented of the commands, for a profile in the file of its own name: a load makes NetworkManager
aware of the file as it is now, and a connection that is deleted is gone with its file. -/
structure Manager.Documented (M : Manager σ) (uuidOf : Str → Option Uuid) : Prop where
  latest : ∀ uuid old text s, s.files (fileName uuid) = some old → uuidOf old = some uuid → uuidOf text = some uuid →
    M.load (fileName uuid) s = s.state →
    M.load (fileName uuid) { s with state := M.load (fileName uuid) (s.put (fileName uuid) text) } = s.state
  gone : ∀ uuid text s, s.files (fileName uuid) = none → M.has s.state uuid = false → uuidOf text = some uuid →
    M.load (fileName uuid) s = s.state →
    M.delete uuid (M.loaded (fileName uuid) (s.put (fileName uuid) text)) = s

/-- NetworkManager is aware of the profile's file, which is the profile's; a new one has a name of its own. -/
structure Target.Fits (M : Manager σ) (uuidOf : Str → Option Uuid) (s : Store σ) (t : Target) : Prop where
  reads : uuidOf t.text = some t.uuid
  aware : M.load t.path s = s.state
  own : ∀ old ∈ s.files t.path, uuidOf old = some t.uuid
  fresh : t.saved = false → M.has s.state t.uuid = false ∧ s.files t.path = none

def Env.Undoes (env : Env) (s : Store σ) (t : Target) : Prop :=
  match s.files t.path with
  | none => t.saved = false ∧ env.delete.takes = true
  | some old =>
    match env.putBack with
    | none => env.reload.takes = true ∨ old = t.text
    | some left => left = old ∧ old = t.text

/-- Whatever is written is loaded, or was there before; and where the network is not joined
then, it is undone. -/
def Env.Restores (u : Unicode) (env : Env) (s : Store σ) (t : Target) : Prop :=
  (t.saved = true → (s.files t.path).isSome → env.readable = true) → env.writable = true →
    (env.load.trouble u true ≠ none → s.files t.path = some t.text) ∧
      (env.load.trouble u true = none → env.activate.trouble u true ≠ none → env.Undoes s t)

theorem Store.put_self (h : s.files name = some text) : s.put name text = s := by
  apply Store.ext
  · funext n
    by_cases hn : n = name <;> simp [Store.put, hn, h]
  · rfl

theorem Store.unlink_self (h : s.files name = none) : s.unlink name = s := by
  apply Store.ext
  · funext n
    by_cases hn : n = name <;> simp [Store.unlink, hn, h]
  · rfl

theorem loaded_self (h : t.Fits M uuidOf s) : M.loaded t.path s = s := Store.ext rfl h.aware

theorem put_loaded (h : s.files t.path = some old) :
    (M.loaded t.path (s.put t.path t.text)).put t.path old = { s with state := M.load t.path (s.put t.path t.text) } := by
  apply Store.ext
  · funext n
    by_cases hn : n = t.path <;> simp [Store.put, Manager.loaded, hn, h]
  · rfl

variable {r : Reply} {f : Store σ → Store σ}

theorem Reply.takes_of_trouble (h : r.trouble u true = none) : r.takes = true := by
  cases r with
  | done => rfl
  | refused stderr => simp [Reply.trouble] at h
  | silent takes => cases h
  | missing => cases h

theorem ends_nmcli : (nmcli u check r f).Ends x Q E ↔ (r.trouble u check = none → Q () (if r.takes then f x else x)) ∧
        ∀ e, r.trouble u check = some e → E (.fail e) (if r.takes then f x else x) := by
  rw [Act.Ends, nmcli]
  cases r.trouble u check with
  | none => simp
  | some e => simp

theorem ends_readOld : (readOld env t).Ends s Q E ↔ ((t.saved = true → (s.files t.path).isSome → env.readable = true) →
        Q (if t.saved then s.files t.path else none) s) ∧
      (¬ (t.saved = true → (s.files t.path).isSome → env.readable = true) → E .crash s) := by
  rw [Act.Ends, readOld]
  cases t.saved with
  | false => simp
  | true =>
    cases s.files t.path with
    | none => simp
    | some old =>
      cases env.readable with
      | true => simp
      | false => simp

theorem forget_new (hM : M.Documented uuidOf) (h : t.Fits M uuidOf s) (hsaved : t.saved = false)
    (hdelete : env.delete.takes = true) :
    (forget u M env t none).Ends (M.loaded t.path (s.put t.path t.text)) (fun _ x => x = s) (fun _ x => x = s) := by
  obtain ⟨hhas, hfile⟩ := h.fresh hsaved
  rw [forget, Act.ends_bind, ends_nmcli, hdelete, if_pos rfl, Target.path, hM.gone _ _ _ hfile hhas h.reads h.aware]
  refine ⟨fun _ => ?_, fun _ _ => rfl⟩
  rw [Act.ends_op]
  refine ⟨fun _ => ?_, fun _ h => nomatch h⟩
  split
  · exact Store.unlink_self hfile
  · rfl

theorem forget_saved (hM : M.Documented uuidOf) (h : t.Fits M uuidOf s) (hfile : s.files t.path = some old)
    (hundoes : env.Undoes s t) :
    (forget u M env t (some old)).Ends (M.loaded t.path (s.put t.path t.text)) (fun _ x => x = s) (fun _ x => x = s) := by
  have hsame (heq : old = t.text) : ({ s with state := M.load t.path (s.put t.path t.text) } : Store σ) = s := by
    rw [Store.put_self (heq ▸ hfile), h.aware]
  rw [Env.Undoes, hfile] at hundoes
  rw [forget]
  cases hput : env.putBack with
  | some left =>
    simp only [hput] at hundoes
    obtain ⟨rfl, heq⟩ := hundoes
    simp only [Act.ends_bind, Act.ends_op, Act.ends_fail, put_loaded hfile]
    exact ⟨fun _ => hsame heq, fun _ h => by cases h⟩
  | none =>
    simp only [hput] at hundoes
    have hend : (if env.reload.takes then M.loaded t.path { s with state := M.load t.path (s.put t.path t.text) }
        else { s with state := M.load t.path (s.put t.path t.text) }) = s := by
      split
      · exact Store.ext rfl (hM.latest t.uuid old t.text s hfile (h.own old hfile) h.reads h.aware)
      · next hno => exact hsame (hundoes.resolve_left hno)
    rw [Act.ends_bind, Act.ends_op, ends_nmcli, put_loaded hfile, hend]
    exact ⟨fun _ => ⟨fun _ => rfl, fun _ _ => rfl⟩, fun _ h => by cases h⟩

theorem forget_undoes (hM : M.Documented uuidOf) (h : t.Fits M uuidOf s) (hundoes : env.Undoes s t) :
    (forget u M env t (if t.saved then s.files t.path else none)).Ends (M.loaded t.path (s.put t.path t.text))
      (fun _ x => x = s) (fun _ x => x = s) := by
  cases hfile : s.files t.path with
  | none =>
    rw [ite_self]
    rw [Env.Undoes, hfile] at hundoes
    exact forget_new hM h hundoes.1 hundoes.2
  | some old =>
    have hsaved : t.saved = true := by
      by_contra hnew
      have hnone := (h.fresh (by simpa using hnew)).2
      rw [hfile] at hnone
      cases hnone
    rw [if_pos hsaved]
    exact forget_saved hM h hfile hundoes

theorem join_unspoilt (hM : M.Documented uuidOf) (h : t.Fits M uuidOf s) (hrestores : env.Restores u s t) :
    (join u decode M env t).Ends s (fun _ _ => True) (fun _ x => x = s) := by
  rw [join, Act.ends_bind, ends_readOld]
  refine ⟨fun hread => ?_, fun _ => rfl⟩
  rw [Act.ends_bind, Act.ends_op]
  cases hwritable : env.writable with
  | false => simp
  | true =>
    obtain ⟨hload, hundo⟩ := hrestores hread hwritable
    refine ⟨fun _ => ?_, fun _ h => nomatch h⟩
    rw [Act.ends_bind, ends_nmcli]
    refine ⟨fun hdone => ?_, fun e htrouble => ?_⟩
    · rw [Reply.takes_of_trouble hdone, if_pos rfl]
      cases hactivate : env.activate.trouble u true with
      | none => trivial
      | some e =>
        dsimp only
        rw [Act.ends_bind]
        exact forget_undoes hM h (hundo hdone (by simp [hactivate]))
    · rw [Store.put_self (hload (by simp [htrouble])), loaded_self h, ite_self]

def lineUuid (text : Str) : Option Uuid :=
  (text.splitOn 10).findSome? fun l => if startsWith l (str "uuid=") then some (l.drop 5) else none

/-- NetworkManager with nothing of its own in memory. -/
def plain : Manager Unit where
  has _ _ := false
  load _ _ := ()
  delete uuid := Store.unlink (fileName uuid)

theorem plain_documented : plain.Documented lineUuid where
  latest _ _ _ _ _ _ _ _ := rfl
  gone uuid text s hfile _ _ _ := by
    apply Store.ext
    · funext n
      by_cases hn : n = fileName uuid <;> simp [plain, Manager.loaded, Store.unlink, Store.put, hn, hfile]
    · rfl

def nothingSaved : Store Unit := ⟨fun _ => none, ()⟩

def wrongKey : Env where
  radios := .ok [str "wlan0"]
  scan _ := .ok fun _ => some (str "wpa-psk")
  listing := .ok []
  fresh := str "b2"
  readable := true
  writable := true
  load := .done
  activate := .refused (str "Error: Secrets were required, but not provided.")
  delete := .done
  unlinks := true
  putBack := none
  reload := .done
  reason := str "no-secrets"

def toCafe : Opts := { ssidHex := some (str "43616665") }

def latin (b : Bytes) : Str := b.map UInt8.toNat

def notLoaded : Env := { wrongKey with load := .refused (str "Error: failed to load connection") }

end StainedGlass.Net.Wifi
