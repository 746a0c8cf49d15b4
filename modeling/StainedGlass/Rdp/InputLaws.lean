import StainedGlass.Rdp.Input

namespace StainedGlass.Rdp

theorem held_append (log : List Sent) (e : Sent) :
    held (log ++ [e]) = Function.update (held log) e.thing e.down := by
  simp [held]

def Clean (log : List Sent) : Prop :=
  ∀ before e after, log = before ++ e :: after → e.down = false → held before e.thing = true

theorem Clean.append {e : Sent} (h : Clean log)
    (he : e.down = false → held log e.thing = true) : Clean (log ++ [e]) := by
  intro before e' after heq hdown
  obtain rfl | ⟨after, last, rfl⟩ := after.eq_nil_or_concat
  · obtain ⟨rfl, hlast⟩ := List.append_inj' heq rfl
    obtain rfl := List.singleton_inj.mp hlast
    exact he hdown
  · have heq' : log ++ [e] = (before ++ e' :: after) ++ [last] := by simpa using heq
    exact h before e' after (List.append_inj' heq' rfl).1 hdown

namespace Input

def recorded (s : Input) : Thing → Bool
  | .key k => s.keysDown k
  | .button b => decide (btnLeft ≤ b) && s.buttonsDown.getLsbD (b - btnLeft)

structure Tracks (s : Input) : Prop where
  live : s.gone = false
  controls : s.viewOnly = false
  held : held s.log = s.recorded
  keys : ∀ k, s.keysDown k = true → 0 < k ∧ k < maxKeys
  buttons : ∀ b, s.buttonsDown.getLsbD b = true → b ≤ btnTask - btnLeft
  clean : Clean s.log

theorem tracks_start : Tracks start := by
  refine ⟨rfl, rfl, ?_, by simp [start], by simp [start], ?_⟩
  · funext t
    cases t <;> simp [start, Rdp.held, recorded]
  · intro before e after heq
    simp [start] at heq

variable {s : Input}

theorem sgStreamKey_of_invalid (h : ¬ (0 < k ∧ k < maxKeys)) (down : Bool) : s.sgStreamKey k down = s := by
  rw [sgStreamKey, if_pos]
  simp only [Bool.or_eq_true, beq_iff_eq, decide_eq_true_eq]
  omega

theorem sgStreamKey_of_valid (hs : s.Tracks) {k : Nat} (hk : 0 < k ∧ k < maxKeys) (down : Bool) :
    s.sgStreamKey k down = if down = false ∧ s.keysDown k = false then s else
      { s with
        keysDown := Function.update s.keysDown k down
        log := s.log ++ [⟨.key k, down⟩] } := by
  rw [sgStreamKey, if_neg]
  · simp
  · simp only [hs.live, hs.controls, Bool.or_eq_true, beq_iff_eq, decide_eq_true_eq,
      Bool.false_eq_true, false_or]
    omega

theorem recorded_update_key (s : Input) (k : Nat) (down : Bool) (log : List Sent) :
    recorded { s with keysDown := Function.update s.keysDown k down, log := log } =
      Function.update s.recorded (.key k) down := by
  funext t
  cases t with
  | key k' =>
    by_cases h : k' = k
    · subst h
      simp [recorded]
    · simp [recorded, h]
  | button b => simp [recorded]

theorem recorded_sgStreamKey (hs : s.Tracks) (hk : 0 < k ∧ k < maxKeys) (down : Bool) :
    (s.sgStreamKey k down).recorded = Function.update s.recorded (.key k) down := by
  rw [sgStreamKey_of_valid hs hk]
  split
  · next h =>
    rw [h.1, eq_comm, Function.update_eq_self_iff]
    exact h.2.symm
  · exact recorded_update_key s k down _

theorem Tracks.key (hs : s.Tracks) (k : Nat) (down : Bool) : (s.sgStreamKey k down).Tracks := by
  by_cases hk : 0 < k ∧ k < maxKeys
  · rw [sgStreamKey_of_valid hs hk]
    split
    · exact hs
    · next h =>
      refine ⟨hs.live, hs.controls, ?_, ?_, hs.buttons, ?_⟩
      · rw [held_append, hs.held, recorded_update_key]
      · intro k' hk'
        by_cases heq : k' = k
        · exact heq ▸ hk
        · exact hs.keys k' (by simpa [heq] using hk')
      · refine hs.clean.append fun hdown => ?_
        rw [hs.held]
        change down = false at hdown
        simpa [hdown, recorded] using h
  · rwa [sgStreamKey_of_invalid hk]

def bit (i : Nat) : BitVec 32 := 1#32 <<< i

theorem getLsbD_bit (hi : i < 32) (j : Nat) : (bit i).getLsbD j = decide (i = j) := by
  rw [bit, ← BitVec.twoPow_eq, BitVec.getLsbD_twoPow]
  simp [hi]

theorem and_bit_eq_zero (hi : i < 32) (x : BitVec 32) : (x &&& bit i == 0) = !x.getLsbD i := by
  rw [bit, ← BitVec.twoPow_eq, BitVec.and_twoPow]
  cases x.getLsbD i with
  | false => rfl
  | true =>
    have hne : BitVec.twoPow 32 i ≠ 0 := by
      intro h
      have := congrArg (fun y => y.getLsbD i) h
      simp [hi] at this
    simpa using hne

variable {b : Nat}

theorem sgStreamButton_of_invalid (h : ¬ (btnLeft ≤ b ∧ b ≤ btnTask))
    (down : Bool) : s.sgStreamButton b down = s := by
  rw [sgStreamButton, if_pos]
  simp only [Bool.or_eq_true, decide_eq_true_eq]
  omega

def setButton (s : Input) (b : Nat) (down : Bool) : Input :=
  { s with
    buttonsDown := if down then s.buttonsDown ||| bit (b - btnLeft)
      else s.buttonsDown &&& ~~~bit (b - btnLeft)
    log := s.log ++ [⟨.button b, down⟩] }

theorem sgStreamButton_of_valid (hs : s.Tracks) (hb : btnLeft ≤ b ∧ b ≤ btnTask) (down : Bool) :
    s.sgStreamButton b down =
      if down = false ∧ s.buttonsDown.getLsbD (b - btnLeft) = false then s else s.setButton b down := by
  have hi : b - btnLeft < 32 := by
    simp only [btnLeft, btnTask] at hb ⊢
    omega
  rw [sgStreamButton, if_neg]
  · change (if !down && s.buttonsDown &&& bit (b - btnLeft) == 0 then s else s.setButton b down) = _
    rw [and_bit_eq_zero hi]
    simp
  · simp only [hs.live, hs.controls, Bool.or_eq_true, decide_eq_true_eq, Bool.false_eq_true,
      false_or]
    omega

theorem getLsbD_setBit (hi : i < 32) (x : BitVec 32) (down : Bool) (j : Nat) :
    (if down then x ||| bit i else x &&& ~~~bit i).getLsbD j = if j = i then down else x.getLsbD j := by
  have hlt : x.getLsbD j = true → j < 32 := BitVec.lt_of_getLsbD
  by_cases hj : j = i
  · subst hj
    cases down <;> simp [getLsbD_bit hi]
  · have hne : i ≠ j := fun h => hj h.symm
    cases down with
    | false =>
      simp only [Bool.false_eq_true, if_false, BitVec.getLsbD_and, BitVec.getLsbD_not,
        getLsbD_bit hi, hne, hj, decide_false, Bool.not_false, Bool.and_true]
      cases hx : x.getLsbD j with
      | false => rfl
      | true => simp [hlt hx]
    | true => simp [getLsbD_bit hi, hne, hj]

theorem getLsbD_setButton (s : Input) (hb : btnLeft ≤ b ∧ b ≤ btnTask) (down : Bool)
    (j : Nat) : (s.setButton b down).buttonsDown.getLsbD j =
      if j = b - btnLeft then down else s.buttonsDown.getLsbD j := by
  have hi : b - btnLeft < 32 := by
    simp only [btnLeft, btnTask] at hb ⊢
    omega
  exact getLsbD_setBit hi s.buttonsDown down j

theorem recorded_setButton (s : Input) (hb : btnLeft ≤ b ∧ b ≤ btnTask) (down : Bool) :
    (s.setButton b down).recorded = Function.update s.recorded (.button b) down := by
  funext t
  cases t with
  | key k => simp [recorded, setButton]
  | button b' =>
    by_cases h : b' = b
    · subst h
      rw [Function.update_self]
      simp only [recorded]
      rw [getLsbD_setButton s hb, if_pos rfl, decide_eq_true hb.1, Bool.true_and]
    · rw [Function.update_of_ne (by simpa using h)]
      simp only [recorded]
      rw [getLsbD_setButton s hb]
      by_cases hle : btnLeft ≤ b'
      · rw [if_neg (by omega)]
      · rw [decide_eq_false hle, Bool.false_and, Bool.false_and]

theorem recorded_sgStreamButton (hs : s.Tracks) (hb : btnLeft ≤ b ∧ b ≤ btnTask) (down : Bool) :
    (s.sgStreamButton b down).recorded = Function.update s.recorded (.button b) down := by
  rw [sgStreamButton_of_valid hs hb]
  split
  · next h =>
    rw [h.1, eq_comm, Function.update_eq_self_iff]
    simp [recorded, h.2]
  · exact recorded_setButton s hb down

theorem Tracks.button (hs : s.Tracks) (b : Nat) (down : Bool) : (s.sgStreamButton b down).Tracks := by
  by_cases hb : btnLeft ≤ b ∧ b ≤ btnTask
  · rw [sgStreamButton_of_valid hs hb]
    split
    · exact hs
    · next h =>
      refine ⟨hs.live, hs.controls, ?_, hs.keys, ?_, ?_⟩
      · rw [setButton, held_append, hs.held]
        exact (recorded_setButton s hb down).symm
      · intro j hj
        rw [getLsbD_setButton s hb] at hj
        split at hj
        · omega
        · exact hs.buttons j hj
      · refine hs.clean.append fun hdown => ?_
        rw [hs.held]
        change down = false at hdown
        simpa [hdown, recorded, hb.1] using h
  · rwa [sgStreamButton_of_invalid hb]

theorem Tracks.typeKey (hs : s.Tracks) (level k : Nat) : (s.typeKey level k).Tracks := by
  rw [Input.typeKey]
  split
  · exact (((hs.key _ _).key _ _).key _ _).key _ _
  · exact (hs.key _ _).key _ _

theorem Tracks.unicode (hs : s.Tracks) (km : Keymap) (c : Nat) : (s.sgStreamUnicode km c).Tracks := by
  rw [sgStreamUnicode]
  split
  · exact hs
  · split
    · exact hs
    · exact hs.typeKey _ _

theorem recorded_press_release (hs : s.Tracks) (k : Nat) :
    ((s.sgStreamKey k true).sgStreamKey k false).recorded = Function.update s.recorded (.key k) false := by
  by_cases hk : 0 < k ∧ k < maxKeys
  · rw [recorded_sgStreamKey (hs.key k true) hk, recorded_sgStreamKey hs hk, Function.update_idem]
  · rw [sgStreamKey_of_invalid hk, sgStreamKey_of_invalid hk, eq_comm, Function.update_eq_self_iff]
    have := hs.keys k
    cases h : s.keysDown k with
    | false => exact h.symm
    | true => exact absurd (this h) hk

theorem recorded_typeKey (hs : s.Tracks) (level k : Nat) : (s.typeKey level k).recorded =
      if level = 0 then Function.update s.recorded (.key k) false
      else Function.update (Function.update s.recorded (.key k) false) (.key keyLeftShift) false := by
  have hshift : 0 < keyLeftShift ∧ keyLeftShift < maxKeys := by decide
  rw [Input.typeKey]
  by_cases hl : level = 0
  · simp only [hl, bne_self_eq_false, Bool.false_eq_true, if_false, if_true]
    exact recorded_press_release hs k
  · have hl' : (level != 0) = true := by simpa using hl
    simp only [hl', hl, if_true, if_false]
    rw [recorded_sgStreamKey (((hs.key _ _).key _ _).key _ _) hshift,
      recorded_press_release (hs.key _ _), recorded_sgStreamKey hs hshift]
    by_cases hk : k = keyLeftShift
    · subst hk
      rw [Function.update_idem, Function.update_idem, Function.update_idem]
    · have hne : (Thing.key k) ≠ .key keyLeftShift := by simpa using hk
      rw [Function.update_comm hne.symm, Function.update_idem]

def KeysFree (km : Keymap) (s : Input) (c : Nat) : Prop :=
  km.keysym c ≠ 0 → ∀ level kc, km.find (km.keysym c) = some (level, kc) →
    s.keysDown (evdevOf kc) = false ∧ (level ≠ 0 → s.keysDown keyLeftShift = false)

theorem update_false_eq_iff (f : Thing → Bool) (a b : Thing) :
    Function.update (Function.update f a false) b false = f ↔ f a = false ∧ f b = false := by
  constructor
  · intro h
    have hb := congrFun h b
    have ha := congrFun h a
    rw [Function.update_self] at hb
    by_cases hab : a = b
    · subst hab
      exact ⟨hb.symm, hb.symm⟩
    · rw [Function.update_of_ne hab, Function.update_self] at ha
      exact ⟨ha.symm, hb.symm⟩
  · rintro ⟨ha, hb⟩
    have hfa : Function.update f a false = f := Function.update_eq_self_iff.mpr ha.symm
    rw [hfa]
    exact Function.update_eq_self_iff.mpr hb.symm

theorem recorded_unicode_iff (hs : s.Tracks) (km : Keymap) (c : Nat) :
    (s.sgStreamUnicode km c).recorded = s.recorded ↔ KeysFree km s c := by
  rw [sgStreamUnicode, KeysFree]
  by_cases hsym : km.keysym c = 0
  · simp [hsym]
  · simp only [hs.live, hs.controls, Bool.false_or, beq_iff_eq, hsym, if_false, ne_eq,
      not_false_eq_true, forall_true_left]
    cases hfind : km.find (km.keysym c) with
    | none => simp
    | some p =>
      obtain ⟨level, kc⟩ := p
      simp only [Option.some.injEq, Prod.mk.injEq]
      rw [recorded_typeKey hs]
      by_cases hl : level = 0
      · rw [if_pos hl, Function.update_eq_self_iff]
        constructor
        · rintro h _ _ ⟨rfl, rfl⟩
          exact ⟨h.symm, fun hne => absurd hl hne⟩
        · intro h
          exact (h level kc ⟨rfl, rfl⟩).1.symm
      · rw [if_neg hl, update_false_eq_iff]
        constructor
        · rintro h _ _ ⟨rfl, rfl⟩
          exact ⟨h.1, fun _ => h.2⟩
        · intro h
          exact ⟨(h level kc ⟨rfl, rfl⟩).1, (h level kc ⟨rfl, rfl⟩).2 hl⟩

theorem Tracks.releaseKey (hs : s.Tracks) (k : Nat) : (s.releaseKey k).Tracks := by
  rw [Input.releaseKey]
  split
  · exact hs.key k false
  · exact hs

theorem recorded_releaseKey (hs : s.Tracks) (k : Nat) :
    (s.releaseKey k).recorded = Function.update s.recorded (.key k) false := by
  rw [Input.releaseKey]
  split
  · next h => exact recorded_sgStreamKey hs (hs.keys k h) false
  · next h =>
    rw [eq_comm, Function.update_eq_self_iff]
    simpa [recorded] using h

theorem Tracks.releaseButton (hs : s.Tracks) (b : Nat) : (s.releaseButton b).Tracks := by
  rw [Input.releaseButton]
  split
  · exact hs.button _ false
  · exact hs

theorem recorded_releaseButton (hs : s.Tracks) (hb : b < 32) :
    (s.releaseButton b).recorded = Function.update s.recorded (.button (btnLeft + b)) false := by
  have hbit : (s.buttonsDown &&& (1#32 <<< b) != 0) = s.buttonsDown.getLsbD b := by
    have := and_bit_eq_zero hb s.buttonsDown
    rw [bit] at this
    rw [bne, this, Bool.not_not]
  rw [Input.releaseButton, hbit]
  split
  · next h =>
    have hle := hs.buttons b h
    exact recorded_sgStreamButton hs ⟨Nat.le_add_right _ _, by
      simp only [btnLeft, btnTask] at hle ⊢
      omega⟩ false
  · next h =>
    rw [eq_comm, Function.update_eq_self_iff]
    simpa [recorded] using h

theorem releases (release : Input → Nat → Input) (thing : Nat → Thing) (ks : List Nat)
    (hrelease : ∀ k ∈ ks, ∀ s : Input, s.Tracks → (release s k).Tracks ∧
      (release s k).recorded = Function.update s.recorded (thing k) false)
    (hs : s.Tracks) :
    (ks.foldl release s).Tracks ∧ (∀ k ∈ ks, (ks.foldl release s).recorded (thing k) = false) ∧
      ∀ t, s.recorded t = false → (ks.foldl release s).recorded t = false := by
  induction ks generalizing s with
  | nil => exact ⟨hs, by simp, fun _ h => h⟩
  | cons k ks ih =>
    obtain ⟨hs', hrec⟩ := hrelease k List.mem_cons_self s hs
    obtain ⟨htracks, hall, hkept⟩ := ih (fun k' hk' => hrelease k' (List.mem_cons_of_mem _ hk')) hs'
    rw [List.foldl_cons]
    refine ⟨htracks, fun k' hk' => ?_, fun t ht => hkept t ?_⟩
    · obtain rfl | hk' := List.mem_cons.mp hk'
      · exact hkept _ (by rw [hrec, Function.update_self])
      · exact hall k' hk'
    · rw [hrec, Function.update_apply]
      split
      · rfl
      · exact ht

theorem releaseAll_spec (hs : s.Tracks) :
    s.sgStreamReleaseAll.Tracks ∧ s.sgStreamReleaseAll.recorded = fun _ => false := by
  obtain ⟨hs1, hkeys, -⟩ := releases Input.releaseKey Thing.key (List.range maxKeys)
    (fun k _ s hs => ⟨hs.releaseKey k, recorded_releaseKey hs k⟩) hs
  obtain ⟨hs2, hbuttons, hkept⟩ := releases Input.releaseButton
    (fun b => Thing.button (btnLeft + b)) (List.range 32)
    (fun b hb s hs => ⟨hs.releaseButton b, recorded_releaseButton hs (List.mem_range.mp hb)⟩) hs1
  refine ⟨hs2, funext fun t => ?_⟩
  cases t with
  | key k =>
    refine hkept (.key k) ?_
    cases h : ((List.range maxKeys).foldl Input.releaseKey s).recorded (.key k) with
    | false => rfl
    | true =>
      have hlt := (hs1.keys k h).2
      exact absurd (hkeys k (List.mem_range.mpr hlt)) (by simp [h])
  | button b =>
    cases h : s.sgStreamReleaseAll.recorded (.button b) with
    | false => rfl
    | true =>
      simp only [recorded, Bool.and_eq_true, decide_eq_true_eq] at h
      have hlt : b - btnLeft < 32 := BitVec.lt_of_getLsbD h.2
      have := hbuttons (b - btnLeft) (List.mem_range.mpr hlt)
      rw [Nat.add_sub_cancel' h.1] at this
      simp only [recorded, Bool.and_eq_false_iff] at this
      obtain h' | h' := this
      · exact absurd h.1 (by simpa using h')
      · exact absurd h.2 (by rw [sgStreamReleaseAll, h']; simp)

theorem Tracks.act (hs : s.Tracks) (km : Keymap) (a : ClientAct) : (s.act km a).Tracks := by
  cases a with
  | key k down => exact hs.key k down
  | button b down => exact hs.button b down
  | text c => exact hs.unicode km c
  | releaseAll => exact (releaseAll_spec hs).1

def Right (s s' : Input) : ClientAct → Prop
  | .text _ => held s'.log = held s.log
  | .releaseAll => ∀ t, held s'.log t = false
  | _ => True

/-- The compositor holds what is recorded, and each action does what it is to do. -/
def Kept (km : Keymap) : Input → List ClientAct → Prop
  | s, [] => held s.log = s.recorded ∧ Clean s.log
  | s, a :: as => (held s.log = s.recorded ∧ Clean s.log) ∧ Right s (s.act km a) a ∧
    Kept km (s.act km a) as

/-- Every character of a run is typed while its key, and Shift if it takes Shift,
are up. -/
def TypedFree (km : Keymap) : Input → List ClientAct → Prop
  | _, [] => True
  | s, .text c :: as => KeysFree km s c ∧ TypedFree km (s.act km (.text c)) as
  | s, a :: as => TypedFree km (s.act km a) as

theorem kept_iff (hs : s.Tracks) (km : Keymap) (as : List ClientAct) : Kept km s as ↔ TypedFree km s as := by
  induction as generalizing s with
  | nil => exact iff_of_true ⟨hs.held, hs.clean⟩ trivial
  | cons a as ih =>
    have hs' := hs.act km a
    rw [Kept, ih hs', and_iff_right ⟨hs.held, hs.clean⟩]
    cases a with
    | key k down => exact and_iff_right trivial
    | button b down => exact and_iff_right trivial
    | releaseAll =>
      refine and_iff_right fun t => ?_
      rw [hs'.held]
      exact congrFun (releaseAll_spec hs).2 t
    | text c =>
      rw [TypedFree]
      refine and_congr_left fun _ => ?_
      rw [Right, hs'.held, hs.held]
      exact recorded_unicode_iff hs km c

theorem kept_from_start_iff (km : Keymap) (as : List ClientAct) :
    Kept km start as ↔ TypedFree km start as :=
  kept_iff tracks_start km as

def oneKey : Keymap := ⟨38, 38, fun _ level => if level = 0 then some 97 else some 65, id⟩

theorem typing_lets_go :
    held (start.act oneKey (.key 30 true)).log (.key 30) = true ∧
      held ((start.act oneKey (.key 30 true)).act oneKey (.text 97)).log (.key 30) = false ∧
      held (start.act oneKey (.key 42 true)).log (.key 42) = true ∧
      held ((start.act oneKey (.key 42 true)).act oneKey (.text 65)).log (.key 42) = false := by
  decide

end Input

end StainedGlass.Rdp
