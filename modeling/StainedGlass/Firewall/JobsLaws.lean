import StainedGlass.Firewall.Jobs

namespace StainedGlass.Firewall

open Lib

section

variable {u : Unicode} {allowed : Change Nat → Prop} {k : Prog Nat} {held seen : Bool}

theorem finish_none : finish none k = .release k := by rw [finish]

theorem finish_some (text : Str) : finish (some text) k = .commit text k := by rw [finish]

variable {j : Job}

theorem result_finish (h : j.edit u file = text) : (finish text k).result file = j.change u file := by
  rw [Job.change, h]
  cases text with
  | none => rw [finish_none, Prog.result]
  | some text => rw [finish_some, Prog.result]

theorem ok_finish (hk : ∀ seen, k.Ok allowed false seen) (text : Option Str) : (finish text k).Ok allowed true seen := by
  cases text with
  | none =>
    rw [finish_none]
    exact ⟨rfl, hk seen⟩
  | some text =>
    rw [finish_some]
    exact ⟨rfl, hk true⟩

variable {l : List (Change Nat)}

theorem makes_finish (h : (finish text k).Makes l) : k.Makes l := by
  cases text with
  | none => rwa [finish_none] at h
  | some text => rwa [finish_some] at h

theorem ok_edit (hallowed : allowed (j.change u)) (hk : ∀ seen, k.Ok allowed false seen) :
    (Prog.lock (j.change u) (.read fun file => finish (j.edit u file) k)).Ok allowed false seen :=
  ⟨rfl, hallowed, fun _ _ => result_finish rfl, fun _ => ok_finish hk _⟩

theorem ok_migrate (hallowed : allowed ((Job.migrate again a).change u))
    (hk : ∀ seen, k.Ok allowed false seen) : ((Job.migrate again a).prog u k).Ok allowed false seen := by
  refine ⟨rfl, hallowed, fun file _ => ?_, fun there => ?_⟩
  · dsimp only [Prog.result]
    split
    · next h =>
      rw [Job.change, Job.edit, if_pos h]
      rfl
    · next h =>
      have hedit : (Job.migrate again a).edit u file = writeConfig u (cmdMigrate u a (readConfig u file)) := if_neg h
      exact result_finish hedit
  · dsimp only
    split
    · exact ⟨rfl, hk _⟩
    · exact fun _ => ok_finish hk _

theorem ok_reloadConf (hallowed : allowed ((Job.reload true).change u)) (hk : ∀ seen, k.Ok allowed false seen)
    (there : Bool) : (reloadConf u k there).Ok allowed false seen := by
  intro read
  dsimp only
  split
  · exact hk _
  refine ⟨rfl, hallowed, fun file hseen => ?_, fun there => ?_⟩
  · cases file with
    | some text => simp [Prog.result, Job.change, Job.edit]
    | none =>
      have hread : read = none := by
        cases read with
        | none => rfl
        | some text => cases hseen (by simp)
      have hedit : (Job.reload true).edit u none = writeConfig u (readConfig u read) := by
        rw [hread, Job.edit, if_neg (by simp), readConfig]
      exact result_finish hedit
  · dsimp only
    split
    · exact ⟨rfl, hk _⟩
    · exact ok_finish hk _

theorem Job.ok (hallowed : allowed (j.change u)) (hk : ∀ seen, k.Ok allowed false seen) :
    (j.prog u k).Ok allowed false seen := by
  cases j with
  | command i => exact ok_edit hallowed hk
  | reset ids => exact ok_edit hallowed hk
  | push rid text => exact ok_edit hallowed hk
  | migrate again a => exact ok_migrate hallowed hk
  | cancel token program name => exact ok_edit hallowed hk
  | reload changed =>
    intro there
    cases changed with
    | false => exact hk _
    | true => exact ok_reloadConf hallowed hk there
  | look => exact fun _ => hk _

theorem program_ok (h : ∀ j ∈ jobs, allowed (j.change u)) (seen : Bool) : (program u jobs).Ok allowed false seen := by
  induction jobs generalizing seen with
  | nil => rfl
  | cons j jobs ih =>
    rw [List.forall_mem_cons] at h
    exact Job.ok h.1 (ih h.2)

def Job.locks : Job → Bool
  | reload _ => false
  | look => false
  | _ => true

theorem makes_edit
    (h : (Prog.lock (j.change u) (.read fun file => finish (j.edit u file) k)).Makes l) :
    ∃ l', l = j.change u :: l' ∧ k.Makes l' := by
  obtain ⟨l', rfl, file, h⟩ := h
  exact ⟨l', rfl, makes_finish h⟩

theorem makes_migrate
    (h : ((Job.migrate again a).prog u k).Makes l) : ∃ l', l = (Job.migrate again a).change u :: l' ∧ k.Makes l' := by
  obtain ⟨l', rfl, there, h⟩ := h
  refine ⟨l', rfl, ?_⟩
  dsimp only at h
  split at h
  · exact h
  · obtain ⟨file, h⟩ := h
    exact makes_finish h

theorem makes_reloadConf (h : (reloadConf u k there).Makes l) :
    (∃ l', l = (Job.reload true).change u :: l' ∧ k.Makes l') ∨ k.Makes l := by
  obtain ⟨file, h⟩ := h
  dsimp only at h
  split at h
  · exact .inr h
  obtain ⟨l', rfl, there, h⟩ := h
  refine .inl ⟨l', rfl, ?_⟩
  dsimp only at h
  split at h
  · exact h
  · exact makes_finish h

theorem Job.makes (h : (j.prog u k).Makes l) :
    (∃ l', l = j.change u :: l' ∧ k.Makes l') ∨ (j.locks = false ∧ k.Makes l) := by
  cases j with
  | command i => exact .inl (makes_edit h)
  | reset ids => exact .inl (makes_edit h)
  | push rid text => exact .inl (makes_edit h)
  | migrate again a => exact .inl (makes_migrate h)
  | cancel token program name => exact .inl (makes_edit h)
  | reload changed =>
    obtain ⟨there, h⟩ := h
    cases changed with
    | false => exact .inr ⟨rfl, h⟩
    | true => exact (makes_reloadConf h).imp_right fun h => ⟨rfl, h⟩
  | look =>
    obtain ⟨file, h⟩ := h
    exact .inr ⟨rfl, h⟩

theorem program_makes {jobs : List Job} (h : (program u jobs).Makes l) :
    ∃ js, (jobs.filter Job.locks).Sublist js ∧ js.Sublist jobs ∧ l = js.map (Job.change u) := by
  induction jobs generalizing l with
  | nil => exact ⟨[], .slnil, .slnil, h⟩
  | cons j jobs ih =>
    obtain ⟨l', rfl, hrest⟩ | ⟨hlocks, hrest⟩ := Job.makes h
    · obtain ⟨js, hall, hjs, rfl⟩ := ih hrest
      refine ⟨j :: js, ?_, hjs.cons_cons j, rfl⟩
      rw [List.filter_cons]
      split
      · exact hall.cons_cons j
      · exact hall.cons j
    · obtain ⟨js, hall, hjs, rfl⟩ := ih hrest
      rw [List.filter_cons_of_neg (by simp [hlocks])]
      exact ⟨js, hall, hjs.cons j, rfl⟩

end

open Shared

/-- Whatever the processes do and whichever are killed, the changes were made one after the other, and
each reader saw a complete file. -/
theorem reaches_serial {π : Type} [DecidableEq π] (u : Unicode) (jobs : π → List Job) {s t : Shared π Nat}
    (hs : Initial (fun p => program u (jobs p)) s) (hrun : Reaches s t) :
    t.doc = serial s.doc t.log ∧
    (∀ c ∈ t.log, ∃ j ∈ jobs c.1, c.2 = j.change u) ∧
    (∀ p, t.pc p = .run .halt → ∃ js, ((jobs p).filter Job.locks).Sublist js ∧ js.Sublist (jobs p) ∧
      own p t.log = js.map (Job.change u)) ∧
    (∀ t', Reaches t t' → t.log <+: t'.log) ∧
    ∀ v ∈ t.views, v.2.2 ≤ t.log.length ∧ v.2.1 = serial s.doc (t.log.take v.2.2) := by
  have hok (p : π) : (program u (jobs p)).Ok (fun change => ∃ j ∈ jobs p, change = j.change u) false false :=
    program_ok (fun j hj => ⟨j, hj, rfl⟩) false
  have hstart := hs.good hok
  have hgood := hstart.reaches hrun
  refine ⟨hgood.serial, hgood.log, fun p hp => ?_, fun t' hrun' => hrun'.log_prefix, hgood.views⟩
  exact program_makes ((hs.traced.reaches hstart hrun).of_halt hgood hp)

def resetAndLook : Shared Bool Nat where
  text := fun _ => []
  fresh := 0
  file := none
  spare := none
  holder := none
  pending := none
  pc := fun p => .run (program .ascii (bif p then [.reset []] else [.look]))
  log := []
  views := []

theorem initial_resetAndLook :
    Initial (fun p => program .ascii (bif p then [.reset []] else [.look])) resetAndLook :=
  ⟨by simp [resetAndLook], by simp [resetAndLook], rfl, rfl, rfl, rfl, fun _ => rfl⟩

theorem writeConfig_reset : writeConfig .ascii (cmdReset [] .default) ≠ none := by decide +kernel

theorem resetAndLook_reaches : ∃ t, Reaches resetAndLook t ∧ t.pc true = .run .halt ∧ t.log.length = 1 := by
  obtain ⟨text, htext⟩ := Option.ne_none_iff_exists'.mp writeConfig_reset
  have hpc : finish ((Job.reset []).edit .ascii none) .halt = .commit text .halt := by
    rw [Job.edit, readConfig, htext, finish_some]
  have hlock := Step.lock (s := resetAndLook) (p := true) rfl rfl
  have hread := Relation.ReflTransGen.single hlock |>.tail (Step.missing (p := true) rfl rfl)
  have hcreate := hread.tail (Step.create (p := true) (congrArg Pc.run hpc) rfl)
  have hwrite := hcreate.tail (Step.write (p := true) (congrArg (Pc.writing 0 · .halt) (List.append_nil text).symm))
  have hrename := hwrite.tail (Step.rename (p := true) rfl rfl rfl)
  exact ⟨_, hrename.tail (Step.unlock (p := true) rfl), rfl, rfl⟩

theorem resetAndLook_serial : ∃ t, Initial (fun p => program .ascii (bif p then [.reset []] else [.look])) resetAndLook ∧
    Reaches resetAndLook t ∧ t.pc true = .run .halt ∧ t.log.length = 1 ∧ t.doc = serial none t.log := by
  obtain ⟨t, hrun, hhalt, hlog⟩ := resetAndLook_reaches
  exact ⟨t, initial_resetAndLook, hrun, hhalt, hlog, (reaches_serial .ascii _ initial_resetAndLook hrun).1⟩

end StainedGlass.Firewall
