import Mathlib

/-! Processes that share a file, which each changes under a lock. -/

namespace StainedGlass.Lib

abbrev Doc (α : Type) := Option (List α)

abbrev Change (α : Type) := Doc α → Doc α

inductive Prog (α : Type) where
  | halt
  | stat (k : Bool → Prog α)
  | read (k : Doc α → Prog α)
  | lock (change : Change α) (k : Prog α)
  | commit (text : List α) (k : Prog α)
  | release (k : Prog α)

namespace Prog

variable {α : Type}

def result : Prog α → Change α
  | halt, d => d
  | stat k, d => (k d.isSome).result d
  | read k, d => (k d).result d
  | lock _ _, d => d
  | commit text _, _ => some text
  | release _, d => d

/-- The lock is taken once, for an allowed change, and the section makes that change of every file there. -/
def Ok (allowed : Change α → Prop) : Bool → Bool → Prog α → Prop
  | held, _, halt => held = false
  | held, seen, stat k => ∀ b, (k b).Ok allowed held (seen || b)
  | held, seen, read k => ∀ d, (k d).Ok allowed held (seen || d.isSome)
  | held, seen, lock change k => held = false ∧ allowed change ∧
      (∀ d : Doc α, (seen = true → d.isSome = true) → k.result d = change d) ∧ k.Ok allowed true seen
  | held, _, commit _ k => held = true ∧ k.Ok allowed false true
  | held, seen, release k => held = true ∧ k.Ok allowed false seen

end Prog

/-- Between its calls, or in the middle of reading, of writing, or of giving the lock back; or killed. -/
inductive Pc (α : Type) where
  | run (p : Prog α)
  | reading (i : Nat) (got : List α) (n : Nat) (k : Doc α → Prog α)
  | writing (i : Nat) (left : List α) (k : Prog α)
  | renamed (k : Prog α)
  | killed

/-- Files by number, which has the name and which the other; the complete changes and what was read. -/
structure Shared (π α : Type) where
  text : Nat → List α
  fresh : Nat
  file : Option Nat
  spare : Option Nat
  holder : Option π
  pending : Option (Change α)
  pc : π → Pc α
  log : List (π × Change α)
  views : List (π × Doc α × Nat)

namespace Shared

variable {π α : Type}

def doc (s : Shared π α) : Doc α := s.file.map s.text

def serial (d : Doc α) (log : List (π × Change α)) : Doc α := log.foldl (fun d c => c.2 d) d

theorem serial_concat (d : Doc α) (log : List (π × Change α)) (c : π × Change α) :
    serial d (log ++ [c]) = c.2 (serial d log) := by
  rw [serial, List.foldl_append]
  rfl

theorem take_of_prefix {l l' : List (π × Change α)} (h : l <+: l') (hn : n ≤ l.length) : l'.take n = l.take n := by
  obtain ⟨more, rfl⟩ := h
  exact List.take_append_of_le_length hn

theorem doc_update {s : Shared π α} (hi : s.file ≠ some i) (new : List α) (spare : Option Nat) (fresh : Nat) :
    doc { s with text := Function.update s.text i new, fresh := fresh, spare := spare } = s.doc := by
  simp only [doc]
  cases hf : s.file with
  | none => rfl
  | some j =>
    have hj : j ≠ i := fun heq => hi (heq ▸ hf)
    rw [Option.map_some, Option.map_some, Function.update_of_ne hj]

variable [DecidableEq π]

def go (s : Shared π α) (p : π) (c : Pc α) : Shared π α := { s with pc := Function.update s.pc p c }

inductive Step : Shared π α → Shared π α → Prop
  | stat : s.pc p = .run (.stat k) → Step s (s.go p (.run (k s.file.isSome)))
  | missing : s.pc p = .run (.read k) → s.file = none →
      Step s { s.go p (.run (k none)) with views := s.views ++ [(p, none, s.log.length)] }
  | opens : s.pc p = .run (.read k) → s.file = some i → Step s (s.go p (.reading i [] s.log.length k))
  | read : s.pc p = .reading i got n k → chunk <+: (s.text i).drop got.length →
      Step s (s.go p (.reading i (got ++ chunk) n k))
  | eof : s.pc p = .reading i got n k → (s.text i).length ≤ got.length →
      Step s { s.go p (.run (k (some got))) with views := s.views ++ [(p, some got, n)] }
  | lock : s.pc p = .run (.lock change k) → s.holder = none →
      Step s { s.go p (.run k) with holder := some p, pending := some change }
  | create : s.pc p = .run (.commit new k) → s.spare = none →
      Step s { s.go p (.writing s.fresh new k) with
        text := Function.update s.text s.fresh [], fresh := s.fresh + 1, spare := some s.fresh }
  | truncate : s.pc p = .run (.commit new k) → s.spare = some i →
      Step s { s.go p (.writing i new k) with text := Function.update s.text i [] }
  | write : s.pc p = .writing i (chunk ++ left) k →
      Step s { s.go p (.writing i left k) with text := Function.update s.text i (s.text i ++ chunk) }
  | rename : s.pc p = .writing i [] k → s.spare = some j → s.pending = some change →
      Step s { s.go p (.renamed k) with
        file := some j, spare := none, pending := none, log := s.log ++ [(p, change)] }
  | unlock : s.pc p = .renamed k → Step s { s.go p (.run k) with holder := none }
  | release : s.pc p = .run (.release k) → s.pending = some change →
      Step s { s.go p (.run k) with holder := none, pending := none, log := s.log ++ [(p, change)] }
  | stop : Step s { s.go p .killed with
        holder := if s.holder = some p then none else s.holder
        pending := if s.holder = some p then none else s.pending }

def PcGood (allowed : π → Change α → Prop) (d₀ : Doc α) (s : Shared π α) (p : π) : Pc α → Prop
  | .run prog => ∃ seen, (seen = true → s.file.isSome = true) ∧ prog.Ok (allowed p) (s.holder = some p) seen ∧
      (s.holder = some p → ∃ change, s.pending = some change ∧ prog.result s.doc = change s.doc)
  | .reading i got n k => got <+: s.text i ∧ i < s.fresh ∧ s.spare ≠ some i ∧ n ≤ s.log.length ∧
      some (s.text i) = serial d₀ (s.log.take n) ∧ s.file.isSome = true ∧
      (∀ d : Doc α, d.isSome = true → (k d).Ok (allowed p) (s.holder = some p) true) ∧
      (s.holder = some p → s.file = some i ∧
        ∃ change, s.pending = some change ∧ (k s.doc).result s.doc = change s.doc)
  | .writing i left k => s.holder = some p ∧ s.spare = some i ∧ k.Ok (allowed p) false true ∧
      ∃ change, s.pending = some change ∧ change s.doc = some (s.text i ++ left)
  | .renamed k => s.holder = some p ∧ s.pending = none ∧ s.file.isSome = true ∧ k.Ok (allowed p) false true
  | .killed => s.holder ≠ some p

structure Good (allowed : π → Change α → Prop) (d₀ : Doc α) (s : Shared π α) : Prop where
  file : ∀ i, s.file = some i → i < s.fresh ∧ s.spare ≠ some i
  spare : ∀ i, s.spare = some i → i < s.fresh
  pending : ∀ change, s.pending = some change → ∃ p, s.holder = some p ∧ allowed p change
  serial : s.doc = serial d₀ s.log
  log : ∀ c ∈ s.log, allowed c.1 c.2
  views : ∀ v ∈ s.views, v.2.2 ≤ s.log.length ∧ v.2.1 = Shared.serial d₀ (s.log.take v.2.2)
  pc : ∀ p, PcGood allowed d₀ s p (s.pc p)

section

variable {allowed : π → Change α → Prop} {d₀ : Doc α} {s t : Shared π α} {p q : π} {c : Pc α}

structure Frame (s t : Shared π α) (q : π) : Prop where
  holder : t.holder = some q ↔ s.holder = some q
  held : s.holder = some q → t.file = s.file ∧ t.pending = s.pending ∧ t.spare = s.spare ∧ t.text = s.text
  file : s.file.isSome = true → t.file.isSome = true
  text : ∀ i, i < s.fresh → s.spare ≠ some i → t.text i = s.text i ∧ t.spare ≠ some i
  fresh : s.fresh ≤ t.fresh
  log : s.log <+: t.log

theorem PcGood.frame (h : PcGood allowed d₀ s q c) (hf : Frame s t q) : PcGood allowed d₀ t q c := by
  have hdoc : s.holder = some q → t.doc = s.doc := fun hq => by
    obtain ⟨hfile, -, -, htext⟩ := hf.held hq
    rw [doc, doc, hfile, htext]
  have hdecide : decide (t.holder = some q) = decide (s.holder = some q) := decide_eq_decide.mpr hf.holder
  cases c with
  | run prog =>
    obtain ⟨seen, hseen, hok, hresult⟩ := h
    refine ⟨seen, fun hs => hf.file (hseen hs), hdecide ▸ hok, fun hq => ?_⟩
    have hq' := hf.holder.mp hq
    rw [hdoc hq', (hf.held hq').2.1]
    exact hresult hq'
  | reading i got n k =>
    obtain ⟨hgot, hi, hspare, hn, hserial, hfile, hok, hheld⟩ := h
    obtain ⟨htext, hspare'⟩ := hf.text i hi hspare
    refine ⟨htext ▸ hgot, hi.trans_le hf.fresh, hspare', hn.trans hf.log.length_le, ?_, hf.file hfile,
      fun d hd => hdecide ▸ hok d hd, fun hq => ?_⟩
    · rw [htext, hserial, take_of_prefix hf.log hn]
    · have hq' := hf.holder.mp hq
      rw [hdoc hq', (hf.held hq').1, (hf.held hq').2.1]
      exact hheld hq'
  | writing i left k =>
    obtain ⟨hq, hspare, hok, hchange⟩ := h
    rw [PcGood, hdoc hq, (hf.held hq).2.1, (hf.held hq).2.2.1, (hf.held hq).2.2.2]
    exact ⟨hf.holder.mpr hq, hspare, hok, hchange⟩
  | renamed k =>
    obtain ⟨hq, hpending, hfile, hok⟩ := h
    exact ⟨hf.holder.mpr hq, (hf.held hq).2.1.trans hpending, hf.file hfile, hok⟩
  | killed => exact fun hq => h (hf.holder.mp hq)

theorem pcGood_update (h : ∀ q, PcGood allowed d₀ s q (s.pc q)) (hpc : t.pc = Function.update s.pc p c)
    (hc : PcGood allowed d₀ t p c) (hf : ∀ q, q ≠ p → Frame s t q) (q : π) : PcGood allowed d₀ t q (t.pc q) := by
  rw [hpc]
  by_cases hq : q = p
  · rw [hq, Function.update_self]
    exact hc
  · rw [Function.update_of_ne hq]
    exact (h q).frame (hf q hq)

theorem Good.go (h : Good allowed d₀ s) (hc : PcGood allowed d₀ s p c) : Good allowed d₀ (s.go p c) := by
  refine ⟨h.file, h.spare, h.pending, h.serial, h.log, h.views, ?_⟩
  refine pcGood_update h.pc rfl hc fun q _ => ?_
  exact ⟨Iff.rfl, fun _ => ⟨rfl, rfl, rfl, rfl⟩, fun h => h, fun _ _ h => ⟨rfl, h⟩, le_rfl, List.prefix_rfl⟩

theorem Good.view (h : Good allowed d₀ s) (hn : n ≤ s.log.length)
    (hd : d = Shared.serial d₀ (s.log.take n)) : Good allowed d₀ { s with views := s.views ++ [(p, d, n)] } := by
  refine ⟨h.file, h.spare, h.pending, h.serial, h.log, ?_, h.pc⟩
  rw [List.forall_mem_append, List.forall_mem_singleton]
  exact ⟨h.views, hn, hd⟩

theorem Good.stat (h : Good allowed d₀ s) (hp : s.pc p = .run (.stat k)) :
    Good allowed d₀ (s.go p (.run (k s.file.isSome))) := by
  obtain ⟨seen, hseen, hok, hresult⟩ := hp ▸ h.pc p
  refine h.go ⟨seen || s.file.isSome, ?_, hok _, fun hq => ?_⟩
  · rw [Bool.or_eq_true]
    exact fun hor => hor.elim hseen id
  · have hdoc : s.doc.isSome = s.file.isSome := by rw [doc, Option.isSome_map]
    exact hdoc ▸ hresult hq

theorem Good.missing (h : Good allowed d₀ s) (hp : s.pc p = .run (.read k)) (hfile : s.file = none) :
    Good allowed d₀ { s.go p (.run (k none)) with views := s.views ++ [(p, none, s.log.length)] } := by
  obtain ⟨seen, hseen, hok, hresult⟩ := hp ▸ h.pc p
  have hdoc : s.doc = none := by rw [doc, hfile, Option.map_none]
  have hpc : PcGood allowed d₀ s p (.run (k none)) := by
    refine ⟨seen, hseen, Bool.or_false seen ▸ hok none, fun hq => ?_⟩
    obtain ⟨change, hpending, hchange⟩ := hresult hq
    refine ⟨change, hpending, ?_⟩
    rw [← hchange, Prog.result, hdoc]
  have hserial : none = Shared.serial d₀ (s.log.take s.log.length) := by
    rw [List.take_length, ← h.serial, hdoc]
  exact (h.go hpc).view le_rfl hserial

theorem Good.opens (h : Good allowed d₀ s) (hp : s.pc p = .run (.read k))
    (hfile : s.file = some i) : Good allowed d₀ (s.go p (.reading i [] s.log.length k)) := by
  obtain ⟨seen, hseen, hok, hresult⟩ := hp ▸ h.pc p
  obtain ⟨hi, hspare⟩ := h.file i hfile
  have hdoc : s.doc = some (s.text i) := by rw [doc, hfile, Option.map_some]
  refine h.go ⟨List.nil_prefix, hi, hspare, le_rfl, ?_, by rw [hfile]; rfl, fun d hd => ?_, fun hq => ⟨hfile, hresult hq⟩⟩
  · rw [List.take_length, ← h.serial, hdoc]
  · have hd' := hok d
    rwa [hd, Bool.or_true] at hd'

theorem Good.read (h : Good allowed d₀ s) {got chunk : List α}
    (hp : s.pc p = .reading i got n k) (hchunk : chunk <+: (s.text i).drop got.length) :
    Good allowed d₀ (s.go p (.reading i (got ++ chunk) n k)) := by
  obtain ⟨hgot, hrest⟩ := hp ▸ h.pc p
  refine h.go ⟨?_, hrest⟩
  obtain ⟨tail, htail⟩ := hgot
  rw [← htail, List.drop_left] at hchunk
  rw [← htail]
  exact (List.prefix_append_right_inj got).mpr hchunk

theorem Good.eof (h : Good allowed d₀ s) {got : List α}
    (hp : s.pc p = .reading i got n k) (hend : (s.text i).length ≤ got.length) :
    Good allowed d₀ { s.go p (.run (k (some got))) with views := s.views ++ [(p, some got, n)] } := by
  obtain ⟨hgot, -, -, hn, hserial, hfile, hok, hheld⟩ := hp ▸ h.pc p
  obtain rfl : got = s.text i := hgot.eq_of_length_le hend
  have hpc : PcGood allowed d₀ s p (.run (k (some (s.text i)))) := by
    refine ⟨true, fun _ => hfile, hok _ rfl, fun hq => ?_⟩
    obtain ⟨hi, change, hpending, hchange⟩ := hheld hq
    have hdoc : s.doc = some (s.text i) := by rw [doc, hi, Option.map_some]
    exact ⟨change, hpending, by rw [← hchange, hdoc]⟩
  exact (h.go hpc).view hn hserial

variable {k : Prog α}

theorem Good.lock (h : Good allowed d₀ s) (hp : s.pc p = .run (.lock change k))
    (hfree : s.holder = none) : Good allowed d₀ { s.go p (.run k) with holder := some p, pending := some change } := by
  obtain ⟨seen, hseen, ⟨-, hallowed, hresult, hok⟩, -⟩ := hp ▸ h.pc p
  refine ⟨h.file, h.spare, ?_, h.serial, h.log, h.views, ?_⟩
  · rintro _ ⟨⟩
    exact ⟨p, rfl, hallowed⟩
  refine pcGood_update h.pc rfl ?_ fun q hq => ?_
  · refine ⟨seen, hseen, by simpa using hok, fun _ => ⟨change, rfl, ?_⟩⟩
    refine hresult s.doc fun hs => ?_
    rw [doc, Option.isSome_map]
    exact hseen hs
  · refine ⟨?_, fun hheld => ?_, fun h => h, fun _ _ h => ⟨rfl, h⟩, le_rfl, List.prefix_rfl⟩
    · rw [hfree]
      simp [Ne.symm hq]
    · rw [hfree] at hheld
      cases hheld

variable {new : List α}

theorem Good.spareText (h : Good allowed d₀ s) (hholder : s.holder = some p) {i fresh : Nat} {spare : Option Nat}
    (hspare : spare = some i) (hfile : s.file ≠ some i) (hfresh : s.fresh ≤ fresh) (hi : i < fresh)
    (hnew : s.spare = some i ∨ s.fresh ≤ i)
    (hc : PcGood allowed d₀ { s with text := Function.update s.text i new, fresh := fresh, spare := spare } p c) :
    Good allowed d₀ { s.go p c with text := Function.update s.text i new, fresh := fresh, spare := spare } := by
  refine ⟨fun j hj => ⟨(h.file j hj).1.trans_le hfresh, fun heq => ?_⟩, fun j hj => ?_, h.pending,
    (doc_update hfile new spare fresh).trans h.serial, h.log, h.views, ?_⟩
  · cases hspare.symm.trans heq
    exact hfile hj
  · cases hspare.symm.trans hj
    exact hi
  refine pcGood_update h.pc rfl hc fun q hq => ?_
  refine ⟨Iff.rfl, fun hheld => ?_, fun h => h, fun j hj hjs => ?_, hfresh, List.prefix_rfl⟩
  · cases hholder.symm.trans hheld
    exact absurd rfl hq
  · have hne : j ≠ i := by
      rintro rfl
      obtain hsame | hle := hnew
      · exact hjs hsame
      · omega
    refine ⟨Function.update_of_ne hne _ _, fun heq => hne ?_⟩
    exact (Option.some.inj (hspare.symm.trans heq)).symm

theorem Good.held_of_commit (h : Good allowed d₀ s) (hp : s.pc p = .run (.commit new k)) :
    s.holder = some p ∧ k.Ok (allowed p) false true ∧ ∃ change, s.pending = some change ∧ change s.doc = some new := by
  obtain ⟨seen, -, ⟨hheld, hok⟩, hresult⟩ := hp ▸ h.pc p
  have hholder := of_decide_eq_true hheld
  obtain ⟨change, hpending, hchange⟩ := hresult hholder
  exact ⟨hholder, hok, change, hpending, hchange.symm⟩

theorem Good.create (h : Good allowed d₀ s) (hp : s.pc p = .run (.commit new k)) :
    Good allowed d₀ { s.go p (.writing s.fresh new k) with
      text := Function.update s.text s.fresh [], fresh := s.fresh + 1, spare := some s.fresh } := by
  obtain ⟨hholder, hok, change, hpending, hchange⟩ := h.held_of_commit hp
  have hfile : s.file ≠ some s.fresh := fun heq => absurd (h.file _ heq).1 (lt_irrefl _)
  refine h.spareText hholder rfl hfile (Nat.le_succ _) (Nat.lt_succ_self _) (.inr le_rfl) ?_
  refine ⟨hholder, rfl, hok, change, hpending, ?_⟩
  simp [doc_update hfile, hchange]

theorem Good.truncate (h : Good allowed d₀ s) {i : Nat} (hp : s.pc p = .run (.commit new k))
    (hspare : s.spare = some i) :
    Good allowed d₀ { s.go p (.writing i new k) with text := Function.update s.text i [] } := by
  obtain ⟨hholder, hok, change, hpending, hchange⟩ := h.held_of_commit hp
  have hfile : s.file ≠ some i := fun heq => (h.file i heq).2 hspare
  refine h.spareText hholder hspare hfile le_rfl (h.spare i hspare) (.inl hspare) ?_
  refine ⟨hholder, hspare, hok, change, hpending, ?_⟩
  simp [doc_update hfile, hchange]

theorem Good.write (h : Good allowed d₀ s) {chunk left : List α} (hp : s.pc p = .writing i (chunk ++ left) k) :
    Good allowed d₀ { s.go p (.writing i left k) with text := Function.update s.text i (s.text i ++ chunk) } := by
  obtain ⟨hholder, hspare, hok, change, hpending, hchange⟩ := hp ▸ h.pc p
  have hfile : s.file ≠ some i := fun heq => (h.file i heq).2 hspare
  refine h.spareText hholder hspare hfile le_rfl (h.spare i hspare) (.inl hspare) ?_
  refine ⟨hholder, hspare, hok, change, hpending, ?_⟩
  simp [doc_update hfile, hchange]

theorem Good.views_log (h : Good allowed d₀ s) (x : π × Change α) :
    ∀ v ∈ s.views, v.2.2 ≤ (s.log ++ [x]).length ∧ v.2.1 = Shared.serial d₀ ((s.log ++ [x]).take v.2.2) := by
  intro v hv
  obtain ⟨hn, hview⟩ := h.views v hv
  refine ⟨hn.trans (by simp), ?_⟩
  rw [hview, take_of_prefix (List.prefix_append _ _) hn]

theorem Good.rename (h : Good allowed d₀ s) (hp : s.pc p = .writing i [] k)
    (hspare : s.spare = some j) (hpending : s.pending = some change) : Good allowed d₀ { s.go p (.renamed k) with
      file := some j, spare := none, pending := none, log := s.log ++ [(p, change)] } := by
  obtain ⟨hholder, hspare', hok, change', hpending', hchange⟩ := hp ▸ h.pc p
  cases hspare.symm.trans hspare'
  cases hpending.symm.trans hpending'
  rw [List.append_nil] at hchange
  obtain ⟨q, hq, hallowed⟩ := h.pending change hpending
  cases hholder.symm.trans hq
  refine ⟨?_, by simp, by simp, ?_, ?_, h.views_log _, ?_⟩
  · rintro m ⟨⟩
    exact ⟨h.spare _ hspare, by simp⟩
  · rw [serial_concat, ← h.serial]
    exact hchange.symm
  · rw [List.forall_mem_append, List.forall_mem_singleton]
    exact ⟨h.log, hallowed⟩
  refine pcGood_update h.pc rfl ⟨hholder, rfl, rfl, hok⟩ fun q hq => ?_
  refine ⟨Iff.rfl, fun hheld => ?_, fun _ => rfl, fun m hm hms => ⟨rfl, by simp⟩, le_rfl, List.prefix_append _ _⟩
  cases hholder.symm.trans hheld
  exact absurd rfl hq

theorem Good.unlock (h : Good allowed d₀ s) (hp : s.pc p = .renamed k) :
    Good allowed d₀ { s.go p (.run k) with holder := none } := by
  obtain ⟨hholder, hpending, hfile, hok⟩ := hp ▸ h.pc p
  refine ⟨h.file, h.spare, fun change hchange => ?_, h.serial, h.log, h.views, ?_⟩
  · cases hpending.symm.trans hchange
  refine pcGood_update h.pc rfl ⟨true, fun _ => hfile, by simpa using hok, by simp⟩ fun q hq => ?_
  refine ⟨?_, fun hheld => ?_, fun h => h, fun _ _ h => ⟨rfl, h⟩, le_rfl, List.prefix_rfl⟩
  · rw [hholder]
    simp [Ne.symm hq]
  · cases hholder.symm.trans hheld
    exact absurd rfl hq

theorem Good.release (h : Good allowed d₀ s) (hp : s.pc p = .run (.release k)) (hpending : s.pending = some change) :
    Good allowed d₀ { s.go p (.run k) with holder := none, pending := none, log := s.log ++ [(p, change)] } := by
  obtain ⟨seen, hseen, ⟨hheld, hok⟩, hresult⟩ := hp ▸ h.pc p
  have hholder := of_decide_eq_true hheld
  obtain ⟨change', hpending', hchange⟩ := hresult hholder
  cases hpending.symm.trans hpending'
  obtain ⟨q, hq, hallowed⟩ := h.pending change hpending
  cases hholder.symm.trans hq
  refine ⟨h.file, h.spare, by simp, ?_, ?_, h.views_log _, ?_⟩
  · rw [serial_concat, ← h.serial]
    exact hchange
  · rw [List.forall_mem_append, List.forall_mem_singleton]
    exact ⟨h.log, hallowed⟩
  refine pcGood_update h.pc rfl ⟨seen, hseen, by simpa using hok, by simp⟩ fun q hq => ?_
  refine ⟨?_, fun hheld => ?_, fun h => h, fun _ _ h => ⟨rfl, h⟩, le_rfl, List.prefix_append _ _⟩
  · rw [hholder]
    simp [Ne.symm hq]
  · cases hholder.symm.trans hheld
    exact absurd rfl hq

theorem Good.stop (h : Good allowed d₀ s) (p : π) :
    Good allowed d₀ { s.go p .killed with
      holder := if s.holder = some p then none else s.holder
      pending := if s.holder = some p then none else s.pending } := by
  refine ⟨h.file, h.spare, fun change hchange => ?_, h.serial, h.log, h.views, ?_⟩
  · simp only at hchange
    split at hchange
    · cases hchange
    · next hp =>
      obtain ⟨q, hq, hallowed⟩ := h.pending change hchange
      exact ⟨q, (if_neg hp).trans hq, hallowed⟩
  refine pcGood_update h.pc rfl (fun hq => ?_) fun q hq => ?_
  · simp only at hq
    split at hq
    · cases hq
    · next hp => exact absurd hq hp
  · refine ⟨?_, fun hheld => ?_, fun h => h, fun _ _ h => ⟨rfl, h⟩, le_rfl, List.prefix_rfl⟩
    · simp only
      split
      · next hp => simp [hp, Ne.symm hq]
      · rfl
    · have hp : s.holder ≠ some p := by
        rw [hheld, ne_eq, Option.some.injEq]
        exact hq
      exact ⟨rfl, if_neg hp, rfl, rfl⟩

theorem Good.step (h : Good allowed d₀ s) (hstep : Step s t) : Good allowed d₀ t := by
  cases hstep with
  | stat hp => exact h.stat hp
  | missing hp hfile => exact h.missing hp hfile
  | opens hp hfile => exact h.opens hp hfile
  | read hp hchunk => exact h.read hp hchunk
  | eof hp hend => exact h.eof hp hend
  | lock hp hfree => exact h.lock hp hfree
  | create hp hspare => exact h.create hp
  | truncate hp hspare => exact h.truncate hp hspare
  | write hp => exact h.write hp
  | rename hp hspare hpending => exact h.rename hp hspare hpending
  | unlock hp => exact h.unlock hp
  | release hp hpending => exact h.release hp hpending
  | stop => exact h.stop _

abbrev Reaches (s t : Shared π α) : Prop := Relation.ReflTransGen Step s t

theorem Good.reaches (h : Good allowed d₀ s) (hrun : Reaches s t) : Good allowed d₀ t := by
  induction hrun with
  | refl => exact h
  | tail _ hstep ih => exact ih.step hstep

theorem Step.log_prefix (h : Step s t) : s.log <+: t.log := by
  cases h with
  | rename => exact List.prefix_append _ _
  | release => exact List.prefix_append _ _
  | _ => exact List.prefix_rfl

theorem Reaches.log_prefix (h : Reaches s t) : s.log <+: t.log := by
  induction h with
  | refl => exact List.prefix_rfl
  | tail _ hstep ih => exact ih.trans hstep.log_prefix

end

end Shared

namespace Prog

def Makes : Prog α → List (Change α) → Prop
  | halt, l => l = []
  | stat k, l => ∃ b, (k b).Makes l
  | read k, l => ∃ d, (k d).Makes l
  | lock change k, l => ∃ l', l = change :: l' ∧ k.Makes l'
  | commit _ k, l => k.Makes l
  | release k, l => k.Makes l

end Prog

def Pc.Makes : Pc α → List (Change α) → Prop
  | run p, l => p.Makes l
  | reading _ _ _ k, l => ∃ d, (k d).Makes l
  | writing _ _ k, l => k.Makes l
  | renamed k, l => k.Makes l
  | killed, _ => False

namespace Shared

variable {π α : Type} [DecidableEq π]

def own (p : π) (log : List (π × Change α)) : List (Change α) := (log.filter (·.1 = p)).map Prod.snd

theorem own_concat_self (p : π) (log : List (π × Change α)) (change : Change α) :
    own p (log ++ [(p, change)]) = own p log ++ [change] := by
  simp [own]

theorem own_concat_ne (h : q ≠ p) (log : List (π × Change α)) (change : Change α) :
    own q (log ++ [(p, change)]) = own q log := by
  simp [own, Ne.symm h]

def underway (s : Shared π α) (p : π) : List (Change α) :=
  if s.holder = some p then s.pending.toList else []

theorem underway_eq_nil {s : Shared π α} (h : s.holder ≠ some p) : s.underway p = [] := if_neg h

theorem underway_eq {s : Shared π α} (h : s.holder = some p) : s.underway p = s.pending.toList := if_pos h

def made (s : Shared π α) (p : π) : List (Change α) := own p s.log ++ s.underway p

def Traced (start : π → Prog α) (s : Shared π α) : Prop :=
  ∀ p l, (s.pc p).Makes l → (start p).Makes (s.made p ++ l)

section

variable {allowed : π → Change α → Prop} {d₀ : Doc α} {start : π → Prog α} {s t : Shared π α} {p q : π} {c : Pc α}

theorem made_congr (hlog : t.log = s.log) (hholder : t.holder = s.holder) (hpending : t.pending = s.pending) (q : π) :
    t.made q = s.made q := by
  rw [made, made, underway, underway, hlog, hholder, hpending]

theorem Traced.update (h : Traced start s) (hpc : t.pc = Function.update s.pc p c)
    (hself : ∀ l, c.Makes l → ∃ l', (s.pc p).Makes l' ∧ t.made p ++ l = s.made p ++ l')
    (hother : ∀ q, q ≠ p → t.made q = s.made q) : Traced start t := by
  intro q l hl
  rw [hpc] at hl
  by_cases hq : q = p
  · rw [hq, Function.update_self] at hl
    obtain ⟨l', hl', hmade⟩ := hself l hl
    rw [hq, hmade]
    exact h p l' hl'
  · rw [Function.update_of_ne hq] at hl
    rw [hother q hq]
    exact h q l hl

theorem Traced.quiet (h : Traced start s) (hpc : t.pc = Function.update s.pc p c) (hc : ∀ l, c.Makes l → (s.pc p).Makes l)
    (hmade : ∀ q, t.made q = s.made q) : Traced start t :=
  h.update hpc (fun l hl => ⟨l, hc l hl, by rw [hmade p]⟩) fun q _ => hmade q

theorem made_of_complete (hholder : s.holder = some p) (hpending : s.pending = some change)
    (hlog : t.log = s.log ++ [(p, change)]) (hpending' : t.pending = none) (q : π) : t.made q = s.made q := by
  have hunder : t.underway q = [] := by
    rw [underway, hpending']
    exact ite_self _
  rw [made, made, hlog, hunder, List.append_nil]
  by_cases hq : q = p
  · rw [hq, own_concat_self, underway_eq hholder, hpending]
    rfl
  · have hq' : s.holder ≠ some q := by
      rw [hholder, ne_eq, Option.some.injEq]
      exact Ne.symm hq
    rw [own_concat_ne hq, underway_eq_nil hq', List.append_nil]

theorem Traced.lock (h : Traced start s) (hp : s.pc p = .run (.lock change k))
    (hfree : s.holder = none) : Traced start { s.go p (.run k) with holder := some p, pending := some change } := by
  refine h.update rfl (fun l hl => ⟨change :: l, ?_, ?_⟩) fun q hq => ?_
  · rw [hp]
    exact ⟨l, rfl, hl⟩
  · simp [made, underway, hfree, Shared.go]
  · simp [made, underway, hfree, Shared.go, Ne.symm hq]

theorem Traced.stop (h : Traced start s) (p : π) :
    Traced start { s.go p .killed with
      holder := if s.holder = some p then none else s.holder
      pending := if s.holder = some p then none else s.pending } := by
  refine h.update rfl (fun l hl => hl.elim) fun q hq => ?_
  by_cases hp : s.holder = some p
  · simp [made, underway, hp, Shared.go, Ne.symm hq]
  · simp [made, underway, hp, Shared.go]

theorem Traced.step (h : Traced start s) (hgood : Good allowed d₀ s) (hstep : Step s t) : Traced start t := by
  cases hstep with
  | stat hp =>
    refine h.quiet rfl (fun l hl => ?_) (made_congr rfl rfl rfl)
    rw [hp]
    exact ⟨_, hl⟩
  | missing hp hfile =>
    refine h.quiet rfl (fun l hl => ?_) (made_congr rfl rfl rfl)
    rw [hp]
    exact ⟨_, hl⟩
  | opens hp hfile =>
    refine h.quiet rfl (fun l hl => ?_) (made_congr rfl rfl rfl)
    rw [hp]
    exact hl
  | read hp hchunk =>
    refine h.quiet rfl (fun l hl => ?_) (made_congr rfl rfl rfl)
    rw [hp]
    exact hl
  | eof hp hend =>
    refine h.quiet rfl (fun l hl => ?_) (made_congr rfl rfl rfl)
    rw [hp]
    exact ⟨_, hl⟩
  | lock hp hfree => exact h.lock hp hfree
  | create hp hspare =>
    refine h.quiet rfl (fun l hl => ?_) (made_congr rfl rfl rfl)
    rw [hp]
    exact hl
  | truncate hp hspare =>
    refine h.quiet rfl (fun l hl => ?_) (made_congr rfl rfl rfl)
    rw [hp]
    exact hl
  | write hp =>
    refine h.quiet rfl (fun l hl => ?_) (made_congr rfl rfl rfl)
    rw [hp]
    exact hl
  | rename hp hspare hpending =>
    have hheld := (hp ▸ hgood.pc _ : PcGood _ _ _ _ (.writing ..)).1
    refine h.quiet rfl (fun l hl => ?_) (made_of_complete hheld hpending rfl rfl)
    rw [hp]
    exact hl
  | unlock hp =>
    obtain ⟨hheld, hpending, -, -⟩ := hp ▸ hgood.pc _
    refine h.quiet rfl (fun l hl => ?_) fun q => ?_
    · rw [hp]
      exact hl
    · simp [made, underway, hpending, Shared.go]
  | release hp hpending =>
    obtain ⟨seen, -, ⟨hheld, -⟩, -⟩ := hp ▸ hgood.pc _
    refine h.quiet rfl (fun l hl => ?_) (made_of_complete (of_decide_eq_true hheld) hpending rfl rfl)
    rw [hp]
    exact hl
  | stop => exact h.stop _

theorem Traced.reaches (h : Traced start s) (hgood : Good allowed d₀ s) (hrun : Reaches s t) : Traced start t := by
  induction hrun with
  | refl => exact h
  | tail hrun hstep ih => exact ih.step (hgood.reaches hrun) hstep

theorem Traced.of_halt (h : Traced start s) (hgood : Good allowed d₀ s) (hp : s.pc p = .run .halt) :
    (start p).Makes (own p s.log) := by
  obtain ⟨seen, -, hheld, -⟩ := hp ▸ hgood.pc p
  have hmakes := h p [] (by rw [hp]; rfl)
  rwa [made, underway_eq_nil (of_decide_eq_false hheld), List.append_nil, List.append_nil] at hmakes

end

/-- Before anything has run: no lock is held, and what is left of an older text has the other
name. -/
structure Initial (start : π → Prog α) (s : Shared π α) : Prop where
  file : ∀ i, s.file = some i → i < s.fresh ∧ s.spare ≠ some i
  spare : ∀ i, s.spare = some i → i < s.fresh
  holder : s.holder = none
  pending : s.pending = none
  log : s.log = []
  views : s.views = []
  pc : ∀ p, s.pc p = .run (start p)

theorem Initial.good {s : Shared π α} (h : Initial start s)
    (hok : ∀ p, (start p).Ok (allowed p) false false) : Good allowed s.doc s := by
  refine ⟨h.file, h.spare, by simp [h.pending], by rw [h.log]; rfl, by simp [h.log], by simp [h.views], fun p => ?_⟩
  rw [h.pc p]
  exact ⟨false, by simp, by simpa [h.holder] using hok p, by simp [h.holder]⟩

theorem Initial.traced {s : Shared π α} (h : Initial start s) : Traced start s := by
  intro p l hl
  rw [h.pc p] at hl
  have hmade : s.made p = [] := by simp [made, underway, own, h.log, h.pending]
  rw [hmade]
  exact hl

end Shared

end StainedGlass.Lib
