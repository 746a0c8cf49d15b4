import StainedGlass.Volumes.AskedLaws

namespace StainedGlass.Volumes

open Lib

variable {e : Env} {d : Disk} {it : Item} {α β : Type} {log : Log}

def Unchanged (log : Log) : Prop := ∀ x ∈ log, x.2 = false

def Spares (m : Cmd α) (log : Log) : Prop :=
  m.Ends log (fun _ _ => True) fun err log' => err.refuses = true → Unchanged log'

theorem not_unchanged_snoc (log : Log) (c : Change) : ¬ Unchanged (log ++ [(c, true)]) := by
  intro h
  cases h (c, true) (by simp)

theorem not_unchanged_append (h : ¬ Unchanged log) (log' : Log) : ¬ Unchanged (log ++ log') :=
  fun h' => h fun x hx => h' x (List.mem_append_left _ hx)

def Checks (m : Cmd α) (φ : α → Prop) : Prop :=
  ∀ log, (∃ a, (∀ a', φ a' ↔ a' = a) ∧ m log = (.ok a, log)) ∨
    ((∀ a, ¬ φ a) ∧ ∃ err, m log = (.error err, log))

variable {f : α → Cmd β} {m : Cmd α}

theorem Checks.bind {φ : α → Prop} {ψ : α → β → Prop} (hm : Checks m φ)
    (hf : ∀ a, Checks (f a) (ψ a)) : Checks (m >>= f) fun b => ∃ a, φ a ∧ ψ a b := by
  intro log
  rcases hm log with ⟨a, ha, hok⟩ | ⟨hno, err, herror⟩
  · have hbind : (m >>= f) log = f a log := by rw [Act.bind_apply, hok]
    simp only [ha, exists_eq_left, hbind]
    exact hf a log
  · have hbind : (m >>= f) log = (.error err, log) := by rw [Act.bind_apply, herror]
    exact .inr ⟨fun b ⟨a, ha, _⟩ => hno a ha, err, hbind⟩

theorem Checks.congr (h : Checks m φ) (heq : ∀ a, φ a ↔ ψ a) : Checks m ψ := by
  have : φ = ψ := funext fun a => propext (heq a)
  exact this ▸ h

theorem checks_pure (a : α) : Checks (pure a) (· = a) := fun _ => .inl ⟨a, fun _ => Iff.rfl, rfl⟩

theorem checks_refuseIf (b : Bool) (kind : Kind) (message : Str) :
    Checks (refuseIf b kind message) fun _ => b = false := by
  intro log
  cases b with
  | false => exact .inl ⟨(), fun _ => by simp, rfl⟩
  | true => exact .inr ⟨fun _ h => (nomatch h), _, rfl⟩

theorem checks_findDisk (e : Env) (name : Str) :
    Checks (findDisk e name) fun d => nameOk name = true ∧ diskNamed e name = some d := by
  intro log
  rw [findDisk]
  split
  · next hname => exact .inr ⟨fun d h => by simp [h.1] at hname, _, rfl⟩
  · next hname =>
    cases hdisks : e.disks with
    | error f => exact .inr ⟨fun d h => by simp [diskNamed, hdisks, Except.toOption] at h, _, rfl⟩
    | ok disks =>
      cases hd : diskNamed e name with
      | none => exact .inr ⟨fun d h => (by cases h.2), _, rfl⟩
      | some d =>
        refine .inl ⟨d, fun d' => ⟨fun h => (Option.some.inj h.2).symm, fun h => ⟨?_, by rw [h]⟩⟩, rfl⟩
        simpa using hname

theorem checks_findPart (e : Env) (name : Str) :
    Checks (findPart e name) fun r => nameOk name = true ∧ partNamed e name = some r := by
  intro log
  rw [findPart]
  split
  · next hname => exact .inr ⟨fun r h => by simp [h.1] at hname, _, rfl⟩
  · next hname =>
    cases hdisks : e.disks with
    | error f => exact .inr ⟨fun r h => by simp [partNamed, hdisks, Except.toOption] at h, _, rfl⟩
    | ok disks =>
      cases hr : partNamed e name with
      | none => exact .inr ⟨fun r h => (by cases h.2), _, rfl⟩
      | some r =>
        refine .inl ⟨r, fun r' => ⟨fun h => (Option.some.inj h.2).symm, fun h => ⟨?_, by rw [h]⟩⟩, rfl⟩
        simpa using hname

theorem checks_readNumber (e : Env) (s : Str) : Checks (readNumber e s) fun n => e.py.int s = some n := by
  intro log
  rw [readNumber]
  cases hn : e.py.int s with
  | none => exact .inr ⟨fun n h => (by cases h), _, rfl⟩
  | some n => exact .inl ⟨n, fun n' => by simp [eq_comm], rfl⟩

structure Changeable (e : Env) (d : Disk) : Prop where
  system : d.system = false
  listed : (e.testDisks ≠ [] && d.path ∉ e.testDisks) = false
  real : (e.virtual d.path && d.path ∉ e.testDisks) = false
  writable : d.readonly = false

theorem checks_checkChangeable (e : Env) (d : Disk) : Checks (checkChangeable e d) fun _ => Changeable e d := by
  refine ((checks_refuseIf _ _ _).bind fun _ => (checks_refuseIf _ _ _).bind fun _ =>
    (checks_refuseIf _ _ _).bind fun _ => checks_refuseIf _ _ _).congr fun _ => ?_
  constructor
  · rintro ⟨-, h₁, -, h₂, -, h₃, h₄⟩
    exact ⟨h₁, h₂, h₃, h₄⟩
  · rintro ⟨h₁, h₂, h₃, h₄⟩
    exact ⟨(), h₁, (), h₂, (), h₃, h₄⟩

theorem spares_bind (hm : Checks m φ) (hlog : Unchanged log) : Spares (m >>= f) log ↔ ∀ a, φ a → Spares (f a) log := by
  rw [Spares, Act.ends_bind]
  rcases hm log with ⟨a, ha, hok⟩ | ⟨hno, err, herror⟩
  · simp only [Act.Ends, hok, ha]
    exact ⟨fun h a' ha' => ha' ▸ h, fun h => h a rfl⟩
  · simp only [Act.Ends, herror]
    exact ⟨fun _ a ha => absurd ha (hno a), fun _ _ => hlog⟩

theorem spares_sfdisk (c : Change) (o : Outcome) (message : Str) (log : Log) :
    Spares (sfdisk c o message) log := by
  cases o with
  | done => trivial
  | exit stderr changes => exact fun h => nomatch h
  | raised changes => exact fun h => nomatch h

theorem spares_runChecked (c : Change) (o : Outcome) (program : Str) (log : Log) :
    Spares (runChecked c o program) log := by
  cases o with
  | done => trivial
  | exit stderr changes => exact fun h => nomatch h
  | raised changes => exact fun h => nomatch h

theorem spares_sfdisk_bind (c : Change) (o : Outcome) (message : Str) (f : Unit → Cmd α) (log : Log) :
    Spares (sfdisk c o message >>= f) log ↔ (o = .done → Spares (f ()) (log ++ [(c, true)])) := by
  cases o with
  | done => exact ⟨fun h _ => h, fun h => h rfl⟩
  | exit stderr changes => exact ⟨fun _ h => (nomatch h), fun _ h => (nomatch h)⟩
  | raised changes => exact ⟨fun _ h => (nomatch h), fun _ h => (nomatch h)⟩

theorem spares_late (b : Bool) (kind : Kind) (hkind : kind ≠ .failed) (message : Str) (f : Unit → Cmd α)
    (hlog : ¬ Unchanged log) :
    Spares (refuseIf b kind message >>= f) log ↔ b = false ∧ Spares (f ()) log := by
  cases b with
  | false => exact ⟨fun h => ⟨rfl, h⟩, fun h => h.2⟩
  | true =>
    refine ⟨fun h => ?_, fun h => nomatch h.1⟩
    exact absurd (h (by simpa [Error.refuses] using hkind)) hlog

theorem spares_iff (m : Cmd α) (log : Log) :
    Spares m log ↔ ∀ err log', m log = (.error err, log') → err.refuses = true → Unchanged log' := by
  rcases hm : m log with ⟨a | err, log'⟩
  · simp [Spares, Act.Ends, hm]
  · simp [Spares, Act.Ends, hm]

theorem spares_assoc (m : Cmd α) (g : α → Cmd β) (f : β → Cmd γ) (log : Log) :
    Spares ((m >>= g) >>= f) log ↔ Spares (m >>= fun a => g a >>= f) log := by
  simp only [Spares, Act.ends_bind]

theorem Spares.andThen (hm : Spares m log) (hf : ∀ a log, Spares (f a) log) : Spares (m >>= f) log := by
  rw [Spares, Act.ends_bind]
  exact Act.Ends.mono hm (fun a log' _ => hf a log') fun _ _ h => h

theorem unchanged_nil : Unchanged [] := fun _ h => nomatch h

def TableOk (t : Table) : Prop := if t.label = str "dos" then t.parts.length < 4 else t.label = str "gpt"

theorem checks_checkTable (e : Env) (t : Table) : Checks (checkTable e t) fun _ => TableOk t := by
  rw [checkTable]
  split
  · next hdos => exact (checks_refuseIf _ _ _).congr fun _ => by simp [TableOk, hdos]
  · next hdos => exact (checks_refuseIf _ _ _).congr fun _ => by simp [TableOk, hdos]

theorem spares_newNode_bind (path : Str) (sector : Nat) (f : Str → Cmd α) (log : Log) :
    Spares (newNode e path sector >>= f) log ↔
      ∀ number, newNumber e.tableAfter sector = some number → e.appears = true →
        Spares (f (partNode e path number)) log := by
  rw [newNode]
  cases hnumber : newNumber e.tableAfter sector with
  | none => exact ⟨fun _ _ h => (by cases h), fun _ (h : false = true) => (by cases h)⟩
  | some number =>
    cases happears : e.appears with
    | false => exact ⟨fun _ _ _ h => (by cases h), fun _ (h : false = true) => (by cases h)⟩
    | true => exact ⟨fun h n hn _ => Option.some.inj hn ▸ h, fun h => h number rfl rfl⟩

theorem spares_formatNew (fs node label : Str) (hlog : ¬ Unchanged log) :
    Spares (formatNew e fs node label) log ↔ e.installed (program fs) = true ∧ labelOk fs label = true := by
  have hlog' : ¬ Unchanged (log ++ [(.wipefs node, e.wipefs)]) := not_unchanged_append hlog _
  change Spares (refuseIf _ _ _ >>= fun _ => refuseIf _ _ _ >>= fun _ => runChecked _ _ _)
    (log ++ [(.wipefs node, e.wipefs)]) ↔ _
  rw [spares_late _ _ (by decide) _ _ hlog', spares_late _ _ (by decide) _ _ hlog']
  simp [spares_runChecked]

theorem spares_append (path fs label : Str) (t : Table) (start size : Nat) (log : Log) :
    Spares (appendPartition e path fs t start size >>= fun node => formatNew e fs node label) log ↔
      (e.append = .done → (newNumber e.tableAfter (start / t.sector)).isSome = true → e.appears = true →
        e.installed (program fs) = true ∧ labelOk fs label = true) := by
  rw [appendPartition, spares_assoc, spares_sfdisk_bind]
  refine imp_congr_right fun _ => ?_
  rw [spares_newNode_bind]
  simp only [spares_formatNew _ _ _ (not_unchanged_snoc _ _), Option.isSome_iff_exists, forall_exists_index]

theorem spares_createVolume (path fs label : Str) (start size : Nat) :
    Spares (createVolume e path fs label start size) [] ↔
      ((e.table.label = [] → e.initialise = .done) → TableOk (tableUsed e) → e.append = .done →
        (newNumber e.tableAfter (start / (tableUsed e).sector)).isSome = true → e.appears = true →
        e.installed (program fs) = true ∧ labelOk fs label = true) := by
  rw [createVolume, initialise]
  split
  · next hlabel =>
    -- the disk has a table of its own making now, which the check passes
    have hused : (tableUsed e).label = str "gpt" := by simp [tableUsed, hlabel]
    have hok : TableOk (tableUsed e) := by
      rw [TableOk, if_neg (by rw [hused]; decide), hused]
    have hcheck : checkTable e (tableUsed e) = pure () := by
      rw [checkTable, if_neg (by rw [hused]; decide), hused]
      rfl
    rw [spares_sfdisk_bind, hcheck]
    change (_ → Spares (appendPartition e path fs (tableUsed e) start size >>= fun node => formatNew e fs node label) _)
      ↔ _
    rw [spares_append]
    simp [hok, hlabel]
  · next hlabel =>
    change Spares (checkTable e (tableUsed e) >>= fun _ => appendPartition e path fs (tableUsed e) start size >>=
      fun node => formatNew e fs node label) [] ↔ _
    rw [spares_bind (checks_checkTable e _) unchanged_nil]
    simp only [spares_append, forall_const, hlabel, false_imp_iff]

structure Creates (e : Env) (name startArg sizeArg : Str) (opts : Opts) (d : Disk) (start size : Nat) : Prop where
  digits : (e.py.isdigit startArg && e.py.isdigit sizeArg) = true
  format : (formats.lookup (fsAsked e opts)).isSome = true
  named : nameOk name = true
  disk : diskNamed e name = some d
  changeable : Changeable e d
  startRead : e.py.int startArg = some start
  sizeRead : e.py.int sizeArg = some size
  large : 8 * mib ≤ roundDown size
  inGap : fits d.gaps (roundUp start) (roundDown size) = true
  initialised : e.table.label = [] → e.initialise = .done
  table : TableOk (tableUsed e)
  appended : e.append = .done
  number : (newNumber e.tableAfter (roundUp start / (tableUsed e).sector)).isSome = true
  appears : e.appears = true

def FormatsNew (e : Env) (opts : Opts) : Prop :=
  e.installed (program (fsAsked e opts)) = true ∧ labelOk (fsAsked e opts) (opts.label.getD []) = true

theorem spares_cmdCreate (name startArg sizeArg : Str) (opts : Opts) :
    Spares (cmdCreate e [name, startArg, sizeArg] opts) [] ↔
      ∀ d start size, Creates e name startArg sizeArg opts d start size → FormatsNew e opts := by
  rw [cmdCreate, spares_bind (checks_refuseIf _ _ _) unchanged_nil]
  simp only [spares_bind (checks_refuseIf _ _ _) unchanged_nil, spares_bind (checks_findDisk _ _) unchanged_nil,
    spares_bind (checks_checkChangeable _ _) unchanged_nil, spares_bind (checks_readNumber _ _) unchanged_nil,
    spares_createVolume]
  constructor
  · rintro h d start size ⟨hdigits, hformat, hname, hdisk, hchangeable, hstart, hsize, hlarge, hfits, hinit,
      htable, happend, hnumber, happears⟩
    exact h () (by rw [hdigits]; rfl) () (Option.isNone_eq_false_iff.mpr hformat) d ⟨hname, hdisk⟩ () hchangeable
      start hstart size hsize () (decide_eq_false (Nat.not_lt.mpr hlarge)) () (by rw [hfits]; rfl) hinit htable
      happend hnumber happears
  · intro h _ hdigits _ hformat d hd _ hchangeable start hstart size hsize _ hlarge _ hfits hinit htable happend
      hnumber happears
    exact h d start size ⟨by simpa using hdigits, Option.isNone_eq_false_iff.mp hformat, hd.1, hd.2,
      hchangeable, hstart, hsize, Nat.not_lt.mp (of_decide_eq_false hlarge), by simpa using hfits, hinit,
      htable, happend, hnumber, happears⟩

structure PartInOrder (e : Env) (name : Str) (r : Disk × Item) : Prop where
  named : nameOk name = true
  part : partNamed e name = some r
  partition : r.2.whole = false
  changeable : Changeable e r.1
  unused : (r.2.mounts ≠ [] || r.2.letters ≠ []) = false
  ordinary : r.2.esp = false
  childless : r.2.children = false

theorem checks_partInDisk (e : Env) (name : Str) : Checks (partInDisk e name) (PartInOrder e name) := by
  refine ((checks_findPart e name).bind fun r => (checks_refuseIf _ _ _).bind fun _ =>
    (checks_checkChangeable _ _).bind fun _ => (checks_refuseIf _ _ _).bind fun _ =>
    (checks_refuseIf _ _ _).bind fun _ => (checks_refuseIf _ _ _).bind fun _ => checks_pure r).congr fun r => ?_
  constructor
  · rintro ⟨_, ⟨h₁, h₂⟩, -, h₃, -, h₄, -, h₅, -, h₆, -, h₇, rfl⟩
    exact ⟨h₁, h₂, h₃, h₄, h₅, h₆, h₇⟩
  · rintro ⟨h₁, h₂, h₃, h₄, h₅, h₆, h₇⟩
    exact ⟨r, ⟨h₁, h₂⟩, (), h₃, (), h₄, (), h₅, (), h₆, (), h₇, rfl⟩

theorem spares_refuse (kind : Kind) (message : Str) (hlog : Unchanged log) :
    Spares (refuse kind message : Cmd α) log := fun _ => hlog

theorem spares_cmdDelete (pos : List Str) : Spares (cmdDelete e pos) [] := by
  unfold cmdDelete
  split
  · rw [spares_bind (checks_partInDisk _ _) unchanged_nil]
    intro r _
    rw [spares_bind (checks_refuseIf _ _ _) unchanged_nil]
    exact fun _ _ => spares_sfdisk _ _ _ _
  · exact spares_refuse _ _ unchanged_nil

theorem spares_checkFormat_bind (d : Disk) (it : Item) (f : Unit → Cmd α) (h : Spares (f ()) []) :
    Spares (checkFormat d it >>= f) [] := by
  have hchecks := (checks_refuseIf d.system .denied
    (str "Stained Glass cannot format a volume on the disk the system is on")).bind fun _ =>
    (checks_refuseIf (it.mounts ≠ [] || it.letters ≠ []) .denied (inUse it)).bind fun _ =>
    (checks_refuseIf it.whole .invalid (isWhole it)).bind fun _ =>
    (checks_refuseIf it.esp .denied (str "an EFI system partition cannot be formatted here")).bind fun _ =>
    checks_refuseIf it.children .denied (holdsOthers it)
  exact (spares_bind hchecks unchanged_nil).mpr fun _ _ => h

theorem spares_cmdFormat (pos : List Str) (opts : Opts) : Spares (cmdFormat e pos opts) [] := by
  unfold cmdFormat
  split
  · simp only [spares_bind (checks_refuseIf _ _ _) unchanged_nil, spares_bind (checks_findPart _ _) unchanged_nil]
    intro _ _ _ _ r _
    refine spares_checkFormat_bind _ _ _ ?_
    rw [makeFs, spares_bind (checks_refuseIf _ _ _) unchanged_nil]
    exact fun _ _ => spares_runChecked _ _ _ _
  · exact spares_refuse _ _ unchanged_nil

theorem spares_fsckExt (it : Item) (log : Log) : Spares (fsckExt e it) log := by
  rw [fsckExt]
  split
  · trivial
  · trivial

theorem spares_extend (d : Disk) (it : Item) (new : Nat) : Spares (extend e d it new) [] := by
  rw [extend, spares_bind (checks_findDisk _ _) unchanged_nil]
  intro d' _
  rw [spares_bind (checks_refuseIf _ _ _) unchanged_nil]
  intro _ _
  refine (spares_sfdisk _ _ _ _).andThen fun _ log => (spares_fsckExt it log).andThen fun _ log => ?_
  split
  · exact spares_runChecked _ _ _ _
  · exact spares_runChecked _ _ _ _

def Repairs (e : Env) (it : Item) : Prop := fsKind e it = .ext4 ∧ e.fsck = true

def fsckLog (e : Env) (it : Item) : Log := if fsKind e it = .ext4 then [(.fsck it.path, e.fsck)] else []

theorem unchanged_fsckLog : Unchanged (fsckLog e it) ↔ ¬ Repairs e it := by
  rw [fsckLog, Repairs]
  split
  · next hext => simp [Unchanged, hext]
  · next hext => simp [Unchanged, hext]

theorem fsckExt_nil (e : Env) (it : Item) : fsckExt e it [] = (.ok (), fsckLog e it) := by
  rw [fsckExt, fsckLog]
  split
  · rfl
  · rfl

theorem spares_minSize_bind (it : Item) (f : Nat → Cmd α) :
    Spares (minSize e it >>= f) [] ↔ ∀ least, e.minimum = some least → Spares (f least) (fsckLog e it) := by
  rw [minSize, spares_assoc, Spares, Act.ends_bind, Act.Ends, fsckExt_nil]
  cases e.minimum with
  | none => exact ⟨fun _ _ h => (by cases h), fun _ (h : false = true) => (by cases h)⟩
  | some least => exact ⟨fun h n hn => Option.some.inj hn ▸ h, fun h => h least rfl⟩

theorem spares_shrink (d : Disk) (it : Item) (new : Nat) :
    Spares (shrink e d it new) [] ↔
      (Repairs e it → ∀ least, e.minimum = some least → least + 16 * mib / 2 ≤ new) := by
  have hrest (log : Log) : Spares (shrinkFs e it new >>= fun _ => setPartition e d it new) log := by
    refine Spares.andThen ?_ fun _ log => spares_sfdisk _ _ _ _
    rw [shrinkFs]
    split
    · exact spares_runChecked _ _ _ _
    · exact spares_runChecked _ _ _ _
  rw [shrink, spares_minSize_bind]
  by_cases hrepairs : Repairs e it
  · have hlog : ¬ Unchanged (fsckLog e it) := fun h => unchanged_fsckLog.mp h hrepairs
    have hlate (least : Nat) := spares_late (decide (new < least + 16 * mib / 2)) .invalid (by decide)
      (str "the volume cannot shrink that far: its files need more room")
      (fun _ => shrinkFs e it new >>= fun _ => setPartition e d it new) hlog
    simp only [hlate, hrest, and_true, decide_eq_false_iff_not, Nat.not_lt, hrepairs, forall_true_left]
  · have hlog := unchanged_fsckLog.mpr hrepairs
    refine iff_of_true (fun least _ => ?_) fun h => absurd h hrepairs
    exact (spares_bind (checks_refuseIf _ _ _) hlog).mpr fun _ _ => hrest _

structure Resizes (e : Env) (name sizeArg : Str) (d : Disk) (it : Item) (size : Nat) : Prop where
  digits : e.py.isdigit sizeArg = true
  part : PartInOrder e name (d, it)
  known : fsKind e it ≠ .other
  sizeRead : e.py.int sizeArg = some size

theorem spares_cmdResize (name sizeArg : Str) :
    Spares (cmdResize e [name, sizeArg]) [] ↔
      ∀ d it size, Resizes e name sizeArg d it size → roundDown size < it.size → Repairs e it →
        ∀ least, e.minimum = some least → least + 16 * mib / 2 ≤ roundDown size := by
  rw [cmdResize]
  simp only [spares_bind (checks_refuseIf _ _ _) unchanged_nil, spares_bind (checks_partInDisk _ _) unchanged_nil,
    spares_bind (checks_readNumber _ _) unchanged_nil]
  have hsize (d : Disk) (it : Item) (size : Nat) :
      Spares (if roundDown size = it.size then pure () else if it.size < roundDown size then
        extend e d it (roundDown size) else shrink e d it (roundDown size)) [] ↔
      (roundDown size < it.size → Repairs e it → ∀ least, e.minimum = some least →
        least + 16 * mib / 2 ≤ roundDown size) := by
    split
    · next h => exact iff_of_true trivial fun hlt => absurd h hlt.ne
    · split
      · next h => exact iff_of_true (spares_extend _ _ _) fun hlt => absurd h hlt.asymm
      · next hne hge =>
        rw [spares_shrink]
        exact ⟨fun h _ => h, fun h => h (by omega)⟩
  simp only [hsize]
  constructor
  · rintro h d it size ⟨hdigits, hpart, hknown, hint⟩
    exact h () (by simpa using hdigits) (d, it) hpart () (by simpa using hknown) size hint
  · intro h _ hdigits r hpart _ hknown size hint
    exact h r.1 r.2 size ⟨by simpa using hdigits, hpart, by simpa using hknown, hint⟩

def InTime (e : Env) : Request → Prop
  | .create args => ∀ name startArg sizeArg opts,
      parseOpts e.py.clean [str "label", str "fs"] args = .ok ([name, startArg, sizeArg], opts) →
      ∀ d start size, Creates e name startArg sizeArg opts d start size → FormatsNew e opts
  | .resize args => ∀ name sizeArg, args = [name, sizeArg] → ∀ d it size, Resizes e name sizeArg d it size →
      roundDown size < it.size → Repairs e it → ∀ least, e.minimum = some least →
      least + 16 * mib / 2 ≤ roundDown size
  | .delete _ => True
  | .format _ => True

theorem spares_withOpts (valued args : List Str) (k : List Str → Opts → Cmd Unit) :
    Spares (withOpts e valued args k) [] ↔
      ∀ pos opts, parseOpts e.py.clean valued args = .ok (pos, opts) → Spares (k pos opts) [] := by
  rw [withOpts]
  cases h : parseOpts e.py.clean valued args with
  | error f => exact ⟨fun _ _ _ h => (nomatch h), fun _ _ => unchanged_nil⟩
  | ok r =>
    obtain ⟨pos, opts⟩ := r
    constructor
    · intro h pos' opts' heq
      cases heq
      exact h
    · exact fun h => h pos opts rfl

theorem refused_unchanged_iff (mayUse admin : Bool) (r : Request) :
    (∀ err log, runService e mayUse admin r [] = (.error err, log) → err.refuses = true → Unchanged log) ↔
      (mayUse = true → admin = true → InTime e r) := by
  rw [← spares_iff]
  unfold runService
  simp only [spares_bind (checks_refuseIf _ _ _) unchanged_nil, Bool.not_eq_eq_eq_not, Bool.not_false, forall_const]
  refine imp_congr_right fun _ => imp_congr_right fun _ => ?_
  cases r with
  | create args =>
    simp only [spares_withOpts, InTime]
    constructor
    · intro h name startArg sizeArg opts hparse
      exact (spares_cmdCreate _ _ _ _).mp (h _ _ hparse)
    · intro h pos opts hparse
      match pos, hparse with
      | [name, startArg, sizeArg], hparse => exact (spares_cmdCreate _ _ _ _).mpr (h _ _ _ _ hparse)
      | [], _ => exact spares_refuse _ _ unchanged_nil
      | [_], _ => exact spares_refuse _ _ unchanged_nil
      | [_, _], _ => exact spares_refuse _ _ unchanged_nil
      | _ :: _ :: _ :: _ :: _, _ => exact spares_refuse _ _ unchanged_nil
  | delete args => exact iff_of_true (spares_cmdDelete args) trivial
  | format args =>
    refine iff_of_true ?_ trivial
    exact (spares_withOpts _ _ _).mpr fun pos opts _ => spares_cmdFormat pos opts
  | resize args =>
    simp only [InTime]
    constructor
    · rintro h name sizeArg rfl
      exact (spares_cmdResize _ _).mp h
    · intro h
      match args, h with
      | [name, sizeArg], h => exact (spares_cmdResize _ _).mpr (h _ _ rfl)
      | [], _ => exact spares_refuse _ _ unchanged_nil
      | [_], _ => exact spares_refuse _ _ unchanged_nil
      | _ :: _ :: _ :: _, _ => exact spares_refuse _ _ unchanged_nil

def longLabel : Request :=
  .create [str "sdb", str "2097152", str "8388608", str "--fs", str "fat32", str "--label", str "PHOTOSOF2024"]

theorem longLabel_is_refused_too_late :
    runService (allWorks halfway) true true longLabel [] =
      (.error (.fail ⟨.invalid, badLabel (str "fat32")⟩),
        [(.append (str "/dev/sdb") 4096 16384 (ptype (str "fat32") (str "gpt")), true),
          (.wipefs (str "/dev/sdb3"), true)]) := by
  decide +kernel

end StainedGlass.Volumes
