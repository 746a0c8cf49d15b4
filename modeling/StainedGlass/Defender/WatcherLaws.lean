import StainedGlass.Defender.Watcher

namespace StainedGlass.Defender

open Lib

variable {δ : Type} {m : Machine δ} {s : State δ}

def Noticed (s : State δ) (p : Path) : Prop :=
  ∃ dir name d how, p = dir ++ [name] ∧ s.world.folders dir = some d ∧ s.wd.get? d = some dir ∧
    how ≠ .created ∧ .entry d how false name ∈ s.world.queue

def Busy (p : Path) : Phase δ → Prop
  | .handling es => ∃ e ∈ es, e.folder = false ∧ e.how ≠ .created ∧ e.path = p
  | .testing job _ => job.path = p
  | .typing job _ => job.path = p
  | .scanning job _ => job.path = p
  | _ => False

def Outstanding (s : State δ) (p : Path) : Prop := Noticed s p ∨ p ∈ s.pending.keys ∨ Busy p s.phase

def Scanned (s : State δ) (p : Path) (f : File) : Prop :=
  ∃ x ∈ s.log, x.path = p ∧ x.content = f.content ∧ s.world.stamp p ≤ x.time

def Judged (p : Path) : Phase δ → Prop
  | .judging job _ _ => job.path = p
  | .hashing job _ _ => job.path = p
  | .moving job _ _ _ => job.path = p
  | _ => False

def Settles (m : Machine δ) (s : State δ) (x : Scan) : Prop :=
  m.digest x.content ∈ s.allowed ∨ x.time < s.world.stamp x.path ∨
    ∃ r ∈ s.quarantine, r.path = x.path ∧ r.content = x.content

def BeingSettled (s : State δ) (x : Scan) : Prop :=
  Judged x.path s.phase ∧ ∃ f, s.world.files x.path = some f ∧ f.content = x.content

structure Inv (m : Machine δ) (s : State δ) : Prop where
  sound : s.world.Sound
  enabled : s.enabled = true
  staysOn : ∀ folders watched on, s.phase = .looking folders watched on → on = true
  stamps : ∀ p, s.world.stamp p ≤ s.world.clock
  times : ∀ x ∈ s.log, x.time ≤ s.world.clock
  covered : ∀ p f, s.world.files p = some f → 0 < s.world.stamp p →
    runnable m.unicode p (some f.content) = true → Outstanding s p ∨ Scanned s p f
  settled : ∀ x ∈ s.log, x.found ≠ none → Settles m s x ∨ BeingSettled s x

def Known (s : State δ) (dir : Path) : Prop :=
  ∃ d, s.world.folders dir = some d ∧ d ∈ s.world.watches ∧ s.wd.get? d = some dir

def HasRoom (m : Machine δ) (s : State δ) (op : FileOp Str File) : Prop :=
  s.world.queue.length + (op.notes s.world).length ≤ m.limit

def CarefulOp (m : Machine δ) (s : State δ) (op : FileOp Str File) : Prop :=
  match op with
  | .write dir _ _ => Known s dir ∧ HasRoom m s op
  | .move _ dir _ => Known s dir ∧ HasRoom m s op
  | .bring dir _ _ => Known s dir ∧ HasRoom m s op
  | .moveFolder src _ _ => ∀ q, src <+: q → s.world.files q = none
  | .bringFolder _ _ _ files => ∀ q, files q = none
  | _ => True

variable {op : FileOp Str File}

theorem noticed_arrival (hknown : Known s dir)
    (hroom : HasRoom m s op) (hhow : how ≠ .created) (hfolders : op.folders s.world = s.world.folders)
    (hnote : ∀ n ∈ s.world.noted dir how false name, n ∈ op.notes s.world) :
    Noticed { s with world := op.apply s.world m.limit } (dir ++ [name]) := by
  obtain ⟨d, hdir, hd, hwd⟩ := hknown
  refine ⟨dir, name, d, how, rfl, ?_, hwd, hhow, ?_⟩
  · exact (congrFun hfolders dir).trans hdir
  · refine Watched.mem_foldl_post_self hroom (hnote _ ?_)
    rw [Watched.noted_eq hdir hd]
    exact .head _

theorem noticed_of_touched (hcareful : CarefulOp m s op)
    (htouch : op.touches p = true) (hfile : op.files s.world p ≠ none) (hable : op.Able s.world) :
    Noticed { s with world := op.apply s.world m.limit } p := by
  cases op with
  | write dir name f =>
    simp only [FileOp.touches, decide_eq_true_eq] at htouch
    subst htouch
    exact noticed_arrival hcareful.1 hcareful.2 (by decide) rfl fun n hn => List.mem_append_right _ hn
  | move src dir name =>
    simp only [FileOp.touches, Bool.or_eq_true, decide_eq_true_eq] at htouch
    obtain rfl | rfl := htouch
    · refine absurd ?_ hfile
      rw [FileOp.files, Function.update_of_ne hable.2.2.2, Function.update_self]
    · exact noticed_arrival hcareful.1 hcareful.2 (by decide) rfl fun n hn => hn
  | bring dir name f =>
    simp only [FileOp.touches, decide_eq_true_eq] at htouch
    subst htouch
    exact noticed_arrival hcareful.1 hcareful.2 (by decide) rfl fun n hn => hn
  | remove q =>
    simp only [FileOp.touches, decide_eq_true_eq] at htouch
    subst htouch
    exact absurd (Function.update_self ..) hfile
  | makeFolder dir name => cases htouch
  | moveFolder src dir name =>
    refine absurd ?_ hfile
    simp only [FileOp.touches, Bool.or_eq_true, decide_eq_true_eq] at htouch
    simp only [FileOp.files]
    split
    · exact hcareful _ (List.prefix_append _ _)
    · next hdst => rw [if_pos (htouch.resolve_right hdst)]
  | bringFolder dir name fs gs =>
    refine absurd ?_ hfile
    simp only [FileOp.touches, decide_eq_true_eq] at htouch
    simp only [FileOp.files]
    rw [if_pos htouch]
    exact hcareful _
  | removeFolder q => cases htouch
  | takeFolder q =>
    refine absurd ?_ hfile
    simp only [FileOp.touches, decide_eq_true_eq] at htouch
    simp only [FileOp.files]
    rw [if_pos htouch]

theorem Noticed.untouched (h : Noticed s p) (hable : op.Able s.world)
    (htouch : op.touches p = false) (hfile : s.world.files p ≠ none) :
    Noticed { s with world := op.apply s.world m.limit } p := by
  obtain ⟨dir, name, d, how, rfl, hdir, hwd, hhow, hmem⟩ := h
  exact ⟨dir, name, d, how, rfl, FileOp.folders_of_untouched hable htouch hfile hdir, hwd, hhow,
    Watched.mem_foldl_post_of_mem _ hmem⟩

theorem Inv.files (h : Inv m s) (hable : op.Able s.world) (hcareful : CarefulOp m s op) :
    Inv m { s with world := op.apply s.world m.limit } where
  sound := FileOp.sound_apply h.sound
  enabled := h.enabled
  staysOn := h.staysOn
  stamps p := by
    simp only [FileOp.apply]
    split
    · exact le_rfl
    · exact (h.stamps p).trans (Nat.le_succ _)
  times x hx := (h.times x hx).trans (Nat.le_succ _)
  covered p f hfile hstamp hrun := by
    cases htouch : op.touches p with
    | true =>
      refine .inl (.inl (noticed_of_touched hcareful htouch ?_ hable))
      simp [show op.files s.world p = some f from hfile]
    | false =>
      have hfile' : s.world.files p = some f := (FileOp.files_of_untouched htouch).symm.trans hfile
      have hstamp' : (op.apply s.world m.limit).stamp p = s.world.stamp p := by simp [FileOp.apply, htouch]
      rcases h.covered p f hfile' (hstamp' ▸ hstamp) hrun with (hnoticed | hrest) | ⟨x, hx, hpath, hcontent, htime⟩
      · exact .inl (.inl (hnoticed.untouched hable htouch (by simp [hfile'])))
      · exact .inl (.inr hrest)
      · exact .inr ⟨x, hx, hpath, hcontent, hstamp' ▸ htime⟩
  settled x hx hfound := by
    cases htouch : op.touches x.path with
    | true =>
      refine .inl (.inr (.inl ?_))
      simp only [FileOp.apply, htouch, if_true]
      exact Nat.lt_succ_of_le (h.times x hx)
    | false =>
      have hstamp : (op.apply s.world m.limit).stamp x.path = s.world.stamp x.path := by simp [FileOp.apply, htouch]
      rcases h.settled x hx hfound with (hallowed | hlt | hkept) | ⟨hjudged, f, hfile, hcontent⟩
      · exact .inl (.inl hallowed)
      · exact .inl (.inr (.inl (hstamp ▸ hlt)))
      · exact .inl (.inr (.inr hkept))
      · exact .inr ⟨hjudged, f, (FileOp.files_of_untouched htouch).trans hfile, hcontent⟩

theorem events_entry {wd : Assoc (FolderId Str) Path} (hwd : wd.get? d = some dir) (hgone : .gone d ∉ notes) :
    (events notes wd).2.get? d = some dir ∧
      ∀ how name, .entry d how false name ∈ notes → ⟨how, false, dir ++ [name]⟩ ∈ (events notes wd).1 := by
  fun_induction events notes wd with
  | case1 wd => exact ⟨hwd, fun _ _ h => absurd h List.not_mem_nil⟩
  | case2 d' notes wd ih =>
    have hne : d ≠ d' := fun h => hgone (h ▸ .head _)
    obtain ⟨hget, hmem⟩ := ih ((wd.get?_erase_ne hne).trans hwd) fun h => hgone (.tail _ h)
    exact ⟨hget, fun how name h => hmem how name ((List.mem_cons.mp h).resolve_left (by simp))⟩
  | case3 d' how' folder name' notes wd dir' hdir' ih =>
    obtain ⟨hget, hmem⟩ := ih hwd fun h => hgone (.tail _ h)
    refine ⟨hget, fun how name h => ?_⟩
    obtain h | h := List.mem_cons.mp h
    · cases h
      rw [hwd] at hdir'
      cases hdir'
      exact .head _
    · exact .tail _ (hmem how name h)
  | case4 d' how' folder name' notes wd hnone ih =>
    obtain ⟨hget, hmem⟩ := ih hwd fun h => hgone (.tail _ h)
    refine ⟨hget, fun how name h => ?_⟩
    obtain h | h := List.mem_cons.mp h
    · cases h
      simp [hwd] at hnone
    · exact hmem how name h

theorem outstanding_read (h : Outstanding s p) (hidle : s.phase = .idle) (hsound : s.world.Sound) (n : Nat) :
    Outstanding (s.read n) p := by
  rcases h with ⟨dir, name, d, how, rfl, hdir, hwd, hhow, hmem⟩ | hpending | hbusy
  · have hgone : .gone d ∉ s.world.queue := fun hd => (hsound.2.2 d hd).2 _ hdir
    have hgone' : .gone d ∉ s.world.queue.take n := fun hd => hgone (List.mem_of_mem_take hd)
    obtain ⟨hget, hevent⟩ := events_entry hwd hgone'
    rw [← List.take_append_drop n s.world.queue] at hmem
    obtain hmem | hmem := List.mem_append.mp hmem
    · exact .inr (.inr ⟨_, hevent how name hmem, rfl, hhow, rfl⟩)
    · exact .inl ⟨dir, name, d, how, rfl, hdir, hget, hhow, hmem⟩
  · exact .inr (.inl hpending)
  · rw [hidle] at hbusy
    exact hbusy.elim

theorem Inv.read (h : Inv m s) (hidle : s.phase = .idle) (n : Nat) : Inv m (s.read n) where
  sound := ⟨h.sound.1, h.sound.2.1, fun d hd => h.sound.2.2 d (List.mem_of_mem_drop hd)⟩
  enabled := h.enabled
  staysOn _ _ _ heq := nomatch heq
  stamps := h.stamps
  times := h.times
  covered p f hfile hstamp hrun :=
    (h.covered p f hfile hstamp hrun).imp_left fun ho => outstanding_read ho hidle h.sound n
  settled x hx hfound := by
    refine (h.settled x hx hfound).imp_right fun hs => ?_
    rw [BeingSettled, hidle] at hs
    exact hs.1.elim

theorem Inv.turn (h : Inv m s) (phase : Phase δ) (pending : Assoc Path Pending)
    (hon : ∀ folders watched on, phase = .looking folders watched on → on = true)
    (houtstanding : ∀ p f, s.world.files p = some f → runnable m.unicode p (some f.content) = true →
      p ∈ s.pending.keys ∨ Busy p s.phase → (p ∈ pending.keys ∨ Busy p phase) ∨ Scanned s p f)
    (hsettled : ∀ x f, s.world.files x.path = some f → f.content = x.content → Judged x.path s.phase →
      Judged x.path phase ∨ Settles m s x) :
    Inv m { s with phase := phase, pending := pending } where
  sound := h.sound
  enabled := h.enabled
  staysOn := hon
  stamps := h.stamps
  times := h.times
  covered p f hfile hstamp hrun := by
    rcases h.covered p f hfile hstamp hrun with (hnoticed | hrest) | hscanned
    · exact .inl (.inl hnoticed)
    · exact (houtstanding p f hfile hrun hrest).imp_left .inr
    · exact .inr hscanned
  settled x hx hfound := by
    rcases h.settled x hx hfound with hs | ⟨hjudged, f, hfile, hcontent⟩
    · exact .inl hs
    · exact (hsettled x f hfile hcontent hjudged).elim (fun hj => .inr ⟨hj, f, hfile, hcontent⟩) .inl

theorem Inv.verdict (h : Inv m s) (phase : Phase δ)
    (hon : ∀ folders watched on, phase = .looking folders watched on → on = true) (hbusy : ∀ p, ¬ Busy p s.phase)
    (hsettled : ∀ x f, s.world.files x.path = some f → f.content = x.content → Judged x.path s.phase →
      Judged x.path phase ∨ Settles m s x) : Inv m { s with phase := phase } := by
  refine h.turn phase s.pending hon ?_ hsettled
  rintro p f - - (hp | hb)
  · exact .inl (.inl hp)
  · exact absurd hb (hbusy p)

theorem Inv.pass (h : Inv m s) (phase : Phase δ)
    (hon : ∀ folders watched on, phase = .looking folders watched on → on = true)
    (hbusy : ∀ p, ¬ Busy p s.phase) (hjudged : ∀ p, ¬ Judged p s.phase) : Inv m { s with phase := phase } :=
  h.verdict phase hon hbusy fun _ _ _ _ hj => absurd hj (hjudged _)

theorem Inv.watch (h : Inv m s) (henc : encodable path = true) (canWatch : Bool) : Inv m (s.watch path canWatch) := by
  unfold State.watch
  rw [henc, Bool.not_true, if_neg Bool.false_ne_true]
  cases hfolder : s.world.folders path with
  | none => exact h
  | some d =>
    cases canWatch with
    | false => exact h
    | true =>
      refine ⟨h.sound, h.enabled, h.staysOn, h.stamps, h.times, ?_, h.settled⟩
      intro p f hfile hstamp hrun
      refine (h.covered p f hfile hstamp hrun).imp_left fun ho => ?_
      rcases ho with ⟨dir, name, d', how, hp, hdir, hwd, hhow, hmem⟩ | hrest
      · refine .inl ⟨dir, name, d', how, hp, hdir, ?_, hhow, hmem⟩
        by_cases hd : d' = d
        · subst hd
          rw [h.sound.1 _ _ _ hdir hfolder]
          exact Assoc.get?_set _ _ _
        · exact (Assoc.get?_set_ne _ _ hd).trans hwd
      · exact .inr hrest

theorem Inv.handle {e : Event} (h : Inv m s) (hphase : s.phase = .handling (e :: es))
    (henc : e.folder = true → encodable e.path = true) (now : Nat) (canWatch : Bool) :
    Inv m (handle { s with phase := .handling es } e now canWatch) := by
  have hjudged (x : Scan) (f : File) (_ : s.world.files x.path = some f) (_ : f.content = x.content)
      (hj : Judged x.path s.phase) : Judged x.path (.handling es : Phase δ) ∨ Settles m s x := by
    rw [hphase] at hj
    exact hj.elim
  have hskip (hskip : e.folder = true ∨ e.how = .created) : Inv m { s with phase := .handling es } := by
    refine h.turn (.handling es) s.pending (fun _ _ _ heq => nomatch heq) ?_ hjudged
    rintro p f - - (hpending | hbusy)
    · exact .inl (.inl hpending)
    · rw [hphase] at hbusy
      obtain ⟨e', he', hfolder, hhow, hpath⟩ := hbusy
      obtain rfl | he' := List.mem_cons.mp he'
      · simp [hfolder, hhow] at hskip
      · exact .inl (.inr ⟨e', he', hfolder, hhow, hpath⟩)
  unfold Defender.handle
  split
  · next hfolder =>
    split
    · exact (hskip (.inl hfolder)).watch (henc hfolder) canWatch
    · exact hskip (.inl hfolder)
  · split
    · refine h.turn (.handling es) _ (fun _ _ _ heq => nomatch heq) ?_ hjudged
      rintro p f - - (hpending | hbusy)
      · exact .inl (.inl (Assoc.mem_keys_set.mpr (.inr hpending)))
      · rw [hphase] at hbusy
        obtain ⟨e', he', hfolder, hhow, hpath⟩ := hbusy
        obtain rfl | he' := List.mem_cons.mp he'
        · exact .inl (.inl (Assoc.mem_keys_set.mpr (.inl hpath.symm)))
        · exact .inl (.inr ⟨e', he', hfolder, hhow, hpath⟩)
    · next hhow =>
      refine hskip (.inr ?_)
      cases heq : e.how with
      | created => rfl
      | written => exact absurd (.inl heq) hhow
      | movedTo => exact absurd (.inr heq) hhow

variable {rest : List (Path × Pending)}

theorem Inv.job {job : Job} (h : Inv m s)
    (hphase : s.phase = .testing job rest ∨ s.phase = .typing job rest ∨ s.phase = .scanning job rest)
    (pending : Assoc Path Pending) (hon : ∀ folders watched on, phase = .looking folders watched on → on = true)
    (hpending : ∀ p ∈ s.pending.keys, p ∈ pending.keys)
    (hjob : ∀ f, s.world.files job.path = some f → runnable m.unicode job.path (some f.content) = true →
      Busy job.path s.phase → Busy job.path phase ∨ Scanned s job.path f) :
    Inv m { s with phase := phase, pending := pending } := by
  have hjudged (p : Path) : ¬ Judged p s.phase := by
    rcases hphase with hphase | hphase | hphase <;> simp [hphase, Judged]
  refine h.turn phase pending hon ?_ fun x _ _ _ hj => absurd hj (hjudged _)
  rintro p f hfile hrun (hp | hb)
  · exact .inl (.inl (hpending p hp))
  · obtain rfl : job.path = p := by
      rcases hphase with hphase | hphase | hphase <;> rwa [hphase] at hb
    exact (hjob f hfile hrun hb).imp_left .inr

theorem Inv.note {job : Job} {f : File} (h : Inv m s)
    (hphase : s.phase = .scanning job rest) (hfile : s.world.files job.path = some f) (found : Option Str)
    (hon : ∀ folders watched on, phase = .looking folders watched on → on = true)
    (hfound : found ≠ none → Judged job.path phase) :
    Inv m { s.note job.path f.content found with phase := phase } := by
  refine ⟨h.sound, h.enabled, hon, h.stamps, ?_, ?_, ?_⟩
  · intro x hx
    obtain rfl | hx := List.mem_cons.mp hx
    · exact le_rfl
    · exact h.times x hx
  · intro p f' hfile' hstamp hrun
    rcases h.covered p f' hfile' hstamp hrun with (hnoticed | hpending | hbusy) | ⟨x, hx, hscan⟩
    · exact .inl (.inl hnoticed)
    · exact .inl (.inr (.inl hpending))
    · rw [hphase] at hbusy
      obtain rfl : job.path = p := hbusy
      cases hfile.symm.trans hfile'
      exact .inr ⟨_, .head _, rfl, rfl, h.stamps _⟩
    · exact .inr ⟨x, .tail _ hx, hscan⟩
  · intro x hx hxfound
    obtain rfl | hx := List.mem_cons.mp hx
    · exact .inr ⟨hfound hxfound, f, hfile, rfl⟩
    · rcases h.settled x hx hxfound with hs | ⟨hjudged, -⟩
      · exact .inl hs
      · rw [hphase] at hjudged
        exact hjudged.elim

theorem Inv.scan {job : Job} {a : Answers} (h : Inv m s)
    (hphase : s.phase = .scanning job rest) (hanswer : s.world.files job.path ≠ none → a.verdict ≠ none)
    (henc : a.verdict.join.isSome → encodable job.path = true) : Inv m (scan s job rest a) := by
  unfold Defender.scan
  split
  · next f hfile hverdict => exact h.note hphase hfile none (fun _ _ _ heq => nomatch heq) fun hne => absurd rfl hne
  · next f signature hfile hverdict =>
    rw [if_pos (henc (by rw [hverdict]; rfl))]
    exact h.note hphase hfile (some signature) (fun _ _ _ heq => nomatch heq) fun _ => rfl
  · next hclean hsig =>
    have hnone : s.world.files job.path = none := by
      by_contra hne
      obtain ⟨f, hf⟩ := Option.ne_none_iff_exists'.mp hne
      obtain ⟨v, hv⟩ := Option.ne_none_iff_exists'.mp (hanswer hne)
      cases v with
      | none => exact hclean f hf hv
      | some signature => exact hsig f signature hf hv
    have hjob (f : File) (hf : s.world.files job.path = some f)
        (_ : runnable m.unicode job.path (some f.content) = true) (_ : Busy job.path s.phase) :
        Busy job.path (.sweeping rest : Phase δ) ∨ Scanned s job.path f := by
      simp [hnone] at hf
    split
    · exact h.job (.inr (.inr hphase)) _ (fun _ _ _ heq => nomatch heq) (fun p hp => Assoc.mem_keys_set.mpr (.inr hp)) hjob
    · exact h.job (.inr (.inr hphase)) s.pending (fun _ _ _ heq => nomatch heq) (fun p hp => hp) hjob

variable {signature : Str}

theorem Inv.keep {job : Job} {sha256 : δ} (h : Inv m s) (hphase : s.phase = .moving job signature sha256 rest) :
    Inv m (keep { s with phase := .sweeping rest } job signature sha256 true) := by
  unfold Defender.keep
  cases hfile : s.world.files job.path with
  | none =>
    refine h.verdict (.sweeping rest) (fun _ _ _ heq => nomatch heq) (by simp [hphase, Busy]) fun x f hf _ hj => ?_
    rw [hphase] at hj
    have hpath : job.path = x.path := hj
    simp [← hpath, hfile] at hf
  | some f =>
    have hupdate {p : Path} {g : File} (hg : Function.update s.world.files job.path none p = some g) :
        p ≠ job.path ∧ s.world.files p = some g := by
      rw [Function.update_apply] at hg
      split at hg
      · cases hg
      · next hne => exact ⟨hne, hg⟩
    refine ⟨h.sound, h.enabled, fun _ _ _ heq => (nomatch heq), h.stamps, h.times, ?_, ?_⟩
    · intro p g hg hstamp hrun
      rcases h.covered p g (hupdate hg).2 hstamp hrun with (hnoticed | hpending | hb) | hscanned
      · exact .inl (.inl hnoticed)
      · exact .inl (.inr (.inl hpending))
      · rw [hphase] at hb
        exact hb.elim
      · exact .inr hscanned
    · intro x hx hfound
      rcases h.settled x hx hfound with (hallowed | hlt | ⟨r, hr, hkept⟩) | ⟨hj, g, hg, hcontent⟩
      · exact .inl (.inl hallowed)
      · exact .inl (.inr (.inl hlt))
      · exact .inl (.inr (.inr ⟨r, .tail _ hr, hkept⟩))
      · rw [hphase] at hj
        have hpath : job.path = x.path := hj
        rw [← hpath, hfile] at hg
        cases hg
        exact .inl (.inr (.inr ⟨_, .head _, hpath, hcontent⟩))

theorem Inv.look {folders watched : List Path} (h : Inv m s)
    (hphase : s.phase = .looking (d :: folders) watched on) (henc : encodable d = true) (canWatch : Bool) :
    Inv m (if watched.contains d || (s.world.folders d).isNone then { s with phase := .looking folders watched on }
      else State.watch { s with phase := .looking folders watched on } d canWatch) := by
  have hpass : Inv m { s with phase := .looking folders watched on } := by
    refine h.pass _ ?_ (by simp [hphase, Busy]) (by simp [hphase, Judged])
    rintro _ _ _ ⟨⟩
    exact h.staysOn _ _ _ hphase
  split
  · exact hpass
  · exact hpass.watch henc canWatch

theorem Inv.sweep (h : Inv m s)
    (hphase : s.phase = .sweeping ((path, p) :: rest)) (job : Job) (hjob : job.path = path) :
    Inv m { s with pending := s.pending.erase path, phase := .testing job rest } := by
  refine h.turn (.testing job rest) _ (fun _ _ _ heq => nomatch heq) ?_ (by simp [hphase, Judged])
  rintro q f - - (hq | hb)
  · by_cases heq : q = path
    · exact .inl (.inr (hjob.trans heq.symm))
    · exact .inl (.inl (Assoc.mem_keys_erase.mpr ⟨hq, heq⟩))
  · rw [hphase] at hb
    exact hb.elim

theorem Inv.test {job : Job} (h : Inv m s) (hphase : s.phase = .testing job rest) :
    Inv m (if s.enabled && (s.world.files job.path).isSome then { s with phase := .typing job rest }
      else { s with phase := .sweeping rest }) := by
  split
  · exact h.job (.inl hphase) s.pending (fun _ _ _ heq => nomatch heq) (fun p hp => hp) fun _ _ _ _ => .inl rfl
  · next hno =>
    refine h.job (.inl hphase) s.pending (fun _ _ _ heq => nomatch heq) (fun p hp => hp) fun f hf _ _ => ?_
    simp [h.enabled, hf] at hno

theorem Inv.type {job : Job} (h : Inv m s) (hphase : s.phase = .typing job rest) :
    Inv m (if runnable m.unicode job.path ((s.world.files job.path).map File.content) then
      { s with phase := .scanning job rest } else { s with phase := .sweeping rest }) := by
  split
  · exact h.job (.inr (.inl hphase)) s.pending (fun _ _ _ heq => nomatch heq) (fun p hp => hp) fun _ _ _ _ => .inl rfl
  · next hno =>
    refine h.job (.inr (.inl hphase)) s.pending (fun _ _ _ heq => nomatch heq) (fun p hp => hp) fun f hf hrun _ => ?_
    simp [hf, hrun] at hno

theorem Inv.hash {job : Job} (h : Inv m s) (hphase : s.phase = .hashing job signature rest) :
    Inv m (match s.world.files job.path with
      | some f => { s with phase := .moving job signature (m.digest f.content) rest }
      | none => { s with phase := .sweeping rest }) := by
  split
  · refine h.verdict _ (fun _ _ _ heq => nomatch heq) (by simp [hphase, Busy]) fun x f hf hcontent hj => ?_
    rw [hphase] at hj
    exact .inl hj
  · next hnone =>
    refine h.verdict _ (fun _ _ _ heq => nomatch heq) (by simp [hphase, Busy]) fun x f hf hcontent hj => ?_
    rw [hphase] at hj
    have hpath : job.path = x.path := hj
    simp [← hpath, hnone] at hf

def Answered (s : State δ) : Move δ → Prop
  | .refresh _ on => on = true
  | .advance a =>
    match s.phase with
    | .scanning job _ => s.world.files job.path ≠ none → a.verdict ≠ none
    | _ => True
  | _ => True

def Careful (m : Machine δ) (s : State δ) : Move δ → Prop
  | .files op => CarefulOp m s op
  | .advance a =>
    match s.phase with
    | .looking (d :: _) _ _ => encodable d = true
    | .handling (e :: _) => e.folder = true → encodable e.path = true
    | .scanning job _ => a.verdict.join.isSome → encodable job.path = true
    | .moving .. => a.canMove = true
    | _ => True
  | _ => True

structure Start (s : State δ) : Prop where
  sound : s.world.Sound
  enabled : s.enabled = true
  idle : s.phase = .idle
  stamps : ∀ p, s.world.stamp p = 0
  log : s.log = []

structure Quiet (s : State δ) : Prop where
  idle : s.phase = .idle
  queue : s.world.queue = []
  pending : s.pending.keys = []

theorem Start.inv (h : Start s) : Inv m s where
  sound := h.sound
  enabled := h.enabled
  staysOn _ _ _ heq := by simp [h.idle] at heq
  stamps p := by simp [h.stamps]
  times x hx := by simp [h.log] at hx
  covered p f _ hstamp _ := by simp [h.stamps] at hstamp
  settled x hx _ := by simp [h.log] at hx

theorem Quiet.not_outstanding (h : Quiet s) (p : Path) : ¬ Outstanding s p := by
  rintro (⟨_, _, _, _, -, -, -, -, hmem⟩ | hpending | hbusy)
  · simp [h.queue] at hmem
  · simp [h.pending] at hpending
  · simp [h.idle, Busy] at hbusy

variable [DecidableEq δ]

theorem Inv.judge {job : Job} (h : Inv m s) (hphase : s.phase = .judging job signature rest) :
    Inv m (if allowed m s job.path then { s with phase := .sweeping rest }
      else { s with phase := .hashing job signature rest }) := by
  split
  · next hallowed =>
    refine h.verdict _ (fun _ _ _ heq => nomatch heq) (by simp [hphase, Busy]) fun x f hf hcontent hj => ?_
    rw [hphase] at hj
    have hpath : job.path = x.path := hj
    rw [allowed, hpath, hf] at hallowed
    exact .inr (.inl (hcontent ▸ List.contains_iff_mem.mp hallowed))
  · refine h.verdict _ (fun _ _ _ heq => nomatch heq) (by simp [hphase, Busy]) fun x f hf hcontent hj => ?_
    rw [hphase] at hj
    exact .inl hj

theorem Inv.advance (h : Inv m s) (hanswered : Answered s (.advance a))
    (hcareful : Careful m s (.advance a)) : Inv m (advance m a s) := by
  unfold Answered at hanswered
  unfold Careful at hcareful
  unfold Defender.advance
  cases hphase : s.phase with
  | idle => exact h
  | looking folders watched on =>
    cases folders with
    | nil =>
      have henabled : on = s.enabled := (h.staysOn _ _ _ hphase).trans h.enabled.symm
      rw [henabled]
      exact h.pass .idle (fun _ _ _ heq => nomatch heq) (by simp [hphase, Busy]) (by simp [hphase, Judged])
    | cons d folders =>
      rw [hphase] at hcareful
      exact h.look hphase hcareful a.canWatch
  | handling es =>
    cases es with
    | nil => exact h.pass _ (fun _ _ _ heq => nomatch heq) (by simp [hphase, Busy]) (by simp [hphase, Judged])
    | cons e es =>
      rw [hphase] at hcareful
      exact h.handle hphase hcareful a.now a.canWatch
  | sweeping items =>
    cases items with
    | nil => exact h.pass _ (fun _ _ _ heq => nomatch heq) (by simp [hphase, Busy]) (by simp [hphase, Judged])
    | cons item rest =>
      simp only
      split
      · exact h.pass _ (fun _ _ _ heq => nomatch heq) (by simp [hphase, Busy]) (by simp [hphase, Judged])
      · exact h.sweep hphase _ rfl
  | testing job rest => exact h.test hphase
  | typing job rest => exact h.type hphase
  | scanning job rest =>
    rw [hphase] at hanswered hcareful
    exact h.scan hphase hanswered hcareful
  | judging job signature rest => exact h.judge hphase
  | hashing job signature rest => exact h.hash hphase
  | moving job signature sha256 rest =>
    rw [hphase] at hcareful
    have hmove : a.canMove = true := hcareful
    rw [hmove]
    exact h.keep hphase

theorem Inv.step (h : Inv m s) (hable : Able s mv) (hanswered : Answered s mv)
    (hcareful : Careful m s mv) : Inv m (step m s mv) := by
  cases mv with
  | files op => exact h.files hable hcareful
  | allow sum =>
    refine ⟨h.sound, h.enabled, h.staysOn, h.stamps, h.times, h.covered, fun x hx hfound => ?_⟩
    exact (h.settled x hx hfound).imp_left (Or.imp_left (List.mem_cons_of_mem _))
  | refresh homes on =>
    have hidle : s.phase = .idle := hable
    refine h.pass _ ?_ (by simp [hidle, Busy]) (by simp [hidle, Judged])
    rintro _ _ _ ⟨⟩
    exact hanswered
  | read n => exact h.read hable n
  | advance a => exact h.advance hanswered hcareful

theorem Inv.run (h : Inv m s)
    (hmoves : Along m (fun s mv => Able s mv ∧ Answered s mv ∧ Careful m s mv) s moves) : Inv m (run m s moves) := by
  induction moves generalizing s with
  | nil => exact h
  | cons mv moves ih => exact ih (h.step hmoves.1.1 hmoves.1.2.1 hmoves.1.2.2) hmoves.2

theorem quiet_scanned_and_kept {moves : List (Move δ)} (hstart : Start s)
    (hmoves : Along m (fun s mv => Able s mv ∧ Answered s mv ∧ Careful m s mv) s moves)
    (hquiet : Quiet (run m s moves)) :
    (∀ p f, (run m s moves).world.files p = some f → 0 < (run m s moves).world.stamp p →
      runnable m.unicode p (some f.content) = true → Scanned (run m s moves) p f) ∧
    ∀ x ∈ (run m s moves).log, x.found ≠ none → Settles m (run m s moves) x := by
  have hinv : Inv m (run m s moves) := hstart.inv.run hmoves
  constructor
  · intro p f hfile hstamp hrun
    exact (hinv.covered p f hfile hstamp hrun).resolve_left (hquiet.not_outstanding p)
  · intro x hx hfound
    refine (hinv.settled x hx hfound).resolve_right fun ⟨hjudged, _⟩ => ?_
    simp [hquiet.idle, Judged] at hjudged

def downloads : Path := [str "home", str "ada", str "Downloads"]

def machine : Machine Nat where
  unicode := .ascii
  digest := List.length
  limit := 16384

def watching : State Nat where
  world := {
    folders := fun p => if p = downloads then some ⟨0, downloads⟩ else none
    files := fun _ => none
    stamp := fun _ => 0
    clock := 0
    watches := [⟨0, downloads⟩]
    queue := [] }
  enabled := true
  wd := Assoc.empty.set ⟨0, downloads⟩ downloads
  pending := .empty
  phase := .idle
  allowed := []
  quarantine := []
  log := []

theorem start_watching : Start watching where
  sound := by
    refine ⟨fun p q d hp hq => ?_, fun p d hp => ?_, fun d hd => absurd hd List.not_mem_nil⟩
    · simp only [watching, Option.ite_none_right_eq_some] at hp hq
      exact hp.1.trans hq.1.symm
    · simp only [watching, Option.ite_none_right_eq_some, Option.some.injEq] at hp
      simp [← hp.2]
  enabled := rfl
  idle := rfl
  stamps _ := rfl
  log := rfl

def setup : File := ⟨1000, [77, 90]⟩

def infected : Answers := ⟨1000, some (some (str "Eicar")), true, true⟩

def setupBrought : List (Move Nat) :=
  [.files (.bring downloads (str "setup.exe") setup), .read 1, .advance { infected with now := 0 },
    .advance { infected with now := 0 }] ++ List.replicate 8 (.advance infected)

theorem setupBrought_kept :
    Start watching ∧ Quiet (run machine watching setupBrought) ∧
    Settles machine (run machine watching setupBrought)
      ⟨1, downloads ++ [str "setup.exe"], setup.content, some (str "Eicar")⟩ := by
  have hknown : Known watching downloads := ⟨⟨0, downloads⟩, rfl, .head _, rfl⟩
  have hroom : HasRoom machine watching (.bring downloads (str "setup.exe") setup) :=
    (Nat.add_le_add_left (FileOp.length_notes_le _ _) _).trans (by decide)
  have hmoves : Along machine (fun s mv => Able s mv ∧ Answered s mv ∧ Careful machine s mv) watching setupBrought :=
    ⟨⟨⟨nofun, by decide⟩, trivial, hknown, hroom⟩, ⟨rfl, trivial, trivial⟩, ⟨trivial, trivial, nofun⟩,
      ⟨trivial, trivial, trivial⟩, ⟨trivial, trivial, trivial⟩, ⟨trivial, trivial, trivial⟩,
      ⟨trivial, trivial, trivial⟩, ⟨trivial, fun _ => nofun, fun _ => by decide⟩, ⟨trivial, trivial, trivial⟩,
      ⟨trivial, trivial, trivial⟩, ⟨trivial, trivial, rfl⟩, ⟨trivial, trivial, trivial⟩, trivial⟩
  have hquiet : Quiet (run machine watching setupBrought) := ⟨rfl, rfl, rfl⟩
  exact ⟨start_watching, hquiet, (quiet_scanned_and_kept start_watching hmoves hquiet).2 _ (.head _) nofun⟩

def packBrought : List (Move Nat) :=
  .files (.bringFolder downloads (str "pack") (fun _ => false)
      fun q => if q = [str "setup.exe"] then some setup else none) :: .read 1 ::
    List.replicate 3 (.advance infected)

theorem packBrought_unscanned :
    Start watching ∧ Along machine (fun s mv => Able s mv ∧ Answered s mv) watching packBrought ∧
    Quiet (run machine watching packBrought) ∧
    (run machine watching packBrought).world.files (downloads ++ [str "pack", str "setup.exe"]) = some setup ∧
    0 < (run machine watching packBrought).world.stamp (downloads ++ [str "pack", str "setup.exe"]) ∧
    runnable machine.unicode (downloads ++ [str "pack", str "setup.exe"]) (some setup.content) = true ∧
    (run machine watching packBrought).log = [] := by
  have hfree : watching.world.Free (downloads ++ [str "pack"]) := by
    intro q hq
    refine ⟨if_neg ?_, rfl⟩
    rintro rfl
    simpa using hq.length_le
  refine ⟨start_watching, ?_, ⟨rfl, rfl, rfl⟩, rfl, by decide +kernel, by decide +kernel, rfl⟩
  exact ⟨⟨⟨nofun, hfree⟩, trivial⟩, ⟨rfl, trivial⟩, ⟨trivial, trivial⟩, ⟨trivial, trivial⟩, ⟨trivial, trivial⟩, trivial⟩

end StainedGlass.Defender
