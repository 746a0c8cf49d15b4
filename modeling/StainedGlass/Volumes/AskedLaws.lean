import StainedGlass.Volumes.Commands
import StainedGlass.Volumes.LayoutLaws

namespace StainedGlass.Volumes

open Lib

variable {e : Env} {d : Disk} {it : Item} {α : Type} {I : Log → Prop}

theorem gives_refuseIf : (refuseIf b kind message).Gives I (fun _ => b = false) := by
  cases b with
  | false => exact .pure rfl
  | true => exact .fail _

variable {name : Str}

theorem gives_findDisk : (findDisk e name).Gives I (fun d => diskNamed e name = some d) := by
  rw [findDisk]
  split
  · exact .fail _
  · split
    · exact .fail _
    · next d hd => exact .pure hd
    · exact .fail _

theorem gives_findPart : (findPart e name).Gives I (fun r => partNamed e name = some r) := by
  rw [findPart]
  split
  · exact .fail _
  · split
    · exact .fail _
    · next r hr => exact .pure hr
    · exact .fail _

theorem gives_readNumber : (readNumber e s).Gives I (fun n => e.py.int s = some n) := by
  rw [readNumber]
  split
  · next n hn => exact .pure hn
  · exact .fail _

theorem gives_checkChangeable : (checkChangeable e d).Gives I (fun _ => True) := by
  refine gives_refuseIf.bind fun _ _ => gives_refuseIf.bind fun _ _ => gives_refuseIf.bind fun _ _ => ?_
  exact gives_refuseIf.keeps.gives

theorem gives_partInDisk : (partInDisk e name).Gives I (fun r => partNamed e name = some r) := by
  refine gives_findPart.bind fun r hr => gives_refuseIf.bind fun _ _ => gives_checkChangeable.bind fun _ _ => ?_
  exact gives_refuseIf.bind fun _ _ => gives_refuseIf.bind fun _ _ => gives_refuseIf.bind fun _ _ => .pure hr

variable {c : Change}

theorem keeps_logged {m : Cmd Unit} {o : Outcome} (hm : ∀ log, (m log).2 = log ++ [(c, o.changes)])
    (h : ∀ log, I log → I (log ++ [(c, o.changes)])) : m.Keeps I := by
  intro log hlog
  have hnext := h log hlog
  rw [← hm] at hnext
  rw [Act.Ends]
  split <;> simp_all

theorem keeps_runAnyway (h : ∀ log, I log → I (log ++ [(c, changes)])) : (runAnyway c changes).Keeps I := Act.Keeps.op h

def Runs (P : Change → Prop) (log : Log) : Prop := ∀ x ∈ log, P x.1

theorem Runs.snoc (hc : P c) : ∀ log, Runs P log → Runs P (log ++ [(c, changes)]) := by
  intro log hlog x hx
  rcases List.mem_append.mp hx with hx | hx
  · exact hlog x hx
  · rw [List.mem_singleton.mp hx]
    exact hc

def Appends (start sectors : Nat) (large : Prop) : Change → Prop
  | .append _ a n _ => a = start ∧ n = sectors ∧ large
  | _ => True

variable {start size : Nat}

theorem keeps_createVolume (hlarge : large) : (createVolume e path fs label start size).Keeps
      (Runs (Appends (start / (tableUsed e).sector) (size / (tableUsed e).sector) large)) := by
  have hinitialise : (initialise e path).Keeps
      (Runs (Appends (start / (tableUsed e).sector) (size / (tableUsed e).sector) large)) := by
    rw [initialise]
    split
    · exact keeps_logged (fun _ => rfl) (Runs.snoc trivial)
    · exact .pure ()
  have hcheck : (checkTable e (tableUsed e)).Keeps
      (Runs (Appends (start / (tableUsed e).sector) (size / (tableUsed e).sector) large)) := by
    rw [checkTable]
    split
    · exact gives_refuseIf.keeps
    · exact gives_refuseIf.keeps
  have hnode : (newNode e path (start / (tableUsed e).sector)).Keeps
      (Runs (Appends (start / (tableUsed e).sector) (size / (tableUsed e).sector) large)) := by
    rw [newNode]
    split
    · exact .fail _
    · split
      · exact .pure _
      · exact .fail _
  refine hinitialise.bind fun _ => hcheck.bind fun _ => Act.Keeps.bind ?_ fun node => ?_
  · exact (keeps_logged (fun _ => rfl) (Runs.snoc ⟨rfl, rfl, hlarge⟩)).bind fun _ => hnode
  · refine (keeps_runAnyway (Runs.snoc trivial)).bind fun _ => gives_refuseIf.keeps_bind fun _ _ => ?_
    exact gives_refuseIf.keeps_bind fun _ _ => keeps_logged (fun _ => rfl) (Runs.snoc trivial)

theorem keeps_cmdCreate (hd : diskNamed e name = some d)
    (hstart : e.py.int startArg = some start) (hsize : e.py.int sizeArg = some size) (opts : Opts) :
    (cmdCreate e [name, startArg, sizeArg] opts).Keeps
      (Runs (Appends (roundUp start / (tableUsed e).sector) (roundDown size / (tableUsed e).sector)
        (8 * mib ≤ roundDown size ∧ fits d.gaps (roundUp start) (roundDown size) = true))) := by
  refine gives_refuseIf.keeps_bind fun _ _ => gives_refuseIf.keeps_bind fun _ _ =>
    gives_findDisk.keeps_bind fun d' hd' => gives_checkChangeable.keeps_bind fun _ _ =>
    gives_readNumber.keeps_bind fun start' hstart' => gives_readNumber.keeps_bind fun size' hsize' =>
    gives_refuseIf.keeps_bind fun _ hlarge => gives_refuseIf.keeps_bind fun _ hfits => ?_
  cases hd.symm.trans hd'
  cases hstart.symm.trans hstart'
  cases hsize.symm.trans hsize'
  refine keeps_createVolume ⟨?_, ?_⟩
  · simpa using hlarge
  · simpa using hfits

def Sets (sectors : Nat) : Change → Prop
  | .setSize _ _ n => n = sectors
  | _ => True

theorem keeps_extend : (extend e d it new).Keeps (Runs (Sets (new / e.table.sector))) := by
  have hsets : Sets (new / e.table.sector) (.setSize d.path it.partn (new / e.table.sector)) := rfl
  have hset : (setPartition e d it new).Keeps (Runs (Sets (new / e.table.sector))) :=
    keeps_logged (fun _ => rfl) (Runs.snoc hsets)
  refine gives_findDisk.keeps_bind fun d' _ => gives_refuseIf.keeps_bind fun _ _ => ?_
  refine hset.bind fun _ => Act.Keeps.bind ?_ fun _ => ?_
  · rw [fsckExt]
    split
    · exact keeps_runAnyway (Runs.snoc trivial)
    · exact .pure ()
  · split
    · exact keeps_logged (fun _ => rfl) (Runs.snoc trivial)
    · exact keeps_logged (fun _ => rfl) (Runs.snoc trivial)

theorem keeps_cmdResize (hpart : partNamed e name = some (d, it))
    (hsize : e.py.int sizeArg = some size) (hlarger : it.size < roundDown size) :
    (cmdResize e [name, sizeArg]).Keeps (Runs (Sets (roundDown size / e.table.sector))) := by
  refine gives_refuseIf.keeps_bind fun _ _ => gives_partInDisk.keeps_bind fun r hr =>
    gives_refuseIf.keeps_bind fun _ _ => gives_readNumber.keeps_bind fun size' hsize' => ?_
  cases hpart.symm.trans hr
  cases hsize.symm.trans hsize'
  rw [if_neg hlarger.ne', if_pos hlarger]
  exact keeps_extend

theorem mib_dvd_roundUp (n : Nat) : mib ∣ roundUp n := ⟨_, Nat.mul_comm _ _⟩

theorem mib_dvd_roundDown (n : Nat) : mib ∣ roundDown n := ⟨_, Nat.mul_comm _ _⟩

theorem mib_pos : 0 < mib := by norm_num [mib]

theorem mib_le_of_dvd (hdvd : mib ∣ n) (hpos : 0 < n) : mib ≤ n := Nat.le_of_dvd hpos hdvd

def FreeBehind (d : Disk) (it : Item) (stop : Nat) : Prop :=
  stop ≤ d.tailEnd ∧ ∀ other ∈ d.parts, other.end ≤ it.end ∨ stop ≤ other.start

def room (d : Disk) (it : Item) : Nat :=
  ((d.parts.filter fun other => it.end < other.end).map Item.start).foldl min d.tailEnd - it.end

theorem le_foldl_min (m : Nat) (ns : List Nat) : n ≤ ns.foldl min m ↔ n ≤ m ∧ ∀ k ∈ ns, n ≤ k := by
  induction ns generalizing m with
  | nil => simp
  | cons k ns ih =>
    rw [List.foldl_cons, ih, le_min_iff, List.forall_mem_cons, and_assoc]

theorem freeBehind_iff (hn : 0 < n) : FreeBehind d it (it.end + n) ↔ n ≤ room d it := by
  have hle : n ≤ room d it ↔
      it.end + n ≤ ((d.parts.filter fun other => it.end < other.end).map Item.start).foldl min d.tailEnd := by
    rw [room]
    omega
  rw [hle, le_foldl_min, FreeBehind]
  refine and_congr_right fun _ => ?_
  constructor
  · intro h k hk
    obtain ⟨other, hother, rfl⟩ := List.mem_map.mp hk
    obtain ⟨hmem, hend⟩ := List.mem_filter.mp hother
    rcases h other hmem with h | h
    · have : it.end < other.end := by simpa using hend
      omega
    · exact h
  · intro h other hother
    by_cases hend : it.end < other.end
    · exact .inr (h _ (List.mem_map_of_mem (List.mem_filter.mpr ⟨hother, by simpa using hend⟩)))
    · exact .inl (Nat.le_of_not_lt hend)

theorem roundUp_lt (n : Nat) : n ≤ roundUp n ∧ roundUp n < n + mib := by
  have hpos := mib_pos
  rw [roundUp]
  generalize mib = m at *
  have hdiv := Nat.div_add_mod (n + m - 1) m
  have hmod := Nat.mod_lt (n + m - 1) hpos
  rw [Nat.mul_comm] at hdiv
  omega

theorem create_inside_iff (hlarge : 8 * mib ≤ roundDown size)
    (hfits : fits d.gaps (roundUp start) (roundDown size) = true) :
    Unallocated d (roundUp start) (roundUp start + roundDown size) ↔
      roundUp start + roundDown size ≤ d.tailEnd ∧
        ∃ g ∈ d.gaps, g.1 ≤ roundUp start ∧ roundUp start + roundDown size ≤ g.1 + g.2 := by
  obtain ⟨g, hg, hgap⟩ := List.any_eq_true.mp hfits
  have hstart : 0 < roundUp start := by
    have hpos := (gaps_free hg).1
    simp only [Bool.and_eq_true, decide_eq_true_eq] at hgap
    omega
  exact unallocated_iff (List.ne_nil_of_mem hg) (mib_le_of_dvd (mib_dvd_roundUp start) hstart) (by omega)

theorem region_inside_iff {g : Gap} (hg : g ∈ d.gaps) :
    Unallocated d (roundUp g.1) (roundUp g.1 + roundDown g.2) ↔
      roundUp g.1 + roundDown g.2 ≤ d.tailEnd ∧ roundUp g.1 + roundDown g.2 ≤ g.1 + g.2 := by
  obtain ⟨hle, hlt⟩ := roundUp_lt g.1
  have hpos := (gaps_free hg).1
  have hlarge := gaps_large hg
  exact unallocated_in_gap hg (mib_le_of_dvd (mib_dvd_roundUp _) (by omega)) hle (by omega)

theorem asked_inside_iff :
    (∀ (name startArg sizeArg : Str) (d : Disk) (start size : Nat) (opts : Opts),
      diskNamed e name = some d → e.py.int startArg = some start → e.py.int sizeArg = some size →
      (tableUsed e).sector ∣ mib → ∀ x ∈ (cmdCreate e [name, startArg, sizeArg] opts []).2,
      ∀ path a n type, x.1 = .append path a n type →
        (Unallocated d (a * (tableUsed e).sector) ((a + n) * (tableUsed e).sector) ↔
          roundUp start + roundDown size ≤ d.tailEnd ∧
            ∃ g ∈ d.gaps, g.1 ≤ roundUp start ∧ roundUp start + roundDown size ≤ g.1 + g.2)) ∧
    (∀ (name sizeArg : Str) (d : Disk) (it : Item) (size : Nat),
      partNamed e name = some (d, it) → e.py.int sizeArg = some size → it.size < roundDown size →
      e.table.sector ∣ mib → ∀ x ∈ (cmdResize e [name, sizeArg] []).2,
      ∀ path number n, x.1 = .setSize path number n →
        (FreeBehind d it (it.start + n * e.table.sector) ↔ roundDown size - it.size ≤ room d it)) ∧
    ∀ (d : Disk), ∀ g ∈ d.gaps, (Unallocated d (roundUp g.1) (roundUp g.1 + roundDown g.2) ↔
      roundUp g.1 + roundDown g.2 ≤ d.tailEnd ∧ roundUp g.1 + roundDown g.2 ≤ g.1 + g.2) := by
  refine ⟨?_, ?_, fun d g hg => region_inside_iff hg⟩
  · intro name startArg sizeArg d start size opts hd hstart hsize hss x hx path a n type hchange
    have hruns := (keeps_cmdCreate hd hstart hsize opts [] (fun _ h => nomatch h)).state x hx
    rw [hchange] at hruns
    obtain ⟨rfl, rfl, hlarge, hfits⟩ := hruns
    rw [Nat.add_mul, Nat.div_mul_cancel (hss.trans (mib_dvd_roundUp start)),
      Nat.div_mul_cancel (hss.trans (mib_dvd_roundDown size))]
    exact create_inside_iff hlarge hfits
  · intro name sizeArg d it size hpart hsize hlarger hss x hx path number n hchange
    have hruns := (keeps_cmdResize hpart hsize hlarger [] (fun _ h => nomatch h)).state x hx
    rw [hchange] at hruns
    obtain rfl : n = _ := hruns
    have hstop : it.start + roundDown size = it.end + (roundDown size - it.size) := by
      rw [Item.end]
      omega
    rw [Nat.div_mul_cancel (hss.trans (mib_dvd_roundDown size)), hstop]
    exact freeBehind_iff (by omega)

def asciiPython : Python where
  isdigit s := s ≠ [] && s.all fun c => 48 ≤ c && c ≤ 57
  int s := some (s.foldl (fun n c => 10 * n + (c - 48)) 0)
  lower s := s.map fun c => if 65 ≤ c ∧ c ≤ 90 then c + 32 else c
  clean s := s

def plainItem (name : String) (partn start size : Nat) : Item where
  name := str name
  path := str "/dev/" ++ str name
  partn := partn
  fstype := str "ext4"
  start := start
  size := size
  mounts := []
  letters := []
  esp := false
  system := false
  whole := false
  children := false

def halfway : Disk where
  name := str "sdb"
  path := str "/dev/sdb"
  rom := false
  readonly := false
  gpt := true
  size := 134217728
  parts := [plainItem "sdb1" 1 1048576 524288, plainItem "sdb2" 2 12058624 67108864]

def allWorks (d : Disk) : Env where
  py := asciiPython
  disks := .ok [d]
  testDisks := []
  virtual _ := false
  table := ⟨str "gpt", 512, []⟩
  tableLabelled := ⟨str "gpt", 512, []⟩
  tableAfter := ⟨str "gpt", 512, [(4096, some 3)]⟩
  appears := true
  installed _ := true
  initialise := .done
  append := .done
  wipefs := true
  mkfs := .done
  delete := .done
  setSize := .done
  fsck := false
  minimum := some 1048576
  resizeFs := .done

def noOpts : Opts := ⟨none, none⟩

theorem listed_region_overlaps :
    (1572864, 10485760) ∈ halfway.gaps ∧
    (Change.append (str "/dev/sdb") 4096 20480 (ptype (str "ntfs") (str "gpt")), true) ∈
      (cmdCreate (allWorks halfway) [str "sdb", str "1572864", str "10485760"] noOpts []).2 ∧
    ¬ Unallocated halfway (4096 * 512) ((4096 + 20480) * 512) ∧
    (Change.setSize (str "/dev/sdb") 1 22528, true) ∈
      (cmdResize (allWorks halfway) [str "sdb1", str "11534336"] []).2 ∧
    ¬ FreeBehind halfway (plainItem "sdb1" 1 1048576 524288) (1048576 + 22528 * 512) := by
  have hnext : plainItem "sdb2" 2 12058624 67108864 ∈ halfway.parts := by simp [halfway]
  refine ⟨by decide +kernel, by decide +kernel, ?_, by decide +kernel, ?_⟩
  · rintro ⟨-, -, h⟩
    have := h _ hnext
    simp [Item.end, plainItem] at this
  · rintro ⟨-, h⟩
    have := h _ hnext
    simp [Item.end, plainItem] at this

theorem aligned_request_is_inside :
    Unallocated halfway (4096 * 512) ((4096 + 16384) * 512) ∧
    FreeBehind halfway (plainItem "sdb1" 1 1048576 524288) (1048576 + 20480 * 512) := by
  have h := asked_inside_iff (e := allWorks halfway)
  constructor
  · have hcreate := h.1 (str "sdb") (str "2097152") (str "8388608") halfway 2097152 8388608 noOpts rfl rfl rfl
      (by decide +kernel) (Change.append (str "/dev/sdb") 4096 16384 (ptype (str "ntfs") (str "gpt")), true)
      (by decide +kernel) _ _ _ _ rfl
    refine hcreate.mpr ⟨by decide +kernel, (1572864, 10485760), by decide +kernel, by decide +kernel, by decide +kernel⟩
  · have hresize := h.2.1 (str "sdb1") (str "10485760") halfway (plainItem "sdb1" 1 1048576 524288) 10485760
      rfl rfl (by decide +kernel) (by decide +kernel) (Change.setSize (str "/dev/sdb") 1 20480, true)
      (by decide +kernel) _ _ _ rfl
    exact hresize.mpr (by decide +kernel)

end StainedGlass.Volumes
