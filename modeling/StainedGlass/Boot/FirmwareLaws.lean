import StainedGlass.Boot.Firmware
import StainedGlass.Lib.Records
import StainedGlass.Lib.RegFile

namespace StainedGlass.Boot

open Lib

variable {u : Spaces} {fw : Firmware} {r : Run} {list : Option Text} {total : Nat}

theorem zero_notMem_utf8 (h : '\x00' ∉ cs) : 0 ∉ utf8 cs := by
  intro hmem
  obtain ⟨c, hc, hzero⟩ := List.mem_flatMap.1 hmem
  rcases utf8EncodeChar_cases c with ⟨hlt, henc⟩ | ⟨-, hwide⟩
  · rw [henc, List.mem_singleton] at hzero
    have hval : c.toNat = 0 := by
      have := congrArg UInt8.toNat hzero
      rw [toNat_ofNat_of_lt (by omega)] at this
      simpa using this.symm
    exact h (by rwa [← Char.ofNat_toNat c, hval] at hc)
  · exact absurd (hwide 0 hzero) (by decide)

theorem utf8_cons_ne_nil (c : Char) (cs : Text) : utf8 (c :: cs) ≠ [] := by
  intro h
  have hlen := congrArg List.length h
  rw [utf8_cons, List.length_append, String.length_utf8EncodeChar, List.length_nil] at hlen
  have := c.utf8Size_pos
  omega

theorem utf8_injective : Function.Injective utf8 := by
  intro cs
  induction cs with
  | nil =>
    intro ds h
    cases ds with
    | nil => rfl
    | cons d ds => exact absurd h.symm (utf8_cons_ne_nil d ds)
  | cons c cs ih =>
    intro ds h
    cases ds with
    | nil => exact absurd h (utf8_cons_ne_nil c cs)
    | cons d ds =>
      rw [utf8_cons, utf8_cons] at h
      obtain ⟨rfl, hrest⟩ := utf8EncodeChar_append_inj h
      rw [ih hrest]

def Entry.member (e : Entry) : Cpio.Member := ⟨utf8 e.path, e.mode, e.data⟩

structure Entry.Fits (e : Entry) : Prop where
  mode : e.mode < 2 ^ 32
  size : e.data.length < 2 ^ 32
  name : (utf8 e.path).length + 1 < 2 ^ 32
  nul : '\x00' ∉ e.path

def Entry.fields (ino : Nat) (e : Entry) : List Nat :=
  [ino, e.mode, 0, 0, 1, 0, e.data.length, 0, 0, 0, 0, (utf8 e.path ++ [0]).length, 0]

theorem Entry.Fits.fields {e : Entry} (h : e.Fits) (hino : ino < 2 ^ 32) : ∀ v ∈ e.fields ino, v < 2 ^ 32 := by
  have := h.mode
  have := h.size
  have := h.name
  simp only [Entry.fields, List.length_append, List.length_singleton, List.mem_cons, List.not_mem_nil, or_false,
    forall_eq_or_imp, forall_eq]
  omega

theorem length_newcEntry {e : Entry} (h : e.Fits) (hino : ino < 2 ^ 32) :
    (newcEntry ino e).length = Cpio.align (Cpio.align (110 + ((utf8 e.path).length + 1)) + e.data.length) := by
  have hfields : ((e.fields ino).flatMap Cpio.hex8).length = 104 := Cpio.length_flatMap_hex8 (h.fields hino)
  have hmagic : (ascii "070701").length = 6 := rfl
  simp only [newcEntry, List.length_append, padding, List.length_replicate, Cpio.align, List.length_singleton, hmagic]
  rw [Entry.fields, List.length_append, List.length_singleton] at hfields
  rw [hfields]
  omega

theorem readMember_newcEntry {e : Entry} (h : e.Fits) (hino : ino < 2 ^ 32) (hpos : pos % 4 = 0) (rest : Bytes) :
    Cpio.readMember pos (newcEntry ino e ++ rest) = some (e.member, pos + (newcEntry ino e).length, rest) := by
  set name := utf8 e.path ++ [0] with hname
  set tail := e.data ++ (padding e.data.length ++ rest) with htail
  have hfields : ((e.fields ino).flatMap Cpio.hex8).length = 104 := Cpio.length_flatMap_hex8 (h.fields hino)
  have hlen := length_newcEntry h hino
  have hnamelen : name.length = (utf8 e.path).length + 1 := by simp [name]
  have hshape : newcEntry ino e ++ rest =
      (ascii "070701" ++ (e.fields ino).flatMap Cpio.hex8) ++ (name ++ (padding (110 + name.length) ++ tail)) := by
    simp only [newcEntry, Entry.fields, htail, hname, List.append_assoc]
  have hhead : (ascii "070701" ++ (e.fields ino).flatMap Cpio.hex8).length = 110 := by
    rw [List.length_append, hfields]
    rfl
  have hread : (if (newcEntry ino e ++ rest).take 6 = ascii "070701" then
      Cpio.readFields 13 ((newcEntry ino e ++ rest).drop 6) else none) = some (e.fields ino) := by
    have hmagic : (ascii "070701").length = 6 := rfl
    rw [hshape, List.append_assoc, List.take_left' hmagic, List.drop_left' hmagic, if_pos rfl]
    exact Cpio.readFields_hex8 (h.fields hino) _
  have hbody : (newcEntry ino e ++ rest).drop 110 = name ++ (padding (110 + name.length) ++ tail) := by
    rw [hshape, List.drop_left' hhead]
  have hdata : (newcEntry ino e ++ rest).drop (Cpio.align (pos + 110 + name.length) - pos) = tail := by
    have hsum : Cpio.align (pos + 110 + name.length) - pos = 110 + (name.length + (padding (110 + name.length)).length) := by
      simp only [Cpio.align, padding, List.length_replicate]
      omega
    rw [hsum, ← List.drop_drop, hbody, ← List.append_assoc, List.drop_left' (List.length_append ..)]
  have hstop : Cpio.align (Cpio.align (pos + 110 + name.length) + e.data.length) = pos + (newcEntry ino e).length := by
    rw [hlen, hnamelen]
    simp only [Cpio.align]
    omega
  rw [Cpio.readMember, hread]
  simp only [Entry.fields, ← hname]
  rw [hbody, List.take_left' rfl, hdata, htail, List.take_left' rfl, hstop, Nat.add_sub_cancel_left,
    List.drop_left' rfl]
  rw [if_pos ⟨rfl, by simp [name], by simpa [name] using zero_notMem_utf8 h.nul, rfl⟩]
  simp [name, Entry.member]

theorem trailer_fits : trailer.Fits := ⟨by decide, by decide, by decide, by decide⟩

theorem readMembers_newcFrom {es : List Entry} (hpos : pos % 4 = 0) (hfuel : es.length < fuel)
    (hino : ino + es.length < 2 ^ 32) (hfits : ∀ e ∈ es, e.Fits) (hname : ∀ e ∈ es, utf8 e.path ≠ Cpio.trailer) :
    Cpio.readMembers fuel pos (newcFrom ino (es ++ [trailer])) = some (es.map Entry.member) := by
  induction es generalizing fuel ino pos with
  | nil =>
    obtain ⟨fuel, rfl⟩ := Nat.exists_eq_add_one_of_ne_zero (Nat.ne_of_gt hfuel)
    rw [List.nil_append, newcFrom, Cpio.readMembers, readMember_newcEntry trailer_fits (by simpa using hino) hpos]
    rfl
  | cons e es ih =>
    obtain ⟨fuel, rfl⟩ := Nat.exists_eq_add_one_of_ne_zero (Nat.ne_of_gt (Nat.zero_lt_of_lt hfuel))
    rw [List.forall_mem_cons] at hfits hname
    rw [List.length_cons] at hfuel hino
    have hlen := length_newcEntry hfits.1 (show ino < 2 ^ 32 by omega)
    rw [List.cons_append, newcFrom, Cpio.readMembers, readMember_newcEntry hfits.1 (by omega) hpos]
    dsimp only
    rw [if_neg (show e.member.path ≠ _ from hname.1), ih (by rw [hlen]; simp only [Cpio.align]; omega) (by omega) (by omega) hfits.2 hname.2]
    rfl

theorem length_newcFrom {es : List Entry} (hino : ino + es.length < 2 ^ 32) (hfits : ∀ e ∈ es, e.Fits) :
    110 * es.length ≤ (newcFrom ino es).length := by
  induction es generalizing ino with
  | nil => exact Nat.zero_le _
  | cons e es ih =>
    rw [List.forall_mem_cons] at hfits
    rw [List.length_cons] at hino
    have hrest := ih (show ino + 1 + es.length < 2 ^ 32 by omega) hfits.2
    rw [newcFrom, List.length_append, length_newcEntry hfits.1 (by omega), List.length_cons]
    simp only [Cpio.align]
    omega

theorem read_newc {es : List Entry} (hcount : es.length + 2 < 2 ^ 32) (hfits : ∀ e ∈ es, e.Fits)
    (hname : ∀ e ∈ es, utf8 e.path ≠ Cpio.trailer) : Cpio.read (newc es) = some (es.map Entry.member) := by
  have hlen : 110 * (es ++ [trailer]).length ≤ (newcFrom 1 (es ++ [trailer])).length := by
    apply length_newcFrom
    · rw [List.length_append, List.length_singleton]
      omega
    · simpa [or_imp, forall_and] using ⟨hfits, trailer_fits⟩
  rw [List.length_append, List.length_singleton] at hlen
  apply readMembers_newcFrom rfl _ (by omega) hfits hname
  rw [newc]
  omega

def included (fw : Firmware) : Nat → List Text → List (Text × Bytes)
  | _, [] => []
  | total, name :: names =>
    match fw.file name with
    | none => included fw total names
    | some data =>
      if total + data.length > maxBytes then included fw total names
      else (name, data) :: included fw (total + data.length) names

def fileEntry (x : Text × Bytes) : Entry := ⟨firmwarePath x.1, fileMode, x.2⟩

def dirEntry (d : Text) : Entry := ⟨d, dirMode, []⟩

theorem split_of_notMem (h : front ++ x :: rest = pre ++ y :: post) (hy : y ∉ front) :
    (pre = front ∧ y = x) ∨ ∃ mid, pre = front ++ x :: mid ∧ rest = mid ++ y :: post := by
  rcases List.append_eq_append_iff.1 h with ⟨mid, rfl, hright⟩ | ⟨mid, rfl, hright⟩
  · cases mid with
    | nil => exact .inl ⟨List.append_nil _, (List.cons.inj hright).1.symm⟩
    | cons z mid =>
      obtain ⟨rfl, hrest⟩ := List.cons.inj hright
      exact .inr ⟨mid, rfl, hrest⟩
  · cases mid with
    | nil => exact .inl ⟨(List.append_nil _).symm, (List.cons.inj hright).1⟩
    | cons z mid =>
      obtain ⟨rfl, -⟩ := List.cons.inj hright
      exact absurd (List.mem_append_right _ List.mem_cons_self) hy

/-- `d` is a directory on the way to `path`. -/
def Above (d path : Text) : Prop := ∃ rest, path = d ++ '/' :: rest

theorem Above.isPre (h : Above d path) : d <+: path := by
  obtain ⟨rest, rfl⟩ := h
  exact List.prefix_append d _

theorem parents_open (h : '/' ∉ a) : parents a = [] := by
  rw [parents, List.splitOn_eq_singleton h]
  rfl

theorem parents_closed (h : '/' ∉ a) (b : Text) : parents (a ++ '/' :: b) = a :: (parents b).map (a ++ '/' :: ·) := by
  obtain ⟨p, ps, hps⟩ := List.exists_cons_of_ne_nil (List.splitOn_ne_nil '/' b)
  rw [parents, List.splitOn_append_cons_self_of_not_mem h b, parents, hps]
  simp only [List.length_cons, Nat.add_sub_cancel, List.range'_succ, List.map_cons, List.map_map]
  refine List.cons_eq_cons.2 ⟨by simp [List.intercalate], ?_⟩
  rw [List.range'_eq_map_range, List.range'_eq_map_range]
  simp [List.intercalate, Nat.add_comm]

theorem mem_parents : d ∈ parents path ↔ Above d path := by
  induction path using recordsInduction (c := '/') generalizing d with
  | opened a ha =>
    rw [parents_open ha]
    exact iff_of_false List.not_mem_nil fun ⟨rest, hrest⟩ => ha (by simp [hrest])
  | closed a b ha ih =>
    rw [parents_closed ha, List.mem_cons, List.mem_map]
    constructor
    · rintro (rfl | ⟨d', hd', rfl⟩)
      · exact ⟨b, rfl⟩
      · obtain ⟨rest, rfl⟩ := ih.1 hd'
        exact ⟨rest, by simp⟩
    · rintro ⟨rest, hrest⟩
      rcases split_of_notMem hrest ha with ⟨rfl, -⟩ | ⟨mid, rfl, hmid⟩
      · exact .inl rfl
      · exact .inr ⟨mid, ih.2 ⟨rest, hmid⟩, rfl⟩

/-- The files in their order, each after its directories, which stand there once. -/
structure Holds (there : List Text) (kept : List (Text × Bytes)) (es : List Entry) : Prop where
  files : es.filter (·.mode = fileMode) = kept.map fileEntry
  once : (there ++ (es.filter (·.mode ≠ fileMode)).map Entry.path).Nodup
  dirs : ∀ e ∈ es, e.mode ≠ fileMode → e = dirEntry e.path ∧ ∃ x ∈ kept, Above e.path (firmwarePath x.1)
  before : ∀ pre x post, es = pre ++ fileEntry x :: post →
    ∀ d, Above d (firmwarePath x.1) → d ∈ there ∨ dirEntry d ∈ pre

theorem newDirs_spec {dirs : List Text} (hdirs : dirs.Nodup) (ds : List Text) :
    (newDirs dirs ds ++ dirs).Nodup ∧ (∀ d ∈ newDirs dirs ds, d ∈ ds) ∧ ∀ d ∈ ds, d ∈ newDirs dirs ds ∨ d ∈ dirs := by
  induction ds generalizing dirs with
  | nil => exact ⟨hdirs, by simp [newDirs], by simp⟩
  | cons d ds ih =>
    rw [newDirs]
    split
    · next hd =>
      obtain ⟨hnodup, hsub, hall⟩ := ih hdirs
      exact ⟨hnodup, fun x hx => List.mem_cons_of_mem _ (hsub x hx), List.forall_mem_cons.2 ⟨.inr hd, hall⟩⟩
    · next hd =>
      obtain ⟨hnodup, hsub, hall⟩ := ih (List.nodup_cons.2 ⟨hd, hdirs⟩)
      refine ⟨(List.perm_middle.nodup_iff).1 hnodup, ?_, ?_⟩
      · exact List.forall_mem_cons.2 ⟨List.mem_cons_self, fun x hx => List.mem_cons_of_mem _ (hsub x hx)⟩
      · refine List.forall_mem_cons.2 ⟨.inl List.mem_cons_self, fun x hx => ?_⟩
        rcases hall x hx with hx | hx
        · exact .inl (List.mem_cons_of_mem _ hx)
        · rcases List.mem_cons.1 hx with rfl | hx
          · exact .inl List.mem_cons_self
          · exact .inr hx

theorem Holds.add {there : List Text} {x : Text × Bytes}
    (hthere : there.Nodup) (h : Holds (newDirs there (parents (firmwarePath x.1)) ++ there) kept es) :
    Holds there (x :: kept) ((newDirs there (parents (firmwarePath x.1))).map dirEntry ++ fileEntry x :: es) := by
  set new := newDirs there (parents (firmwarePath x.1))
  obtain ⟨hnodup, hsub, hall⟩ := newDirs_spec hthere (parents (firmwarePath x.1))
  have hmode : ∀ d, (dirEntry d).mode ≠ fileMode := fun _ => (by decide : dirMode ≠ fileMode)
  have hnone : (new.map dirEntry).filter (·.mode = fileMode) = [] := by simp [List.filter_map, Function.comp_def, hmode]
  have hsome : (new.map dirEntry).filter (·.mode ≠ fileMode) = new.map dirEntry := by
    simp [List.filter_map, Function.comp_def, hmode]
  refine ⟨?_, ?_, ?_, ?_⟩
  · rw [List.filter_append, hnone, List.filter_cons_of_pos (by simp [fileEntry]), h.files]
    rfl
  · rw [List.filter_append, hsome, List.filter_cons_of_neg (by simp [fileEntry]), List.map_append, List.map_map,
      ← List.append_assoc]
    have hpaths : new.map (Entry.path ∘ dirEntry) = new := List.map_id new
    rw [hpaths]
    exact (List.perm_append_comm.append_right _).nodup_iff.1 h.once
  · intro e he hne
    rcases List.mem_append.1 he with he | he
    · obtain ⟨d, hd, rfl⟩ := List.mem_map.1 he
      exact ⟨rfl, x, List.mem_cons_self, mem_parents.1 (hsub d hd)⟩
    · rcases List.mem_cons.1 he with rfl | he
      · exact absurd rfl hne
      · obtain ⟨heq, y, hy, hpath⟩ := h.dirs e he hne
        exact ⟨heq, y, List.mem_cons_of_mem _ hy, hpath⟩
  · intro pre y post hsplit d hd
    have hfile : fileEntry y ∉ new.map dirEntry := by
      intro hmem
      obtain ⟨d', -, heq⟩ := List.mem_map.1 hmem
      exact hmode d' (congrArg Entry.mode heq)
    have hnew (hd : d ∈ new) : dirEntry d ∈ new.map dirEntry := List.mem_map_of_mem hd
    rcases split_of_notMem hsplit hfile with ⟨rfl, heq⟩ | ⟨mid, rfl, hrest⟩
    · have hyx : firmwarePath y.1 = firmwarePath x.1 := congrArg Entry.path heq
      rw [hyx] at hd
      exact (hall d (mem_parents.2 hd)).symm.imp_right hnew
    · rcases h.before mid y post hrest d hd with hd | hd
      · rcases List.mem_append.1 hd with hd | hd
        · exact .inr (List.mem_append_left _ (hnew hd))
        · exact .inl hd
      · exact .inr (List.mem_append_right _ (List.mem_cons_of_mem _ hd))

theorem holds_archiveLoop {dirs : List Text} (hdirs : dirs.Nodup)
    (h : archiveLoop fw dirs total names = some es) : Holds dirs (included fw total names) es := by
  induction names generalizing dirs total es with
  | nil =>
    cases h
    exact ⟨rfl, by simpa using hdirs, by simp, by simp⟩
  | cons name names ih =>
    rw [archiveLoop] at h
    cases hfile : fw.file name with
    | none =>
      rw [hfile] at h
      cases h
    | some data =>
      rw [hfile] at h
      simp only [included, hfile]
      dsimp only at h
      split at h
      · next hbig =>
        rw [if_pos hbig]
        exact ih hdirs h
      · next hfits =>
        rw [if_neg hfits]
        obtain ⟨rest, hrest, rfl⟩ := Option.map_eq_some_iff.1 h
        have hnodup := (newDirs_spec hdirs (parents (firmwarePath name))).1
        exact (ih hnodup hrest).add hdirs

theorem included_size (names : List Text) (htotal : total ≤ maxBytes) :
    total + ((included fw total names).map (·.2.length)).sum ≤ maxBytes := by
  induction names generalizing total with
  | nil => simpa [included] using htotal
  | cons name names ih =>
    rw [included]
    split
    · exact ih htotal
    · next data _ =>
      split
      · exact ih htotal
      · next hfits =>
        have := ih (show total + data.length ≤ maxBytes by omega)
        simp only [List.map_cons, List.sum_cons]
        omega

theorem included_or_over {data : Bytes} (hname : name ∈ names)
    (hfile : fw.file name = some data) : (name, data) ∈ included fw total names ∨
      maxBytes < total + ((included fw total names).map (·.2.length)).sum + data.length := by
  induction names generalizing total with
  | nil => cases hname
  | cons other names ih =>
    rw [included]
    rcases List.mem_cons.1 hname with rfl | hname
    · rw [hfile]
      dsimp only
      split
      · exact .inr (by omega)
      · exact .inl List.mem_cons_self
    · split
      · exact ih hname
      · next data' _ =>
        split
        · exact ih hname
        · rcases @ih (total + data'.length) hname with hin | hover
          · exact .inl (List.mem_cons_of_mem _ hin)
          · refine .inr ?_
            simp only [List.map_cons, List.sum_cons]
            omega

theorem archiveLoop_isSome (h : ∀ n ∈ names, (fw.file n).isSome) : (archiveLoop fw dirs total names).isSome := by
  induction names generalizing dirs total with
  | nil => rfl
  | cons name names ih =>
    rw [List.forall_mem_cons] at h
    obtain ⟨data, hdata⟩ := Option.isSome_iff_exists.1 h.1
    rw [archiveLoop, hdata]
    dsimp only
    split
    · exact ih h.2
    · rw [Option.isSome_map]
      exact ih h.2

theorem mem_included {x : Text × Bytes} (h : x ∈ included fw total names) : fw.file x.1 = some x.2 := by
  induction names generalizing total with
  | nil => cases h
  | cons name names ih =>
    rw [included] at h
    split at h
    · exact ih h
    · next data hfile =>
      split at h
      · exact ih h
      · rcases List.mem_cons.1 h with rfl | h
        · exact hfile
        · exact ih h

/-- What the headers' numbers count is below `2 ^ 32`: the entries, with the trailer, and the
bytes of their names. -/
def Countable (es : List Entry) : Prop := es.length + 2 < 2 ^ 32 ∧ ∀ e ∈ es, (utf8 e.path).length + 1 < 2 ^ 32

theorem Holds.fits (h : Holds [] (included fw 0 names) es) (hcount : Countable es) :
    ∀ e ∈ es, e.Fits ∧ utf8 e.path ≠ Cpio.trailer := by
  intro e he
  obtain ⟨x, hx, hpath, hmode, hsize⟩ : ∃ x ∈ included fw 0 names,
      (e.path = firmwarePath x.1 ∨ Above e.path (firmwarePath x.1)) ∧ e.mode < 2 ^ 32 ∧
        e.data.length ≤ x.2.length := by
    by_cases hmode : e.mode = fileMode
    · have hfile : e ∈ es.filter (·.mode = fileMode) := List.mem_filter.2 ⟨he, by simpa using hmode⟩
      rw [h.files] at hfile
      obtain ⟨x, hx, rfl⟩ := List.mem_map.1 hfile
      exact ⟨x, hx, .inl rfl, (by decide : fileMode < 2 ^ 32), le_refl _⟩
    · obtain ⟨heq, x, hx, hpath⟩ := h.dirs e he hmode
      rw [heq]
      exact ⟨x, hx, .inr hpath, (by decide : dirMode < 2 ^ 32), Nat.zero_le _⟩
  have hpre : e.path <+: firmwarePath x.1 := by
    rcases hpath with hpath | hpath
    · rw [hpath]
    · exact hpath.isPre
  have hsum : x.2.length ≤ ((included fw 0 names).map (·.2.length)).sum := List.le_sum_of_mem (List.mem_map_of_mem hx)
  have htotal : 0 + ((included fw 0 names).map (·.2.length)).sum ≤ maxBytes := included_size names (Nat.zero_le maxBytes)
  have hmax : maxBytes < 2 ^ 32 := by decide
  refine ⟨⟨hmode, by omega, hcount.2 e he, fun hnul => ?_⟩, fun htrailer => ?_⟩
  · have hname := fw.nul_free (by rw [mem_included hx]; rfl)
    rcases List.mem_append.1 (hpre.subset hnul) with hnul | hnul
    · exact absurd hnul (by decide)
    · exact hname hnul
  · rw [utf8_injective (show utf8 e.path = utf8 "TRAILER!!!".toList from htrailer)] at hpre
    exact absurd (List.cons_prefix_cons.1 hpre).1 (by decide)

def soundFile (name : Text) : Option Bytes := if name = "intel/b.ri".toList then some [1, 2, 3] else none

theorem soundFile_nul_free (h : (soundFile name).isSome) : '\x00' ∉ name := by
  rw [soundFile] at h
  split at h
  · next heq =>
    rw [heq]
    decide
  · cases h

def soundFirmware : Firmware := ⟨soundFile, soundFile_nul_free⟩

structure Kept (u : Spaces) (n : Text) : Prop where
  safe : safe n = true
  strip : strip u n = n
  line : ∀ c ∈ n, (c = '\n' || c = '\r') = false

theorem strip_eq_self {n : Text} (hhead : ∀ c ∈ n.head?, u.space c = false)
    (hlast : ∀ c ∈ n.getLast?, u.space c = false) : strip u n = n := by
  have hdrop : n.dropWhile u.space = n := by
    cases n with
    | nil => rfl
    | cons c n => rw [List.dropWhile_cons_of_neg (by simp [hhead c rfl])]
  rw [strip, hdrop, List.rdropWhile_eq_self_iff]
  intro hne
  simp [hlast _ (List.getLast?_eq_some_getLast hne)]

theorem kept_of_mem_readList (h : n ∈ readList u list) : Kept u n := by
  obtain ⟨hmem, hsafe⟩ := List.mem_filter.1 h
  obtain ⟨l, hl, rfl⟩ := List.mem_map.1 hmem
  have hpre : strip u l <+: l.dropWhile u.space := List.rdropWhile_prefix _ _
  refine ⟨hsafe, strip_eq_self ?_ ?_, ?_⟩
  · intro c hc
    obtain ⟨rest, hrest⟩ := List.head?_eq_some_iff.1 hc
    rw [hrest] at hpre
    obtain ⟨more, hmore⟩ := hpre
    have hdrop := List.head?_dropWhile_not u.space l
    rw [← hmore] at hdrop
    simpa using hdrop
  · intro c hc
    have hne : strip u l ≠ [] := by
      intro hnil
      rw [hnil] at hc
      cases hc
    rw [List.getLast?_eq_some_getLast hne] at hc
    cases hc
    exact Bool.eq_false_iff.2 (List.rdropWhile_last_not u.space _ hne)
  · intro c hc
    exact RegFile.notMem_of_mem_splitOnP hl c ((List.dropWhile_suffix _).subset (hpre.subset hc))

theorem space_of_word (h : word u t = some (w, rest)) : ∀ c ∈ w, u.space c = false := by
  simp only [word] at h
  split at h
  · cases h
  · cases h
    intro c hc
    simpa using List.mem_takeWhile_imp hc

theorem prefix_of_extended (h : extended w = some name) : name <+: w := by
  obtain ⟨k, -, hk⟩ := List.exists_of_findSome?_eq_some h
  split at hk
  · cases hk
  · obtain ⟨e, he, rfl⟩ := Option.map_eq_some_iff.1 hk
    have hfound : e <+: w.drop k := by simpa using List.find?_some he
    nth_rewrite 2 [← List.take_append_drop k w]
    exact (List.prefix_append_right_inj _).2 hfound

theorem mem_findAll (h : n ∈ findAll pattern fuel t) : ∃ t rest, pattern t = some (n, rest) := by
  induction fuel generalizing t with
  | zero => cases h
  | succ fuel ih =>
    cases t with
    | nil => cases h
    | cons c t =>
      rw [findAll] at h
      split at h
      · next name rest hmatch =>
        rcases List.mem_cons.1 h with rfl | h
        · exact ⟨_, _, hmatch⟩
        · exact ih h
      · exact ih h

theorem space_of_asked (h : n ∈ asked u log) : ∀ c ∈ n, u.space c = false := by
  obtain ⟨pattern, hpattern, hmem⟩ := List.mem_flatMap.1 h
  obtain ⟨t, rest, hmatch⟩ := mem_findAll hmem
  simp only [List.mem_cons, List.not_mem_nil, or_false] at hpattern
  rcases hpattern with rfl | rfl | rfl
  · obtain ⟨t', -, hword⟩ := Option.bind_eq_some_iff.1 hmatch
    exact space_of_word hword
  · obtain ⟨t', -, hmatch⟩ := Option.bind_eq_some_iff.1 hmatch
    obtain ⟨⟨w, rest'⟩, hword, hmatch⟩ := Option.bind_eq_some_iff.1 hmatch
    obtain ⟨_, -, hmatch⟩ := Option.bind_eq_some_iff.1 hmatch
    cases hmatch
    exact space_of_word hword
  · obtain ⟨t', -, hmatch⟩ := Option.bind_eq_some_iff.1 hmatch
    obtain ⟨_, -, hmatch⟩ := Option.bind_eq_some_iff.1 hmatch
    obtain ⟨_, -, hmatch⟩ := Option.bind_eq_some_iff.1 hmatch
    obtain ⟨⟨w, rest'⟩, hword, hmatch⟩ := Option.bind_eq_some_iff.1 hmatch
    obtain ⟨name, hname, hmatch⟩ := Option.bind_eq_some_iff.1 hmatch
    cases hmatch
    exact fun c hc => space_of_word hword c ((prefix_of_extended hname).subset hc)

theorem mem_newNames : n ∈ newNames u r list ↔
    n ∈ asked u r.log ∧ safe n = true ∧ n ∉ readList u list ∧ r.available n = true := by
  simp [newNames, List.mem_eraseDups, and_assoc]

theorem kept_of_mem_files (h : n ∈ files u r list) : Kept u n := by
  rcases List.mem_append.1 (List.mem_filter.1 h).1 with h | h
  · exact kept_of_mem_readList h
  · obtain ⟨hasked, hsafe, -, -⟩ := mem_newNames.1 h
    have hspace := space_of_asked hasked
    refine ⟨hsafe, strip_eq_self (fun c hc => hspace c (List.mem_of_mem_head? hc))
      (fun c hc => hspace c (List.mem_of_mem_getLast? hc)), fun c hc => ?_⟩
    have hne (d : Char) (hd : u.space d = true) : c ≠ d := by
      rintro rfl
      exact Bool.noConfusion ((hspace c hc).symm.trans hd)
    simp [hne _ u.newline, hne _ u.carriage]

theorem readList_lines {names : List Text} (h : ∀ n ∈ names, Kept u n) :
    readList u (some (names.flatMap (· ++ ['\n']))) = names := by
  induction names with
  | nil => rfl
  | cons n names ih =>
    rw [List.forall_mem_cons] at h
    have hsplit := List.splitOnP_append_cons_of_forall_mem h.1.line '\n' rfl (names.flatMap (· ++ ['\n']))
    rw [readList, Option.getD_some, List.flatMap_cons, List.append_assoc, List.singleton_append, hsplit,
      List.map_cons, h.1.strip, List.filter_cons_of_pos h.1.safe]
    exact congrArg (n :: ·) (ih h.2)

def Drops (u : Spaces) (r : Run) (list : Option Text) : Prop :=
  r.writes = true ∧ (∃ n ∈ asked u r.log, safe n = true ∧ n ∉ readList u list ∧ r.available n = true) ∧
    ∃ n ∈ readList u list, r.available n = false

theorem readList_update : readList u (update u r list).1 =
    if newNames u r list ≠ [] ∧ r.writes = true then files u r list else readList u list := by
  unfold update
  by_cases hnew : newNames u r list = []
  · simp [hnew]
  · cases hwrites : r.writes with
    | false => simp [hnew]
    | true => simp [hnew, readList_lines fun n => kept_of_mem_files]

theorem subset_update_iff : readList u list ⊆ readList u (update u r list).1 ↔ ¬ Drops u r list := by
  have hnew : newNames u r list ≠ [] ↔
      ∃ n ∈ asked u r.log, safe n = true ∧ n ∉ readList u list ∧ r.available n = true := by
    rw [← List.length_pos_iff_ne_nil, List.length_pos_iff_exists_mem]
    exact exists_congr fun n => mem_newNames
  rw [readList_update, Drops, ← hnew]
  by_cases h : newNames u r list ≠ [] ∧ r.writes = true
  · have hiff : readList u list ⊆ files u r list ↔ ∀ n ∈ readList u list, r.available n = true := by
      constructor
      · intro hsub n hn
        exact (List.mem_filter.1 (hsub hn)).2
      · intro hall n hn
        exact List.mem_filter.2 ⟨List.mem_append_left _ hn, hall n hn⟩
    rw [if_pos h, hiff]
    simp [h.1, h.2]
  · rw [if_neg h]
    exact iff_of_true (List.Subset.refl _) fun hdrops => h ⟨hdrops.2.1, hdrops.1⟩

def listAfter (u : Spaces) (list : Option Text) (runs : List Run) : Option Text :=
  runs.foldl (fun list r => (update u r list).1) list

def Grows (u : Spaces) (list : Option Text) (runs : List Run) : Prop :=
  ∀ a b c, runs = a ++ b ++ c → readList u (listAfter u list a) ⊆ readList u (listAfter u list (a ++ b))

theorem listAfter_concat (runs : List Run) (r : Run) :
    listAfter u list (runs ++ [r]) = (update u r (listAfter u list runs)).1 := by
  rw [listAfter, List.foldl_append]
  rfl

theorem grows_iff (runs : List Run) :
    Grows u list runs ↔ ∀ a r c, runs = a ++ r :: c → ¬ Drops u r (listAfter u list a) := by
  constructor
  · intro h a r c hruns
    have hsub := h a [r] c (by simp [hruns])
    rwa [listAfter_concat, subset_update_iff] at hsub
  · intro h a b c hruns
    induction b using List.reverseRecOn generalizing c with
    | nil => simp
    | append_singleton b r ih =>
      have hstep : ¬ Drops u r (listAfter u list (a ++ b)) := h (a ++ b) r c (by simp [hruns])
      rw [← List.append_assoc, listAfter_concat]
      exact List.Subset.trans (ih (r :: c) (by simp [hruns])) (subset_update_iff.2 hstep)

def Completes (u : Spaces) (r : Run) (list : Option Text) : Prop :=
  r.boot = true ∧ (newNames u r list ≠ [] → r.writes = true)

/-- The archive has every file of the list that is there, up to the limit. -/
def Archives (u : Spaces) (r : Run) (list : Option Text) : Prop :=
  ∀ n ∈ readList u (update u r list).1, ∀ data, r.fw.file n = some data →
    ∃ es size, (update u r list).2 = some (newc es) ∧
      size = ((es.filter (·.mode = fileMode)).map (·.data.length)).sum ∧ size ≤ maxBytes ∧
      (fileEntry (n, data) ∈ es ∨ maxBytes < size + data.length)

theorem mem_files_of_listed (h : n ∈ readList u (update u r list).1) (hthere : r.available n = true) :
    n ∈ files u r list := by
  rw [readList_update] at h
  split at h
  · exact h
  · exact List.mem_filter.2 ⟨List.mem_append_left _ h, hthere⟩

theorem Completes.archives (h : Completes u r list) : Archives u r list := by
  intro n hn data hdata
  have hfile := mem_files_of_listed hn (by rw [Run.available, hdata]; rfl)
  have hsome : (archiveLoop r.fw [] 0 (files u r list)).isSome :=
    archiveLoop_isSome fun m hm => (List.mem_filter.1 hm).2
  obtain ⟨es, hes⟩ := Option.isSome_iff_exists.1 hsome
  have hholds := holds_archiveLoop List.nodup_nil hes
  refine ⟨es, ((included r.fw 0 (files u r list)).map (·.2.length)).sum, ?_, ?_, ?_, ?_⟩
  · have hgoes : ¬ (newNames u r list ≠ [] ∧ (!r.writes) = true) := fun hstop => by simp [h.2 hstop.1] at hstop
    rw [update, if_neg hgoes]
    simp [h.1, List.ne_nil_of_mem hfile, archive, hes]
  · rw [hholds.files, List.map_map]
    rfl
  · simpa using included_size (files u r list) (Nat.zero_le maxBytes)
  · rcases included_or_over hfile hdata with hin | hover
    · have hentry : fileEntry (n, data) ∈ es.filter (·.mode = fileMode) := by
        rw [hholds.files]
        exact List.mem_map_of_mem hin
      exact .inl (List.mem_filter.1 hentry).1
    · exact .inr (by simpa using hover)

/-- The list only grows just when no run adds a name while the file of another is missing. -/
theorem list_grows_iff (u : Spaces) (list : Option Text) (runs : List Run) :
    (Grows u list runs ↔ ∀ a r c, runs = a ++ r :: c → ¬ Drops u r (listAfter u list a)) ∧
      ∀ a r c, runs = a ++ r :: c → Completes u r (listAfter u list a) → Archives u r (listAfter u list a) :=
  ⟨grows_iff runs, fun _ _ _ _ h => h.archives⟩

def asciiSpaces : Spaces := ⟨Char.isWhitespace, rfl, rfl, rfl⟩

def soundRun : Run := ⟨"firmware: failed to load intel/b.ri (-2)".toList, soundFirmware, true, true⟩

theorem soundRun_drops_name : ¬ Grows asciiSpaces (some "a.bin\n".toList) [soundRun] := by
  intro h
  apply (grows_iff _).1 h [] soundRun [] rfl
  exact ⟨rfl, ⟨"intel/b.ri".toList, by decide, by decide, by decide, by decide⟩, "a.bin".toList, by decide, by decide⟩

theorem newNames_update (h : newNames u r list ≠ [] → r.writes = true) : newNames u r (update u r list).1 = [] := by
  refine List.eq_nil_iff_forall_not_mem.2 fun n hn => ?_
  obtain ⟨hasked, hsafe, hlisted, hthere⟩ := mem_newNames.1 hn
  rw [readList_update] at hlisted
  by_cases hold : n ∈ readList u list
  · split at hlisted
    · exact hlisted (List.mem_filter.2 ⟨List.mem_append_left _ hold, hthere⟩)
    · exact hlisted hold
  · have hnew : n ∈ newNames u r list := mem_newNames.2 ⟨hasked, hsafe, hold, hthere⟩
    have hne := List.ne_nil_of_mem hnew
    rw [if_pos ⟨hne, h hne⟩] at hlisted
    exact hlisted (List.mem_filter.2 ⟨List.mem_append_right _ hnew, hthere⟩)

theorem files_update (h : newNames u r list ≠ [] → r.writes = true) :
    files u r (update u r list).1 = files u r list := by
  rw [files, newNames_update h, List.append_nil, readList_update]
  split
  · rw [files, List.filter_filter]
    simp
  · next hnone =>
    have hnil : newNames u r list = [] := by
      by_contra hne
      exact hnone ⟨hne, h hne⟩
    rw [files, hnil, List.append_nil]

theorem update_snd (h : newNames u r list ≠ [] → r.writes = true) :
    (update u r list).2 = if files u r list = [] ∨ !r.boot then none else archive r.fw (files u r list) := by
  rw [update, if_neg]
  exact fun hstop => by simp [h hstop.1] at hstop

end StainedGlass.Boot
