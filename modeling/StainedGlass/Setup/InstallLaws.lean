import StainedGlass.Setup.BridgeLaws
import StainedGlass.Setup.Install
import StainedGlass.Lib.Number

namespace StainedGlass.Setup

open Lib

variable {layout : List Place} {d : Daemon} {p : Pages} {s : Bytes}

theorem tabFields_cons (h : 9 ∉ s) (rest : Bytes) :
    tabFields (s ++ 9 :: rest) = [s].filter (· ≠ []) ++ tabFields rest := by
  rw [tabFields, List.splitOn, List.splitOnP_append_cons_of_forall_mem (fun x hx => ?_) 9 rfl,
    ← List.singleton_append, List.filter_append]
  · rfl
  · simpa using ne_of_mem_of_not_mem hx h

theorem tabFields_last (h : 9 ∉ s) : tabFields s = [s].filter (· ≠ []) := by
  rw [tabFields, List.splitOn, List.splitOnP_eq_singleton fun x hx => ?_]
  simpa using ne_of_mem_of_not_mem hx h

theorem filter_ne_nil (h : s ≠ []) : [s].filter (· ≠ []) = [s] := by simp [h]

def Plain (s : Bytes) : Prop := ∀ b ∈ s, b ≠ 0 ∧ b ≠ 10 ∧ b ≠ 13

theorem Plain.append (hs : Plain s) (ht : Plain t) : Plain (s ++ t) := by
  intro b hb
  rcases List.mem_append.mp hb with hb | hb
  · exact hs b hb
  · exact ht b hb

theorem Plain.take (h : Plain s) (n : Nat) : Plain (s.take n) := fun b hb => h b (List.mem_of_mem_take hb)

theorem plain_of_all (h : s.all (fun b => b ≠ 0 && b ≠ 10 && b ≠ 13) = true) : Plain s := by
  intro b hb
  have := List.all_eq_true.mp h b hb
  simpa [and_assoc] using this

theorem plain_decimal (n : Nat) : Plain (decimal n) := by
  intro b hb
  have h := (isDigit_of_mem_decimal hb).1
  refine ⟨?_, ?_, ?_⟩ <;> rintro rfl <;> revert h <;> decide

theorem tab_notMem_decimal (n : Nat) : 9 ∉ decimal n := fun h =>
  absurd (isDigit_of_mem_decimal h).1 (by decide)

theorem colon_notMem_decimal (n : Nat) : 58 ∉ decimal n := fun h =>
  absurd (isDigit_of_mem_decimal h).2 (by decide)

theorem lineString_plain (h : Plain s) : (lineString s).bytes = s := by
  have hcr : dropCr s = s := by
    rw [dropCr, if_neg]
    intro hlast
    exact (h 13 (List.mem_of_getLast? hlast)).2.2 rfl
  rw [lineString, hcr, CString.ofBuffer]
  exact cstr_eq_self fun h0 => (h 0 h0).1 rfl

theorem allowed_of_prefix (head : String) (hhead : head ∈ okSetup) (hspace : (ascii head).getLast? = some 32)
    {line : CString} (h : ascii head <+: line.bytes) : allowed false line = true := by
  rw [allowed, List.any_eq_true]
  refine ⟨head, by simpa using hhead, ?_⟩
  rw [if_pos hspace]
  exact List.isPrefixOf_iff_prefix.mpr h

def Place.arg : Place → String × Bytes
  | .part path => ("--target", path.bytes)
  | .free disk start sectors =>
    ("--free", disk.bytes ++ 58 :: (decimal start.toNat ++ 58 :: decimal sectors.toNat))

def Place.ColonFree : Place → Prop
  | .part _ => True
  | .free disk _ _ => 58 ∉ disk.bytes

def Place.kind : Place → String
  | .part _ => "part:"
  | .free .. => "free:"

variable (place : Place) (t : EditText)

theorem Place.kind_spec : (ascii place.kind).length = 5 ∧ 9 ∉ ascii place.kind ∧ Plain (ascii place.kind) := by
  have hall : ["part:", "free:"].all (fun kind => (ascii kind).length = 5 && 9 ∉ ascii kind &&
      (ascii kind).all (fun b => b ≠ 0 && b ≠ 10 && b ≠ 13)) = true := by decide
  have hmem : place.kind ∈ ["part:", "free:"] := by
    cases place with
    | part path => exact List.mem_cons_self
    | free disk start sectors => exact List.mem_cons_of_mem _ List.mem_cons_self
  have h := List.all_eq_true.mp hall _ hmem
  simp only [Bool.and_eq_true, decide_eq_true_eq] at h
  exact ⟨h.1.1, h.1.2, plain_of_all h.2⟩

def Place.text (place : Place) : Bytes := ascii place.kind ++ place.arg.2

theorem length_decimal_le_twenty (n : UInt64) : (decimal n.toNat).length ≤ 20 :=
  length_decimal_le (by decide) (n.toNat_lt.trans (by decide))

theorem Place.length_arg_le : place.arg.2.length ≤ 122 := by
  cases place with
  | part path => exact path.short.le.trans (by decide)
  | free disk start sectors =>
    have := disk.short
    have := length_decimal_le_twenty start
    have := length_decimal_le_twenty sectors
    simp only [arg, List.length_append, List.length_cons]
    omega

theorem Place.length_text_le : place.text.length ≤ 127 := by
  have harg := place.length_arg_le
  rw [text, List.length_append, place.kind_spec.1]
  omega

theorem Place.target_eq : place.target = place.text := by
  rw [← List.take_of_length_le place.length_text_le]
  cases place with
  | part path => rfl
  | free disk start sectors => simp [target, text, arg, kind]

theorem plain_device (path : DevicePath) : Plain path.bytes := fun b hb =>
  ⟨(path.plain b hb).1, (path.plain b hb).2.2.1, (path.plain b hb).2.2.2.1⟩

theorem tab_notMem_device (path : DevicePath) : 9 ∉ path.bytes := fun h => (path.plain 9 h).2.1 rfl

theorem Place.plain_arg : Plain place.arg.2 := by
  cases place with
  | part path => exact plain_device path
  | free disk start sectors =>
    have hcolon {t : Bytes} (ht : Plain t) : Plain (58 :: t) :=
      Plain.append (s := [58]) (plain_of_all (by decide)) ht
    exact (plain_device disk).append (hcolon ((plain_decimal _).append (hcolon (plain_decimal _))))

theorem Place.plain_text : Plain place.text :=
  place.kind_spec.2.2.append place.plain_arg

theorem Place.tab_notMem_text : 9 ∉ place.text := by
  rw [text, List.mem_append, not_or]
  refine ⟨place.kind_spec.2.1, ?_⟩
  cases place with
  | part path => exact tab_notMem_device path
  | free disk start sectors =>
    simp only [arg, List.mem_append, List.mem_cons, not_or]
    exact ⟨tab_notMem_device disk, by decide, tab_notMem_decimal _, by decide, tab_notMem_decimal _⟩

theorem checkTarget_part (layout : List Place) (arg : Bytes) :
    checkTarget layout (ascii "part:" ++ arg) =
      if inLayoutPart layout arg then some ("--target", arg) else none := by
  rw [checkTarget, if_pos (List.prefix_append _ _)]
  rfl

theorem checkTarget_free (layout : List Place) (arg : Bytes) :
    checkTarget layout (ascii "free:" ++ arg) =
      if inLayoutFree layout (beforeFirst 58 arg) (beforeFirst 58 (afterFirst 58 arg))
        (afterFirst 58 (afterFirst 58 arg)) then some ("--free", arg) else none := by
  rw [checkTarget, if_neg, if_pos (List.prefix_append _ _)]
  · rfl
  · rintro ⟨rest, h⟩
    have hhead : (some 112 : Option UInt8) = some 102 := congrArg List.head? h
    exact absurd hhead (by decide)

theorem beforeFirst_append (h : c ∉ s) (rest : Bytes) : beforeFirst c (s ++ c :: rest) = s := by
  rw [beforeFirst, List.takeWhile_append_of_pos]
  · simp
  · intro b hb
    simpa using ne_of_mem_of_not_mem hb h

theorem afterFirst_append (h : c ∉ s) (rest : Bytes) : afterFirst c (s ++ c :: rest) = rest := by
  rw [afterFirst, cut_append h]

theorem afterFirst_of_mem (h : c ∈ s) (rest : Bytes) : ∃ t, afterFirst c (s ++ rest) = t ++ rest := by
  obtain ⟨a, b, rfl, ha⟩ := List.eq_append_cons_of_mem h
  exact ⟨b, by rw [List.append_assoc, List.cons_append, afterFirst_append ha]⟩

theorem checkTarget_text {place : Place} (hplace : place ∈ layout) (hcolon : place.ColonFree) :
    checkTarget layout place.text = some place.arg := by
  cases place with
  | part path =>
    have hin : inLayoutPart layout path.bytes = true :=
      List.any_eq_true.mpr ⟨_, hplace, decide_eq_true rfl⟩
    refine (checkTarget_part layout _).trans ?_
    rw [Place.arg, if_pos hin]
  | free disk start sectors =>
    have hin : inLayoutFree layout disk.bytes (decimal start.toNat) (decimal sectors.toNat) = true :=
      List.any_eq_true.mpr ⟨_, hplace, by simp⟩
    refine (checkTarget_free layout _).trans ?_
    rw [Place.arg, afterFirst_append hcolon, afterFirst_append (colon_notMem_decimal _),
      beforeFirst_append hcolon, beforeFirst_append (colon_notMem_decimal _), if_pos hin]

theorem checkTarget_colon {place : Place} (hcolon : ¬ place.ColonFree) :
    checkTarget layout place.text = none := by
  cases place with
  | part path => exact absurd trivial hcolon
  | free disk start sectors =>
    obtain ⟨t, ht⟩ := afterFirst_of_mem (not_not.mp hcolon)
      (58 :: (decimal start.toNat ++ 58 :: decimal sectors.toNat))
    -- what is left as the size still has the colon before the size
    have hsize : ∃ u, afterFirst 58 (afterFirst 58 (Place.free disk start sectors).arg.2) =
        u ++ 58 :: decimal sectors.toNat := by
      rw [Place.arg, ht, ← List.cons_append, ← List.append_assoc]
      exact afterFirst_of_mem (by simp) _
    obtain ⟨u, hu⟩ := hsize
    refine (checkTarget_free layout _).trans (if_neg ?_)
    rw [hu, inLayoutFree, List.any_eq_true]
    rintro ⟨row, -, hrow⟩
    cases row with
    | part path => cases hrow
    | free disk' start' sectors' =>
      simp only [Bool.and_eq_true, Bool.or_eq_true, decide_eq_true_eq] at hrow
      rcases hrow.2 with hnil | heq
      · simp at hnil
      · refine colon_notMem_decimal sectors'.toNat ?_
        rw [heq]
        simp

theorem EditText.plain_get (size : Nat) : Plain (t.get size) :=
  Plain.take t.single _

theorem EditText.length_get_lt (size : Nat) (hsize : 0 < size) : (t.get size).length < size := by
  rw [get, List.length_take]
  omega

theorem EditText.get_eq_iff (size : Nat) (hsize : 0 < size) : t.get size = t.bytes ↔ t.bytes.length < size := by
  rw [get, List.take_eq_self_iff]
  omega

structure Accepted (p : Pages) : Prop where
  name : 9 ∉ p.name.get 128
  account : validAccount (p.account.get 64) = true
  host : validHost (p.host.get 64) = true
  pass : p.pass.get 256 ≠ []

theorem accepted_of_done (h : accountPageDone p = true) : Accepted p := by
  simp only [accountPageDone, Bool.and_eq_true, decide_eq_true_eq] at h
  exact ⟨h.1.1.1.1.1, h.1.1.1.2, h.1.1.2, h.1.2⟩

theorem validAccount_spec (h : validAccount s = true) : s ≠ [] ∧ 9 ∉ s ∧ s.length ≤ 32 := by
  cases s with
  | nil => cases h
  | cons c s =>
    simp only [validAccount, Bool.and_eq_true, decide_eq_true_eq, List.all_eq_true] at h
    obtain ⟨⟨⟨hlen, hc⟩, hall⟩, -⟩ := h
    refine ⟨List.cons_ne_nil _ _, ?_, hlen⟩
    rw [List.mem_cons, not_or]
    constructor
    · rintro rfl
      revert hc
      decide
    · intro htab
      exact absurd (hall 9 htab) (by decide)

theorem validHost_spec (h : validHost s = true) : s ≠ [] ∧ 9 ∉ s := by
  simp only [validHost, Bool.and_eq_true, decide_eq_true_eq, List.all_eq_true] at h
  exact ⟨h.1.1.1.1, fun htab => absurd (h.2 9 htab) (by decide)⟩

theorem Accepted.account_get (h : Accepted p) : p.account.get 64 = p.account.bytes := by
  have hlen := (validAccount_spec h.account).2.2
  rw [EditText.get, List.length_take] at hlen
  rw [EditText.get_eq_iff _ _ (by decide)]
  omega

theorem layouts_spec (k : Keyboard) : ascii k.code ≠ [] ∧ 9 ∉ ascii k.code ∧ Plain (ascii k.code) ∧
    (ascii k.code).length ≤ 2 := by
  have hall : layouts.all (fun code => ascii code ≠ [] && 9 ∉ ascii code &&
      (ascii code).all (fun b => b ≠ 0 && b ≠ 10 && b ≠ 13) && (ascii code).length ≤ 2) = true := by decide
  have h := List.all_eq_true.mp hall k.code k.known
  simp only [Bool.and_eq_true, decide_eq_true_eq] at h
  exact ⟨h.1.1.1, h.1.1.2, plain_of_all h.1.2, h.2⟩

def Pages.driversText (p : Pages) : Bytes := ascii (if p.drivers then "1" else "0")

theorem driversText_cases (p : Pages) : p.driversText = [49] ∧ p.drivers = true ∨
    p.driversText = [48] ∧ p.drivers = false := by
  cases h : p.drivers with
  | true => exact .inl ⟨by rw [Pages.driversText, h]; rfl, rfl⟩
  | false => exact .inr ⟨by rw [Pages.driversText, h]; rfl, rfl⟩

def Pages.fields (p : Pages) : Bytes :=
  p.place.text ++ 9 :: (p.account.get 64 ++ 9 :: (p.host.get 64 ++ 9 :: (p.name.get 128 ++
    9 :: (ascii p.keyboard.code ++ 9 :: p.driversText))))

theorem Plain.tab {t : Bytes} (hs : Plain s) (ht : Plain t) : Plain (s ++ 9 :: t) :=
  hs.append (Plain.append (s := [9]) (plain_of_all (by decide)) ht)

theorem Pages.plain_fields (p : Pages) : Plain p.fields := by
  have hdrivers : Plain p.driversText := by
    rcases driversText_cases p with ⟨h, -⟩ | ⟨h, -⟩ <;> rw [h] <;> exact plain_of_all (by decide)
  exact p.place.plain_text.tab ((p.account.plain_get _).tab ((p.host.plain_get _).tab
    ((p.name.plain_get _).tab ((layouts_spec p.keyboard).2.2.1.tab hdrivers))))

theorem Pages.length_fields_le (p : Pages) : p.fields.length ≤ 1000 := by
  have hplace := p.place.length_text_le
  have haccount := p.account.length_get_lt 64 (by decide)
  have hhost := p.host.length_get_lt 64 (by decide)
  have hname := p.name.length_get_lt 128 (by decide)
  have hkeyboard := (layouts_spec p.keyboard).2.2.2
  have hdrivers : p.driversText.length = 1 := by
    rcases driversText_cases p with ⟨h, -⟩ | ⟨h, -⟩ <;> rw [h] <;> rfl
  simp only [Pages.fields, List.length_append, List.length_cons]
  omega

theorem startInstall_eq (p : Pages) :
    startInstall p = [ascii "INSTALL " ++ p.fields, ascii "PASSWORD " ++ p.pass.get 256] := by
  have hpass := p.pass.length_get_lt 256 (by decide)
  have hfields := p.length_fields_le
  have hinstall : ascii "INSTALL " ++ p.place.target ++ 9 :: p.account.get 64 ++ 9 :: p.host.get 64 ++
      9 :: p.name.get 128 ++ 9 :: ascii p.keyboard.code ++ 9 :: ascii (if p.drivers then "1" else "0") =
      ascii "INSTALL " ++ p.fields := by
    simp [Pages.fields, Place.target_eq, Pages.driversText]
  rw [startInstall, sendLine, sendLine, hinstall, List.take_of_length_le, List.take_of_length_le]
  · rw [List.length_append]
    change 9 + _ ≤ _
    omega
  · rw [List.length_append]
    change 8 + _ ≤ _
    omega

theorem relay_startInstall {l : Links} (hservice : l.service = true) (hsent : l.sent = []) (p : Pages) :
    relay l (startInstall p) = [ascii "INSTALL " ++ p.fields, ascii "PASSWORD " ++ p.pass.get 256] := by
  have hinstall : (lineString (ascii "INSTALL " ++ p.fields)).bytes = ascii "INSTALL " ++ p.fields :=
    lineString_plain (Plain.append (plain_of_all (by decide)) p.plain_fields)
  have hpassword : (lineString (ascii "PASSWORD " ++ p.pass.get 256)).bytes =
      ascii "PASSWORD " ++ p.pass.get 256 :=
    lineString_plain (Plain.append (plain_of_all (by decide)) (p.pass.plain_get _))
  have hallowed : allowed false (lineString (ascii "INSTALL " ++ p.fields)) = true :=
    allowed_of_prefix "INSTALL " (by decide) (by decide) (by rw [hinstall]; exact List.prefix_append _ _)
  have hallowed' : allowed false (lineString (ascii "PASSWORD " ++ p.pass.get 256)) = true :=
    allowed_of_prefix "PASSWORD " (by decide) (by decide)
      (by rw [hpassword]; exact List.prefix_append _ _)
  rw [relay, sent_lines false _ hservice, hsent, startInstall_eq]
  simp [hallowed, hallowed', hinstall, hpassword]

theorem not_prefix_of_head {u v : Bytes} (h : (u.head?.isSome && v.head?.isSome && u.head? ≠ v.head?) = true)
    (t : Bytes) : ¬ u <+: v ++ t := by
  cases u with
  | nil => cases h
  | cons a u =>
    cases v with
    | nil => cases h
    | cons b v =>
      have hne : a ≠ b := by simpa using h
      exact fun hpre => hne (List.cons_prefix_cons.mp hpre).1

theorem handle_install (layout : List Place) (d : Daemon) (s : Bytes) :
    d.handle layout (ascii "INSTALL " ++ s) =
      ({ target := (tabFields s).getD 0 [], account := (tabFields s).getD 1 [],
         host := (tabFields s).getD 2 [], full := (tabFields s).getD 3 [], kbd := (tabFields s).getD 4 [],
         drivers := (tabFields s).getD 5 (ascii "0") }, none) := by
  rw [Daemon.handle, if_neg (not_prefix_of_head (by decide) _), if_neg (not_prefix_of_head (by decide) _),
    if_neg (not_prefix_of_head (by decide) _), if_pos (List.prefix_append _ _)]
  rfl

theorem handle_password (layout : List Place) (htarget : d.target ≠ []) (haccount : d.account ≠ [])
    (hhost : d.host ≠ []) (s : Bytes) :
    d.handle layout (ascii "PASSWORD " ++ s) =
      (d, (checkTarget layout d.target).map fun place => d.install place s) := by
  rw [Daemon.handle, if_neg (not_prefix_of_head (by decide) _), if_neg (not_prefix_of_head (by decide) _),
    if_neg (not_prefix_of_head (by decide) _), if_neg (not_prefix_of_head (by decide) _),
    if_pos (List.prefix_append _ _), if_neg (by simp [htarget, haccount, hhost])]
  rfl

theorem Place.text_ne_nil : place.text ≠ [] := by
  intro h
  have hlen := congrArg List.length h
  rw [text, List.length_append, place.kind_spec.1] at hlen
  simp at hlen

theorem Pages.driversText_spec (p : Pages) : p.driversText ≠ [] ∧ 9 ∉ p.driversText := by
  rcases driversText_cases p with ⟨h, -⟩ | ⟨h, -⟩ <;> rw [h] <;> decide

theorem Accepted.tabFields (h : Accepted p) :
    tabFields p.fields = [p.place.text, p.account.get 64, p.host.get 64] ++
      [p.name.get 128].filter (· ≠ []) ++ [ascii p.keyboard.code, p.driversText] := by
  obtain ⟨haccount, htab, -⟩ := validAccount_spec h.account
  obtain ⟨hhost, htab'⟩ := validHost_spec h.host
  obtain ⟨hkeyboard, htab'', -⟩ := layouts_spec p.keyboard
  rw [Pages.fields, tabFields_cons p.place.tab_notMem_text, tabFields_cons htab, tabFields_cons htab',
    tabFields_cons h.name, tabFields_cons htab'', tabFields_last p.driversText_spec.2,
    filter_ne_nil p.place.text_ne_nil, filter_ne_nil haccount, filter_ne_nil hhost,
    filter_ne_nil hkeyboard, filter_ne_nil p.driversText_spec.1]
  simp

def Pages.set (p : Pages) : Daemon where
  target := p.place.text
  account := p.account.get 64
  host := p.host.get 64
  full := if p.name.get 128 = [] then ascii p.keyboard.code else p.name.get 128
  kbd := if p.name.get 128 = [] then p.driversText else ascii p.keyboard.code
  drivers := if p.name.get 128 = [] then ascii "0" else p.driversText

theorem Accepted.runs (h : Accepted p) (layout : List Place) (d : Daemon) {l : Links}
    (hservice : l.service = true) (hsent : l.sent = []) :
    d.runs layout (relay l (startInstall p)) =
      ((checkTarget layout p.place.text).map fun place => p.set.install place (p.pass.get 256)).toList := by
  have hset : (d.handle layout (ascii "INSTALL " ++ p.fields)) = (p.set, none) := by
    rw [handle_install, h.tabFields, Pages.set]
    by_cases hname : p.name.get 128 = []
    · simp [hname]
    · simp [hname]
  have hpassword := handle_password layout (d := p.set) p.place.text_ne_nil
    (validAccount_spec h.account).1 (validHost_spec h.host).1 (p.pass.get 256)
  rw [relay_startInstall hservice hsent, Daemon.runs, hset, Daemon.runs, hpassword, Daemon.runs]
  simp [Pages.set]

def Pages.wanted (p : Pages) : Run where
  args := [ascii p.place.arg.1, p.place.arg.2, ascii "--user", p.account.bytes, ascii "--hostname", p.host.bytes] ++
    optional "--full-name" p.name.bytes ++ optional "--keyboard" (ascii p.keyboard.code) ++
    (if p.drivers then [ascii "--drivers"] else []) ++ [ascii "--password-stdin", ascii "--yes"]
  input := p.pass.bytes ++ [10]

/-- No text is longer than what it is read into, and none is left out between two others. -/
structure Fits (p : Pages) : Prop where
  named : p.name.bytes ≠ []
  name : p.name.bytes.length < 128
  host : p.host.bytes.length < 64
  pass : p.pass.bytes.length < 256
  place : p.place.ColonFree

theorem Accepted.install_eq (h : Accepted p) (hfits : Fits p) :
    p.set.install p.place.arg (p.pass.get 256) = p.wanted := by
  have hname := (p.name.get_eq_iff 128 (by decide)).mpr hfits.name
  have hhost := (p.host.get_eq_iff 64 (by decide)).mpr hfits.host
  have hpass := (p.pass.get_eq_iff 256 (by decide)).mpr hfits.pass
  have hdrivers : (p.driversText = ascii "1") ↔ p.drivers = true := by
    rcases driversText_cases p with ⟨ht, hd⟩ | ⟨ht, hd⟩ <;> rw [ht, hd] <;> decide
  rw [Daemon.install, Pages.wanted, Pages.set, hname, hhost, hpass, h.account_get]
  simp [hfits.named, hdrivers]

theorem optional_nil (option : String) : optional option [] = [] := rfl

theorem optional_of_ne (option : String) (h : s ≠ []) : optional option s = [ascii option, s] := if_neg h

theorem EditText.bytes_eq_nil (hsize : 1 < size) (h : t.get size = []) : t.bytes = [] := by
  rcases List.take_eq_nil_iff.mp h with h | h
  · omega
  · exact h

theorem fits_of_install (hcolon : p.place.ColonFree)
    (h : p.set.install p.place.arg (p.pass.get 256) = p.wanted) : Fits p := by
  have hargs := congrArg Run.args h
  have hinput : p.pass.get 256 = p.pass.bytes :=
    List.append_cancel_right (congrArg Run.input h)
  have hhost : p.host.get 64 = p.host.bytes := by
    have := congrArg (·[5]?) hargs
    simpa [Daemon.install, Pages.wanted, Pages.set] using this
  have hkeyboard := (layouts_spec p.keyboard).1
  have hnamed : p.name.get 128 ≠ [] := by
    intro hnil
    have hbytes := p.name.bytes_eq_nil (by decide) hnil
    -- the keyboard stands where the full name should
    have hoption := congrArg (·[6]?) hargs
    have hsame : ascii "--full-name" = ascii "--keyboard" := by
      simpa [Daemon.install, Pages.wanted, Pages.set, hnil, hbytes, optional_nil, optional_of_ne, hkeyboard]
        using hoption
    exact absurd hsame (by decide)
  have hbytes : p.name.bytes ≠ [] := by
    intro hnil
    exact hnamed (by rw [EditText.get, hnil, List.take_nil])
  have hname : p.name.get 128 = p.name.bytes := by
    have hvalue := congrArg (·[7]?) hargs
    simpa [Daemon.install, Pages.wanted, Pages.set, hnamed, hbytes, optional_of_ne] using hvalue
  exact ⟨hbytes, (p.name.get_eq_iff 128 (by decide)).mp hname, (p.host.get_eq_iff 64 (by decide)).mp hhost,
    (p.pass.get_eq_iff 256 (by decide)).mp hinput, hcolon⟩

theorem fits_fillAccount (p : Pages) : Fits (fillAccount p) ↔ Fits p := by
  have hfill : (fillAccount p).name = p.name ∧ (fillAccount p).host = p.host ∧
      (fillAccount p).pass = p.pass ∧ (fillAccount p).place = p.place := by
    rw [fillAccount]
    split
    · exact ⟨rfl, rfl, rfl, rfl⟩
    · exact ⟨rfl, rfl, rfl, rfl⟩
  obtain ⟨hname, hhost, hpass, hplace⟩ := hfill
  constructor
  · rintro ⟨h₁, h₂, h₃, h₄, h₅⟩
    rw [hname] at h₁ h₂
    exact ⟨h₁, h₂, hhost ▸ h₃, hpass ▸ h₄, hplace ▸ h₅⟩
  · rintro ⟨h₁, h₂, h₃, h₄, h₅⟩
    exact ⟨hname ▸ h₁, hname ▸ h₂, hhost ▸ h₃, hpass ▸ h₄, hplace ▸ h₅⟩

theorem fillAccount_place (p : Pages) : (fillAccount p).place = p.place := by
  rw [fillAccount]
  split
  · rfl
  · rfl

theorem install_exact_iff (d : Daemon) {l : Links} (hservice : l.service = true) (hsent : l.sent = [])
    (hdone : accountPageDone (fillAccount p) = true) (hplace : p.place ∈ layout) :
    d.runs layout (relay l (startInstall (fillAccount p))) = [(fillAccount p).wanted] ↔ Fits p := by
  have haccepted := accepted_of_done hdone
  rw [haccepted.runs layout d hservice hsent, ← fits_fillAccount]
  rw [← fillAccount_place p] at hplace
  generalize fillAccount p = p at *
  by_cases hcolon : p.place.ColonFree
  · rw [checkTarget_text hplace hcolon]
    constructor
    · intro h
      exact fits_of_install hcolon (List.singleton_inj.mp h)
    · intro h
      exact congrArg (fun r => [r]) (haccepted.install_eq h)
  · rw [checkTarget_colon hcolon]
    constructor
    · intro h
      cases h
    · intro h
      exact absurd h.place hcolon

theorem single_typed (s : Bytes) : ∀ b ∈ s.filter (fun b => b ≠ 0 && b ≠ 10 && b ≠ 13), b ≠ 0 ∧ b ≠ 10 ∧ b ≠ 13 :=
  fun b hb => by simpa [and_assoc] using (List.mem_filter.mp hb).2

def EditText.typed (s : Bytes) : EditText := ⟨s.filter (fun b => b ≠ 0 && b ≠ 10 && b ≠ 13), single_typed s⟩

theorem short_device : (ascii "/dev/sda1").length < 64 := by decide

theorem plain_device_sda : ∀ b ∈ ascii "/dev/sda1", b ≠ 0 ∧ b ≠ 9 ∧ b ≠ 10 ∧ b ≠ 13 ∧ b ≠ 92 := by
  have hall : (ascii "/dev/sda1").all (fun b => b ≠ 0 && b ≠ 9 && b ≠ 10 && b ≠ 13 && b ≠ 92) = true := by decide
  intro b hb
  simpa [and_assoc] using List.all_eq_true.mp hall b hb

def sda1 : DevicePath := ⟨ascii "/dev/sda1", short_device, plain_device_sda⟩

theorem known_us : "us" ∈ layouts := List.mem_cons_self

def pagesOf (name : String) : Pages where
  name := .typed (ascii name)
  account := .typed (ascii "ann")
  host := .typed (ascii "tower")
  pass := .typed (ascii "secret")
  pass2 := .typed (ascii "secret")
  keyboard := ⟨"us", known_us⟩
  drivers := true
  place := .part sda1

def connected : Links where
  service := true
  writes := []
  sent := []
  shown := []
  ready := true
  tried := false

def Daemon.fresh : Daemon where
  target := []
  account := []
  host := []
  full := []
  kbd := []
  drivers := ascii "0"

theorem nameless_is_shifted :
    accountPageDone (fillAccount (pagesOf "")) = true ∧
    Daemon.fresh.runs [.part sda1] (relay connected (startInstall (fillAccount (pagesOf "")))) =
      [{ args := [ascii "--target", ascii "/dev/sda1", ascii "--user", ascii "ann", ascii "--hostname",
          ascii "tower", ascii "--full-name", ascii "us", ascii "--keyboard", ascii "1",
          ascii "--password-stdin", ascii "--yes"], input := ascii "secret\n" }] ∧
    (pagesOf "").wanted =
      { args := [ascii "--target", ascii "/dev/sda1", ascii "--user", ascii "ann", ascii "--hostname",
          ascii "tower", ascii "--keyboard", ascii "us", ascii "--drivers", ascii "--password-stdin",
          ascii "--yes"], input := ascii "secret\n" } := by
  decide

theorem named_is_exact :
    accountPageDone (fillAccount (pagesOf "Ann Lee")) = true ∧ Fits (pagesOf "Ann Lee") ∧
    Daemon.fresh.runs [.part sda1] (relay connected (startInstall (fillAccount (pagesOf "Ann Lee")))) =
      [(fillAccount (pagesOf "Ann Lee")).wanted] := by
  have hfits : Fits (pagesOf "Ann Lee") := ⟨by decide, by decide, by decide, by decide, trivial⟩
  exact ⟨by decide, hfits, (install_exact_iff .fresh rfl rfl (by decide) List.mem_cons_self).mpr hfits⟩

end StainedGlass.Setup
