import StainedGlass.Lib.KeyFile
import StainedGlass.Net.Wifi

namespace StainedGlass.Net.Wifi

open Lib

section

variable (u : Unicode) (decode : Bytes → Str)

def shownName (ssid : Bytes) : Str :=
  str "Wi-Fi " ++ (decode ssid).map fun c => if u.printable c && c ≠ 92 && c ≠ 47 then c else 95

def byteList (ssid : Bytes) : Str := ssid.flatMap fun b => dec b.toNat ++ [59]

def readByteList (s : Str) : Option Bytes :=
  ((s.splitOn 59).dropLast).mapM fun n =>
    (digitsValue Unicode.ascii.digit n).bind fun v => if v < 256 then some (UInt8.ofNat v) else none

def keyed (security : Str) : Bool := security = str "wpa-psk" || security = str "sae"

def profileGroups (ssid : Bytes) (security psk : Str) (hidden autoconnect : Bool) (uuid : Uuid) :
    List KeyFile.Group :=
  [⟨str "connection", [(str "id", shownName u decode ssid), (str "uuid", uuid),
      (str "type", str "wifi"), (str "autoconnect", yesNo autoconnect)]⟩,
    ⟨str "wifi", [(str "mode", str "infrastructure"), (str "ssid", byteList ssid),
      (str "hidden", yesNo hidden)]⟩] ++
  (if keyed security then
    [⟨str "wifi-security", [(str "key-mgmt", security), (str "psk", psk)]⟩]
  else []) ++
  [⟨str "ipv4", [(str "method", str "auto")]⟩,
    ⟨str "ipv6", [(str "method", str "auto"), (str "addr-gen-mode", str "default")]⟩]

def Visible (s : Str) : Prop := ∀ c ∈ s, 32 ≤ c

theorem keyfileEscape_cons (c : Nat) (s : Str) : keyfileEscape (c :: s) =
    (if c = 92 then [92, 92] else if c = 32 then [92, 115] else [c]) ++ keyfileEscape s := by
  simp [keyfileEscape, str]

theorem unescape_keyfileEscape (s : Str) : KeyFile.unescape (keyfileEscape s) = some s := by
  induction s with
  | nil => rfl
  | cons c s ih =>
    rw [keyfileEscape_cons]
    split
    · next h =>
      rw [h, List.cons_append, List.singleton_append, KeyFile.unescape_undo (c := 92) rfl, ih]
      rfl
    · split
      · next h =>
        rw [h, List.cons_append, List.singleton_append, KeyFile.unescape_undo (c := 32) rfl, ih]
        rfl
      · next h _ =>
        rw [List.singleton_append, KeyFile.unescape_cons h, ih]
        rfl

variable {s : Str} {c : Nat}

theorem mem_keyfileEscape (h : c ∈ keyfileEscape s) : c = 92 ∨ c = 115 ∨ c ∈ s ∧ c ≠ 32 := by
  obtain ⟨d, hd, hc⟩ := List.mem_flatMap.mp h
  split at hc
  · simp_all
  · split at hc
    · simp [str] at hc
      tauto
    · obtain rfl := List.mem_singleton.mp hc
      tauto

theorem not_isBlank_keyfileEscape (h : Visible s) (hc : c ∈ keyfileEscape s) : KeyFile.isBlank c = false := by
  obtain rfl | rfl | ⟨hc, h32⟩ := mem_keyfileEscape hc
  · rfl
  · rfl
  · have := h c hc
    simp [KeyFile.isBlank]
    omega

theorem unescape_escaped (h : Visible s) :
    KeyFile.unescape ((keyfileEscape s).dropWhile KeyFile.isBlank) = some s := by
  have hdrop : (keyfileEscape s).dropWhile KeyFile.isBlank = keyfileEscape s := by
    refine List.dropWhile_eq_self_iff.mpr fun hpos => ?_
    rw [not_isBlank_keyfileEscape h (List.getElem_mem hpos)]
    simp
  rw [hdrop, unescape_keyfileEscape]

theorem notMem_keyfileEscape (h : Visible s) : 10 ∉ keyfileEscape s := by
  intro hc
  have := not_isBlank_keyfileEscape h hc
  cases this

theorem visible_shownName (ssid : Bytes) : Visible (shownName u decode ssid) := by
  intro c hc
  obtain hc | hc := List.mem_append.mp hc
  · have hall : ∀ c ∈ str "Wi-Fi ", 32 ≤ c := by decide
    exact hall c hc
  · obtain ⟨d, -, rfl⟩ := List.mem_map.mp hc
    split
    · next h =>
      simp only [Bool.and_eq_true] at h
      by_contra hlow
      rw [u.printable_ascii (by omega)] at h
      simp at h
      omega
    · decide

theorem le_of_hexDigit (h : (hexDigit? c).isSome = true) : 48 ≤ c := by
  by_contra hlow
  have h65 : ¬ 65 ≤ c := by omega
  have h97 : ¬ 97 ≤ c := by omega
  simp [hexDigit?, hlow, h65, h97] at h

theorem visible_of_checkPsk {psk security : Str} (h : checkPsk psk security = .ok ())
    (hkeyed : keyed security = true) : Visible psk := by
  rw [checkPsk] at h
  split at h
  · split at h
    · next hhex =>
      intro c hc
      have := le_of_hexDigit (List.all_eq_true.mp hhex.2 c hc)
      omega
    · split at h
      · next hpsk =>
        intro c hc
        have := List.all_eq_true.mp hpsk.2.2 c hc
        simp at this
        exact this.1
      · cases h
  · split at h
    · split at h
      · next hpsk =>
        intro c hc
        have := List.all_eq_true.mp hpsk.2.2 c hc
        simp at this
        exact this.1
      · cases h
    · simp_all [keyed]

theorem mem_byteList (h : c ∈ byteList ssid) : 48 ≤ c ∧ c ≤ 59 := by
  obtain ⟨b, -, hc⟩ := List.mem_flatMap.mp h
  obtain hc | hc := List.mem_append.mp hc
  · have := digit_of_mem_dec hc
    omega
  · obtain rfl := List.mem_singleton.mp hc
    decide

theorem splitOn_byteList (ssid : Bytes) :
    (byteList ssid).splitOn 59 = ssid.map (fun b => dec b.toNat) ++ [[]] := by
  induction ssid with
  | nil => rfl
  | cons b ssid ih =>
    have hcons : byteList (b :: ssid) = dec b.toNat ++ 59 :: byteList ssid := by simp [byteList]
    rw [hcons, List.splitOn_append_cons_self_of_not_mem (notMem_dec _ (by decide)), ih]
    rfl

theorem readByteList_byteList (ssid : Bytes) : readByteList (byteList ssid) = some ssid := by
  rw [readByteList, splitOn_byteList, List.dropLast_concat]
  induction ssid with
  | nil => rfl
  | cons b ssid ih =>
    rw [List.map_cons, List.mapM_cons, ih,
      digitsValue_dec (fun c h₁ h₂ => by simp [Unicode.ascii, h₁, h₂])]
    simp [b.toNat_lt]

theorem readLine_escaped (key : Str) (hne : key ≠ []) (hkey : key.all KeyFile.isKey = true)
    (h : Visible s) : KeyFile.readLine (key ++ 61 :: keyfileEscape s) = some (.entry key s) :=
  KeyFile.readLine_entry key hne hkey (unescape_escaped h)

theorem readLine_yesNo (key : Str) (hne : key ≠ []) (hkey : key.all KeyFile.isKey = true) (b : Bool) :
    KeyFile.readLine (key ++ 61 :: yesNo b) = some (.entry key (yesNo b)) :=
  KeyFile.readLine_entry key hne hkey (by cases b <;> rfl)

def IsUuid (uuid : Uuid) : Prop := ∀ c ∈ uuid, (hexDigit? c).isSome = true ∨ c = 45

theorem IsUuid.plain (h : IsUuid uuid) : ∀ c ∈ uuid, c ≠ 92 ∧ KeyFile.isBlank c = false := by
  intro c hc
  obtain hc | rfl := h c hc
  · refine ⟨?_, ?_⟩
    · rintro rfl
      exact absurd hc (by decide)
    · rw [Bool.eq_false_iff]
      intro hblank
      simp only [KeyFile.isBlank, Bool.or_eq_true, Bool.and_eq_true, decide_eq_true_eq] at hblank
      have := le_of_hexDigit hc
      omega
  · decide

theorem isBlank_of_mem_byteList : ∀ c ∈ byteList ssid, c ≠ 92 ∧ KeyFile.isBlank c = false := by
  intro c hc
  have := mem_byteList hc
  refine ⟨by omega, ?_⟩
  rw [KeyFile.isBlank, Bool.or_eq_false_iff, Bool.and_eq_false_iff]
  simp only [decide_eq_false_iff_not]
  omega

def networkLines (ssid : Bytes) (hidden autoconnect : Bool) (uuid : Uuid) : List Str :=
  [str "[connection]", str "id=" ++ keyfileEscape (shownName u decode ssid), str "uuid=" ++ uuid,
    str "type=wifi", str "autoconnect=" ++ yesNo autoconnect, [], str "[wifi]",
    str "mode=infrastructure", str "ssid=" ++ byteList ssid, str "hidden=" ++ yesNo hidden, []]

def keyLines (security psk : Str) : List Str :=
  if security = str "wpa-psk" ∨ security = str "sae" then
    [str "[wifi-security]", str "key-mgmt=" ++ security, str "psk=" ++ keyfileEscape psk, []]
  else []

def addressLines : List Str :=
  [str "[ipv4]", str "method=auto", [], str "[ipv6]", str "method=auto", str "addr-gen-mode=default", []]

theorem profileText_eq (ssid : Bytes) (security psk : Str) (hidden autoconnect : Bool) (uuid : Uuid) :
    profileText u decode ssid security psk hidden autoconnect uuid =
      [10].intercalate (networkLines u decode ssid hidden autoconnect uuid ++ keyLines security psk ++
        addressLines) := rfl

theorem readLines_addressLines : KeyFile.readLines addressLines =
    some ([], [⟨str "ipv4", [(str "method", str "auto")]⟩,
      ⟨str "ipv6", [(str "method", str "auto"), (str "addr-gen-mode", str "default")]⟩]) := by
  decide

variable {ssid : Bytes} {security psk : Str} {hidden autoconnect : Bool} {uuid : Uuid}

theorem keyed_iff : keyed security = true ↔ security = str "wpa-psk" ∨ security = str "sae" := by
  rw [keyed, Bool.or_eq_true, decide_eq_true_eq, decide_eq_true_eq]

theorem readLines_keyLines (hkeyed : keyed security = true) (hpsk : Visible psk) (lines : List Str) :
    KeyFile.readLines (keyLines security psk ++ lines) =
      (KeyFile.readLines lines).map fun r => ([],
        ⟨str "wifi-security", (str "key-mgmt", security) :: (str "psk", psk) :: r.1⟩ :: r.2) := by
  have hmgmt : KeyFile.readLine (str "key-mgmt=" ++ security) =
      some (.entry (str "key-mgmt") security) := by
    obtain rfl | rfl := keyed_iff.mp hkeyed <;> decide
  have hkey : KeyFile.readLine (str "psk=" ++ keyfileEscape psk) = some (.entry (str "psk") psk) :=
    readLine_escaped (str "psk") (by decide) (by decide) hpsk
  have hgroup : KeyFile.readLine (str "[wifi-security]") = some (.group (str "wifi-security")) := by
    decide
  simp only [keyLines, if_pos (keyed_iff.mp hkeyed), List.cons_append, List.nil_append]
  rw [KeyFile.readLines_group hgroup,
    KeyFile.readLines_entry hmgmt, KeyFile.readLines_entry hkey,
    KeyFile.readLines_nothing (by decide)]
  simp only [Option.map_map]
  rfl

theorem readLines_networkLines (huuid : IsUuid uuid) (lines : List Str) :
    KeyFile.readLines (networkLines u decode ssid hidden autoconnect uuid ++ lines) =
      (KeyFile.readLines lines).map fun r => ([],
        ⟨str "connection", [(str "id", shownName u decode ssid), (str "uuid", uuid),
          (str "type", str "wifi"), (str "autoconnect", yesNo autoconnect)]⟩ ::
        ⟨str "wifi", (str "mode", str "infrastructure") :: (str "ssid", byteList ssid) ::
          (str "hidden", yesNo hidden) :: r.1⟩ :: r.2) := by
  have hid : KeyFile.readLine (str "id=" ++ keyfileEscape (shownName u decode ssid)) =
      some (.entry (str "id") (shownName u decode ssid)) :=
    readLine_escaped (str "id") (by decide) (by decide) (visible_shownName u decode ssid)
  have huuid' : KeyFile.readLine (str "uuid=" ++ uuid) = some (.entry (str "uuid") uuid) :=
    KeyFile.readLine_entry (str "uuid") (by decide) (by decide)
      (KeyFile.unescape_dropWhile_plain huuid.plain)
  have hssid : KeyFile.readLine (str "ssid=" ++ byteList ssid) =
      some (.entry (str "ssid") (byteList ssid)) :=
    KeyFile.readLine_entry (str "ssid") (by decide) (by decide)
      (KeyFile.unescape_dropWhile_plain isBlank_of_mem_byteList)
  have hauto : KeyFile.readLine (str "autoconnect=" ++ yesNo autoconnect) =
      some (.entry (str "autoconnect") (yesNo autoconnect)) :=
    readLine_yesNo (str "autoconnect") (by decide) (by decide) autoconnect
  have hhidden : KeyFile.readLine (str "hidden=" ++ yesNo hidden) =
      some (.entry (str "hidden") (yesNo hidden)) :=
    readLine_yesNo (str "hidden") (by decide) (by decide) hidden
  have hconnection : KeyFile.readLine (str "[connection]") = some (.group (str "connection")) := by decide
  have htype : KeyFile.readLine (str "type=wifi") = some (.entry (str "type") (str "wifi")) := by decide
  have hwifi : KeyFile.readLine (str "[wifi]") = some (.group (str "wifi")) := by decide
  have hmode : KeyFile.readLine (str "mode=infrastructure") =
      some (.entry (str "mode") (str "infrastructure")) := by decide
  simp only [networkLines, List.cons_append, List.nil_append]
  rw [KeyFile.readLines_group hconnection, KeyFile.readLines_entry hid, KeyFile.readLines_entry huuid',
    KeyFile.readLines_entry htype, KeyFile.readLines_entry hauto, KeyFile.readLines_nothing (by decide),
    KeyFile.readLines_group hwifi, KeyFile.readLines_entry hmode,
    KeyFile.readLines_entry hssid, KeyFile.readLines_entry hhidden,
    KeyFile.readLines_nothing (by decide)]
  simp only [Option.map_map]
  rfl

theorem notMem_networkLines (huuid : IsUuid uuid) :
    ∀ l ∈ networkLines u decode ssid hidden autoconnect uuid, 10 ∉ l := by
  have hid : 10 ∉ keyfileEscape (shownName u decode ssid) :=
    notMem_keyfileEscape (visible_shownName u decode ssid)
  have huuid : 10 ∉ uuid := fun hc => absurd (huuid.plain 10 hc).2 (by decide)
  have hssid : 10 ∉ byteList ssid := fun hc => absurd (mem_byteList hc) (by decide)
  have hyesNo (b : Bool) : 10 ∉ yesNo b := by cases b <;> decide
  simp only [networkLines, List.forall_mem_cons, List.mem_append, not_or, hid, huuid, hssid, hyesNo]
  decide

theorem notMem_keyLines (hpsk : keyed security = true → Visible psk) :
    ∀ l ∈ keyLines security psk, 10 ∉ l := by
  rw [keyLines]
  split
  · next hkeyed =>
    have hpsk : 10 ∉ keyfileEscape psk := notMem_keyfileEscape (hpsk (keyed_iff.mpr hkeyed))
    have hmgmt : 10 ∉ security := by obtain rfl | rfl := hkeyed <;> decide
    simp only [List.forall_mem_cons, List.mem_append, not_or, hpsk, hmgmt]
    decide
  · simp

theorem readLines_lines (huuid : IsUuid uuid) (hpsk : keyed security = true → Visible psk) :
    KeyFile.readLines (networkLines u decode ssid hidden autoconnect uuid ++ keyLines security psk ++
        addressLines) =
      some ([], profileGroups u decode ssid security psk hidden autoconnect uuid) := by
  rw [List.append_assoc, readLines_networkLines u decode huuid]
  by_cases hkeyed : keyed security = true
  · rw [readLines_keyLines hkeyed (hpsk hkeyed), readLines_addressLines, profileGroups, if_pos hkeyed]
    rfl
  · rw [keyLines, if_neg (mt keyed_iff.mpr hkeyed), List.nil_append, readLines_addressLines,
      profileGroups, if_neg hkeyed]
    rfl

end

end StainedGlass.Net.Wifi
