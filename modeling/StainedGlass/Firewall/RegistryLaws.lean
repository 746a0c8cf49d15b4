import StainedGlass.Firewall.Registry

namespace StainedGlass.Firewall

open Lib RegText

theorem digitRun_append {isDigit : Nat → Bool} {m rest : Str} (hm : ∀ c ∈ m, isDigit c = true)
    (h : m.length = k ∨ m.length ≤ k ∧ ∀ c ∈ rest.head?, isDigit c = false) : digitRun isDigit k (m ++ rest) = m := by
  rw [digitRun, List.takeWhile_append_of_pos hm]
  obtain rfl | ⟨hle, hrest⟩ := h
  · exact List.take_left
  · have hnil : rest.takeWhile isDigit = [] := by
      cases rest with
      | nil => rfl
      | cons c rest => exact List.takeWhile_cons_of_neg (by simp [hrest c rfl])
    rw [hnil, List.append_nil, List.take_of_length_le hle]

theorem hexValue_digit (h : d < 16) : hexValue (digit d) = d := by
  interval_cases d <;> rfl

theorem number_hex4 (h : c < 65536) : number 16 (hex4 c) = c := by
  have h0 := hexValue_digit (Nat.mod_lt (c / 4096) (by decide : 16 > 0))
  have h1 := hexValue_digit (Nat.mod_lt (c / 256) (by decide : 16 > 0))
  have h2 := hexValue_digit (Nat.mod_lt (c / 16) (by decide : 16 > 0))
  have h3 := hexValue_digit (Nat.mod_lt c (by decide : 16 > 0))
  simp only [number, hex4, List.map_cons, List.map_nil, List.foldl_cons, List.foldl_nil, h0, h1,
    h2, h3]
  omega

theorem number_oct3 (h : c < 32) : number 8 (oct3 c) = c := by
  interval_cases c <;> rfl

theorem number_short (base : Nat) (digits : Str) : number base (short digits) = number base digits := by
  have hzeros : ∀ ds : Str, number base (ds.dropWhile (· = 48)) = number base ds := by
    intro ds
    induction ds with
    | nil => rfl
    | cons d ds ih =>
      by_cases hd : d = 48
      · subst hd
        rw [List.dropWhile_cons_of_pos (by simp), ih]
        simp [number, hexValue]
      · rw [List.dropWhile_cons_of_neg (by simpa using hd)]
  rw [short, ← hzeros digits]
  split
  · next h =>
    rw [h]
    simp [number, hexValue]
  · rfl

theorem regUnescape_plain (h : c ≠ 92) (rest : Str) : regUnescape (c :: rest) = c :: regUnescape rest := by
  cases rest with
  | nil => simp [regUnescape]
  | cons d rest => rw [regUnescape, if_pos h]

theorem regUnescape_hex {m rest : Str} (hm : ∀ c ∈ m, isHex c = true) (hne : m ≠ [])
    (h : m.length = 4 ∨ m.length ≤ 4 ∧ ∀ c ∈ rest.head?, isHex c = false) :
    regUnescape (92 :: 120 :: (m ++ rest)) = number 16 m :: regUnescape rest := by
  have hrun := digitRun_append hm h
  rw [regUnescape, if_neg (by simp), if_pos rfl, hrun, if_neg hne, List.drop_left]

theorem regUnescape_oct {m rest : Str} (hm : ∀ c ∈ m, isOct c = true) (hne : m ≠ [])
    (h : m.length = 3 ∨ m.length ≤ 3 ∧ ∀ c ∈ rest.head?, isOct c = false) :
    regUnescape (92 :: (m ++ rest)) = number 8 m :: regUnescape rest := by
  obtain ⟨d, ds, rfl⟩ := List.exists_cons_of_ne_nil hne
  have hd := hm d List.mem_cons_self
  have hx : d ≠ 120 := by
    rintro rfl
    cases hd
  have hrun := digitRun_append hm h
  rw [List.cons_append] at hrun ⊢
  rw [regUnescape, if_neg (by simp), if_neg hx, if_pos hd, hrun, List.length_cons,
    Nat.add_sub_cancel, List.drop_left]

theorem regUnescape_letter (hd : d ≠ 120) (hoct : isOct d = false) (hc : (simple.lookup d).getD d = c) (rest : Str) :
    regUnescape (92 :: d :: rest) = c :: regUnescape rest := by
  rw [regUnescape, if_neg (by simp), if_neg hd, if_neg (by simp [hoct]), hc]

theorem regUnescape_dumpUnit (hc : c < 65536) {rest : Str} (hrest : ∀ x ∈ rest.head?, x = 92 ∨ next = some x) :
    regUnescape (dumpUnit c next ++ rest) = c :: regUnescape rest := by
  have hclear {p : Nat → Bool} (hp : p 92 = false) (hnext : ¬ next.any p = true) :
      ∀ x ∈ rest.head?, p x = false := by
    intro x hx
    obtain rfl | hx := hrest x hx
    · exact hp
    · simpa [hx] using hnext
  rw [dumpUnit]
  split
  · -- a number in hexadecimal, of four digits where one would be read on
    split
    · rw [List.cons_append, List.cons_append, regUnescape_hex (isHex_hex4 c) (by simp [hex4])
        (.inl rfl), number_hex4 hc]
    · next hnext =>
      have hdigits : ∀ x ∈ short (hex4 c), isHex x = true := by
        intro x hx
        obtain hx | rfl := mem_short hx
        · exact isHex_hex4 c x hx
        · rfl
      rw [List.cons_append, List.cons_append, regUnescape_hex hdigits (short_ne_nil _)
        (.inr ⟨length_short_le (by simp [hex4]), hclear rfl hnext⟩), number_short, number_hex4 hc]
  · split
    · next hlow =>
      split
      · next letter hletter =>
        have hmem : ∀ p ∈ letters, p.2 ≠ 120 ∧ isOct p.2 = false ∧ (simple.lookup p.2).getD p.2 = p.1 := by
          decide
        have hpair : (c, letter) ∈ letters := by
          have := List.lookup_eq_some_iff.mp hletter
          obtain ⟨l₁, l₂, heq, -⟩ := this
          rw [heq]
          simp
        obtain ⟨hx, hoct, hback⟩ := hmem _ hpair
        exact regUnescape_letter hx hoct hback rest
      · split
        · rw [List.cons_append, regUnescape_oct (isOct_oct3 c) (by simp [oct3]) (.inl rfl),
            number_oct3 hlow]
        · next hnext =>
          have hdigits : ∀ x ∈ short (oct3 c), isOct x = true := by
            intro x hx
            obtain hx | rfl := mem_short hx
            · exact isOct_oct3 c x hx
            · rfl
          rw [List.cons_append, regUnescape_oct hdigits (short_ne_nil _)
            (.inr ⟨length_short_le (by simp [oct3]), hclear rfl hnext⟩), number_short,
            number_oct3 hlow]
    · split
      · next hquote =>
        obtain rfl | rfl := hquote
        · exact regUnescape_letter (by decide) rfl rfl rest
        · exact regUnescape_letter (by decide) rfl rfl rest
      · next hplain => exact regUnescape_plain (fun h => hplain (.inl h)) rest

theorem regUnescape_dumpStrW (us : List UInt16) :
    regUnescape (dumpStrW us) = us.map UInt16.toNat := by
  induction us with
  | nil => simp [dumpStrW, regUnescape]
  | cons u us ih =>
    rw [dumpStrW, regUnescape_dumpUnit u.toNat_lt fun x hx => head_dumpStrW hx, ih, List.map_cons]

theorem regUnescape_eq_text_iff (us : List UInt16) :
    regUnescape (dumpStrW us) = textOf us ↔ Unpaired us := by
  rw [regUnescape_dumpStrW, eq_comm, textOf_eq_units_iff]

theorem regUnescape_face :
    regUnescape (dumpStrW [0xd83d, 0xde00]) = [0xd83d, 0xde00] ∧
      textOf [0xd83d, 0xde00] = [0x1f600] :=
  ⟨regUnescape_dumpStrW [0xd83d, 0xde00], rfl⟩

end StainedGlass.Firewall
