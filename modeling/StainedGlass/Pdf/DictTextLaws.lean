import StainedGlass.Pdf.SkipLaws

namespace StainedGlass.Pdf

open Lib

section Values

variable {u : Letters}

variable {p : Nat → Bool}

theorem dropWhile_append_of_all {s rest : Str} (hs : ∀ c ∈ s, p c = true)
    (hrest : ∀ c ∈ rest.head?, p c = false) : (s ++ rest).dropWhile p = rest := by
  rw [List.dropWhile_append_of_pos hs]
  cases rest with
  | nil => rfl
  | cons c rest => rw [List.dropWhile_cons_of_neg (by simp [hrest c rfl])]

theorem some1_append {s rest : Str} (hs : ∀ c ∈ s, p c = true) (hne : s ≠ [])
    (hrest : ∀ c ∈ rest.head?, p c = false) : some1 p (s ++ rest) = some rest := by
  obtain ⟨c, t, rfl⟩ := List.exists_cons_of_ne_nil hne
  rw [some1, if_pos, dropWhile_append_of_all hs hrest]
  simp [hs c (.head _)]

theorem some1_eq_none {s : Str} (h : ∀ c ∈ s.head?, p c = false) : some1 p s = none := by
  cases s with
  | nil => rfl
  | cons c s => simp [some1, h c rfl]

variable {c : Nat}

theorem isWord_lt (h : isWord c = true) : 33 ≤ c ∧ c < 128 := by
  simp only [isWord, isDigit, Bool.or_eq_true, Bool.and_eq_true, decide_eq_true_eq] at h
  omega

namespace Letters

variable (u : Letters)

theorem digits_eq (h : c < 128) : u.digits c = isDigit c := by
  simp only [digits, u.digit_ascii h, isDigit]
  split
  · next hc => simp [hc]
  · next hc => simpa using hc

theorem space_of_isWhite (h : isWhite c = true) : u.space c = true := by
  rw [u.space_ascii (isWhite_lt h), decide_eq_true_eq]
  have hall : ∀ c < 128, isWhite c = true → (9 ≤ c ∧ c ≤ 13) ∨ (28 ≤ c ∧ c ≤ 32) := by decide
  exact hall c (isWhite_lt h) h

theorem digits_of_isWhite (h : isWhite c = true) : u.digits c = false := by
  rw [u.digits_eq (isWhite_lt h)]
  have hall : ∀ c < 128, isWhite c = true → isDigit c = false := by decide
  exact hall c (isWhite_lt h) h

theorem isWordChar (h : c < 128) : (decide (c = 45) || decide (c = 43) || decide (c = 46) || u.word c) = isWord c := by
  rw [u.word_ascii h]
  have hall : ∀ c < 128, (decide (c = 45) || decide (c = 43) || decide (c = 46) ||
    decide (48 ≤ c ∧ c ≤ 57 ∨ 65 ≤ c ∧ c ≤ 90 ∨ c = 95 ∨ 97 ≤ c ∧ c ≤ 122)) = isWord c := by decide
  exact hall c h

end Letters

def Follows (rest : Str) : Prop := ∀ c ∈ (rest.dropWhile isWhite).head?, c = 47

variable {rest : Str}

theorem Follows.cases (h : Follows rest) :
    ∃ white more, rest = white ++ more ∧ IsWhite white ∧ ∀ c ∈ more.head?, c = 47 :=
  ⟨rest.takeWhile isWhite, rest.dropWhile isWhite, List.takeWhile_append_dropWhile.symm,
    fun _ hc => List.mem_takeWhile_imp hc, h⟩

theorem Follows.head? (h : Follows rest) : ∀ c ∈ rest.head?, isWhite c = true ∨ c = 47 := by
  obtain ⟨white, more, rfl, hwhite, hmore⟩ := h.cases
  exact head?_append_white hwhite fun c hc => .inr (hmore c hc)

variable {tail : Str}

theorem follows_entries {es : List Entry} (htail : IsWhite tail)
    (hspaced : ∀ e ∈ es, e.Spaced) : Follows (es.flatMap Entry.text ++ tail) := by
  cases es with
  | nil =>
    rw [Follows, List.flatMap_nil, List.nil_append, List.dropWhile_eq_nil_iff.mpr htail]
    simp
  | cons e es =>
    rw [Follows, List.flatMap_cons, Entry.text, List.append_assoc, List.append_assoc,
      dropWhile_append_of_all (hspaced e (.head _)).before]
    · simp
    · simp
      decide

theorem Letters.matchRef_ref (u : Letters) (hnum : ∀ c ∈ num, isDigit c = true)
    (hnum' : num ≠ []) (hgap : IsWhite gap) (hgap' : gap ≠ []) (hgen : ∀ c ∈ gen, isDigit c = true)
    (hgen' : gen ≠ []) (hlast : IsWhite gap') (hlast' : gap' ≠ []) (rest : Str) :
    u.matchRef (num ++ (gap ++ (gen ++ (gap' ++ [82]))) ++ rest) = some rest := by
  have hdigits {s : Str} (h : ∀ c ∈ s, isDigit c = true) : ∀ c ∈ s, u.digits c = true := by
    intro c hc
    rw [u.digits_eq (isWord_lt (isWord_of_isDigit (h c hc))).2, h c hc]
  have hspaces {s : Str} (h : IsWhite s) : ∀ c ∈ s, u.space c = true :=
    fun c hc => u.space_of_isWhite (h c hc)
  have hstop {s t : Str} (hs : IsWhite s) (hne : s ≠ []) : ∀ c ∈ (s ++ t).head?, u.digits c = false := by
    obtain ⟨d, s, rfl⟩ := List.exists_cons_of_ne_nil hne
    intro c hc
    cases hc
    exact u.digits_of_isWhite (hs d (.head _))
  have hgo {s t : Str} (hs : ∀ c ∈ s, isDigit c = true) (hne : s ≠ []) :
      ∀ c ∈ (s ++ t).head?, u.space c = false := by
    obtain ⟨d, s, rfl⟩ := List.exists_cons_of_ne_nil hne
    intro c hc
    cases hc
    exact u.space_visible (isWord_lt (isWord_of_isDigit (hs d (.head _))))
  have hR : ∀ c ∈ ([82] ++ rest).head?, u.space c = false := by
    intro c hc
    cases hc
    exact u.space_visible (by decide)
  simp only [matchRef, List.append_assoc, Option.bind_eq_bind]
  rw [some1_append (hdigits hnum) hnum' (hstop hgap hgap'), Option.bind_some,
    some1_append (hspaces hgap) hgap' (hgo hgen hgen'), Option.bind_some,
    some1_append (hdigits hgen) hgen' (hstop hlast hlast'), Option.bind_some,
    some1_append (hspaces hlast) hlast' hR]
  rfl

theorem Letters.dropWhile_digits_word (u : Letters) (hw : ∀ c ∈ w, isWord c = true)
    (hrest : ∀ c ∈ rest.head?, u.digits c = false) :
    some1 u.space ((w ++ rest).dropWhile u.digits) = none ∨ (w ++ rest).dropWhile u.digits = rest := by
  induction w with
  | nil => exact .inr (@dropWhile_append_of_all u.digits [] rest (List.forall_mem_nil _) hrest)
  | cons c w ih =>
    obtain ⟨hc, hw⟩ := List.forall_mem_cons.mp hw
    rw [List.cons_append, List.dropWhile_cons]
    split
    · exact ih hw
    · refine .inl (some1_eq_none fun d hd => ?_)
      cases hd
      exact u.space_visible (isWord_lt hc)

theorem Letters.matchRef_word (u : Letters) (hw : ∀ c ∈ w, isWord c = true)
    (hrest : Follows rest) : u.matchRef (w ++ rest) = none := by
  have hstop : ∀ c ∈ rest.head?, u.digits c = false := by
    intro c hc
    obtain hc | rfl := hrest.head? c hc
    · exact u.digits_of_isWhite hc
    · rw [u.digits_eq (by decide)]
      rfl
  obtain ⟨white, more, hsplit, hwhite, hmore⟩ := hrest.cases
  have hmore' : ∀ c ∈ more.head?, u.digits c = false ∧ u.space c = false := by
    intro c hc
    rw [hmore c hc, u.digits_eq (by decide), u.space_visible (by decide)]
    exact ⟨rfl, rfl⟩
  have hafter : (some1 u.space rest).bind (some1 u.digits) = none := by
    rw [hsplit]
    cases hne : white with
    | nil =>
      rw [List.nil_append, some1_eq_none fun c hc => (hmore' c hc).2]
      rfl
    | cons d white' =>
      rw [← hne, some1_append (fun c hc => u.space_of_isWhite (hwhite c hc)) (by simp [hne])
        fun c hc => (hmore' c hc).2]
      exact some1_eq_none fun c hc => (hmore' c hc).1
  have hnone : (some1 u.space ((w ++ rest).dropWhile u.digits)).bind (some1 u.digits) = none := by
    obtain h | h := u.dropWhile_digits_word hw hstop
    · rw [h]
      rfl
    · rw [h, hafter]
  simp only [matchRef, Option.bind_eq_bind]
  cases hnum : some1 u.digits (w ++ rest) with
  | none => rfl
  | some s =>
    have hs : s = (w ++ rest).dropWhile u.digits := by
      rw [some1] at hnum
      split at hnum
      · exact (Option.some.inj hnum).symm
      · cases hnum
    rw [Option.bind_some, hs, ← Option.bind_assoc, hnone]
    rfl

theorem Letters.matchWord_word (u : Letters) (hw : ∀ c ∈ w, isWord c = true) (hne : w ≠ [])
    (hrest : Follows rest) : u.matchWord (w ++ rest) = some rest := by
  apply some1_append
  · intro c hc
    rw [u.isWordChar (isWord_lt (hw c hc)).2, hw c hc]
  · exact hne
  · intro c hc
    obtain hc | rfl := hrest.head? c hc
    · have hall : ∀ c < 128, isWhite c = true → isWord c = false := by decide
      rw [u.isWordChar (isWhite_lt hc), hall c (isWhite_lt hc) hc]
    · rw [u.isWordChar (by decide)]
      rfl

def leftover (v : Str) : Str := if startsWith v (str "<<") then overhang v else []

theorem isWhite_eq_false_of_isWord (h : isWord c = true) : isWhite c = false := by
  have hall : ∀ c < 128, isWord c = true → isWhite c = false := by decide
  exact hall c (isWord_lt h).2 h

theorem Letters.skipValue_gap (u : Letters) (hgap : IsWhite gap) (s : Str) :
    u.skipValue (gap ++ s) = u.skipValue s := by
  rw [skipValue, skipValue, List.dropWhile_append_of_pos hgap]

theorem Letters.skipValue_word (u : Letters) (hc : isWord c = true) (s : Str) :
    u.skipValue (c :: s) = .ok (u.skipToken (c :: s)) := by
  rw [skipValue, List.dropWhile_cons_of_neg (by simp [isWhite_eq_false_of_isWord hc])]
  split
  · next heq => cases heq
  · next heq =>
    cases heq
    exact absurd hc (by decide)
  · next heq =>
    cases heq
    exact absurd hc (by decide)
  · next heq =>
    cases heq
    exact absurd hc (by decide)
  · next heq =>
    cases heq
    exact absurd hc (by decide)
  · next heq =>
    cases heq
    exact absurd hc (by decide)
  · rfl

theorem Letters.skipToken_word (u : Letters) (hc : isWord c = true)
    (h : (u.matchRef (c :: s) <|> u.matchWord (c :: s)) = some rest) : u.skipToken (c :: s) = rest := by
  have hdrop : (c :: s).dropWhile u.space = c :: s :=
    List.dropWhile_cons_of_neg (by simp [u.space_visible (isWord_lt hc)])
  rw [skipToken, hdrop, h]
  rfl

theorem Letters.skipValue_hex (u : Letters) {s : Str} (hs : s.head? ≠ some 60) (hclose : 62 ∈ s) :
    u.skipValue (60 :: s) = .ok ((s.dropWhile (· ≠ 62)).drop 1) := by
  rw [skipValue, List.dropWhile_cons_of_neg (by decide)]
  split
  · next heq => cases heq
  · next heq =>
    cases heq
    exact absurd rfl hs
  · next heq => cases heq
  · next heq => cases heq
  · next heq =>
    cases heq
    rw [if_pos hclose]
  · next heq => cases heq
  · next hhex hname => exact absurd rfl (hhex s)

theorem leftover_of_head (hc : c ≠ 60) (s : Str) : leftover (c :: s) = [] := by
  rw [leftover, if_neg]
  simp [startsWith, str, List.isPrefixOf, hc.symm]

theorem leftover_word (hc : isWord c = true) (s : Str) : leftover (c :: s) = [] := by
  apply leftover_of_head
  rintro rfl
  exact absurd hc (by decide)

theorem endsName_of_isRegular (h : isRegular c = true) : endsName c = false := by
  have hlt : c < 128 := by
    simp only [isRegular, Bool.and_eq_true, decide_eq_true_eq] at h
    omega
  have hall : ∀ c < 128, isRegular c = true → endsName c = false := by decide
  exact hall c hlt h

theorem endsName_of_isWhite (h : isWhite c = true) : endsName c = true := by
  have hall : ∀ c < 128, isWhite c = true → endsName c = true := by decide
  exact hall c (isWhite_lt h) h

theorem Follows.name_ends (h : Follows rest) : ∀ c ∈ rest.head?, (!endsName c) = false := by
  intro c hc
  obtain hc | rfl := h.head? c hc
  · simp [endsName_of_isWhite hc]
  · rfl

theorem Letters.skipValue_value (u : Letters) (h : Value v) (hrest : Follows rest) :
    u.skipValue (v ++ rest) = .ok (leftover v ++ rest) := by
  cases h with
  | @name n h =>
    rw [leftover_of_head (by decide)]
    have hn : ∀ c ∈ n, (!endsName c) = true := fun c hc => by simp [endsName_of_isRegular (h c hc)]
    exact congrArg Except.ok (dropWhile_append_of_all hn hrest.name_ends)
  | word h hne =>
    obtain ⟨c, s, rfl⟩ := List.exists_cons_of_ne_nil hne
    have hc := h c (.head _)
    rw [List.cons_append, u.skipValue_word hc, u.skipToken_word hc, leftover_word hc]
    rw [← List.cons_append, u.matchRef_word h hrest, u.matchWord_word h hne hrest]
    rfl
  | @ref num gen gap gap' hnum hnum' hgap hgap' hgen hgen' hlast hlast' =>
    have href := u.matchRef_ref hnum hnum' hgap hgap' hgen hgen' hlast hlast' rest
    obtain ⟨c, s, rfl⟩ := List.exists_cons_of_ne_nil hnum'
    have hc := isWord_of_isDigit (hnum c (.head _))
    simp only [List.cons_append] at href ⊢
    rw [u.skipValue_word hc, u.skipToken_word hc, leftover_word hc]
    rw [href]
    rfl
  | @string t h =>
    rw [leftover_of_head (by decide), List.cons_append, List.append_assoc]
    exact congrArg Except.ok (afterString_balanced h rest)
  | @hex t h =>
    have ht : IsPlain t := isPlain_word fun c hc => isWord_of_isHexDigit (h c hc)
    have hclose : (t ++ 62 :: rest).dropWhile (· ≠ 62) = 62 :: rest := by
      apply dropWhile_append_of_all
      · intro c hc
        simpa using ne_of_isPlain (ht c hc) rfl
      · simp
    have hleft : leftover (60 :: (t ++ [62])) = [] := by
      rw [leftover, if_neg]
      cases t with
      | nil => decide
      | cons c t => simpa [startsWith, str, List.isPrefixOf] using (ne_of_isPlain (ht c (.head _)) rfl).symm
    have hopen : (t ++ 62 :: rest).head? ≠ some 60 := by
      cases t with
      | nil => simp
      | cons c t => simpa using ne_of_isPlain (ht c (.head _)) rfl
    rw [hleft, List.cons_append, List.append_assoc, List.singleton_append,
      u.skipValue_hex hopen (by simp), hclose]
    rfl
  | @array items tail htail hgap hapart hvalue =>
    rw [leftover_of_head (by decide), List.cons_append, List.append_assoc, List.append_assoc]
    apply congrArg Except.ok
    rw [skipArray, skip_flatMap (f := skipArray _), skipArray_plain htail.isPlain, List.singleton_append,
      skipArray]
    · rfl
    · intro x hx rest
      rw [Item.text, List.append_assoc, skipArray_plain (hgap x hx).isPlain, skipArray_value (hvalue x hx)]
  | @dict es tail htail hspaced hvalue =>
    have hentries := skipDict_entries htail hspaced hvalue
      (fun e he => skipDict_value (hvalue e he) 0) (62 :: 62 :: rest)
    have hleft : leftover (60 :: 60 :: (es.flatMap Entry.text ++ (tail ++ [62, 62]))) =
        overhang (es.flatMap Entry.text ++ tail) := by
      rw [leftover, if_pos (by simp [startsWith, str, List.isPrefixOf]), ← List.append_assoc, overhang_dict]
    rw [hleft]
    simp only [List.cons_append, List.append_assoc]
    apply congrArg Except.ok
    rw [skipDict]
    apply hentries.trans
    rw [overhang]
    split
    · simp [skipDict]
    · simp [skipDict]

theorem Value.getLast? {v : Str} (h : Value v) : ∀ c ∈ v.getLast?, 33 ≤ c ∧ c < 128 := by
  have hregular {c : Nat} (h : isRegular c = true) : 33 ≤ c ∧ c < 128 := by
    simp only [isRegular, Bool.and_eq_true, decide_eq_true_eq] at h
    omega
  have hconcat {s : Str} {d : Nat} (hd : 33 ≤ d ∧ d < 128) : ∀ c ∈ (s ++ [d]).getLast?, 33 ≤ c ∧ c < 128 := by
    simpa using hd
  cases h with
  | @name n h =>
    intro c hc
    obtain rfl | hc := List.mem_cons.mp (List.mem_of_mem_getLast? hc)
    · decide
    · exact hregular (h c hc)
  | word h hne => exact fun c hc => isWord_lt (h c (List.mem_of_mem_getLast? hc))
  | @ref num gen gap gap' =>
    rw [← List.append_assoc, ← List.append_assoc, ← List.append_assoc]
    exact hconcat (by decide)
  | string h =>
    rw [← List.cons_append]
    exact hconcat (by decide)
  | hex h =>
    rw [← List.cons_append]
    exact hconcat (by decide)
  | array =>
    rw [← List.append_assoc, ← List.cons_append]
    exact hconcat (by decide)
  | @dict es tail =>
    have hend : 60 :: 60 :: (es.flatMap Entry.text ++ (tail ++ [62, 62])) =
        60 :: 60 :: (es.flatMap Entry.text ++ (tail ++ [62])) ++ [62] := by simp
    rw [hend]
    exact hconcat (by decide)

theorem Value.head?_visible {v : Str} (h : Value v) : ∀ c ∈ v.head?, 33 ≤ c ∧ c < 128 := by
  obtain ⟨d, s, rfl, hd⟩ := h.head
  intro c hc
  cases hc
  obtain hd | hd := hd
  · exact isWord_lt hd
  · have hall : ∀ c ∈ [47, 40, 60, 91], 33 ≤ c ∧ c < 128 := by decide
    exact hall d hd

theorem Letters.strip_gap (u : Letters) (hgap : IsWhite gap) (hv : Value v) : u.strip (gap ++ v) = v := by
  have hself : u.strip v = v := by
    apply u.strip_eq_self
    · exact fun c hc => u.space_visible (hv.head?_visible c hc)
    · exact fun c hc => u.space_visible (hv.getLast? c hc)
  rw [Unicode.strip, List.dropWhile_append_of_pos fun c hc => u.space_of_isWhite (hgap c hc)]
  exact hself

theorem Entry.Spaced.key_ends {e : Entry} (he : e.Spaced) (hv : Value e.value) (rest : Str) :
    ∀ c ∈ (e.gap ++ (e.value ++ rest)).head?, (!endsName c) = false := by
  intro c hc
  cases hgap : e.gap with
  | cons d gap =>
    rw [hgap] at hc
    cases hc
    simp [endsName_of_isWhite (he.gap c (by simp [hgap]))]
  | nil =>
    obtain ⟨d, s, hs, hd⟩ := hv.head
    have happart := he.apart hgap
    rw [hgap, hs] at hc
    cases hc
    rw [hs] at happart
    obtain hd | hd := hd
    · simp [isRegular_of_isWord hd] at happart
    · have hall : ∀ c ∈ [47, 40, 60, 91], (!endsName c) = false := by decide
      exact hall c hd

theorem Letters.topLevelEntries_close (u : Letters) (rest : Str) :
    u.topLevelEntries (62 :: rest) = .error (.signError "unexpected dictionary text") := by
  have hbody : (62 :: rest).dropWhile isWhite = 62 :: rest := List.dropWhile_cons_of_neg (by decide)
  rw [topLevelEntries]
  split
  · next heq => cases hbody.symm.trans heq
  · next heq => cases hbody.symm.trans heq
  · rfl

theorem leftover_eq (v : Str) : leftover v = [] ∨ leftover v = [62] := by
  rw [leftover, overhang]
  split
  · split
    · exact .inr rfl
    · exact .inl rfl
  · exact .inl rfl

theorem takeWhile_append_of_all {s rest : Str} (hs : ∀ c ∈ s, p c = true)
    (hrest : ∀ c ∈ rest.head?, p c = false) : (s ++ rest).takeWhile p = s := by
  rw [List.takeWhile_append_of_pos hs]
  cases rest with
  | nil => simp
  | cons c rest => rw [List.takeWhile_cons_of_neg (by simp [hrest c rfl]), List.append_nil]

theorem Letters.topLevelEntries_entry (u : Letters) {e : Entry} (he : e.Spaced) (hv : Value e.value)
    (hrest : Follows rest) :
    u.topLevelEntries (e.text ++ rest) =
      if leftover e.value = [] then (u.topLevelEntries rest).map ((e.key, e.value) :: ·)
      else .error (.signError "unexpected dictionary text") := by
  have hbody : (e.text ++ rest).dropWhile isWhite = 47 :: (e.key ++ (e.gap ++ (e.value ++ rest))) := by
    simp only [Entry.text, List.append_assoc, List.cons_append]
    apply dropWhile_append_of_all he.before
    simp
    decide
  have hkey : ∀ c ∈ e.key, (!endsName c) = true := fun c hc => by simp [endsName_of_isRegular (he.key c hc)]
  have hends := he.key_ends hv rest
  have hdrop := dropWhile_append_of_all hkey hends
  have htake := takeWhile_append_of_all hkey hends
  have hskip : u.skipValue ((e.key ++ (e.gap ++ (e.value ++ rest))).dropWhile fun c => !endsName c) =
      .ok (leftover e.value ++ rest) := by
    rw [hdrop, u.skipValue_gap he.gap, u.skipValue_value hv hrest]
  rw [topLevelEntries]
  split
  · next heq => cases hbody.symm.trans heq
  · next s heq =>
    cases hbody.symm.trans heq
    simp only [hdrop, htake]
    split
    · next err herr => cases hskip.symm.trans herr
    · next after hafter =>
      cases hskip.symm.trans hafter
      obtain hnone | hclose := leftover_eq e.value
      · have hvalue : (e.gap ++ (e.value ++ rest)).take ((e.gap ++ (e.value ++ rest)).length - rest.length) =
            e.gap ++ e.value := by
          rw [← List.append_assoc, List.length_append, Nat.add_sub_cancel, List.take_left]
        rw [hnone, List.nil_append, hvalue, u.strip_gap he.gap hv, if_pos rfl]
        rfl
      · rw [hclose, List.singleton_append, u.topLevelEntries_close, if_neg (by simp)]
        rfl
  · next h => exact absurd hbody (h _)

theorem Letters.topLevelEntries_white (u : Letters) (h : IsWhite tail) : u.topLevelEntries tail = .ok [] := by
  have hbody : tail.dropWhile isWhite = [] := List.dropWhile_eq_nil_iff.mpr h
  rw [topLevelEntries]
  split
  · rfl
  · next heq => cases hbody.symm.trans heq
  · next hnil _ => exact absurd hbody hnil

def Entry.pair (e : Entry) : Str × Str := (e.key, e.value)

theorem Letters.topLevelEntries_entries (u : Letters) {es : List Entry} (htail : IsWhite tail)
    (hspaced : ∀ e ∈ es, e.Spaced) (hvalue : ∀ e ∈ es, Value e.value) :
    u.topLevelEntries (es.flatMap Entry.text ++ tail) =
      if ∀ e ∈ es, leftover e.value = [] then .ok (es.map Entry.pair)
      else .error (.signError "unexpected dictionary text") := by
  induction es with
  | nil => simpa using u.topLevelEntries_white htail
  | cons e es ih =>
    rw [List.forall_mem_cons] at hspaced hvalue
    rw [List.flatMap_cons, List.append_assoc, u.topLevelEntries_entry hspaced.1 hvalue.1
      (follows_entries htail hspaced.2), ih hspaced.2 hvalue.2]
    simp only [List.forall_mem_cons]
    by_cases hfirst : leftover e.value = []
    · by_cases hrest : ∀ e ∈ es, leftover e.value = []
      · rw [if_pos hfirst, if_pos hrest, if_pos ⟨hfirst, hrest⟩]
        rfl
      · rw [if_pos hfirst, if_neg hrest, if_neg fun h => hrest h.2]
        rfl
    · rw [if_neg hfirst, if_neg fun h => hfirst h.1]

end Values

structure Dictionary where
  entries : List Entry
  tail : Str
  white : IsWhite tail
  spaced : ∀ e ∈ entries, e.Spaced
  value : ∀ e ∈ entries, Value e.value

namespace Dictionary

def body (d : Dictionary) : Str := d.entries.flatMap Entry.text ++ d.tail

def text (d : Dictionary) : Str := str "<<" ++ d.body ++ str ">>"

def pairs (d : Dictionary) : List (Str × Str) := d.entries.map Entry.pair

end Dictionary

def setPair (pairs : List (Str × Str)) (key value : Str) : List (Str × Str) :=
  if key ∈ pairs.map Prod.fst then pairs.map fun p => if p.1 = key then (key, value) else p
  else pairs ++ [(key, value)]

def Entry.ofPair (p : Str × Str) : Entry := ⟨[], p.1, [32], p.2⟩

theorem Entry.text_ofPair (p : Str × Str) : (ofPair p).text = part p.1 p.2 := by
  simp [ofPair, text, part, str]

theorem Entry.spaced_ofPair {p : Str × Str} (h : ∀ c ∈ p.1, isRegular c = true) : (ofPair p).Spaced where
  before := List.forall_mem_nil _
  key := h
  gap := by simp [IsWhite, ofPair]; decide
  apart h := absurd h (List.cons_ne_nil _ _)

variable {pairs : List (Str × Str)}

theorem mem_setPair (h : p ∈ setPair pairs key value) : p ∈ pairs ∨ p = (key, value) := by
  rw [setPair] at h
  split at h
  · obtain ⟨q, hq, rfl⟩ := List.mem_map.mp h
    split
    · exact .inr rfl
    · exact .inl hq
  · simpa using h

def Dictionary.ofPairs (pairs : List (Str × Str)) (hkey : ∀ p ∈ pairs, ∀ c ∈ p.1, isRegular c = true)
    (hvalue : ∀ p ∈ pairs, Value p.2) : Dictionary where
  entries := pairs.map Entry.ofPair
  tail := []
  white := List.forall_mem_nil _
  spaced := List.forall_mem_map.mpr fun p hp => Entry.spaced_ofPair (hkey p hp)
  value := List.forall_mem_map.mpr hvalue

theorem Dictionary.pairs_ofPairs
    (hkey : ∀ p ∈ pairs, ∀ c ∈ p.1, isRegular c = true) (hvalue : ∀ p ∈ pairs, Value p.2) :
    (ofPairs pairs hkey hvalue).pairs = pairs := by
  simp [Dictionary.pairs, ofPairs, Function.comp_def, Entry.pair, Entry.ofPair]

theorem Dictionary.text_ofPairs
    (hkey : ∀ p ∈ pairs, ∀ c ∈ p.1, isRegular c = true) (hvalue : ∀ p ∈ pairs, Value p.2) :
    (ofPairs pairs hkey hvalue).text = str "<<" ++ (pairs.map fun p => part p.1 p.2).flatten ++ str ">>" := by
  simp [text, body, ofPairs, Function.comp_def, Entry.text_ofPair, List.flatMap_def]

theorem leftover_eq_nil_iff (v : Str) :
    leftover v = [] ↔ (startsWith v (str "<<") = true → oddEnd v = false) := by
  rw [leftover, overhang]
  split
  · split
    · simp_all
    · simp_all
  · simp_all

section Whole

variable (u : Letters) (d : Dictionary)

theorem Letters.topLevelEntries_body :
    u.topLevelEntries d.body =
      if ∀ e ∈ d.entries, leftover e.value = [] then .ok d.pairs
      else .error (.signError "unexpected dictionary text") :=
  u.topLevelEntries_entries d.white d.spaced d.value

theorem Letters.setInDict_text (h : ∀ e ∈ d.entries, leftover e.value = []) (key value : Str) :
    u.setInDict d.text key value =
      .ok (str "<<" ++ ((setPair d.pairs key value).map fun p => part p.1 p.2).flatten ++ str ">>") := by
  have hbody : (d.text.drop 2).take (d.text.length - 4) = d.body := by
    have hlength : d.text.length - 4 = d.body.length := by simp [Dictionary.text, str]
    rw [hlength]
    simp [Dictionary.text, str]
  have hset : ((d.pairs.map fun p => if p.1 = key then part p.1 value else part p.1 p.2) ++
      if key ∈ d.pairs.map Prod.fst then [] else [part key value]) =
        (setPair d.pairs key value).map fun p => part p.1 p.2 := by
    rw [setPair]
    split
    · rw [List.append_nil, List.map_map]
      apply List.map_congr_left
      intro p hp
      by_cases hkey : p.1 = key <;> simp [hkey]
    · next hnew =>
      rw [List.map_append]
      congr 1
      apply List.map_congr_left
      intro p hp
      rw [if_neg]
      rintro rfl
      exact hnew (List.mem_map_of_mem hp)
  rw [setInDict, hbody, u.topLevelEntries_body, if_pos h, ← hset]
  rfl

/-- The entries of a dictionary are found and set just when none of its values ends in an odd number of
brackets. -/
theorem dict_text_entries_iff :
    (u.topLevelEntries d.body = .ok d.pairs ∧
      ∀ key value, (∀ c ∈ key, isRegular c = true) → Value value →
        ∃ d' : Dictionary, u.setInDict d.text key value = .ok d'.text ∧
          d'.pairs = setPair d.pairs key value) ↔
    ∀ e ∈ d.entries, startsWith e.value (str "<<") = true → oddEnd e.value = false := by
  simp only [← leftover_eq_nil_iff]
  constructor
  · rintro ⟨hentries, -⟩
    by_contra hbad
    rw [u.topLevelEntries_body, if_neg hbad] at hentries
    cases hentries
  · intro h
    refine ⟨by rw [u.topLevelEntries_body, if_pos h], ?_⟩
    intro key value hkey hvalue
    have hpair {p : Str × Str} (hp : p ∈ setPair d.pairs key value) :
        (∀ c ∈ p.1, isRegular c = true) ∧ Value p.2 := by
      obtain hp | rfl := mem_setPair hp
      · obtain ⟨e, he, rfl⟩ := List.mem_map.mp hp
        exact ⟨(d.spaced e he).key, d.value e he⟩
      · exact ⟨hkey, hvalue⟩
    refine ⟨.ofPairs (setPair d.pairs key value) (fun p hp => (hpair hp).1) fun p hp => (hpair hp).2, ?_,
      Dictionary.pairs_ofPairs _ _⟩
    rw [u.setInDict_text d h, Dictionary.text_ofPairs]

end Whole

def Letters.ascii : Letters where
  toUnicode := .ascii
  word c := decide (48 ≤ c ∧ c ≤ 57 ∨ 65 ≤ c ∧ c ≤ 90 ∨ c = 95 ∨ 97 ≤ c ∧ c ≤ 122)
  word_ascii _ := rfl

theorem nested_hex_string_is_refused :
    ∃ d : Dictionary, d.text = str "<</A<</B<41>>>>>" ∧ d.pairs = [(str "A", str "<</B<41>>>")] ∧
      Letters.ascii.topLevelEntries d.body = .error (.signError "unexpected dictionary text") := by
  have hhex : Value (str "<41>") := .hex (t := str "41") (by decide)
  have hdict : Value (str "<</B<41>>>") := by
    apply @Value.dict [⟨[], str "B", [], str "<41>"⟩] [] (List.forall_mem_nil _)
    · rw [List.forall_mem_singleton]
      exact ⟨List.forall_mem_nil _, by decide, List.forall_mem_nil _, fun _ => by decide⟩
    · rw [List.forall_mem_singleton]
      exact hhex
  let d : Dictionary :=
    { entries := [⟨[], str "A", [], str "<</B<41>>>"⟩]
      tail := []
      white := List.forall_mem_nil _
      spaced := by
        rw [List.forall_mem_singleton]
        exact ⟨List.forall_mem_nil _, by decide, List.forall_mem_nil _, fun _ => by decide⟩
      value := by
        rw [List.forall_mem_singleton]
        exact hdict }
  refine ⟨d, rfl, rfl, ?_⟩
  rw [Letters.topLevelEntries_body, if_neg]
  simp only [d, List.forall_mem_singleton]
  decide

end StainedGlass.Pdf
