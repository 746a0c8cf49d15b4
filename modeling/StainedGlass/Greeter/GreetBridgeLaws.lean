import StainedGlass.Greeter.GreetBridge
import StainedGlass.Greeter.LockdLaws

namespace StainedGlass.Greeter

open Lib Json

variable {max : Nat} {t : Bytes}

theorem length_escapeByte_le (b : UInt8) : (escapeByte b).length ≤ 6 := by
  rw [escapeByte]
  repeat' split
  all_goals simp [hex]

theorem jsonEscapeFrom_spec (max : Nat) (out text : Bytes) :
    ∃ p s, text = p ++ s ∧ jsonEscapeFrom max out text = out ++ escape p ∧
      (s = [] ∨ max ≤ (out ++ escape p).length + 7) ∧
      (p ≠ [] → (out ++ escape p.dropLast).length + 7 < max) := by
  induction text generalizing out with
  | nil => exact ⟨[], [], rfl, by simp [jsonEscapeFrom], .inl rfl, fun h => absurd rfl h⟩
  | cons c text ih =>
    by_cases hfit : out.length + 7 < max
    · obtain ⟨p, s, rfl, hout, hstop, hroom⟩ := ih (out ++ escapeByte c)
      refine ⟨c :: p, s, rfl, ?_, ?_, ?_⟩
      · rw [jsonEscapeFrom, if_pos hfit, hout, escape_cons, List.append_assoc]
      · rwa [escape_cons, ← List.append_assoc]
      · intro _
        cases p with
        | nil => simpa using hfit
        | cons b p =>
          rw [List.dropLast_cons_cons, escape_cons, ← List.append_assoc]
          exact hroom (by simp)
    · refine ⟨[], c :: text, rfl, ?_, .inr ?_, fun h => absurd rfl h⟩
      · rw [jsonEscapeFrom, if_neg hfit, escape_nil, List.append_nil]
      · rw [escape_nil, List.append_nil]
        exact Nat.not_lt.mp hfit

theorem length_escape_dropLast_le (p s : Bytes) (hs : s ≠ []) :
    (escape p).length ≤ (escape (p ++ s).dropLast).length := by
  rw [List.dropLast_append_of_ne_nil hs, escape_append, List.length_append]
  omega

theorem jsonEscape_spec (hmax : 7 < max) (text : Bytes) :
    ∃ p, p <+: text ∧ jsonEscape max text = escape p ∧ (escape p).length < max ∧
      (p = text ↔ (escape text.dropLast).length + 7 < max) := by
  obtain ⟨p, s, rfl, hout, hstop, hroom⟩ := jsonEscapeFrom_spec max [] text
  simp only [List.nil_append] at hout hstop hroom
  refine ⟨p, List.prefix_append p s, hout, ?_, ?_⟩
  · rcases List.eq_nil_or_concat p with rfl | ⟨q, b, rfl⟩
    · rw [escape_nil, List.length_nil]
      omega
    · have hq := hroom (by simp)
      have := length_escapeByte_le b
      rw [List.concat_eq_append, List.dropLast_concat] at hq
      rw [List.concat_eq_append, escape_append, List.length_append, escape_cons, escape_nil,
        List.append_nil]
      omega
  · constructor
    · intro hp
      obtain rfl : s = [] := by simpa using hp
      rw [List.append_nil]
      by_cases hne : p = []
      · subst hne
        simpa using hmax
      · exact hroom hne
    · intro hlt
      rcases hstop with rfl | hstop
      · rw [List.append_nil]
      by_cases hs : s = []
      · rw [hs, List.append_nil]
      · have := length_escape_dropLast_le p s hs
        omega

theorem readLine_line {text : Bytes} (hlf : 10 ∉ text) (hcr : 13 ∉ text) (h : text.length < n) (rest : Bytes) :
    readLine n (text ++ 10 :: rest) = some (text, rest) := by
  induction text generalizing n with
  | nil =>
    cases n with
    | zero => cases h
    | succ n => rfl
  | cons c text ih =>
    cases n with
    | zero => cases h
    | succ n =>
      rw [List.mem_cons, not_or] at hlf hcr
      rw [List.cons_append, readLine, if_neg (Ne.symm hlf.1), if_neg (Ne.symm hcr.1),
        ih hlf.2 hcr.2 (Nat.lt_of_succ_lt_succ h)]
      rfl

namespace Typed

def type : Typed → Bytes
  | user => ascii "create_session"
  | reply => ascii "post_auth_message_response"

def key : Typed → Bytes
  | user => ascii "username"
  | reply => ascii "response"

theorem request_text (a : Typed) (p : Bytes) :
    a.head ++ escape p ++ ascii "\"\x7d" =
      123 :: (memberText (ascii "type") a.type ++ 44 :: (memberText a.key p ++ [125])) := by
  cases a <;> simp [memberText, head, type, key] <;> rfl

theorem length_request {a : Typed} (h : (escape p).length < a.escSize) :
    (a.head ++ escape p ++ ascii "\"\x7d").length ≤ a.bufSize - 1 := by
  have hhead : a.head.length + a.escSize + 2 ≤ a.bufSize - 1 := by cases a <;> decide
  have htail : (ascii "\"\x7d").length = 2 := rfl
  rw [List.length_append, List.length_append, htail]
  omega

theorem request_spec (a : Typed) (text : Bytes) :
    ∃ p, p <+: text ∧ a.request text = a.head ++ escape p ++ ascii "\"\x7d" ∧
      readObject (a.request text) = some [(ascii "type", a.type), (a.key, p)] ∧
      (p = text ↔ (escape text.dropLast).length + 7 < a.escSize) := by
  have hsize : 7 < a.escSize := by cases a <;> decide
  obtain ⟨p, hp, hesc, hlen, hall⟩ := jsonEscape_spec hsize text
  have hreq : a.request text = a.head ++ escape p ++ ascii "\"\x7d" := by
    rw [request, snprintf, hesc, List.take_of_length_le (length_request hlen)]
  exact ⟨p, hp, hreq, by rw [hreq, request_text, readObject_pair], hall⟩

theorem isUtf8_request {a : Typed} : IsUtf8 (a.head ++ escape p ++ ascii "\"\x7d") ↔ IsUtf8 p := by
  have hhead : ∀ b ∈ a.head, b.toNat < 128 := by
    have hall : a.head.all (fun b => b.toNat < 128) = true := by cases a <;> decide
    simpa using hall
  have htail : ∀ b ∈ ascii "\"\x7d", b.toNat < 128 := by
    have hall : (ascii "\"\x7d").all (fun b => b.toNat < 128) = true := by decide
    simpa using hall
  rw [List.append_assoc, isUtf8_append_ascii hhead]
  constructor
  · exact isUtf8_of_escape htail
  · intro h
    exact (isUtf8_escape h).append ((isUtf8_append_ascii htail []).mpr ⟨[], rfl⟩)

theorem cstr_command (a : Typed) (text : Bytes) :
    cstr (a.command ++ text) = a.command ++ cstr text := by
  have hall : a.command.all (· ≠ 0) = true := by cases a <;> decide
  rw [cstr, List.takeWhile_append_of_pos (by simpa using hall), cstr]

theorem requestOf_command (a : Typed) (text : Bytes) :
    requestOf (.ofBuffer (a.command ++ text)) = some (a.request (cstr text)) := by
  have hbytes : (CString.ofBuffer (a.command ++ text)).bytes = a.command ++ cstr text :=
    cstr_command a text
  rw [requestOf, hbytes]
  cases a <;> rfl

theorem line_of_fromUi {a : Typed}
    (h : fromUi lineSize (a.command ++ t ++ 10 :: rest) = some (line, rest')) (ht : 10 ∉ t) :
    ∃ s, s <+: t ∧ line = a.command ++ s.filter (· ≠ 13) := by
  have hcommand : a.command.filter (· ≠ 13) = a.command ∧ 10 ∉ a.command := by
    cases a <;> decide
  obtain ⟨raw, hraw, hline, ⟨hb, -⟩ | ⟨hb, hlen⟩⟩ := readLine_eq_some h
  · refine ⟨t, List.prefix_rfl, ?_⟩
    have hcut := cut_append (show 10 ∉ a.command ++ t by simp [ht, hcommand.2]) rest
    rw [hb, cut_append hraw] at hcut
    cases hcut
    rw [hline, List.filter_append, hcommand.1]
  · -- a full line ends before the newline
    have hpre : raw <+: a.command ++ t := by
      rcases List.append_eq_append_iff.mp hb with ⟨x, hx, hx'⟩ | ⟨x, hx, -⟩
      · cases x with
        | nil => simp [hx]
        | cons c x =>
          rw [List.cons_append, List.cons.injEq] at hx'
          refine absurd ?_ hraw
          rw [hx, ← hx'.1]
          simp
      · exact ⟨x, hx.symm⟩
    have hlong : a.command.length ≤ raw.length := by
      have hle : line.length ≤ raw.length := by
        rw [hline]
        exact List.length_filter_le _ _
      have : a.command.length ≤ lineSize - 1 := by cases a <;> decide
      omega
    obtain ⟨s, rfl⟩ := List.prefix_of_prefix_length_le (List.prefix_append a.command t) hpre hlong
    refine ⟨s, (List.prefix_append_right_inj _).mp hpre, ?_⟩
    rw [hline, List.filter_append, hcommand.1]

theorem fromUi_whole {a : Typed} (ht : 10 ∉ t) (hcr : 13 ∉ t)
    (hlen : (a.command ++ t).length < lineSize - 1) (rest : Bytes) :
    fromUi lineSize (a.command ++ t ++ 10 :: rest) = some (a.command ++ t, rest) := by
  have hcommand : 10 ∉ a.command ∧ 13 ∉ a.command := by cases a <;> decide
  exact readLine_line (by simp [ht, hcommand.1]) (by simp [hcr, hcommand.2]) hlen rest

theorem decoded {a : Typed} (ht : 10 ∉ t)
    (hline : fromUi lineSize (a.command ++ t ++ 10 :: rest) = some (line, rest'))
    (hjson : requestOf (.ofBuffer line) = some json)
    (hread : readObject json = some [(ascii "type", a.type), (a.key, p)]) :
    ∃ s, s <+: t ∧ json = a.request (cstr (s.filter (· ≠ 13))) ∧ p <+: cstr (s.filter (· ≠ 13)) := by
  obtain ⟨s, hs, rfl⟩ := line_of_fromUi hline ht
  rw [requestOf_command] at hjson
  cases hjson
  obtain ⟨p', hp, -, hobject, -⟩ := a.request_spec (cstr (s.filter (· ≠ 13)))
  rw [hread] at hobject
  obtain rfl : p = p' := by simpa using hobject
  exact ⟨s, hs, rfl, hp⟩

theorem sublist_of_decoded {s : Bytes} (hs : s <+: t) : List.Sublist (cstr (s.filter (· ≠ 13))) t :=
  (List.takeWhile_sublist _).trans (List.filter_sublist.trans hs.sublist)

theorem request_iff (a : Typed) (ht : 10 ∉ t) (rest : Bytes) :
    (∃ line rest' json, fromUi lineSize (a.command ++ t ++ 10 :: rest) = some (line, rest') ∧
        requestOf (.ofBuffer line) = some json ∧ IsUtf8 json ∧
        readObject json = some [(ascii "type", a.type), (a.key, t)]) ↔
      13 ∉ t ∧ 0 ∉ t ∧ IsUtf8 t ∧ (escape t.dropLast).length + 7 < a.escSize := by
  constructor
  · rintro ⟨line, rest', json, hline, hjson, hutf, hread⟩
    obtain ⟨s, hs, rfl, hp⟩ := decoded ht hline hjson hread
    -- nothing can have been taken away on the way
    have heq : t = cstr (s.filter (· ≠ 13)) := hp.sublist.antisymm (sublist_of_decoded hs)
    obtain ⟨p, -, hreq, hobject, hall⟩ := a.request_spec (cstr (s.filter (· ≠ 13)))
    rw [hread] at hobject
    obtain rfl : t = p := by simpa using hobject
    refine ⟨?_, ?_, ?_, ?_⟩
    · rw [heq]
      intro hmem
      have hmem := (List.mem_filter.mp ((List.takeWhile_sublist _).mem hmem)).2
      simp at hmem
    · rw [heq]
      exact zero_notMem_cstr _
    · rw [hreq] at hutf
      exact isUtf8_request.mp hutf
    · rw [← heq] at hall
      exact hall.mp rfl
  · rintro ⟨hcr, hnul, hutf, hroom⟩
    have hlen : (a.command ++ t).length < lineSize - 1 := by
      have hescape := length_le_escape t.dropLast
      have hsizes : a.command.length + a.escSize ≤ lineSize - 1 := by cases a <;> decide
      rw [List.length_dropLast] at hescape
      rw [List.length_append]
      omega
    obtain ⟨p, hp, hreq, hobject, hall⟩ := a.request_spec t
    obtain rfl := hall.mpr hroom
    refine ⟨a.command ++ p, rest, a.request p, fromUi_whole ht hcr hlen rest, ?_, ?_, hobject⟩
    · rw [requestOf_command, cstr_eq_self hnul]
    · rw [hreq]
      exact isUtf8_request.mpr hutf

theorem submit_eq (a : Typed) (text : CString) :
    a.submit text = if a = user ∧ text.bytes.take 511 = [] then none else some (a.command ++ text.bytes.take 511 ++ [10]) := by
  have hcommand : a.command.length ≤ 6 := by cases a <;> decide
  have hlen : (a.command ++ text.bytes.take 511).length ≤ 1024 - 2 - 1 := by
    rw [List.length_append, List.length_take]
    omega
  rw [submit, snprintf, List.take_of_length_le hlen]

end Typed

/-- What is typed is refused, or the request is JSON that reads as it, just when it is UTF-8 without CR and
fits the screen's buffer and the bridge's. -/
theorem typed_request_iff (a : Typed) (t : CString) (ht : 10 ∉ t.bytes) (rest : Bytes) :
    (a.submit t = none ∨ ∃ sent line rest' json, a.submit t = some sent ∧
        fromUi lineSize (sent ++ rest) = some (line, rest') ∧ requestOf (.ofBuffer line) = some json ∧ IsUtf8 json ∧
        readObject json = some [(ascii "type", a.type), (a.key, t.bytes)]) ↔
      13 ∉ t.bytes ∧ IsUtf8 t.bytes ∧ t.bytes.length < 512 ∧ (escape t.bytes.dropLast).length + 7 < a.escSize := by
  rw [Typed.submit_eq]
  constructor
  · rintro (hnone | ⟨sent, line, rest', json, hsent, hline, hjson, hutf, hread⟩)
    · split at hnone
      · next hempty =>
        have hnil : t.bytes = [] := (List.take_eq_nil_iff.1 hempty.2).resolve_left (by decide)
        rw [hnil]
        exact ⟨List.not_mem_nil, ⟨[], rfl⟩, by decide, by cases a <;> decide⟩
      · cases hnone
    · split at hsent
      · cases hsent
      · cases hsent
        rw [List.append_assoc, List.singleton_append] at hline
        have hcut : 10 ∉ t.bytes.take 511 := fun h => ht (List.mem_of_mem_take h)
        obtain ⟨s, hs, -, hp⟩ := Typed.decoded hcut hline hjson hread
        have hlen := (hp.sublist.trans (Typed.sublist_of_decoded hs)).length_le
        rw [List.length_take] at hlen
        have htake : t.bytes.take 511 = t.bytes := List.take_of_length_le (by omega)
        rw [htake] at hline
        obtain ⟨hcr, -, hutf8, hroom⟩ := (a.request_iff ht rest).1 ⟨line, rest', json, hline, hjson, hutf, hread⟩
        exact ⟨hcr, hutf8, by omega, hroom⟩
  · rintro ⟨hcr, hutf8, hlen, hroom⟩
    rw [List.take_of_length_le (by omega)]
    split
    · exact .inl rfl
    · obtain ⟨line, rest', json, hline, hjson⟩ := (a.request_iff ht rest).2 ⟨hcr, t.nul_free, hutf8, hroom⟩
      exact .inr ⟨_, line, rest', json, rfl, by simpa using hline, hjson⟩

theorem typed_request_ada :
    10 ∉ (CString.ofString "ada").bytes ∧ (Typed.user.submit (.ofString "ada") = none ∨
      ∃ sent line rest' json, Typed.user.submit (.ofString "ada") = some sent ∧
        fromUi lineSize (sent ++ []) = some (line, rest') ∧ requestOf (.ofBuffer line) = some json ∧ IsUtf8 json ∧
        readObject json = some [(ascii "type", Typed.user.type), (Typed.user.key, (CString.ofString "ada").bytes)]) :=
  ⟨by decide, (typed_request_iff .user (.ofString "ada") (by decide) []).mpr
    ⟨by decide, ⟨"ada".toList, by decide⟩, by decide, by decide⟩⟩

theorem escape_replicate (n : Nat) : escape (List.replicate n 120) = List.replicate n 120 := by
  induction n with
  | zero => rfl
  | succ n ih =>
    rw [List.replicate_succ, escape_cons, ih]
    rfl

def longName : CString := .ofBuffer (List.replicate 506 120)

theorem bytes_longName : longName.bytes = List.replicate 506 120 :=
  cstr_eq_self fun h => absurd (List.eq_of_mem_replicate h) (by decide)

theorem long_name_is_cut :
    Typed.user.submit longName = some (Typed.user.command ++ longName.bytes ++ [10]) ∧
      fromUi lineSize (Typed.user.command ++ longName.bytes ++ 10 :: []) =
        some (Typed.user.command ++ longName.bytes, []) ∧
      ∃ json p, requestOf (.ofBuffer (Typed.user.command ++ longName.bytes)) = some json ∧
        readObject json = some [(ascii "type", Typed.user.type), (Typed.user.key, p)] ∧
        p <+: longName.bytes ∧ p ≠ longName.bytes := by
  have hmem : ∀ c ∈ longName.bytes, c = 120 := fun c hc => List.eq_of_mem_replicate (bytes_longName ▸ hc)
  have hlen : longName.bytes.length = 506 := by rw [bytes_longName, List.length_replicate]
  have hne : longName.bytes ≠ [] := List.ne_nil_of_length_pos (by omega)
  refine ⟨?_, Typed.fromUi_whole (fun h => absurd (hmem _ h) (by decide))
    (fun h => absurd (hmem _ h) (by decide)) ?_ [], ?_⟩
  · rw [Typed.submit_eq, List.take_of_length_le (by omega), if_neg fun h => hne h.2]
  · rw [List.length_append, hlen]
    decide
  · obtain ⟨p, hp, -, hobject, hall⟩ := Typed.user.request_spec longName.bytes
    refine ⟨_, p, by rw [Typed.requestOf_command, cstr_eq_self longName.nul_free], hobject, hp, ?_⟩
    intro heq
    have hroom := hall.mp heq
    have hdrop : longName.bytes.dropLast = List.replicate 505 120 := by rw [bytes_longName, List.dropLast_replicate]
    rw [hdrop, escape_replicate, List.length_replicate] at hroom
    exact absurd hroom (by decide)

end StainedGlass.Greeter
