import StainedGlass.Setup.Bridge

namespace StainedGlass.Setup

open Lib

variable {fn : CString → σ → σ} {b : Buf} {chunk t : Bytes} {s : σ}

def kept (line : Bytes) : Bytes := line.drop (lineMaxLen * (line.length / lineMaxLen))

theorem kept_of_lt {line : Bytes} (h : line.length < lineMaxLen) : kept line = line := by
  rw [kept, Nat.div_eq_of_lt h]
  rfl

theorem kept_of_eq {line : Bytes} (h : line.length = lineMaxLen) : kept line = [] := by
  rw [kept, h, Nat.div_self (by decide), Nat.mul_one, ← h, List.drop_length]

theorem kept_append (a c : Bytes) : kept (a ++ c) = kept (kept a ++ c) := by
  have ha : lineMaxLen * (a.length / lineMaxLen) ≤ a.length := Nat.mul_div_le _ _
  have hdiv : (a ++ c).length / lineMaxLen =
      a.length / lineMaxLen + (kept a ++ c).length / lineMaxLen := by
    simp only [kept, List.length_append, List.length_drop, lineMaxLen]
    omega
  calc kept (a ++ c)
      = ((a ++ c).drop (lineMaxLen * (a.length / lineMaxLen))).drop
          (lineMaxLen * ((kept a ++ c).length / lineMaxLen)) := by
        rw [List.drop_drop, ← Nat.mul_add, ← hdiv, kept]
    _ = kept (kept a ++ c) := by
        rw [List.drop_append_of_le_length ha]
        rfl

theorem notMem_kept (h : 10 ∉ line) : 10 ∉ kept line := fun hm =>
  h (List.mem_of_mem_drop hm)

theorem handLines_open (h : 10 ∉ data) : handLines fn data s = (data, s) := by
  rw [handLines]
  split
  · rfl
  · next r hr => cases (cut_eq_none.mpr h).symm.trans hr

theorem handLines_closed (h : 10 ∉ line) (rest : Bytes) :
    handLines fn (line ++ 10 :: rest) s = handLines fn rest (fn (lineString line) s) := by
  rw [handLines]
  split
  · next hr => cases (cut_append h rest).symm.trans hr
  · next r hr => cases (cut_append h rest).symm.trans hr; rfl

theorem handLines_eq (fn : CString → σ → σ) (data : Bytes) (s : σ) :
    handLines fn data s =
      (pending 10 data, (complete 10 data).foldl (fun s line => fn (lineString line) s) s) := by
  induction data using recordsInduction (c := (10 : UInt8)) generalizing s with
  | opened a ha => rw [handLines_open ha, pending_open ha, complete_open ha, List.foldl_nil]
  | closed a b ha ih =>
    rw [handLines_closed ha, ih, pending_closed ha, complete_closed ha, List.foldl_cons]

theorem length_pending_le (xs : Bytes) : (pending 10 xs).length ≤ xs.length := by
  induction xs using recordsInduction (c := (10 : UInt8)) with
  | opened a ha => rw [pending_open ha]
  | closed a b ha ih =>
    rw [pending_closed ha, List.length_append, List.length_cons]
    omega

theorem length_complete_lt {xs r : Bytes} (h : r ∈ complete 10 xs) : r.length < xs.length := by
  induction xs using recordsInduction (c := (10 : UInt8)) with
  | opened a ha => simp [complete_open ha] at h
  | closed a b ha ih =>
    rw [complete_closed ha, List.mem_cons] at h
    rw [List.length_append, List.length_cons]
    cases h with
    | inl h => rw [h]; omega
    | inr h => have := ih h; omega

theorem complete_kept (ht : 10 ∉ t) (h : (kept t ++ chunk).length ≤ lineMaxLen) :
    complete 10 (kept t ++ chunk) = (complete 10 (t ++ chunk)).map kept := by
  cases hcut : cut 10 chunk with
  | none =>
    have hchunk := cut_eq_none.mp hcut
    rw [complete_open (by simp [notMem_kept ht, hchunk]), complete_open (by simp [ht, hchunk]),
      List.map_nil]
  | some r =>
    obtain ⟨rfl, hr⟩ := eq_of_cut hcut
    rw [List.length_append, List.length_append, List.length_cons] at h
    have hfirst : kept (t ++ r.1) = kept t ++ r.1 := by
      rw [kept_append, kept_of_lt]
      rw [List.length_append]
      omega
    have hrest : (complete 10 r.2).map kept = complete 10 r.2 := by
      rw [List.map_congr_left (g := id), List.map_id]
      intro line hline
      apply kept_of_lt
      have := length_complete_lt hline
      omega
    rw [← List.append_assoc, ← List.append_assoc, complete_closed (by simp [notMem_kept ht, hr]),
      complete_closed (by simp [ht, hr]), List.map_cons, hfirst, hrest]

theorem kept_pending (ht : 10 ∉ t) :
    kept (pending 10 (kept t ++ chunk)) = kept (pending 10 (t ++ chunk)) := by
  cases hcut : cut 10 chunk with
  | none =>
    have hchunk := cut_eq_none.mp hcut
    rw [pending_open (by simp [notMem_kept ht, hchunk]), pending_open (by simp [ht, hchunk]),
      ← kept_append]
  | some r =>
    obtain ⟨rfl, hr⟩ := eq_of_cut hcut
    rw [← List.append_assoc, ← List.append_assoc, pending_closed (by simp [notMem_kept ht, hr]),
      pending_closed (by simp [ht, hr])]

def handedLine (line : Bytes) : CString := lineString (kept line)

theorem pump_data (hb : b.data = kept t) (ht : 10 ∉ t) (hroom : chunk.length ≤ b.room) :
    (pump fn b chunk s).1.data = kept (pending 10 (t ++ chunk)) := by
  have hlen : (pending 10 (b.data ++ chunk)).length ≤ lineMaxLen := by
    have hle := length_pending_le (b.data ++ chunk)
    have := b.not_full
    rw [Buf.room] at hroom
    rw [List.length_append] at hle
    omega
  rw [pump, handLines_eq, ← kept_pending ht, ← hb]
  split
  · next h => exact (kept_of_lt h).symm
  · next h => exact (kept_of_eq (Nat.le_antisymm hlen (Nat.not_lt.mp h))).symm

theorem pump_handed (hb : b.data = kept t) (ht : 10 ∉ t) (hroom : chunk.length ≤ b.room) :
    (pump fn b chunk s).2 =
      ((complete 10 (t ++ chunk)).map handedLine).foldl (fun s line => fn line s) s := by
  have hlen : (kept t ++ chunk).length ≤ lineMaxLen := by
    have := b.not_full
    rw [Buf.room] at hroom
    rw [List.length_append, ← hb]
    omega
  have hstate : (pump fn b chunk s).2 = (handLines fn (b.data ++ chunk) s).2 := by
    rw [pump]
    split <;> rfl
  rw [hstate, handLines_eq, hb, complete_kept ht hlen, List.foldl_map, List.foldl_map]
  rfl

def Buf.after (b : Buf) (chunk : Bytes) : Buf := (pump (fun _ u => u) b chunk ()).1

theorem pump_fst (fn : CString → σ → σ) (b : Buf) (chunk : Bytes) (s : σ) :
    (pump fn b chunk s).1 = b.after chunk := by
  rw [Buf.after, pump, pump, handLines_eq, handLines_eq]
  split <;> rfl

theorem room_after (hb : b.data = kept t) (ht : 10 ∉ t) (hroom : chunk.length ≤ b.room) :
    (b.after chunk).room = lineMaxLen - (kept (pending 10 (t ++ chunk))).length := by
  rw [Buf.room, Buf.after, pump_data hb ht hroom]

theorem empty_kept : Buf.empty.data = kept [] := (kept_of_lt Buf.empty.not_full).symm

/-- A way to split a stream into reads: none is empty, and each fits what is left of the
buffer at that time. -/
def Reads : Buf → List Bytes → Prop
  | _, [] => True
  | b, chunk :: chunks => chunk ≠ [] ∧ chunk.length ≤ b.room ∧ Reads (b.after chunk) chunks

variable {chunks : List Bytes}

theorem pumpAll_handed (h : Reads b chunks) (hb : b.data = kept t) (ht : 10 ∉ t) :
    (pumpAll fn b chunks s).2 =
      ((complete 10 (t ++ chunks.flatten)).map handedLine).foldl (fun s line => fn line s) s := by
  induction chunks generalizing b t s with
  | nil =>
    rw [pumpAll, List.flatten_nil, List.append_nil, complete_open ht]
    rfl
  | cons chunk chunks ih =>
    obtain ⟨-, hroom, hrest⟩ := h
    have hdata : (b.after chunk).data = kept (pending 10 (t ++ chunk)) := pump_data hb ht hroom
    rw [pumpAll, pump_fst, ih hrest hdata (notMem_pending _), pump_handed hb ht hroom,
      List.flatten_cons, ← List.append_assoc, complete_append (t ++ chunk), List.map_append,
      List.foldl_append]

def handed (chunks : List Bytes) : List CString :=
  (pumpAll (fun line lines => lines ++ [line]) .empty chunks []).2

theorem foldl_snoc (xs ys : List α) : xs.foldl (fun l x => l ++ [x]) ys = ys ++ xs := by
  induction xs generalizing ys with
  | nil => simp
  | cons x xs ih => rw [List.foldl_cons, ih, List.append_assoc, List.singleton_append]

theorem handed_eq (h : Reads .empty chunks) : handed chunks = (complete 10 chunks.flatten).map handedLine := by
  rw [handed, pumpAll_handed h empty_kept List.not_mem_nil, foldl_snoc]
  rfl

theorem pumpAll_eq_foldl (h : Reads .empty chunks) :
    (pumpAll fn .empty chunks s).2 = (handed chunks).foldl (fun s line => fn line s) s := by
  rw [handed_eq h, pumpAll_handed h empty_kept List.not_mem_nil]
  rfl

theorem allowed_hello (oobe : Bool) {line : CString} (h : line.bytes = ascii "HELLO") :
    allowed oobe line = false := by
  rw [allowed, h]
  revert oobe
  decide

theorem allowed_try {line : CString} (h : line.bytes = ascii "TRY") :
    allowed false line = false := by
  rw [allowed, h]
  decide

variable {l : Links}

theorem sent_fromWizard (oobe : Bool) (line : CString) (h : l.service = true) :
    (fromWizard oobe line l).sent = l.sent ++ [line].filter (allowed oobe) ∧
      (fromWizard oobe line l).service = true := by
  rw [fromWizard]
  split
  · next hello => simp [allowed_hello oobe hello, h]
  split
  · next htry =>
    obtain ⟨ho, hl⟩ : oobe = false ∧ line.bytes = ascii "TRY" := by simpa using htry
    simp [ho, allowed_try hl, h]
  split
  · next hno => simp [show allowed oobe line = false by simpa using hno, h]
  · next hok =>
    have hallowed : allowed oobe line = true := by simpa using hok
    simp only [h, Bool.not_true, Bool.false_eq_true, if_false]
    split <;> simp [hallowed, h, send, toWizard]

theorem sent_lines (oobe : Bool) (lines : List CString) (h : l.service = true) :
    (lines.foldl (fun l line => fromWizard oobe line l) l).sent =
      l.sent ++ lines.filter (allowed oobe) := by
  induction lines generalizing l with
  | nil => simp
  | cons line lines ih =>
    obtain ⟨hsent, hservice⟩ := sent_fromWizard oobe line h
    rw [List.foldl_cons, ih hservice, hsent, List.append_assoc, ← List.filter_append,
      List.singleton_append]

def wholeLines (stream : Bytes) : List Bytes :=
  ((complete 10 stream).filter fun line => line.length < lineMaxLen).map dropCr

theorem zero_mem_dropCr : 0 ∈ dropCr line ↔ 0 ∈ line := by
  rw [dropCr]
  split
  · next h =>
    obtain ⟨init, rfl⟩ := List.getLast?_eq_some_iff.mp h
    simp
  · rfl

theorem cstr_eq_self_iff {s : Bytes} : cstr s = s ↔ 0 ∉ s := by
  constructor
  · intro h
    rw [← h]
    exact zero_notMem_cstr s
  · exact cstr_eq_self

theorem handedLine_bytes {line : Bytes} (h : line.length < lineMaxLen) :
    (handedLine line).bytes = dropCr line ↔ 0 ∉ line := by
  rw [handedLine, kept_of_lt h, ← zero_mem_dropCr]
  exact cstr_eq_self_iff

theorem handedLines_whole_iff (lines : List Bytes) :
    (lines.map handedLine).map CString.bytes =
        (lines.filter fun line => line.length < lineMaxLen).map dropCr ↔
      ∀ line ∈ lines, line.length < lineMaxLen ∧ 0 ∉ line := by
  constructor
  · intro h
    -- one string is handed on for each line, so none can have been left out
    have hlen := congrArg List.length h
    rw [List.length_map, List.length_map, List.length_map] at hlen
    have hfit := List.length_filter_eq_length_iff.mp hlen.symm
    rw [List.filter_eq_self.mpr hfit, List.map_map, List.map_inj_left] at h
    intro line hline
    have hlt : line.length < lineMaxLen := by simpa using hfit line hline
    exact ⟨hlt, (handedLine_bytes hlt).mp (h line hline)⟩
  · intro h
    rw [List.filter_eq_self.mpr (by simpa using fun line hline => (h line hline).1), List.map_map,
      List.map_inj_left]
    intro line hline
    obtain ⟨hlt, hnul⟩ := h line hline
    exact (handedLine_bytes hlt).mpr hnul

/-- The lines handed on are those of the stream, just when each fits the buffer and holds no NUL. -/
theorem handed_whole_iff {chunks : List Bytes} (h : Reads .empty chunks) :
    ((handed chunks).map CString.bytes = wholeLines chunks.flatten ∧
      ∀ (oobe : Bool) (l : Links), l.service = true →
        (pumpAll (fromWizard oobe) .empty chunks l).2.sent.map CString.bytes =
          l.sent.map CString.bytes ++
            (wholeLines chunks.flatten).filter fun line => allowed oobe (.ofBuffer line)) ↔
      ∀ line ∈ complete 10 chunks.flatten, line.length < lineMaxLen ∧ 0 ∉ line := by
  rw [← handedLines_whole_iff, ← handed_eq h]
  constructor
  · exact And.left
  · intro hwhole
    refine ⟨hwhole, ?_⟩
    intro oobe l hservice
    change _ = wholeLines chunks.flatten at hwhole
    rw [pumpAll_eq_foldl h, sent_lines oobe _ hservice, List.map_append, ← hwhole,
      List.filter_map]
    congr 3
    funext line
    simp

theorem handed_whole_list :
    Reads .empty [ascii "LI", ascii "ST\r\n"] ∧
      (handed [ascii "LI", ascii "ST\r\n"]).map CString.bytes = [ascii "LIST"] := by
  have hreads : Reads .empty [ascii "LI", ascii "ST\r\n"] := by
    refine ⟨by decide, by decide, by decide, ?_, trivial⟩
    rw [room_after empty_kept List.not_mem_nil (by decide)]
    decide
  exact ⟨hreads, ((handed_whole_iff hreads).mpr (by decide)).1.trans (by decide)⟩

section Overlong

variable {full line : Bytes}

theorem reads_overlong (hlen : full.length = lineMaxLen) (hfull : 10 ∉ full)
    (hline : line.length < lineMaxLen) : Reads .empty [full, line ++ [10]] := by
  have hroom : full.length ≤ Buf.empty.room := hlen.le
  refine ⟨List.ne_nil_of_length_pos (by rw [hlen]; decide), hroom, by simp, ?_, trivial⟩
  rw [room_after empty_kept List.not_mem_nil hroom, List.nil_append, pending_open hfull,
    kept_of_eq hlen, List.length_append]
  exact hline

theorem complete_overlong (hfull : 10 ∉ full) (hline : 10 ∉ line) :
    complete 10 (full ++ (line ++ [10])) = [full ++ line] := by
  rw [← List.append_assoc, complete_closed (by simp [hfull, hline])]
  rfl

theorem handed_overlong (hlen : full.length = lineMaxLen) (hfull : 10 ∉ full)
    (hlt : line.length < lineMaxLen) (hline : 10 ∉ line) :
    handed [full, line ++ [10]] = [lineString line] := by
  rw [handed_eq (reads_overlong hlen hfull hlt), List.flatten_cons, List.flatten_singleton,
    complete_overlong hfull hline, List.map_singleton, handedLine, kept_append, kept_of_eq hlen,
    List.nil_append, kept_of_lt hlt]

theorem wholeLines_overlong (hlen : full.length = lineMaxLen) (hfull : 10 ∉ full)
    (hline : 10 ∉ line) : wholeLines (full ++ (line ++ [10])) = [] := by
  rw [wholeLines, complete_overlong hfull hline, List.filter_cons_of_neg]
  · rfl
  · rw [List.length_append, hlen]
    simp

end Overlong

def filler : Bytes := List.replicate lineMaxLen 120

theorem notMem_filler : 10 ∉ filler := fun h => absurd (List.eq_of_mem_replicate h) (by decide)

theorem overlong_line_ends_as_request :
    Reads .empty [filler, ascii "REBOOT" ++ [10]] ∧
      handed [filler, ascii "REBOOT" ++ [10]] = [.ofString "REBOOT"] ∧
      wholeLines (filler ++ (ascii "REBOOT" ++ [10])) = [] ∧
      allowed false (.ofString "REBOOT") = true := by
  have hlen : filler.length = lineMaxLen := List.length_replicate
  refine ⟨reads_overlong hlen notMem_filler (by decide), ?_,
    wholeLines_overlong hlen notMem_filler (by decide), by decide⟩
  rw [handed_overlong hlen notMem_filler (by decide) (by decide)]
  decide

def words : Bool → List String
  | false => ["LIST", "LAYOUT", "DRIVERS", "REBOOT", "POWEROFF"]
  | true => ["STATE", "NETWORKS", "KEY"]

def verbs : Bool → List String
  | false => ["NEW", "DELETE", "FORMAT", "INSTALL", "PASSWORD"]
  | true => ["CONNECT", "KEY", "ACCOUNT", "PASSWORD", "FINISH"]

/-- A request of the service: a word alone, or one with more behind a blank. -/
def Asks (oobe : Bool) (line : Bytes) : Prop :=
  (∃ w ∈ words oobe, line = ascii w) ∨ ∃ w ∈ verbs oobe, ∃ rest, line = ascii w ++ 32 :: rest

theorem mem_requests (oobe : Bool) (ok : String) :
    ok ∈ (if oobe then okOobe else okSetup) ↔ ok ∈ words oobe ∨ ∃ w ∈ verbs oobe, ok = w ++ " " := by
  cases oobe <;> simp [okOobe, okSetup, words, verbs] <;> tauto

theorem allowed_iff : allowed oobe line = true ↔ Asks oobe line.bytes := by
  have hwords : ∀ w ∈ words oobe, (ascii w).getLast? ≠ some 32 := by cases oobe <;> decide
  have hverbs : ∀ w ∈ verbs oobe, ascii (w ++ " ") = ascii w ++ [32] := by cases oobe <;> decide
  have hverb : ∀ w ∈ verbs oobe, (if (ascii (w ++ " ")).getLast? = some 32 then (ascii (w ++ " ")).isPrefixOf line.bytes
      else line.bytes = ascii (w ++ " ")) ↔ ∃ rest, line.bytes = ascii w ++ 32 :: rest := by
    intro w hw
    rw [hverbs w hw, List.getLast?_concat, if_pos rfl, List.isPrefixOf_iff_prefix, List.prefix_iff_exists_eq_append]
    simp
  rw [allowed, List.any_eq_true, Asks]
  constructor
  · rintro ⟨ok, hok, hline⟩
    rcases (mem_requests oobe ok).1 hok with hw | ⟨w, hw, rfl⟩
    · exact .inl ⟨ok, hw, by simpa [hwords ok hw] using hline⟩
    · exact .inr ⟨w, hw, (hverb w hw).1 (by simpa using hline)⟩
  · rintro (⟨w, hw, hline⟩ | ⟨w, hw, hline⟩)
    · exact ⟨w, (mem_requests oobe w).2 (.inl hw), by simp [hwords w hw, hline]⟩
    · exact ⟨w ++ " ", (mem_requests oobe _).2 (.inr ⟨w, hw, rfl⟩), by simpa using (hverb w hw).2 hline⟩

theorem pump_keeps {P : σ → Prop} (hfn : ∀ line s, P s → P (fn line s)) (b : Buf) (chunk : Bytes) (hs : P s) :
    P (pump fn b chunk s).2 := by
  have hlines : P (handLines fn (b.data ++ chunk) s).2 := by
    rw [handLines_eq]
    change P (List.foldl _ _ _)
    induction complete 10 (b.data ++ chunk) generalizing s with
    | nil => exact hs
    | cons line lines ih => exact ih (hfn _ _ hs)
  rw [pump]
  split <;> exact hlines

def Links.Sent (out : List CString) (service : Bool) (l : Links) : Prop := l.sent = out ∧ l.service = service

theorem Links.Sent.fromWizard (h : l.Sent out false) : (fromWizard oobe line l).Sent out false := by
  rw [Setup.fromWizard]
  split
  · exact h
  split
  · exact h
  split
  · exact h
  · have hservice : l.service = false := h.2
    rw [if_pos (by simp [hservice])]
    exact h

theorem service_lines (oobe : Bool) (lines : List CString) (h : l.service = true) :
    (lines.foldl (fun l line => fromWizard oobe line l) l).service = true := by
  induction lines generalizing l with
  | nil => exact h
  | cons line lines ih => exact ih (sent_fromWizard oobe line h).2

variable {br : Bridge}

theorem Bridge.step_service (oobe : Bool) (chunk : Bytes) (h : br.links.Sent out service) :
    (br.step oobe (.service chunk)).links.Sent out service ∧ (br.step oobe (.service chunk)).uiBuf = br.uiBuf := by
  have hkeep (line : CString) (l : Links) (hl : l.Sent out service) : (fromService line l).Sent out service := hl
  rw [Bridge.step]
  split
  · exact ⟨pump_keeps hkeep br.svcBuf chunk h, rfl⟩
  · exact ⟨h, rfl⟩

theorem Bridge.run_closed (h : br.links.Sent out false) (inputs : List Input) :
    (br.run oobe inputs).links.sent = out := by
  induction inputs generalizing br with
  | nil => exact h.1
  | cons i inputs ih =>
    change ((br.step oobe i).run oobe inputs).links.sent = out
    apply ih
    cases i with
    | ui chunk => exact pump_keeps (fun _ _ hl => hl.fromWizard) br.uiBuf chunk h
    | service chunk => exact (step_service oobe chunk h).1
    | closed =>
      rw [Bridge.step, h.2]
      exact h

/-- What the wizard writes before the service ends. -/
def wizardChunks : List Input → List Bytes
  | [] => []
  | .ui chunk :: inputs => chunk :: wizardChunks inputs
  | .service _ :: inputs => wizardChunks inputs
  | .closed :: _ => []

theorem Bridge.sent_run (oobe : Bool) (hreads : Reads br.uiBuf (wizardChunks inputs)) (hbuf : br.uiBuf.data = kept t)
    (ht : 10 ∉ t) (h : br.links.service = true) :
    (br.run oobe inputs).links.sent =
      br.links.sent ++ ((complete 10 (t ++ (wizardChunks inputs).flatten)).map handedLine).filter (allowed oobe) := by
  induction inputs generalizing br t with
  | nil => simp [Bridge.run, wizardChunks, complete_open ht]
  | cons i inputs ih =>
    change ((br.step oobe i).run oobe inputs).links.sent = _
    cases i with
    | ui chunk =>
      obtain ⟨-, hroom, hrest⟩ := hreads
      have hui : (br.step oobe (.ui chunk)).uiBuf = br.uiBuf.after chunk := pump_fst ..
      have hlinks : (br.step oobe (.ui chunk)).links =
          ((complete 10 (t ++ chunk)).map handedLine).foldl (fun l line => fromWizard oobe line l) br.links :=
        pump_handed hbuf ht hroom
      rw [ih (by rwa [hui]) (by rw [hui]; exact pump_data hbuf ht hroom) (notMem_pending _)
        (by rw [hlinks]; exact service_lines oobe _ h), hlinks, sent_lines oobe _ h, wizardChunks, List.flatten_cons,
        ← List.append_assoc t, complete_append (t ++ chunk), List.map_append, List.filter_append, List.append_assoc]
    | service chunk =>
      obtain ⟨⟨hsent, hservice⟩, hui⟩ := step_service oobe chunk ⟨rfl, h⟩
      rw [← hsent]
      exact ih (by rwa [hui]) (by rwa [hui]) ht hservice
    | closed =>
      have hend : (br.step oobe .closed).links.Sent br.links.sent false := by
        rw [Bridge.step, if_pos h]
        exact ⟨rfl, rfl⟩
      simp [run_closed hend, wizardChunks, complete_open ht]

def freshBridge : Bridge := ⟨.empty, .empty, ⟨true, [], [], [], false, false⟩⟩

def interleaved : List Input :=
  [.ui (ascii "LI"), .service (ascii "OK\n"), .ui (ascii "ST\nrm\n"), .closed, .ui (ascii "REBOOT\n")]

end StainedGlass.Setup
