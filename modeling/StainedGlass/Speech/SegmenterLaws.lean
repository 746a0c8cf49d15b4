import StainedGlass.Speech.Segmenter

namespace StainedGlass.Speech

open Lib

variable {β ν P : Type} [LinearOrder P] {c : Settings P} {s : State β ν P}
  {before now : List (List β × P)} {pieces : List (List (List β × P))} {frame : List β} {p : P}

abbrev Settings.Loud (c : Settings P) (x : List β × P) : Prop := c.on ≤ x.2

def audio (piece : List (List β × α)) : List β := (piece.map Prod.fst).flatten

structure Quiet (c : Settings P) (before now : List (List β × P))
    (pieces : List (List (List β × P))) (s : State β ν P) : Prop where
  cut : Segmented c.Loud before pieces
  history : s.history = now.map Prod.fst
  speech : s.speech = []
  soft : ∀ x ∈ now, ¬ c.Loud x

structure Speaking (c : Settings P) (before now : List (List β × P))
    (pieces : List (List (List β × P))) (s : State β ν P) : Prop where
  cut : Segmented c.Loud before pieces
  history : s.history = []
  speech : s.speech = now.map Prod.fst
  probs : s.probs.length = now.length
  silence : ∀ (i : Nat) (x : List β × P), now[i]? = some x → c.Loud x → i + s.silence < now.length

def Tracks (c : Settings P) (heard : List (List β × P)) (pieces : List (List (List β × P)))
    (s : State β ν P) : Prop :=
  ∃ before now, heard = before ++ now ∧
    (Quiet c before now pieces s ∨ now ≠ [] ∧ Speaking c before now pieces s)

theorem tracks_start (c : Settings P) (v : ν) : Tracks c [] [] (.start v : State β ν P) :=
  ⟨[], [], rfl, .inl ⟨.nil, rfl, rfl, by simp⟩⟩

theorem lastN_map (f : α → γ) (n : Nat) (xs : List α) : lastN n (xs.map f) = (lastN n xs).map f := by
  rw [lastN, lastN, List.length_map, List.map_drop]

theorem append_lastN (n : Nat) (xs : List α) : xs.take (xs.length - n) ++ lastN n xs = xs :=
  List.take_append_drop _ _

theorem mem_of_mem_lastN (h : x ∈ lastN n xs) : x ∈ xs :=
  List.mem_of_mem_drop h

theorem concatenate_map {piece : List (List β × α)} (h : piece ≠ []) :
    concatenate (piece.map Prod.fst) = some (audio piece) := by
  cases piece with
  | nil => exact absurd rfl h
  | cons x xs => rfl

variable {ps : List P}

theorem exists_least (h : ps ≠ []) : ∃ r, least ps = some r := by
  cases ps with
  | nil => exact absurd rfl h
  | cons p ps =>
    rw [least]
    split
    · exact ⟨_, rfl⟩
    · split <;> exact ⟨_, rfl⟩

theorem exists_argmin (h : ps ≠ []) : ∃ i, argmin ps = some i := by
  obtain ⟨r, hr⟩ := exists_least h
  exact ⟨r.2, by rw [argmin, hr]; rfl⟩

theorem least_append (hps : least ps = some (q, i)) {ls : List P}
    (hls : ∀ p ∈ ls, q < p) : least (ls ++ ps) = some (q, i + ls.length) := by
  induction ls with
  | nil => exact hps
  | cons p ls ih =>
    rw [List.cons_append, least, ih fun p hp => hls p (List.mem_cons_of_mem _ hp)]
    dsimp only
    rw [if_pos (hls p List.mem_cons_self), List.length_cons, Nat.add_assoc]

theorem Quiet.wait [Zero P] (h : Quiet c before now pieces s) (frame : List β) (p : P) :
    Tracks c (before ++ now ++ [(frame, p)]) pieces (s.wait c frame p) := by
  have hhist : lastN (c.pad + 1) (s.history ++ [frame]) =
      (lastN (c.pad + 1) (now ++ [(frame, p)])).map Prod.fst := by
    rw [h.history, ← lastN_map, List.map_append]
    rfl
  -- what the pad has no room for falls between two utterances
  have hdropped : ∀ x ∈ (now ++ [(frame, p)]).take ((now ++ [(frame, p)]).length - (c.pad + 1)),
      ¬ c.Loud x := by
    rw [List.length_append, List.length_singleton, Nat.add_sub_add_right,
      List.take_append_of_le_length (Nat.sub_le _ _)]
    intro x hx
    exact h.soft x (List.mem_of_mem_take hx)
  refine ⟨before ++ (now ++ [(frame, p)]).take ((now ++ [(frame, p)]).length - (c.pad + 1)),
    lastN (c.pad + 1) (now ++ [(frame, p)]), ?_, ?_⟩
  · rw [List.append_assoc, List.append_assoc, append_lastN]
  rw [State.wait, hhist]
  by_cases hp : c.on ≤ p
  · refine .inr ⟨?_, h.cut.skips hdropped, ?_, ?_, ?_, ?_⟩
    · simp [lastN]
    · simp [hp]
    · simp [hp]
    · have hpos : (now ++ [(frame, p)]).length - (now.length - c.pad) ≠ 0 := by
        rw [List.length_append, List.length_singleton]
        omega
      simpa [hp, lastN] using Nat.sub_add_cancel (Nat.pos_of_ne_zero hpos)
    · intro i x hx _
      simpa [hp] using (List.getElem?_eq_some_iff.mp hx).1
  · refine .inl ⟨h.cut.skips hdropped, ?_, ?_, ?_⟩
    · simp [hp]
    · simp [hp, h.speech]
    · intro x hx
      rcases List.mem_append.mp (mem_of_mem_lastN hx) with hx | hx
      · exact h.soft x hx
      · rw [List.mem_singleton.mp hx]
        exact hp

theorem Speaking.extend (h : Speaking c before now pieces s) (frame : List β) (p : P) :
    Speaking c before (now ++ [(frame, p)]) pieces (s.extend c frame p) where
  cut := h.cut
  history := h.history
  speech := by simp [State.extend, h.speech]
  probs := by simp [State.extend, h.probs]
  silence i x hx hloud := by
    rw [List.length_append, List.length_singleton]
    change i + c.silenceAfter s.silence p < now.length + 1
    rw [List.getElem?_append] at hx
    split at hx
    · next hi =>
      have := h.silence i x hx hloud
      rw [Settings.silenceAfter]
      split
      · omega
      · split <;> omega
    · next hi =>
      obtain ⟨hlt, hx⟩ := List.getElem?_eq_some_iff.mp hx
      have hi : i = now.length := by
        rw [List.length_singleton] at hlt
        omega
      subst hi
      have hp : c.on ≤ p := by
        simp only [Nat.sub_self, List.getElem_cons_zero] at hx
        rw [← hx] at hloud
        exact hloud
      rw [Settings.silenceAfter, if_neg (not_lt.mpr (c.off_le_on.trans hp)), if_pos hp]
      omega

def State.Lost (c : Settings P) (s : State β ν P) : Prop :=
  s.speech.length + c.pad = s.silence ∨ 2 * s.speech.length + c.pad ≤ s.silence

theorem sliceIndex_eq_zero_iff {len silence pad : Nat} (hlen : 0 < len) :
    sliceIndex (len - silence + pad) len = 0 ↔ len + pad = silence ∨ 2 * len + pad ≤ silence := by
  rw [sliceIndex]
  split <;> omega

theorem loud_before_slice {i len silence : Nat} (h : i + silence < len) (pad : Nat) :
    i < sliceIndex (len - silence + pad) len := by
  rw [sliceIndex]
  split <;> omega

theorem Speaking.finish_lost (h : Speaking c before now pieces s) (hne : now ≠ [])
    (hlost : s.Lost c) : s.finish c = none := by
  have hlen : 0 < s.speech.length := by
    rw [h.speech, List.length_map]
    exact List.length_pos_of_ne_nil hne
  rw [State.finish, upTo, (sliceIndex_eq_zero_iff hlen).mpr hlost]
  rfl

theorem Speaking.finish (h : Speaking c before now pieces s) (hne : now ≠ [])
    (hlost : ¬ s.Lost c) :
    ∃ piece s', s.finish c = some ([audio piece], s') ∧
      Tracks c (before ++ now) (pieces ++ [piece]) s' := by
  have hlen : s.speech.length = now.length := by rw [h.speech, List.length_map]
  have hpos : 0 < now.length := List.length_pos_of_ne_nil hne
  rw [State.Lost, hlen, ← sliceIndex_eq_zero_iff hpos] at hlost
  generalize hk : sliceIndex (now.length - s.silence + c.pad) now.length = k at hlost
  have hpiece : now.take k ≠ [] := by
    rw [Ne, List.take_eq_nil_iff, not_or]
    exact ⟨hlost, hne⟩
  have hsoft : ∀ x ∈ now.drop k, ¬ c.Loud x := by
    intro x hx hloud
    obtain ⟨i, hi⟩ := List.mem_iff_getElem?.mp hx
    rw [List.getElem?_drop] at hi
    have := loud_before_slice (h.silence _ _ hi hloud) c.pad
    omega
  have hdropped : ∀ x ∈ (now.drop k).take ((now.drop k).length - (c.pad + 1)), ¬ c.Loud x :=
    fun x hx => hsoft x (List.mem_of_mem_take hx)
  refine ⟨now.take k,
    { s with history := lastN (c.pad + 1) (s.speech.drop k)
             speech := []
             probs := []
             silence := 0 }, ?_,
    before ++ now.take k ++ (now.drop k).take ((now.drop k).length - (c.pad + 1)),
    lastN (c.pad + 1) (now.drop k), ?_, .inl ⟨(h.cut.piece hpiece).skips hdropped, ?_, rfl, ?_⟩⟩
  · rw [State.finish, upTo, onFrom, hlen, hk, h.speech, ← List.map_take, concatenate_map hpiece]
    rfl
  · rw [List.append_assoc, append_lastN, List.append_assoc, List.take_append_drop]
  · rw [h.speech, ← List.map_drop, lastN_map]
  · intro x hx
    exact hsoft x (mem_of_mem_lastN hx)

theorem Speaking.split (h : Speaking c before now pieces s) (hne : now ≠ []) :
    ∃ piece s', s.split = some ([audio piece], s') ∧
      Tracks c (before ++ now) (pieces ++ [piece]) s' := by
  have hlen : s.speech.length = now.length := by rw [h.speech, List.length_map]
  have hpos : 0 < now.length := List.length_pos_of_ne_nil hne
  have hprobs : s.probs.drop (s.speech.length * 2 / 3) ≠ [] := by
    rw [Ne, List.drop_eq_nil_iff, h.probs, hlen]
    omega
  obtain ⟨i, hi⟩ := exists_argmin hprobs
  generalize hk : s.speech.length * 2 / 3 + i + 1 = k
  have hpiece : now.take k ≠ [] := by
    rw [Ne, List.take_eq_nil_iff, not_or]
    exact ⟨by omega, hne⟩
  refine ⟨now.take k, { s with speech := s.speech.drop k, probs := s.probs.drop k }, ?_,
    before ++ now.take k, now.drop k, ?_, ?_⟩
  · rw [State.split, hi]
    simp only [Option.bind_eq_bind, Option.bind_some, hk]
    rw [h.speech, ← List.map_take, concatenate_map hpiece]
    rfl
  · rw [List.append_assoc, List.take_append_drop]
  have hcut := h.cut.piece hpiece
  have hspeech : s.speech.drop k = (now.drop k).map Prod.fst := by rw [h.speech, List.map_drop]
  by_cases hrest : now.drop k = []
  · exact .inl ⟨hcut, by rw [hrest]; exact h.history, by rw [hspeech, hrest]; rfl, by simp [hrest]⟩
  · refine .inr ⟨hrest, hcut, h.history, hspeech, ?_, ?_⟩
    · rw [List.length_drop, List.length_drop, h.probs]
    · intro j x hx hloud
      rw [List.getElem?_drop] at hx
      have := h.silence _ _ hx hloud
      rw [List.length_drop]
      dsimp only
      omega

def State.Stuck (c : Settings P) (p : P) (s : State β ν P) : Prop :=
  s.speech ≠ [] ∧ c.minSilence ≤ c.silenceAfter s.silence p ∧
    (s.speech.length + 1 + c.pad = c.silenceAfter s.silence p ∨
      2 * (s.speech.length + 1) + c.pad ≤ c.silenceAfter s.silence p)

theorem lost_extend (frame : List β) :
    (s.extend c frame p).Lost c ↔ s.speech.length + 1 + c.pad = c.silenceAfter s.silence p ∨
      2 * (s.speech.length + 1) + c.pad ≤ c.silenceAfter s.silence p := by
  rw [State.Lost, State.extend, List.length_append, List.length_singleton]

variable {stream : List (List β × P)}

theorem flush_tracks (h : Tracks c stream pieces s) (hpending : s.pending = []) :
    ∃ new, s.flush.toList = new.map audio ∧ Segmented c.Loud stream (pieces ++ new) := by
  obtain ⟨before, now, rfl, hq | ⟨hne, hsp⟩⟩ := h
  · refine ⟨[], ?_, ?_⟩
    · rw [State.flush, hq.speech]
      rfl
    · rw [List.append_nil]
      exact hq.cut.skips hq.soft
  · refine ⟨[now], ?_, hsp.cut.piece hne⟩
    rw [State.flush, if_neg (by rw [hsp.speech]; simpa using hne), hpending, hsp.speech]
    simp [audio]

theorem tracks_vad (h : Tracks c stream pieces s) (v : ν) : Tracks c stream pieces { s with vad := v } := by
  obtain ⟨before, now, rfl, hq | ⟨hne, hsp⟩⟩ := h
  · exact ⟨before, now, rfl, .inl ⟨hq.cut, hq.history, hq.speech, hq.soft⟩⟩
  · exact ⟨before, now, rfl, .inr ⟨hne, hsp.cut, hsp.history, hsp.speech, hsp.probs, hsp.silence⟩⟩

def heard (vad : ν → List β → α × ν) : ν → List (List β) → List (List β × α)
  | _, [] => []
  | v, frame :: rest => (frame, (vad v frame).1) :: heard vad (vad v frame).2 rest

variable {fs : List (List β)}

theorem mem_heard {x : List β × α} (h : x ∈ heard vad v fs) : x.1 ∈ fs := by
  induction fs generalizing v with
  | nil => cases h
  | cons frame fs ih =>
    cases h with
    | head => exact List.mem_cons_self
    | tail _ h => exact List.mem_cons_of_mem _ (ih h)

theorem audio_slice_ne_nil (hfs : ∀ f ∈ fs, f.length = frameLen)
    {span : Nat × Nat} (hlt : span.1 < span.2) (hle : span.2 ≤ (heard vad v fs).length) :
    audio (slice (heard vad v fs) span) ≠ [] := by
  have hlen : (slice (heard vad v fs) span).length = span.2 - span.1 := by
    rw [slice, List.length_drop, List.length_take, Nat.min_eq_left hle]
  obtain ⟨x, hx⟩ := List.exists_mem_of_length_pos (Nat.lt_of_lt_of_eq (by omega) hlen.symm)
  intro hnil
  have hempty : x.1 = [] := List.flatten_eq_nil_iff.mp hnil x.1 (List.mem_map_of_mem hx)
  have hframe := hfs x.1 (mem_heard (List.mem_of_mem_take (List.mem_of_mem_drop hx)))
  rw [hempty] at hframe
  cases hframe

variable [Zero P]

theorem hear_tracks {heard : List (List β × P)} (h : Tracks c heard pieces s)
    (hs : ¬ s.Stuck c p) (frame : List β) :
    ∃ new s', s.hear c frame p = some (new.map audio, s') ∧
      Tracks c (heard ++ [(frame, p)]) (pieces ++ new) s' := by
  obtain ⟨before, now, rfl, hq | ⟨hne, hsp⟩⟩ := h
  · refine ⟨[], s.wait c frame p, ?_, ?_⟩
    · rw [State.hear, hq.speech]
      rfl
    · rw [List.append_nil]
      exact hq.wait frame p
  · have hspeech : s.speech ≠ [] := by
      rw [hsp.speech]
      simpa using hne
    have hext := hsp.extend frame p
    have hnext : now ++ [(frame, p)] ≠ [] := by simp
    rw [State.hear, if_neg (by simpa using hspeech), List.append_assoc]
    dsimp only
    split
    · next hmin =>
      have hlost : ¬ (s.extend c frame p).Lost c := by
        rw [lost_extend]
        exact fun hl => hs ⟨hspeech, hmin, hl⟩
      obtain ⟨piece, s', hfin, ht⟩ := hext.finish hnext hlost
      exact ⟨[piece], s', hfin, ht⟩
    split
    · obtain ⟨piece, s', hsplit, ht⟩ := hext.split hnext
      exact ⟨[piece], s', hsplit, ht⟩
    · refine ⟨[], s.extend c frame p, rfl, before, now ++ [(frame, p)], rfl, .inr ⟨hnext, ?_⟩⟩
      rw [List.append_nil]
      exact hext

theorem hear_stuck {heard : List (List β × P)} (h : Tracks c heard pieces s) (hs : s.Stuck c p)
    (frame : List β) : s.hear c frame p = none := by
  obtain ⟨hspeech, hmin, hlost⟩ := hs
  obtain ⟨before, now, rfl, hq | ⟨hne, hsp⟩⟩ := h
  · exact absurd hq.speech hspeech
  · rw [State.hear, if_neg (by simpa using hspeech)]
    dsimp only
    rw [if_pos (by exact hmin)]
    exact (hsp.extend frame p).finish_lost (by simp) ((lost_extend frame).mpr hlost)

theorem hear_others {r : List (List β) × State β ν P} (h : s.hear c frame p = some r) :
    r.2.vad = s.vad ∧ r.2.pending = s.pending := by
  rw [State.hear] at h
  split at h
  · cases h
    rw [State.wait]
    dsimp only
    split <;> exact ⟨rfl, rfl⟩
  dsimp only at h
  split at h
  · obtain ⟨u, -, hr⟩ := Option.bind_eq_some_iff.mp h
    cases hr
    exact ⟨rfl, rfl⟩
  split at h
  · obtain ⟨i, -, hr⟩ := Option.bind_eq_some_iff.mp h
    obtain ⟨u, -, hr⟩ := Option.bind_eq_some_iff.mp hr
    cases hr
    exact ⟨rfl, rfl⟩
  · cases h
    exact ⟨rfl, rfl⟩

theorem frames_frame (h : frame.length = frameLen) : frames frame = ([frame], []) := by
  have htake : frame.take frameLen = frame := List.take_of_length_le h.le
  have hdrop : frame.drop frameLen = [] := List.drop_of_length_le h.le
  have hnil : frames ([] : List β) = ([], []) := by
    rw [frames, dif_neg (by simp [frameLen])]
  rw [frames, dif_pos h.ge, htake, hdrop, hnil]

variable {vad : ν → List β → P × ν}

theorem push_frame (c : Settings P) (vad : ν → List β → P × ν) (hpending : s.pending = [])
    (h : frame.length = frameLen) :
    s.push c vad frame = State.hear c frame (vad s.vad frame).1 { s with vad := (vad s.vad frame).2 } := by
  rw [State.push, hpending, List.nil_append, frames_frame h, ← hpending]
  simp only [State.hearAll]
  cases State.hear c frame (vad s.vad frame).1 { s with vad := (vad s.vad frame).2 } with
  | none => rfl
  | some r => simp

def Unstuck (c : Settings P) (vad : ν → List β → P × ν) : State β ν P → List (List β) → Prop
  | _, [] => True
  | s, frame :: rest =>
    ¬ s.Stuck c (vad s.vad frame).1 ∧
      ∀ r, s.push c vad frame = some r → Unstuck c vad r.2 rest

theorem unstuck_cons {vad : ν → List β → P × ν} (hs : ¬ s.Stuck c (vad s.vad frame).1)
    (h : s.push c vad frame = some r) : Unstuck c vad s (frame :: fs) ↔ Unstuck c vad r.2 fs := by
  constructor
  · exact fun hun => hun.2 r h
  · intro hun
    refine ⟨hs, fun r' hr' => ?_⟩
    cases h.symm.trans hr'
    exact hun

theorem segment_tracks (vad : ν → List β → P × ν) (hfs : ∀ f ∈ fs, f.length = frameLen)
    (h : Tracks c stream pieces s) (hpending : s.pending = []) :
    (∃ new, segment c vad fs s = some (new.map audio) ∧
        Segmented c.Loud (stream ++ heard vad s.vad fs) (pieces ++ new)) ∧ Unstuck c vad s fs ∨
      segment c vad fs s = none ∧ ¬ Unstuck c vad s fs := by
  induction fs generalizing s stream pieces with
  | nil =>
    obtain ⟨new, hnew, hseg⟩ := flush_tracks h hpending
    refine .inl ⟨⟨new, by rw [segment, hnew], ?_⟩, trivial⟩
    rwa [heard, List.append_nil]
  | cons frame fs ih =>
    have hpush := push_frame c vad hpending (hfs frame List.mem_cons_self)
    have hv := tracks_vad h (vad s.vad frame).2
    by_cases hs : s.Stuck c (vad s.vad frame).1
    · refine .inr ⟨?_, fun hun => hun.1 hs⟩
      rw [segment, hpush, hear_stuck hv hs]
      rfl
    obtain ⟨new, s', hhear, ht⟩ := hear_tracks hv hs frame
    obtain ⟨hvad, hpend⟩ := hear_others hhear
    have hstep : s.push c vad frame = some (new.map audio, s') := hpush.trans hhear
    have hstream : stream ++ heard vad s.vad (frame :: fs) =
        stream ++ [(frame, (vad s.vad frame).1)] ++ heard vad s'.vad fs := by
      rw [hvad, List.append_assoc]
      rfl
    rw [segment, hstep, unstuck_cons hs hstep, hstream]
    rcases ih (fun f hf => hfs f (List.mem_cons_of_mem _ hf)) ht (hpend.trans hpending) with
      ⟨⟨more, hmore, hseg⟩, hun⟩ | ⟨hnone, hun⟩
    · refine .inl ⟨⟨new ++ more, ?_, ?_⟩, hun⟩
      · simp [hmore]
      · rwa [← List.append_assoc]
    · refine .inr ⟨?_, hun⟩
      simp [hnone]

def aFrame : List Unit := List.replicate frameLen ()

theorem length_aFrame : aFrame.length = frameLen := List.length_replicate

def told {P : Type} [Zero P] (ps : List P) (_ : List Unit) : P × List P := (ps.headD 0, ps.tail)

/-- When the segmenter gets through a stream and every loud frame is in one utterance. -/
theorem segment_iff (c : Settings P) (vad : ν → List β → P × ν) (v : ν) {fs : List (List β)}
    (hfs : ∀ f ∈ fs, f.length = frameLen) :
    (∃ out spans, segment c vad fs (.start v) = some out ∧ [] ∉ out ∧
        out = spans.map (fun span => audio (slice (heard vad v fs) span)) ∧
        Spans (fun x => c.on ≤ x.2) (heard vad v fs) spans) ↔
      Unstuck c vad (.start v) fs := by
  rcases segment_tracks vad hfs (tracks_start c v) rfl with
    ⟨⟨new, hnew, hseg⟩, hun⟩ | ⟨hnone, hun⟩
  · refine iff_of_true ?_ hun
    obtain ⟨spans, hspans, hall⟩ := hseg.spans
    rw [List.nil_append] at hspans
    subst hspans
    refine ⟨_, spans, hnew, ?_, by rw [List.map_map]; rfl, hall⟩
    intro hnil
    obtain ⟨piece, hpiece, haudio⟩ := List.mem_map.mp hnil
    obtain ⟨span, hspan, rfl⟩ := List.mem_map.mp hpiece
    obtain ⟨hlt, hle⟩ := hall.inside span hspan
    exact audio_slice_ne_nil hfs hlt hle haudio
  · refine iff_of_false ?_ hun
    rintro ⟨out, spans, hout, -⟩
    cases hnone.symm.trans hout

instance (c : Settings P) (p : P) (s : State β ν P) : Decidable (s.Stuck c p) :=
  inferInstanceAs (Decidable (_ ∧ _))

/-- Thresholds in thousandths, a pause of two frames, a pad of one and at most five frames. -/
def brief : Settings Nat := ⟨500, 350, by decide, 2, 1, 5⟩

theorem unstuck_hear {s s' : State Unit (List Nat) Nat} (hpending : s.pending = [])
    (hs : ¬ s.Stuck brief (s.vad.headD 0))
    (h : { s with vad := s.vad.tail }.hear brief aFrame (s.vad.headD 0) = some (out, s'))
    {rest : List (List Unit)} (hrest : Unstuck brief told s' rest) : Unstuck brief told s (aFrame :: rest) :=
  (unstuck_cons hs ((push_frame brief told hpending length_aFrame).trans h)).mpr hrest

/-- A frame and a pause, and then more frames than one utterance may have. -/
def pauseAndCut : List Nat := [900, 100, 100, 900, 900, 900, 900]

theorem pauseAndCut_segmented : ∃ out spans,
    segment brief told (List.replicate 7 aFrame) (.start pauseAndCut) = some out ∧ [] ∉ out ∧
      out = spans.map (fun span => audio (slice (heard told pauseAndCut (List.replicate 7 aFrame)) span)) ∧
      Spans (fun x => brief.on ≤ x.2) (heard told pauseAndCut (List.replicate 7 aFrame)) spans := by
  have hfs : ∀ f ∈ List.replicate 7 aFrame, f.length = frameLen := by
    intro f hf
    rw [List.eq_of_mem_replicate hf, length_aFrame]
  refine (segment_iff brief told pauseAndCut hfs).mpr ?_
  change Unstuck brief told (.start pauseAndCut) [aFrame, aFrame, aFrame, aFrame, aFrame, aFrame, aFrame]
  iterate 7 refine unstuck_hear rfl (by decide) rfl ?_
  trivial

def talking (ps : List ℚ) (n : Nat) (probs : List ℚ) (silence : Nat) : State Unit (List ℚ) ℚ :=
  ⟨ps, [], [], List.replicate n aFrame, probs, silence⟩

theorem push_talking (p : ℚ) (ps probs : List ℚ) (n silence : Nat) :
    (talking (p :: ps) n probs silence).push .standard told aFrame =
      (talking ps n probs silence).hear .standard aFrame p :=
  push_frame _ _ rfl length_aFrame

theorem standard_loud : Settings.standard.silenceAfter silence 1 = 0 := by
  norm_num [Settings.silenceAfter, Settings.standard, Settings.ofThreshold]

theorem standard_soft {p : ℚ} (h : p < 7 / 20) :
    Settings.standard.silenceAfter silence p = silence + 1 := by
  have hoff : Settings.standard.off = 7 / 20 := by norm_num [Settings.standard, Settings.ofThreshold]
  rw [Settings.silenceAfter, hoff, if_pos h]

theorem extend_talking (p : ℚ) (ps probs : List ℚ) (n silence : Nat) :
    (talking ps n probs silence).extend .standard aFrame p =
      talking ps (n + 1) (probs ++ [p]) (Settings.standard.silenceAfter silence p) := by
  simp only [State.extend, talking, List.replicate_succ']

theorem hear_talking {p : ℚ} (hs : Settings.standard.silenceAfter silence p = silence') (ps probs : List ℚ) (n : Nat) :
    (talking ps (n + 1) probs silence).hear .standard aFrame p =
      if 21 ≤ silence' then (talking ps (n + 2) (probs ++ [p]) silence').finish .standard
      else if 625 ≤ n + 2 then (talking ps (n + 2) (probs ++ [p]) silence').split
      else some ([], talking ps (n + 2) (probs ++ [p]) silence') := by
  have hlen : (talking ps (n + 2) (probs ++ [p]) silence').speech.length = n + 2 :=
    List.length_replicate
  rw [State.hear, if_neg (by simp [talking]), extend_talking, hs]
  dsimp only
  rw [hlen]
  rfl

theorem segment_talking {p : ℚ} (hn : n + 2 < 625)
    (hs : Settings.standard.silenceAfter silence p = silence') (hlt : silence' < 21)
    (ps probs : List ℚ) (rest : List (List Unit)) :
    segment .standard told (aFrame :: rest) (talking (p :: ps) (n + 1) probs silence) =
      segment .standard told rest (talking ps (n + 2) (probs ++ [p]) silence') := by
  have hhear := hear_talking hs ps probs n
  rw [if_neg (Nat.not_le.mpr hlt), if_neg (Nat.not_le.mpr hn)] at hhear
  rw [segment, push_talking, hhear]
  simp

theorem loud_run (k : Nat) {n : Nat} (hn : n + 1 + k < 625) (ps probs : List ℚ)
    (rest : List (List Unit)) :
    segment .standard told (List.replicate k aFrame ++ rest)
        (talking (List.replicate k 1 ++ ps) (n + 1) probs 0) =
      segment .standard told rest (talking ps (n + 1 + k) (probs ++ List.replicate k 1) 0) := by
  induction k generalizing n probs with
  | zero => simp
  | succ k ih =>
    rw [List.replicate_succ, List.cons_append, List.replicate_succ, List.cons_append,
      segment_talking (by omega) standard_loud (by decide), ih (by omega),
      List.append_assoc, Nat.add_right_comm _ 1 k]
    rfl

theorem soft_run (k : Nat) {p : ℚ} (hp : p < 7 / 20) (hn : n + 1 + k < 625)
    (hs : silence + k < 21) (ps probs : List ℚ) (rest : List (List Unit)) :
    segment .standard told (List.replicate k aFrame ++ rest)
        (talking (List.replicate k p ++ ps) (n + 1) probs silence) = segment .standard told rest
        (talking ps (n + 1 + k) (probs ++ List.replicate k p) (silence + k)) := by
  induction k generalizing n probs silence with
  | zero => simp
  | succ k ih =>
    rw [List.replicate_succ, List.cons_append, List.replicate_succ, List.cons_append,
      segment_talking (by omega) (standard_soft hp) (by omega),
      ih (by omega) (by omega), List.append_assoc, Nat.add_right_comm _ 1 k,
      Nat.add_right_comm silence 1 k]
    rfl

def softEnd : List ℚ := [3 / 10, 3 / 10, 3 / 10, 3 / 10, 3 / 10, 1 / 5, 3 / 10]

theorem split_softEnd (ps : List ℚ) :
    ∃ u, (talking ps 625 (List.replicate 618 1 ++ softEnd) 7).split =
      some ([u], talking ps 1 [3 / 10] 7) := by
  have hdrop : (List.replicate 618 (1 : ℚ) ++ softEnd).drop 416 = List.replicate 202 1 ++ softEnd := by
    rw [List.drop_append_of_le_length (by rw [List.length_replicate]; decide), List.drop_replicate]
  have hleast : least softEnd = some (1 / 5, 5) := by norm_num [softEnd, least]
  have hloud : ∀ p ∈ List.replicate 202 (1 : ℚ), 1 / 5 < p := by
    intro p hp
    rw [List.eq_of_mem_replicate hp]
    norm_num
  have hargmin : argmin (List.replicate 202 (1 : ℚ) ++ softEnd) = some 207 := by
    rw [argmin, least_append hleast hloud, List.length_replicate]
    rfl
  refine ⟨(List.replicate 624 aFrame).flatten, ?_⟩
  have hlen : (talking ps 625 (List.replicate 618 1 ++ softEnd) 7).speech.length = 625 :=
    List.length_replicate
  have htake : (List.replicate 625 aFrame).take 624 = List.replicate 624 aFrame := List.take_replicate
  have hrest : (List.replicate 625 aFrame).drop 624 = List.replicate 1 aFrame := List.drop_replicate
  have hprobs : (List.replicate 618 (1 : ℚ) ++ softEnd).drop 624 = [3 / 10] := by
    rw [List.drop_append, List.drop_of_length_le (by rw [List.length_replicate]; decide),
      List.length_replicate]
    rfl
  rw [State.split, hlen]
  simp only [talking, Option.bind_eq_bind, Nat.reduceMul, Nat.reduceDiv, hdrop, hargmin,
    Option.bind_some, Nat.reduceAdd, htake, hrest, hprobs]
  rfl

theorem hear_first (ps : List ℚ) :
    (State.start ps).hear .standard aFrame 1 = some ([], talking ps 1 [1] 0) := by
  have hon : Settings.standard.on ≤ 1 := by norm_num [Settings.standard, Settings.ofThreshold]
  rw [State.hear, State.wait]
  simp only [hon, if_true]
  rfl

theorem segment_first (ps : List ℚ) (rest : List (List Unit)) :
    segment .standard told (aFrame :: rest) (.start (1 :: ps)) =
      segment .standard told rest (talking ps 1 [1] 0) := by
  have hpush : (State.start (1 :: ps)).push .standard told aFrame =
      (State.start ps).hear .standard aFrame 1 := push_frame _ _ rfl length_aFrame
  rw [segment, hpush, hear_first]
  simp

theorem frame_too_few_is_not_cut :
    segment .standard told
      (aFrame :: (List.replicate 617 aFrame ++ (List.replicate 5 aFrame ++
        aFrame :: aFrame :: (List.replicate 13 aFrame ++ [aFrame]))))
      (.start (1 :: (List.replicate 617 1 ++ (List.replicate 5 (3 / 10) ++
        1 / 5 :: 3 / 10 :: (List.replicate 13 (3 / 10) ++ [3 / 10]))))) = none := by
  have hlong : [1] ++ List.replicate 617 (1 : ℚ) ++ List.replicate 5 (3 / 10) ++ [1 / 5] ++ [3 / 10] =
      List.replicate 618 1 ++ softEnd := by
    rw [List.append_assoc, List.append_assoc, List.append_assoc]
    rfl
  obtain ⟨u, hsplit⟩ := split_softEnd (List.replicate 13 (3 / 10) ++ [3 / 10])
  rw [segment_first, loud_run 617 (by decide), soft_run 5 (by norm_num) (by decide) (by decide),
    segment_talking (by decide) (standard_soft (by norm_num)) (by decide), segment, push_talking,
    hear_talking (standard_soft (by norm_num)), if_neg (by decide), if_pos (by decide), hlong]
  simp only [Nat.reduceAdd, Option.bind_eq_bind]
  rw [hsplit, Option.bind_some]
  dsimp only
  rw [soft_run 13 (by norm_num) (by decide) (by decide), segment, push_talking,
    hear_talking (standard_soft (by norm_num)), if_pos (by decide)]
  rfl

end StainedGlass.Speech
