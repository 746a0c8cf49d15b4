import StainedGlass.Lib.Segments

/-! Cutting a stream of frames into utterances: `Segmenter` of `speech/sgspeech.py`. -/

namespace StainedGlass.Speech

def frameLen : Nat := 512

/-- What the constructor makes of its arguments, in frames; the lower threshold is never
above the upper one. -/
structure Settings (P : Type) [LinearOrder P] where
  on : P
  off : P
  off_le_on : off ≤ on
  minSilence : Nat
  pad : Nat
  max : Nat

theorem lower_le {threshold : ℚ} (h : 3 / 20 ≤ threshold) :
    Max.max (3 / 20) (threshold - 3 / 20) ≤ threshold :=
  max_le h (sub_le_self _ (by norm_num))

def Settings.ofThreshold (threshold : ℚ) (h : 3 / 20 ≤ threshold) (minSilenceMs padMs maxMs : Nat) :
    Settings ℚ where
  on := threshold
  off := Max.max (3 / 20) (threshold - 3 / 20)
  off_le_on := lower_le h
  minSilence := minSilenceMs / 32
  pad := padMs / 32
  max := maxMs / 32

theorem lower_le_half : (3 / 20 : ℚ) ≤ 1 / 2 := by norm_num

def Settings.standard : Settings ℚ := .ofThreshold (1 / 2) lower_le_half 700 200 20000

variable {β ν P : Type} [LinearOrder P] [Zero P]

def concatenate : List (List β) → Option (List β)
  | [] => none
  | frames => some frames.flatten

def sliceIndex (k : Int) (n : Nat) : Nat := if 0 ≤ k then k.toNat else n - (-k).toNat

def upTo (k : Int) (xs : List α) : List α := xs.take (sliceIndex k xs.length)

def onFrom (k : Int) (xs : List α) : List α := xs.drop (sliceIndex k xs.length)

def lastN (n : Nat) (xs : List α) : List α := xs.drop (xs.length - n)

def least : List P → Option (P × Nat)
  | [] => none
  | p :: ps =>
    match least ps with
    | none => some (p, 0)
    | some (q, i) => if q < p then some (q, i + 1) else some (p, 0)

def argmin (ps : List P) : Option Nat := (least ps).map Prod.snd

structure State (β ν P : Type) where
  vad : ν
  pending : List β
  history : List (List β)
  speech : List (List β)
  probs : List P
  silence : Nat

def State.start (vad : ν) : State β ν P := ⟨vad, [], [], [], [], 0⟩

def Settings.silenceAfter (c : Settings P) (silence : Nat) (p : P) : Nat :=
  if p < c.off then silence + 1 else if c.on ≤ p then 0 else silence

def State.wait (c : Settings P) (frame : List β) (p : P) (s : State β ν P) : State β ν P :=
  let history := lastN (c.pad + 1) (s.history ++ [frame])
  if c.on ≤ p then
    { s with speech := history, probs := List.replicate (history.length - 1) 0 ++ [p],
             history := [], silence := 0 }
  else { s with history := history }

def State.finish (c : Settings P) (s : State β ν P) : Option (List (List β) × State β ν P) := do
  let keep : Int := s.speech.length - s.silence + c.pad
  let utterance ← concatenate (upTo keep s.speech)
  return ([utterance], { s with history := lastN (c.pad + 1) (onFrom keep s.speech),
                                speech := [], probs := [], silence := 0 })

/-- The utterance is too long: it is cut at the least speech-like frame of its last third. -/
def State.split (s : State β ν P) : Option (List (List β) × State β ν P) := do
  let start := s.speech.length * 2 / 3
  let least ← argmin (s.probs.drop start)
  let cut := start + least + 1
  let utterance ← concatenate (s.speech.take cut)
  return ([utterance], { s with speech := s.speech.drop cut, probs := s.probs.drop cut })

def State.extend (c : Settings P) (frame : List β) (p : P) (s : State β ν P) : State β ν P :=
  { s with speech := s.speech ++ [frame], probs := s.probs ++ [p],
           silence := c.silenceAfter s.silence p }

def State.hear (c : Settings P) (frame : List β) (p : P) (s : State β ν P) :
    Option (List (List β) × State β ν P) :=
  if s.speech.isEmpty then some ([], s.wait c frame p)
  else
    let s' := s.extend c frame p
    if c.minSilence ≤ s'.silence then s'.finish c
    else if c.max ≤ s'.speech.length then s'.split
    else some ([], s')

def State.hearAll (c : Settings P) (vad : ν → List β → P × ν) :
    List (List β) → State β ν P → Option (List (List β) × State β ν P)
  | [], s => some ([], s)
  | frame :: frames, s => do
    let (p, v) := vad s.vad frame
    let (done, s') ← State.hear c frame p { s with vad := v }
    let (more, s'') ← hearAll c vad frames s'
    return (done ++ more, s'')

theorem length_drop_frame {samples : List β} (h : frameLen ≤ samples.length) :
    (samples.drop frameLen).length < samples.length := by
  rw [List.length_drop]
  exact Nat.sub_lt (Nat.lt_of_lt_of_le (by decide) h) (by decide)

def frames (samples : List β) : List (List β) × List β :=
  if _h : frameLen ≤ samples.length then
    let r := frames (samples.drop frameLen)
    (samples.take frameLen :: r.1, r.2)
  else ([], samples)
termination_by samples.length
decreasing_by exact length_drop_frame _h

def State.push (c : Settings P) (vad : ν → List β → P × ν) (audio : List β) (s : State β ν P) :
    Option (List (List β) × State β ν P) :=
  let r := frames (s.pending ++ audio)
  State.hearAll c vad r.1 { s with pending := r.2 }

def State.flush (s : State β ν P) : Option (List β) :=
  if s.speech.isEmpty then none
  else some (s.speech ++ if s.pending.isEmpty then [] else [s.pending]).flatten

def segment (c : Settings P) (vad : ν → List β → P × ν) :
    List (List β) → State β ν P → Option (List (List β))
  | [], s => some s.flush.toList
  | audio :: rest, s => do
    let (done, s') ← s.push c vad audio
    let more ← segment c vad rest s'
    return done ++ more

end StainedGlass.Speech
