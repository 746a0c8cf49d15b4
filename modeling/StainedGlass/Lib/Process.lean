import Mathlib
import StainedGlass.Lib.Bytes

/-! Programs that talk over a byte stream through `read_full` and `write_full`. -/

namespace StainedGlass.Lib

inductive Proc (ι ρ : Type) where
  | done (r : ρ)
  | writeFull (bytes : Bytes) (k : Proc ι ρ)
  | readFull (n : Nat) (k : Bytes → Proc ι ρ)
  | act (i : ι) (k : UInt8 → Proc ι ρ)

namespace Proc

def write {ι ρ : Type} (bytes : Bytes) (P : Proc ι ρ) : Proc ι ρ :=
  if bytes = [] then P else .writeFull bytes P

def read {ι ρ : Type} (n : Nat) (k : Bytes → Proc ι ρ) : Proc ι ρ :=
  if n = 0 then k [] else .readFull n k

structure Port (ι ρ : Type) where
  proc : Proc ι ρ
  input : Bytes
  output : Bytes

inductive Moves : Port ι ρ → Port ι ρ → Prop
  | write (b₁ b₂ : Bytes) : b₁ ≠ [] →
      Moves ⟨.writeFull (b₁ ++ b₂) P, input, output⟩ ⟨write b₂ P, input, output ++ b₁⟩
  | read (c : Bytes) : c ≠ [] → c.length ≤ n →
      Moves ⟨.readFull n k, c ++ input, output⟩
        ⟨read (n - c.length) fun r => k (c ++ r), input, output⟩

inductive Takes : Proc ι ρ → Bytes → Proc ι ρ → Prop
  | refl : Takes P [] P
  | readFull (c bs : Bytes) : n ≠ 0 → c.length = n → Takes (k c) bs Q →
      Takes (.readFull n k) (c ++ bs) Q

inductive Gives : Proc ι ρ → Bytes → Proc ι ρ → Prop
  | refl : Gives P [] P
  | writeFull : b ≠ [] → Gives P bs Q → Gives (.writeFull b P) (b ++ bs) Q

variable {ι ρ : Type} {P Q : Proc ι ρ} {k : Bytes → Proc ι ρ}

theorem Takes.read {c bs : Bytes} (hc : c.length = n) (h : Takes (k c) bs Q) : Takes (Proc.read n k) (c ++ bs) Q := by
  rw [Proc.read]
  split
  · next hn =>
    obtain rfl := List.eq_nil_of_length_eq_zero (hc.trans hn)
    exact h
  · next hn => exact .readFull c bs hn hc h

theorem Gives.write (h : Gives P bs Q) : Gives (Proc.write b P) (b ++ bs) Q := by
  rw [Proc.write]
  split
  · next hb => simpa [hb] using h
  · next hb => exact .writeFull hb h

theorem Takes.chunk {c bs : Bytes} (h : Takes (.readFull n k) (c ++ bs) Q) (hc : c ≠ [])
    (hn : c.length ≤ n) : Takes (Proc.read (n - c.length) fun r => k (c ++ r)) bs Q := by
  generalize hP : Proc.readFull n k = P at h
  generalize hb : c ++ bs = b at h
  cases h with
  | refl => exact absurd (List.append_eq_nil_iff.mp hb).1 hc
  | readFull c' bs' _ hlen hrest =>
    cases hP
    obtain ⟨r, rfl⟩ : c <+: c' := List.prefix_of_prefix_length_le (List.prefix_append c bs)
      (hb ▸ List.prefix_append c' bs') (hlen ▸ hn)
    rw [List.append_assoc, List.append_cancel_left_eq] at hb
    subst hb
    exact Takes.read (by rw [← hlen, List.length_append]; omega) hrest

theorem Gives.chunk (h : Gives (.writeFull (b₁ ++ b₂) P) bs Q)
    (hQ : ∀ b P, Q ≠ .writeFull b P) : ∃ rest, bs = b₁ ++ rest ∧ Gives (Proc.write b₂ P) rest Q := by
  generalize hP : Proc.writeFull (b₁ ++ b₂) P = P' at h
  cases h with
  | refl => exact absurd hP.symm (hQ _ _)
  | writeFull _ hrest =>
    cases hP
    exact ⟨_, List.append_assoc .., Gives.write hrest⟩

theorem Takes.moves (h : Takes P bs Q) (input output : Bytes) :
    Relation.ReflTransGen Moves ⟨P, bs ++ input, output⟩ ⟨Q, input, output⟩ := by
  induction h with
  | refl => exact .refl
  | @readFull n k Q c bs hn hc _ ih =>
    have hmove : Moves ⟨.readFull n k, c ++ (bs ++ input), output⟩
        ⟨Proc.read (n - c.length) fun r => k (c ++ r), bs ++ input, output⟩ :=
      .read c (fun h => hn (by simpa [h] using hc.symm)) (Nat.le_of_eq hc)
    rw [hc, Nat.sub_self] at hmove
    rw [List.append_assoc]
    exact .head (by simpa [Proc.read] using hmove) ih

theorem Gives.moves (h : Gives P bs Q) (input output : Bytes) :
    Relation.ReflTransGen Moves ⟨P, input, output⟩ ⟨Q, input, output ++ bs⟩ := by
  induction h generalizing output with
  | refl => simpa using .refl
  | @writeFull b P bs Q hb _ ih =>
    have hmove : Moves ⟨.writeFull (b ++ []) P, input, output⟩
        ⟨Proc.write [] P, input, output ++ b⟩ := .write b [] hb
    rw [← List.append_assoc]
    exact .head (by simpa [Proc.write] using hmove) (ih _)

theorem Gives.eq_of_nil (h : Gives P [] Q) : P = Q := by
  generalize hb : ([] : Bytes) = bs at h
  cases h with
  | refl => rfl
  | writeFull hne => exact absurd (List.append_eq_nil_iff.mp hb.symm).1 hne

theorem Takes.writeFull (h : Takes (.writeFull b P) bs Q) : Q = .writeFull b P := by
  cases h
  rfl

theorem Takes.done (h : Takes (.done r : Proc ι ρ) bs Q) : Q = .done r := by
  cases h
  rfl

theorem Takes.act {i : ι} {k : UInt8 → Proc ι ρ} {bs : Bytes} (h : Takes (.act i k) bs Q) :
    bs = [] ∧ Q = .act i k := by
  cases h
  exact ⟨rfl, rfl⟩

end Proc

end StainedGlass.Lib
