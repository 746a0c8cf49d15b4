import StainedGlass.Pdf.DictText

/-! The grammar of objects in a PDF file, as MuPDF prints them. -/

namespace StainedGlass.Pdf

open Lib

def isRegular (c : Nat) : Bool := 33 ≤ c && c ≤ 126 && c ∉ str "()<>[]\x7b\x7d/%"

def isDigit (c : Nat) : Bool := 48 ≤ c && c ≤ 57

def isWord (c : Nat) : Bool :=
  isDigit c || (65 ≤ c && c ≤ 90) || (97 ≤ c && c ≤ 122) || c = 95 || c = 45 || c = 43 || c = 46

def isHexDigit (c : Nat) : Bool := isDigit c || (65 ≤ c && c ≤ 70) || (97 ≤ c && c ≤ 102)

inductive Balanced : Str → Prop
  | nil : Balanced []
  | char {c : Nat} {t : Str} (hc : c ≠ 40 ∧ c ≠ 41 ∧ c ≠ 92) (h : Balanced t) : Balanced (c :: t)
  | escape {c : Nat} {t : Str} (h : Balanced t) : Balanced (92 :: c :: t)
  | nest {t t' : Str} (h : Balanced t) (h' : Balanced t') : Balanced (40 :: t ++ 41 :: t')

structure Entry where
  before : Str
  key : Str
  gap : Str
  value : Str

def Entry.text (e : Entry) : Str := e.before ++ 47 :: (e.key ++ (e.gap ++ e.value))

def IsWhite (s : Str) : Prop := ∀ c ∈ s, isWhite c = true

def Apart (before gap after : Str) : Prop :=
  gap = [] → before.getLast?.any isRegular → after.head?.all fun c => !isRegular c

structure Entry.Spaced (e : Entry) : Prop where
  before : IsWhite e.before
  key : ∀ c ∈ e.key, isRegular c = true
  gap : IsWhite e.gap
  apart : e.gap = [] → e.value.head?.all fun c => !isRegular c

structure Item where
  gap : Str
  value : Str

def Item.text (x : Item) : Str := x.gap ++ x.value

inductive Value : Str → Prop
  | name {n : Str} (h : ∀ c ∈ n, isRegular c = true) : Value (47 :: n)
  | word {w : Str} (h : ∀ c ∈ w, isWord c = true) (hne : w ≠ []) : Value w
  | ref {num gen gap gap' : Str} (hnum : ∀ c ∈ num, isDigit c = true) (hnum' : num ≠ [])
      (hgap : IsWhite gap) (hgap' : gap ≠ []) (hgen : ∀ c ∈ gen, isDigit c = true) (hgen' : gen ≠ [])
      (hlast : IsWhite gap') (hlast' : gap' ≠ []) : Value (num ++ (gap ++ (gen ++ (gap' ++ [82]))))
  | string {t : Str} (h : Balanced t) : Value (40 :: (t ++ [41]))
  | hex {t : Str} (h : ∀ c ∈ t, isHexDigit c = true) : Value (60 :: (t ++ [62]))
  | array {items : List Item} {tail : Str} (htail : IsWhite tail)
      (hgap : ∀ x ∈ items, IsWhite x.gap)
      (hapart : items.IsChain fun x y => Apart x.value y.gap y.value)
      (hvalue : ∀ x ∈ items, Value x.value) : Value (91 :: (items.flatMap Item.text ++ (tail ++ [93])))
  | dict {es : List Entry} {tail : Str} (htail : IsWhite tail) (hspaced : ∀ e ∈ es, e.Spaced)
      (hvalue : ∀ e ∈ es, Value e.value) :
      Value (60 :: 60 :: (es.flatMap Entry.text ++ (tail ++ [62, 62])))

def isPlain (c : Nat) : Bool := c ∉ str "(<>[]"

def IsPlain (s : Str) : Prop := ∀ c ∈ s, isPlain c = true

theorem isRegular_of_isWord (h : isWord c = true) : isRegular c = true := by
  have hlt : c < 128 := by
    simp only [isWord, isDigit, Bool.or_eq_true, Bool.and_eq_true, decide_eq_true_eq] at h
    omega
  have hall : ∀ c < 128, isWord c = true → isRegular c = true := by decide
  exact hall c hlt h

theorem isWord_of_isHexDigit (h : isHexDigit c = true) : isWord c = true := by
  simp only [isHexDigit, isWord, isDigit, Bool.or_eq_true, Bool.and_eq_true, decide_eq_true_eq] at h ⊢
  omega

theorem isWord_of_isDigit (h : isDigit c = true) : isWord c = true := by
  simp [isWord, h]

theorem isPlain_of_isRegular (h : isRegular c = true) : isPlain c = true := by
  have hlt : c < 128 := by
    simp only [isRegular, Bool.and_eq_true, decide_eq_true_eq] at h
    omega
  have hall : ∀ c < 128, isRegular c = true → isPlain c = true := by decide
  exact hall c hlt h

theorem isWhite_lt (h : isWhite c = true) : c < 128 := by
  have hall : ∀ c ∈ str " \r\n\t", c < 128 := by decide
  exact hall c (by simpa [isWhite] using h)

theorem isPlain_of_isWhite (h : isWhite c = true) : isPlain c = true := by
  have hall : ∀ c < 128, isWhite c = true → isPlain c = true := by decide
  exact hall c (isWhite_lt h) h

theorem IsWhite.isPlain (h : IsWhite s) : IsPlain s := fun c hc => isPlain_of_isWhite (h c hc)

theorem isPlain_cons (hc : isPlain c = true) (h : IsPlain s) : IsPlain (c :: s) :=
  List.forall_mem_cons.mpr ⟨hc, h⟩

theorem IsPlain.append (hs : IsPlain s) (ht : IsPlain t) : IsPlain (s ++ t) :=
  List.forall_mem_append.mpr ⟨hs, ht⟩

theorem ne_of_isPlain (hc : isPlain c = true) (hd : isPlain d = false) : c ≠ d := by
  rintro rfl
  exact absurd (hc.symm.trans hd) (by simp)

end StainedGlass.Pdf
