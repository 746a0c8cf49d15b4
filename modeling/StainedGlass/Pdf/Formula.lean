import StainedGlass.Lib.Text

/-! Formulas of form fields, `pdf/sgpdf_forms.py`. The parser is given what is left of the tokens. -/

namespace StainedGlass.Pdf.Forms

open Lib

inductive Op
  | plus
  | minus
  | star
  | slash
  | left
  | right
  deriving DecidableEq

inductive Token
  | num (text : Str)
  | op (o : Op)
  | name (n : Str)
  deriving DecidableEq

inductive Failure
  | form (message : Str)
  /-- `float` of what is no number. -/
  | value
  deriving DecidableEq

namespace Parser

abbrev Result (α : Type) := Except Failure (α × List Token)

def endsTooSoon : Failure := .form (str "the formula ends too soon")
def notClosed : Failure := .form (str "a bracket is not closed")
def misplaced : Failure := .form (str "the formula has an operator where a value belongs")
def endsTooLate : Failure := .form (str "the formula does not end where it should")

def sumOp : Op → Option (ℚ → ℚ → ℚ)
  | .plus => some (· + ·)
  | .minus => some (· - ·)
  | _ => none

def productOp : Op → Option (ℚ → ℚ → ℚ)
  | .star => some (· * ·)
  | .slash => some fun v w => if w ≠ 0 then v / w else 0
  | _ => none

def chain {α β : Type} (operand : List Token → Result β) (combine : Op → Option (α → β → α)) :
    Nat → α → List Token → Result α
  | n + 1, v, .op o :: ts =>
    match combine o with
    | some f =>
      match operand ts with
      | .ok (w, rest) => chain operand combine n (f v w) rest
      | .error e => .error e
    | none => .ok (v, .op o :: ts)
  | _, v, ts => .ok (v, ts)

def chained {α β : Type} (operand : List Token → Result β) (first : β → α)
    (combine : Op → Option (α → β → α)) (ts : List Token) : Result α :=
  match operand ts with
  | .ok (v, rest) => chain operand combine rest.length (first v) rest
  | .error e => .error e

def term (factor : List Token → Result ℚ) : List Token → Result ℚ := chained factor id productOp

def expr (factor : List Token → Result ℚ) : List Token → Result ℚ := chained (term factor) id sumOp

def closed {α : Type} : Result α → Result α
  | .ok (v, .op .right :: rest) => .ok (v, rest)
  | .ok _ => .error notClosed
  | .error e => .error e

variable (digit : Nat → Option Nat) (valueOf : Str → ℚ)

def factor : Nat → List Token → Result ℚ
  | 0, _ => .error endsTooSoon
  | _ + 1, [] => .error endsTooSoon
  | _ + 1, .num text :: ts =>
    match decimal? digit text with
    | some v => .ok (v, ts)
    | none => .error .value
  | _ + 1, .name n :: ts => .ok (valueOf n, ts)
  | n + 1, .op .minus :: ts => (factor n ts).map fun r => (-r.1, r.2)
  | n + 1, .op .plus :: ts => factor n ts
  | n + 1, .op .left :: ts => closed (expr (factor n) ts)
  | _ + 1, .op _ :: _ => .error misplaced

def parse (ts : List Token) : Except Failure ℚ :=
  match expr (factor digit valueOf ts.length) ts with
  | .ok (v, []) => .ok v
  | .ok _ => .error endsTooLate
  | .error e => .error e

end Parser

end StainedGlass.Pdf.Forms
