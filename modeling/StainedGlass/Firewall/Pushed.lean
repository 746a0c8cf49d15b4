import StainedGlass.Firewall.Jobs
import StainedGlass.Firewall.Registry

/-! `registry-push` of `bin/sg-firewall`. -/

namespace StainedGlass.Firewall

open Lib

/-- How times are written (`"%f"`) and read (`float`): what is read of a time written is that
time to the microsecond. -/
structure Stamps where
  text : Nat → Str
  value : Str → Option Nat
  round : Nat → Nat
  value_text : ∀ t, value (text t) = some (round t)
  round_round : ∀ t, round (round t) = round t
  text_line : ∀ t, ∀ c ∈ text t, c ≠ 9 ∧ c ≠ 10 ∧ c ≠ 13

structure Push where
  time : Nat
  id : Str
  text : Str
  deriving DecidableEq

def hour : Nat := 3600000000

def threeParts (line : Str) : Option (Str × Str × Str) :=
  match line.span (· ≠ 9) with
  | (a, _ :: rest) =>
    match rest.span (· ≠ 9) with
    | (b, _ :: c) => some (a, b, c)
    | _ => none
  | _ => none

def readPushedLines (st : Stamps) : List Str → List Push
  | [] => []
  | line :: lines =>
    match threeParts line with
    | none => readPushedLines st lines
    | some (time, id, text) =>
      match st.value time with
      | some t => ⟨t, id, text⟩ :: readPushedLines st lines
      | none => []

def readPushed (st : Stamps) : Option Str → List Push
  | none => []
  | some text => readPushedLines st ((universalNewlines text).splitOn 10)

def pushLine (st : Stamps) (p : Push) : Str := st.text p.time ++ 9 :: (p.id ++ 9 :: (p.text ++ [10]))

def pushedText (st : Stamps) (ps : List Push) : Str := ps.flatMap (pushLine st)

def pushRegistry (st : Stamps) (file : Option Str) (p : Push) : Option Str :=
  if !pushChecks p.id p.text then none
  else
    let keep := (readPushed st file).filter fun q => p.time < q.time + hour
    let text := pushedText st (keep ++ [p])
    if text.any isSurrogate then none else some text

def pushAll (st : Stamps) (file : Option Str) (ps : List Push) : Option (Option Str) :=
  ps.foldlM (fun file p => (pushRegistry st file p).map some) file

def isSetting (id : Str) : Bool := startsWith id (str "setting:")

def ruleValue (text : Str) : Option Str := if text = [] then none else some text

def effectiveRegistry (own : Str → Option Str) (mtime : Nat) (pushed : List Push) : Str → Option Str :=
  pushed.foldl (fun rules p =>
    if p.time > mtime ∧ !isSetting p.id then Function.update rules p.id (ruleValue p.text)
    else rules) own

def Setting.text : Setting → Str
  | .doNotAllowExceptions => str "DoNotAllowExceptions"
  | .defaultInboundAction => str "DefaultInboundAction"
  | .disableNotifications => str "DisableNotifications"
  | .allowInboundEchoRequest => str "AllowInboundEchoRequest"

def settingOrder : List Setting :=
  [.doNotAllowExceptions, .defaultInboundAction, .disableNotifications, .allowInboundEchoRequest]

def settingOf (id : Str) : Option (Profile × Setting) :=
  match id.splitOn 58 with
  | [_, p, s] => (profileOf p).bind fun p => (settingOrder.find? (·.text = s)).map (p, ·)
  | _ => none

def intOf (u : Unicode) (text : Str) : Option Nat :=
  if text.length ≤ 4300 then digitsValue u.digit text else none

/-- What a push makes of a setting; none is the exception that `int` raises. -/
def settingValue (u : Unicode) (isDigit : Nat → Bool) (text : Str) : Option (Option Nat) :=
  if text ≠ [] ∧ text.all isDigit then (intOf u text).map some else some none

abbrev Settings := Profile × Setting → Option Nat

def applySetting (u : Unicode) (isDigit : Nat → Bool) (mtime : Nat) (settings : Settings) (p : Push) :
    Option Settings :=
  if p.time > mtime ∧ isSetting p.id then
    match settingOf p.id with
    | some k => (settingValue u isDigit p.text).map fun v => Function.update settings k v
    | none => some settings
  else some settings

def effectiveSettings (u : Unicode) (isDigit : Nat → Bool) (own : Settings) (mtime : Nat)
    (pushed : List Push) : Option Settings :=
  pushed.foldlM (applySetting u isDigit mtime) own

end StainedGlass.Firewall
