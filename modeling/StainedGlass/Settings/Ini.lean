import StainedGlass.Lib.Text

/-! One value in the `[Settings]` group of a file: `set_ini` of `bin/sg-settingsctl`. -/

namespace StainedGlass.Settings

open Lib

variable (u : Unicode) (key value : Str)

def settings : Str := str "Settings"

def settingsLine : Str := str "[Settings]"

/-- `\s*\[(.*)\]\s*$`. -/
def header (line : Str) : Option Str :=
  match u.strip line with
  | 91 :: rest => if rest.getLast? = some 93 then some rest.dropLast else none
  | _ => none

/-- `\s*key\s*=`. -/
def assigns (line : Str) : Bool :=
  (List.range (line.length + 1)).any fun i =>
    (line.take i).all u.space && key.isPrefixOf (line.drop i) &&
      ((line.drop (i + key.length)).dropWhile u.space).head? = some 61

def assignment : Str := key ++ 61 :: value

structure Loop where
  out : List Str
  group : Option Str
  done : Bool

def Loop.put (s : Loop) (line : Str) : Loop := { s with out := s.out ++ [line] }

def Loop.set (s : Loop) : Loop := if s.done then s else { s.put (assignment key value) with done := true }

def Loop.step (s : Loop) (line : Str) : Loop :=
  match header u line with
  | some group => { (if s.group = some settings then s.set key value else s).put line with group := some group }
  | none => if s.group = some settings ∧ assigns u key line then s.set key value else s.put line

def setLines (lines : List Str) : List Str :=
  let s := lines.foldl (Loop.step u key value) ⟨[], none, false⟩
  if s.done then s.out
  else if s.group ≠ some settings ∧ settingsLine ∉ lines then s.out ++ [settingsLine, assignment key value]
  else s.out ++ [assignment key value]

def setIni (file : Option Str) : Str := joinLines (setLines u key value (splitlines (file.getD [])))

end StainedGlass.Settings
