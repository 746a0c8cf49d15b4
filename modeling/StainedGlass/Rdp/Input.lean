import Mathlib

/-! Keyboard and pointer input of a remote client, `rdp/sg-rdp-stream.c`. -/

namespace StainedGlass.Rdp

def maxKeys : Nat := 256

def keyLeftShift : Nat := 42

def btnLeft : Nat := 0x110

def btnTask : Nat := 0x117

inductive Thing
  | key (evdev : Nat)
  | button (button : Nat)
deriving DecidableEq

structure Sent where
  thing : Thing
  down : Bool
deriving DecidableEq

def held (log : List Sent) : Thing → Bool :=
  log.foldl (fun h e => Function.update h e.thing e.down) fun _ => false

structure Input where
  gone : Bool
  viewOnly : Bool
  keysDown : Nat → Bool
  buttonsDown : BitVec 32
  log : List Sent

/-- `first kc level` is the key's first symbol there, `keysym` a code point's symbol, 0 for none. -/
structure Keymap where
  minKeycode : Nat
  maxKeycode : Nat
  first : Nat → Nat → Option Nat
  keysym : Nat → Nat

namespace Keymap

def places (km : Keymap) : List (Nat × Nat) :=
  [0, 1].flatMap fun level =>
    (List.range' km.minKeycode (km.maxKeycode + 1 - km.minKeycode)).map fun kc => (level, kc)

def find (km : Keymap) (sym : Nat) : Option (Nat × Nat) :=
  km.places.find? fun p => km.first p.2 p.1 == some sym

end Keymap

def evdevOf (kc : Nat) : Nat := (kc + (2 ^ 32 - 8)) % 2 ^ 32

namespace Input

def sgStreamKey (evdev : Nat) (down : Bool) (s : Input) : Input :=
  if s.gone || s.viewOnly || evdev == 0 || decide (evdev ≥ maxKeys) then s
  else if !down && !s.keysDown evdev then s
  else { s with
    keysDown := Function.update s.keysDown evdev down
    log := s.log ++ [⟨.key evdev, down⟩] }

def typeKey (level evdev : Nat) (s : Input) : Input :=
  let s := if level != 0 then s.sgStreamKey keyLeftShift true else s
  let s := (s.sgStreamKey evdev true).sgStreamKey evdev false
  if level != 0 then s.sgStreamKey keyLeftShift false else s

def sgStreamUnicode (km : Keymap) (codepoint : Nat) (s : Input) : Input :=
  let sym := km.keysym codepoint
  if s.gone || s.viewOnly || sym == 0 then s
  else match km.find sym with
    | none => s
    | some (level, kc) => s.typeKey level (evdevOf kc)

def sgStreamButton (button : Nat) (down : Bool) (s : Input) : Input :=
  if s.gone || s.viewOnly || decide (button < btnLeft) || decide (button > btnTask) then s
  else
    let bit : BitVec 32 := 1#32 <<< (button - btnLeft)
    if !down && s.buttonsDown &&& bit == 0 then s
    else { s with
      buttonsDown := if down then s.buttonsDown ||| bit else s.buttonsDown &&& ~~~bit
      log := s.log ++ [⟨.button button, down⟩] }

def releaseKey (s : Input) (k : Nat) : Input :=
  if s.keysDown k then s.sgStreamKey k false else s

def releaseButton (s : Input) (b : Nat) : Input :=
  if s.buttonsDown &&& (1#32 <<< b) != 0 then s.sgStreamButton (btnLeft + b) false else s

def sgStreamReleaseAll (s : Input) : Input :=
  (List.range 32).foldl releaseButton ((List.range maxKeys).foldl releaseKey s)

end Input

inductive ClientAct
  | key (evdev : Nat) (down : Bool)
  | button (button : Nat) (down : Bool)
  | text (codepoint : Nat)
  | releaseAll

def Input.act (km : Keymap) (s : Input) : ClientAct → Input
  | .key evdev down => s.sgStreamKey evdev down
  | .button button down => s.sgStreamButton button down
  | .text codepoint => s.sgStreamUnicode km codepoint
  | .releaseAll => s.sgStreamReleaseAll

def Input.start : Input := ⟨false, false, fun _ => false, 0, []⟩

end StainedGlass.Rdp
