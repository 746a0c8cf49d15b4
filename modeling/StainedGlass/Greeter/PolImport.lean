import StainedGlass.Lib.RegFile

/-! Group Policy files as registry text, `greeter/sg-polimport.c`. -/

namespace StainedGlass.Greeter.PolImport

open Lib

def u16 : Bytes → Option (UInt16 × Bytes)
  | a :: b :: rest => some (UInt16.ofNat (a.toNat + b.toNat * 256), rest)
  | _ => none

def u32 : Bytes → Option (UInt32 × Bytes)
  | a :: b :: c :: d :: rest => some (ofLe32 [a, b, c, d], rest)
  | _ => none

def expect (want : UInt16) (b : Bytes) : Option Bytes :=
  match u16 b with
  | some (c, rest) => if c = want then some rest else none
  | none => none

def encodeUnit (u : UInt16) : Bytes :=
  if u.toNat < 0x80 then [UInt8.ofNat u.toNat]
  else if u.toNat < 0x800 then
    [UInt8.ofNat (u.toNat / 64 + 192), UInt8.ofNat (u.toNat % 64 + 128)]
  else
    [UInt8.ofNat (u.toNat / 4096 + 224), UInt8.ofNat (u.toNat / 64 % 64 + 128),
      UInt8.ofNat (u.toNat % 64 + 128)]

def wstrFrom (size : Nat) (out : Bytes) : Bytes → Option (Bytes × Bytes)
  | a :: b :: rest =>
    let c := UInt16.ofNat (a.toNat + b.toNat * 256)
    if c = 0 then some (out, rest)
    else if out.length + (encodeUnit c).length < size then wstrFrom size (out ++ encodeUnit c) rest
    else none
  | _ => none

def wstr (size : Nat) (b : Bytes) : Option (Bytes × Bytes) := wstrFrom size [] b

def keySize : Nat := 8192

def valSize : Nat := 2048

structure Read where
  key : Bytes
  val : Bytes
  type : UInt32
  data : Bytes
  rest : Bytes

def readEntry (b : Bytes) : Option Read := do
  let b ← expect 91 b
  let (key, b) ← wstr keySize b
  let b ← expect 59 b
  let (val, b) ← wstr valSize b
  let b ← expect 59 b
  let (type, b) ← u32 b
  let b ← expect 59 b
  let (dsize, b) ← u32 b
  let b ← expect 59 b
  if b.length < dsize.toNat then none
  else return ⟨key, val, type, b.take dsize.toNat, b.drop dsize.toNat⟩

def Read.text (r : Read) : Bytes :=
  ascii "[HKEY_LOCAL_MACHINE\\" ++ r.key ++ ascii "]\n" ++
    (ascii "\"" ++ r.val ++ ascii "\"=hex(" ++ hexNumber r.type.toNat ++ ascii "):" ++
      [44].intercalate (r.data.map fun b => hex 2 b.toNat) ++ ascii "\n\n")

theorem length_of_expect {want : UInt16} {b rest : Bytes} (h : expect want b = some rest) :
    rest.length < b.length := by
  rcases b with - | ⟨x, - | ⟨y, b⟩⟩
  · cases h
  · cases h
  · rw [expect, u16] at h
    dsimp only at h
    split at h
    · cases h
      simp
    · cases h

theorem length_of_u32 {b : Bytes} {r : UInt32 × Bytes} (h : u32 b = some r) :
    r.2.length < b.length := by
  rcases b with - | ⟨x, - | ⟨y, - | ⟨z, - | ⟨w, b⟩⟩⟩⟩ <;> cases h
  simp only [List.length_cons]
  omega

theorem length_of_wstrFrom {size : Nat} {out b : Bytes} {r : Bytes × Bytes}
    (h : wstrFrom size out b = some r) : r.2.length < b.length := by
  fun_induction wstrFrom size out b with
  | case1 out a b rest c hc =>
    cases h
    simp
  | case2 out a b rest c hc hfit ih =>
    have := ih h
    simp only [List.length_cons]
    omega
  | case3 => cases h
  | case4 => cases h

theorem length_of_readEntry {b : Bytes} {r : Read} (h : readEntry b = some r) :
    r.rest.length < b.length := by
  obtain ⟨b₁, h₁, h⟩ := Option.bind_eq_some_iff.mp h
  obtain ⟨b₂, h₂, h⟩ := Option.bind_eq_some_iff.mp h
  obtain ⟨b₃, h₃, h⟩ := Option.bind_eq_some_iff.mp h
  obtain ⟨b₄, h₄, h⟩ := Option.bind_eq_some_iff.mp h
  obtain ⟨b₅, h₅, h⟩ := Option.bind_eq_some_iff.mp h
  obtain ⟨b₆, h₆, h⟩ := Option.bind_eq_some_iff.mp h
  obtain ⟨b₇, h₇, h⟩ := Option.bind_eq_some_iff.mp h
  obtain ⟨b₈, h₈, h⟩ := Option.bind_eq_some_iff.mp h
  obtain ⟨b₉, h₉, h⟩ := Option.bind_eq_some_iff.mp h
  have := length_of_expect h₁
  have := length_of_wstrFrom h₂
  have := length_of_expect h₃
  have := length_of_wstrFrom h₄
  have := length_of_expect h₅
  have := length_of_u32 h₆
  have := length_of_expect h₇
  have := length_of_u32 h₈
  have := length_of_expect h₉
  split at h
  · cases h
  · cases h
    rw [List.length_drop]
    omega

def entries (b : Bytes) : Bytes :=
  if b = [] then []
  else
    match h : readEntry b with
    | none => []
    | some r =>
      match h' : expect 93 r.rest with
      | none => r.text
      | some rest =>
        have := (length_of_expect h').trans (length_of_readEntry h)
        r.text ++ entries rest
termination_by b.length

def polimport (file : Bytes) : Option Bytes :=
  if file.length < 8 then none
  else if file.take 4 ≠ ascii "PReg" then none
  else some (ascii "Windows Registry Editor Version 5.00\n\n" ++ entries (file.drop 8))

end StainedGlass.Greeter.PolImport
