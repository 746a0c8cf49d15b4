import StainedGlass.Rdp.Planar

/-! Sending a captured frame, `rdp/sg-rdp-stream.c`. -/

namespace StainedGlass.Rdp

open Planar

def tile : Nat := 64

/-- Rows of 32-bit pixels in a shared memory pool, whose size is an `int32`. -/
structure Frame where
  width : Nat
  height : Nat
  stride : Nat
  data : Nat → UInt8
  row_fits : 4 * width ≤ stride
  pool_fits : stride * height < 2 ^ 31

structure Rect where
  x : Nat
  y : Nat
  w : Nat
  h : Nat
deriving DecidableEq

namespace Frame

def tileAt (f : Frame) (ty tx : Nat) : Rect where
  x := tx * tile
  y := ty * tile
  w := if f.width - tx * tile < tile then f.width - tx * tile else tile
  h := if f.height - ty * tile < tile then f.height - ty * tile else tile

def cols (f : Frame) : Nat := (f.width + tile - 1) / tile

def rows (f : Frame) : Nat := (f.height + tile - 1) / tile

def tiles (f : Frame) : List Rect :=
  (List.range f.rows).flatMap fun ty => (List.range f.cols).map (f.tileAt ty)

def offset (f : Frame) (r : Rect) (row : Nat) : Nat := (r.y + row) * f.stride + r.x * 4

end Frame

structure Stream where
  frame : Frame
  prev : Nat → UInt8
  havePrev : Bool
  planar : Bool
  encoded : List UInt8
  gone : Bool

namespace Stream

def tileChanged (s : Stream) (r : Rect) : Bool :=
  !s.havePrev || (List.range r.h).any fun row => (List.range (r.w * 4)).any fun i =>
    s.frame.data (s.frame.offset r row + i) != s.prev (s.frame.offset r row + i)

def copyRow (src : Nat → UInt8) (off len : Nat) (dst : Nat → UInt8) : Nat → UInt8 :=
  fun a => if off ≤ a ∧ a < off + len then src a else dst a

def rememberTile (s : Stream) (r : Rect) : Stream :=
  let copy (prev : Nat → UInt8) (row : Nat) :=
    copyRow s.frame.data (s.frame.offset r row) (r.w * 4) prev
  { s with prev := (List.range r.h).foldl copy s.prev }

def bitmap (s : Stream) (r : Rect) : Bitmap where
  pixels := fun a => s.frame.data (s.frame.offset r 0 + a)
  stride := s.frame.stride
  w := r.w
  h := r.h

def rawRow (s : Stream) (r : Rect) (row : Nat) : List UInt8 :=
  (List.range r.w).flatMap fun c =>
    let a := s.frame.offset r row + c * 4
    [s.frame.data a, s.frame.data (a + 1), s.frame.data (a + 2), 0xff]

def rawTile (s : Stream) (r : Rect) : List UInt8 :=
  (List.range r.h).flatMap fun k => s.rawRow r (r.h - 1 - k)

def encodeTile (s : Stream) (alloc : Bool) (r : Rect) : Stream × Option (List UInt8) :=
  if s.planar then
    let e := sgPlanarEncode (s.bitmap r) s.encoded
    ({ s with encoded := e.1 }, if e.2 = 0 || !alloc then none else some (e.1.take e.2))
  else (s, if alloc then some (s.rawTile r) else none)

end Stream

structure BitmapData where
  destLeft : Nat
  destTop : Nat
  destRight : Nat
  destBottom : Nat
  width : Nat
  height : Nat
  bitsPerPixel : Nat
  compressed : Bool
  bitmapDataStream : List UInt8
  bitmapLength : Nat
  cbCompMainBodySize : Nat
  cbScanWidth : Nat
  cbUncompressedSize : Nat

def BitmapData.ofTile (planar : Bool) (r : Rect) (data : List UInt8) : BitmapData where
  destLeft := r.x
  destTop := r.y
  destRight := r.x + r.w - 1
  destBottom := r.y + r.h - 1
  width := r.w
  height := r.h
  bitsPerPixel := 32
  compressed := planar
  bitmapDataStream := data
  bitmapLength := data.length
  cbCompMainBodySize := data.length
  cbScanWidth := r.w * 4
  cbUncompressedSize := r.w * r.h * 4

def BitmapData.rect (d : BitmapData) : Rect := ⟨d.destLeft, d.destTop, d.width, d.height⟩

structure Memory where
  table : Bool
  alloc : Rect → Bool

structure Surroundings extends Memory where
  accepts : Nat → Bool

structure Sending where
  stream : Stream
  tiles : List BitmapData
  bytes : Nat
  updates : List (List BitmapData)

namespace Sending

def flushUpdate (env : Surroundings) (st : Sending) : Sending × Bool :=
  if st.tiles.isEmpty then (st, true)
  else ({ st with updates := st.updates ++ [st.tiles] }, env.accepts st.updates.length)

def lose (st : Sending) : Sending := { st with stream := { st.stream with gone := true } }

def clear (st : Sending) : Sending := { st with tiles := [], bytes := 0 }

def makeRoom (env : Surroundings) (max size : Nat) (st : Sending) : Except Sending Sending :=
  if !st.tiles.isEmpty && decide ((st.bytes + size + 64) % 2 ^ 32 > max - 1024) then
    let (st, ok) := st.flushUpdate env
    if ok then .ok st.clear else .error st.lose
  else .ok st

def addTile (r : Rect) (data : List UInt8) (st : Sending) : Sending where
  stream := st.stream.rememberTile r
  tiles := st.tiles ++ [.ofTile st.stream.planar r data]
  bytes := (st.bytes + data.length + 64) % 2 ^ 32
  updates := st.updates

def sendTile (env : Surroundings) (max : Nat) (st : Sending) (r : Rect) : Except Sending Sending :=
  if !st.stream.tileChanged r then .ok st
  else
    let e := st.stream.encodeTile (env.alloc r) r
    let st := { st with stream := e.1 }
    match e.2 with
    | none => .ok st
    | some data => (st.makeRoom env max data.length).map (addTile r data)

def finish (env : Surroundings) (st : Sending) : Sending :=
  let (st, ok) := st.flushUpdate env
  let st := if ok then st else st.lose
  { st with stream := { st.stream with havePrev := true } }

end Sending

def requestSize (announced : Nat) : Nat := if announced < 16384 then 16384 else announced

def sendFrame (env : Surroundings) (announced : Nat) (s : Stream) :
    Stream × List (List BitmapData) :=
  if !env.table then (s, [])
  else
    match s.frame.tiles.foldlM (Sending.sendTile env (requestSize announced)) ⟨s, [], 0, []⟩ with
    | .error st => (st.stream, st.updates)
    | .ok st => ((st.finish env).stream, (st.finish env).updates)

end StainedGlass.Rdp
