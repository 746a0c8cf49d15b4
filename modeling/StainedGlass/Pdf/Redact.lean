import Mathlib

/-! Rectangles out of rectangles and of segments, `pdf/sgpdf.py`, with exact coordinates. -/

namespace StainedGlass.Pdf.Redact

variable {K : Type} [Field K] [LinearOrder K]

structure Point (K : Type) where
  x : K
  y : K
  deriving DecidableEq

structure Rect (K : Type) where
  x0 : K
  y0 : K
  x1 : K
  y1 : K
  deriving DecidableEq

namespace Rect

def width (r : Rect K) : K := max 0 (r.x1 - r.x0)

def height (r : Rect K) : K := max 0 (r.y1 - r.y0)

def isEmpty (r : Rect K) : Bool := decide (r.x1 ≤ r.x0 ∨ r.y1 ≤ r.y0)

def infinite : Rect K := ⟨-2147483648, -2147483648, 2147483520, 2147483520⟩

def intersect (r s : Rect K) : Rect K :=
  ⟨max r.x0 s.x0, max r.y0 s.y0, min r.x1 s.x1, min r.y1 s.y1⟩

def intersects (r s : Rect K) : Bool :=
  if r.isEmpty || decide (r = infinite) || s.isEmpty || decide (s = infinite) then false
  else !(r.intersect s).isEmpty

def around (p h : Rect K) : List (Rect K) :=
  let y0 := max p.y0 h.y0
  let y1 := min p.y1 h.y1
  (if h.y0 > p.y0 then [⟨p.x0, p.y0, p.x1, h.y0⟩] else []) ++
  (if h.y1 < p.y1 then [⟨p.x0, h.y1, p.x1, p.y1⟩] else []) ++
  (if h.x0 > p.x0 then [⟨p.x0, y0, h.x0, y1⟩] else []) ++
  (if h.x1 < p.x1 then [⟨h.x1, y0, p.x1, y1⟩] else [])

def cut (h p : Rect K) : List (Rect K) := if p.intersects h then around p h else [p]

def isLarge (p : Rect K) : Bool := p.width > 1 / 100 && p.height > 1 / 100

end Rect

def takeOut (pieces : List (Rect K)) (h : Rect K) : List (Rect K) :=
  (pieces.flatMap (Rect.cut h)).filter Rect.isLarge

def rectMinus (r : Rect K) (holes : List (Rect K)) : List (Rect K) := holes.foldl takeOut [r]

def clip (known : K × K) (c : K × K) : Option (K × K) :=
  if |c.1| < 1 / 10 ^ 12 then if c.2 < 0 then none else some known
  else if c.1 < 0 then some (max known.1 (c.2 / c.1), known.2)
  else some (known.1, min known.2 (c.2 / c.1))

def sides (a b : Point K) (h : Rect K) : List (K × K) :=
  let dx := b.x - a.x
  let dy := b.y - a.y
  [(-dx, a.x - h.x0), (dx, h.x1 - a.x), (-dy, a.y - h.y0), (dy, h.y1 - a.y)]

def inside (a b : Point K) (h : Rect K) : Option (K × K) := (sides a b h).foldlM clip (0, 1)

def split (t0 t1 : K) (i : K × K) : List (K × K) :=
  if i.2 ≤ t0 ∨ i.1 ≥ t1 then [i]
  else (if i.1 < t0 then [(i.1, t0)] else []) ++ (if i.2 > t1 then [(t1, i.2)] else [])

def keepOutside (a b : Point K) (keep : List (K × K)) (h : Rect K) : List (K × K) :=
  match inside a b h with
  | none => keep
  | some (t0, t1) => if t0 ≥ t1 then keep else keep.flatMap (split t0 t1)

def kept (a b : Point K) (holes : List (Rect K)) : List (K × K) :=
  holes.foldl (keepOutside a b) [(0, 1)]

def along (a b : Point K) (t : K) : Point K := ⟨a.x + (b.x - a.x) * t, a.y + (b.y - a.y) * t⟩

def isLong (a b : Point K) (i : K × K) : Bool :=
  (i.2 - i.1) ^ 2 * ((b.x - a.x) ^ 2 + (b.y - a.y) ^ 2) > (1 / 20) ^ 2

def segmentMinus (a b : Point K) (holes : List (Rect K)) : List (Point K × Point K) :=
  ((kept a b holes).filter (isLong a b)).map fun i => (along a b i.1, along a b i.2)

end StainedGlass.Pdf.Redact
