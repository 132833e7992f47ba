import TensorGraph.Random.Stream

/-!
# Standard normal draws

The ziggurat method with 256 layers of equal area under `exp (-x² / 2)`, in double precision.
Layer zero holds the tail beyond `Ziggurat.tailStart`. A draw picks a layer and a point of it and is
accepted when the point lies under the curve, which is tried first without evaluating the curve.

The method draws until it accepts, so the draws take a bound on the number of attempts; a draw is
refused with probability below `0.03` each time, so `attemptLimit` is never reached in practice.
-/

namespace TensorGraph

/-- How often a rejected draw is repeated before the sampler gives up. -/
def attemptLimit : Nat := 1000

namespace Ziggurat

/-- Where the tail in layer zero begins. -/
def tailStart : Float := 3.654152885361008796

/-- The area of every layer. -/
def layerArea : Float := 0.00492867323399

/-- The curve, the normal density without its constant factor. -/
def density (x : Float) : Float := Float.exp (-(x * x) / 2)

/-- The right end of the layer above one whose right end is `x`. -/
def endAbove (x : Float) : Float := Float.sqrt (-2 * Float.log (layerArea / x + density x))

/-- The right ends of `n` layers, each above the one before. -/
def ends : Nat → Float → List Float
  | 0, _ => []
  | n + 1, x => x :: ends n (endAbove x)

/-- The right ends of the layers. The first is that of a box with the area of the tail layer, and
a zero closes the list. -/
def edges : Array Float :=
  (layerArea / density tailStart :: ends 255 tailStart ++ [0]).toArray

/-- The height of the curve at every right end. -/
def heights : Array Float := edges.map density

/-- A double in `[0, 1)` with 53 random bits. -/
def unit (bits : UInt64) : Float := (bits >>> 11).toFloat * (1 / 9007199254740992)

/-- A double strictly between zero and one with 52 random bits. -/
def openUnit (bits : UInt64) : Float :=
  ((bits >>> 12).toFloat + 0.5) * (1 / 4503599627370496)

/-- A double in `[-1, 1)` with 52 random bits. -/
def symmetricUnit (bits : UInt64) : Float :=
  ((2 : Float) + (bits >>> 12).toFloat * (1 / 2251799813685248)) - 3

/-- A draw from the tail, on the side that `u` lies on. -/
def tail (u : Float) : Nat → Stream → Option Float × Stream
  | 0, s => (none, s)
  | attempts + 1, s =>
    let (bits, s) := s.next64
    let (bits', s) := s.next64
    -- an exponential draw, accepted with the share of it that the curve has
    let x := Float.log (openUnit bits) / tailStart
    let y := Float.log (openUnit bits')
    if -2 * y < x * x then tail u attempts s
    else (some (if u < 0 then x - tailStart else tailStart - x), s)

/-- A standard normal draw, or `none` when every attempt was rejected. -/
def draw : Nat → Stream → Option Float × Stream
  | 0, s => (none, s)
  | attempts + 1, s =>
    let (bits, s) := s.next64
    let layer := (bits &&& 0xff).toNat
    let u := symmetricUnit bits
    let x := u * edges.getD layer 0
    -- the part of a layer below the next edge lies under the curve
    if x.abs < edges.getD (layer + 1) 0 then (some x, s)
    else if layer = 0 then tail u attemptLimit s
    else
      -- a point of the wedge is accepted when its height is below the curve
      let (bits', s) := s.next64
      let low := heights.getD (layer + 1) 0
      let high := heights.getD layer 0
      if low + (high - low) * unit bits' < density x then (some x, s)
      else draw attempts s

end Ziggurat
end TensorGraph
