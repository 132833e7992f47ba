import TensorGraph.Number.Single
import TensorGraph.Random.Gaussian

/-!
# Samplers

Lists of single-precision numbers drawn from a stream.

* `Sampler.draw` samples a normal, uniform or truncated normal distribution.
* `Dropping.mask` samples the factors by which dropout scales its input.

A draw gives the rest of the stream whether it succeeds or not. It fails only for a deviation that
is not finite, for a uniform range that is empty or whose ends or width are not finite, and when the
attempt limit of a rejection method is reached.
-/

namespace TensorGraph

/-- A distribution to sample. -/
inductive Sampler where
  | normal (mean stddev : Float32)
  /-- The uniform distribution on `[min, max)`. -/
  | uniform (min max : Float32)
  /-- The normal distribution with samples beyond two deviations from the mean drawn again. -/
  | truncatedNormal (mean stddev : Float32)

/-- Why a distribution could not be sampled. -/
inductive SamplingDefect where
  /-- The deviation of a normal distribution is not finite. -/
  | badDeviation
  /-- The range of a uniform distribution is empty or not finite. -/
  | unboundedRange (min max : Float32)
  /-- No attempt was accepted. -/
  | neverAccepted

namespace Stream

/-- Append `count` draws to the numbers drawn so far, stopping at the first draw that fails. -/
def collect (draw : Stream → Option Float32 × Stream) :
    Nat → Array Float32 → Stream → Option (Array Float32) × Stream
  | 0, drawn, s => (some drawn, s)
  | count + 1, drawn, s =>
    match draw s with
    | (none, s) => (none, s)
    | (some x, s) => collect draw count (drawn.push x) s

end Stream

namespace Sampler

/-- A normal sample: a standard normal draw, rounded to single precision before it is scaled. -/
def normalDraw (mean stddev : Float32) (s : Stream) : Option Float32 × Stream :=
  let (z, s) := Ziggurat.draw attemptLimit s
  (z.map fun z => mean + stddev * Single.ofDouble z, s)

/-- A normal sample at most two deviations from the mean, in at most `attempts` attempts. -/
def truncatedDraw (mean stddev : Float32) : Nat → Stream → Option Float32 × Stream
  | 0, s => (none, s)
  | attempts + 1, s =>
    match normalDraw mean stddev s with
    | (none, s) => (none, s)
    | (some x, s) =>
      -- drawn again beyond two deviations
      if (x - mean).abs ≤ 2 * stddev then (some x, s) else truncatedDraw mean stddev attempts s

/-- The greatest number below one that a uniform draw scales. -/
def greatestUnit : Float32 := 1 - Single.nearest ⟨false, 1, -23⟩

/-- The greatest scale, from the one with the given bits downwards, that keeps every sample below
`max`. -/
def fittingScale (min max : Float32) : Nat → Float32
  | 0 => 0
  | bits + 1 =>
    -- the bits of positive numbers are ordered as the numbers are
    let scale := Float32.ofBits (UInt32.ofNat (bits + 1))
    if max ≤ scale * greatestUnit + min then fittingScale min max bits else scale

/-- A uniform sample: 23 random bits of a fraction, scaled and shifted. -/
def uniformDraw (scale min : Float32) (s : Stream) : Option Float32 × Stream :=
  let (word, s) := s.next32
  (some (Single.nearest ⟨false, (word >>> 9).toNat, -23⟩ * scale + min), s)

/-- The samples, if every draw was accepted. -/
def accepted : Option (Array Float32) × Stream → Except SamplingDefect (Array Float32) × Stream
  | (some xs, s) => (.ok xs, s)
  | (none, s) => (.error .neverAccepted, s)

/-- Draw `count` samples. -/
def draw (count : Nat) (s : Stream) : Sampler → Except SamplingDefect (Array Float32) × Stream
  | .normal mean stddev =>
    if stddev.isFinite then accepted (Stream.collect (normalDraw mean stddev) count #[] s)
    else (.error .badDeviation, s)
  | .truncatedNormal mean stddev =>
    if stddev.isFinite then
      accepted (Stream.collect (truncatedDraw mean stddev attemptLimit) count #[] s)
    else (.error .badDeviation, s)
  | .uniform min max =>
    -- the width can exceed every number although both ends are finite
    if min < max && min.isFinite && max.isFinite && (max - min).isFinite then
      let scale := fittingScale min max (max - min).toBits.toNat
      accepted (Stream.collect (uniformDraw scale min) count #[] s)
    else (.error (.unboundedRange min max), s)

end Sampler

namespace Dropping

/-- The number of 64-bit words below which an element is kept with probability `keep`. -/
def threshold (keep : Float32) : Nat :=
  match Single.read keep with
  | .finite d =>
    let (num, den) := d.fraction
    num * Nat.pow 2 64 / den
  | _ => 0

/-- The factor of one element: `1 / keep` when its random word is below `limit`, zero otherwise. -/
def factor (keep : Float32) (limit : Nat) (s : Stream) : Option Float32 × Stream :=
  let (word, s) := s.next64
  (some (if word.toNat < limit then 1 / keep else 0), s)

/-- The factors of `count` elements, each dropped with probability `rate`. A rate that leaves a
probability of one keeps every element without a draw. -/
def mask (rate : Float32) (count : Nat) (s : Stream) : Array Float32 × Stream :=
  let keep := 1 - rate
  if keep == 1 then (Array.replicate count (1 / keep), s)
  else
    let (factors, s) := Stream.collect (factor keep (threshold keep)) count #[] s
    (factors.getD #[], s)

end Dropping
end TensorGraph
