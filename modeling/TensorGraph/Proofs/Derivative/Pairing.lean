import Mathlib.Algebra.BigOperators.Field
import Mathlib.Tactic.Ring
import TensorGraph.Proofs.Derivative.Tensors
import TensorGraph.Proofs.Shape.Stretching

/-!
# Pairing with slopes

The pairing of two tensors of one shape is the sum of the products of their entries. What reaches
the operands of an operation, paired with the slopes of the operands, is what reaches the operation,
paired with the slope of its value: handing sensitivities on is adjoint to moving slopes forward.

## Main definitions

* `Shape.sum`: a sum over the entries of a shape.
* `Tensor.pair`: the pairing of two tensors.

## Main results

* `Tensor.pair_collapse`: adding up what stretching repeats is adjoint to stretching.
* `Tensor.pair_matmul`, `Tensor.pair_binary`, `Tensor.pair_meanLast` and their like: the operations.
-/

open DualNumber TrivSqZeroExt Finset

namespace TensorGraph

variable {K : Type} [Field K]

/-- The sum over the entries of a shape. -/
def Shape.sum (s : Shape) (f : Nat → Nat → K) : K :=
  ∑ i ∈ range s.rows, ∑ j ∈ range s.cols, f i j

namespace Shape

/-- A sum over a shape depends on the places in the shape only. -/
theorem sum_congr {s : Shape} {f f' : Nat → Nat → K}
    (h : ∀ i j, i < s.rows → j < s.cols → f i j = f' i j) : s.sum f = s.sum f' := by
  refine Finset.sum_congr rfl fun i hi => Finset.sum_congr rfl fun j hj => ?_
  exact h i j (mem_range.1 hi) (mem_range.1 hj)

/-- Sums over a shape add up place by place. -/
theorem sum_add (s : Shape) (f f' : Nat → Nat → K) :
    s.sum (fun i j => f i j + f' i j) = s.sum f + s.sum f' := by
  simp only [sum, sum_add_distrib]

/-- A sum over one axis that is read as if it were stretched. -/
private theorem sum_axis {m n : Nat} (h : m = 1 ∨ m = n) (f : Nat → Nat → K) :
    ∑ i ∈ range n, f i (if m = 1 then 0 else i) =
      ∑ i ∈ range m, ∑ r ∈ range (if m = 1 then n else 1), f (if m = 1 then r else i) i := by
  -- an axis of size one is read at zero, any other one at its own place
  by_cases hm : m = 1
  · simp [hm]
  · obtain rfl : m = n := h.resolve_left hm
    simp [hm]

/-- A sum over a shape to which another one is stretched is one over the other shape, of sums over
what stretching repeats. -/
theorem Stretches.sum_eq {s shape : Shape} (h : s.Stretches shape) (f : Nat → Nat → Nat → Nat → K) :
    shape.sum (fun i j => f i j (if s.rows = 1 then 0 else i) (if s.cols = 1 then 0 else j)) =
      s.sum fun i j => ∑ r ∈ range (if s.rows = 1 then shape.rows else 1),
        ∑ c ∈ range (if s.cols = 1 then shape.cols else 1),
          f (if s.rows = 1 then r else i) (if s.cols = 1 then c else j) i j := by
  -- first along the rows, then along the columns
  have hcols : ∀ i, ∑ j ∈ range shape.cols,
        f i j (if s.rows = 1 then 0 else i) (if s.cols = 1 then 0 else j) =
      ∑ j ∈ range s.cols, ∑ c ∈ range (if s.cols = 1 then shape.cols else 1),
        f i (if s.cols = 1 then c else j) (if s.rows = 1 then 0 else i) j :=
    fun i => sum_axis h.cols fun j j' => f i j (if s.rows = 1 then 0 else i) j'
  have hrows := sum_axis h.rows fun i i' => ∑ j ∈ range s.cols,
    ∑ c ∈ range (if s.cols = 1 then shape.cols else 1), f i (if s.cols = 1 then c else j) i' j
  rw [sum, sum, Finset.sum_congr rfl fun i _ => hcols i, hrows]
  exact Finset.sum_congr rfl fun i _ => sum_comm

end Shape

namespace Tensor

variable [LinearOrder K] [Elementary K]

/-- The sum of the products of the entries of two tensors of one shape. -/
def pair (g t : Tensor K) : K := g.shape.sum fun i j => g.entry i j * t.entry i j

/-- The sum of all entries is a sum over the shape. -/
theorem total_eq_sum (t : Tensor K) : t.total = t.shape.sum t.entry := by
  simp only [total, Scalar.sumTo_eq_sum]
  rfl

/-- The pairing is the sum of all entries of the product. -/
theorem total_hadamard {g t : Tensor K} (h : t.shape = g.shape) :
    (g.hadamard t).total = g.pair t := by
  rw [total_eq_sum, pair, shape_hadamard]
  refine Shape.sum_congr fun i j hi hj => ?_
  rw [hadamard, entry_combine_of_shape_eq rfl h hi hj]

/-- Pairing is additive on the left. -/
theorem pair_add {a b : Tensor K} (h : a.shape = b.shape) (t : Tensor K) :
    (a.add b).pair t = a.pair t + b.pair t := by
  rw [pair, pair, pair, ← h, ← Shape.sum_add]
  refine Shape.sum_congr fun i j hi hj => ?_
  rw [add, entry_combine_of_shape_eq rfl h.symm hi hj, add_mul]

/-- Nothing is paired with a tensor of zeros. -/
theorem pair_eq_zero {t : Tensor K} (h : ∀ i j, t.entry i j = 0) (g : Tensor K) : g.pair t = 0 := by
  simp [pair, Shape.sum, h]

/-- Zeros pair to zero. -/
theorem pair_full_zero (shape : Shape) (t : Tensor K) : (full shape 0).pair t = 0 := by
  rw [pair, Shape.sum]
  refine sum_eq_zero fun i hi => sum_eq_zero fun j hj => ?_
  have hentry : (full shape (0 : K)).entry i j = 0 := entry_full (mem_range.1 hi) (mem_range.1 hj)
  exact mul_eq_zero_of_left hentry _

/-- Adding up what stretching repeats is adjoint to stretching. -/
theorem pair_collapse {g t : Tensor K} (h : t.shape.Stretches g.shape) :
    (g.collapse t.shape).pair t = g.shape.sum fun i j => g.entry i j * t.spread i j := by
  -- an entry of the smaller tensor is read at every place that stretching repeats it to
  have hsum := h.sum_eq fun i j i' j' => g.entry i j * t.entry i' j'
  rw [show (g.shape.sum fun i j => g.entry i j * t.spread i j) = _ from hsum]
  refine Shape.sum_congr fun i j hi hj => ?_
  have hentry : (g.collapse t.shape).entry i j = _ := entry_tabulate hi hj
  simp only [hentry, Scalar.sumTo_eq_sum, sum_mul]
  rfl

/-! ## Operations -/

section Operations

variable {g : Tensor K} {a b : Tensor K[ε]}

/-- Collapsing a gradient to a shape that stretches is adjoint to stretching the slopes. -/
theorem pair_collapse_slope (h : a.shape.Stretches g.shape) :
    (g.collapse a.shape).pair a.slope =
      g.shape.sum fun i j => g.entry i j * (a.spread i j).snd := by
  have hpair := pair_collapse (t := a.slope) h
  simp only [spread_slope] at hpair
  exact hpair

/-- What a sum of products reaches is what the slope of a combination is summed with. -/
theorem pair_slope_combine {shape : Shape} (hg : g.shape = shape) (f : K[ε] → K[ε] → K[ε]) :
    g.pair (combine shape f a b).slope =
      g.shape.sum fun i j => g.entry i j * (f (a.spread i j) (b.spread i j)).snd := by
  subst hg
  refine Shape.sum_congr fun i j hi hj => ?_
  rw [entry_slope, entry_combine hi hj]

/-- The gradients of an elementwise operation, paired with the slopes of its operands, give the
gradient paired with the slopes of the result. -/
theorem pair_binary {op : BinaryOp} (hop : op ≠ .divide) (ha : a.shape.Stretches g.shape)
    (hb : b.shape.Stretches g.shape) :
    (op.pullback a.real b.real g).1.pair a.slope + (op.pullback a.real b.real g).2.pair b.slope =
      g.pair (combine g.shape op.apply a b).slope := by
  rw [pair_slope_combine rfl]
  cases op with
  | add =>
    simp only [BinaryOp.pullback, shape_real]
    rw [pair_collapse_slope ha, pair_collapse_slope hb, ← Shape.sum_add]
    refine Shape.sum_congr fun i j _ _ => ?_
    rw [← mul_add]
    rfl
  | subtract =>
    simp only [BinaryOp.pullback, shape_real]
    rw [pair_collapse_slope ha, pair_collapse_slope (g := g.negate) hb, shape_negate,
      ← Shape.sum_add]
    refine Shape.sum_congr fun i j hi hj => ?_
    have hentry : g.negate.entry i j = -g.entry i j := entry_map hi hj
    have hslope : (BinaryOp.apply .subtract (a.spread i j) (b.spread i j)).snd =
      (a.spread i j).snd - (b.spread i j).snd := rfl
    rw [hentry, hslope]
    ring
  | multiply =>
    -- what reaches an operand is multiplied by the other one before it is collapsed
    simp only [BinaryOp.pullback, shape_real]
    have hleft := pair_collapse_slope (g := combine g.shape (· * ·) g b.real) ha
    have hright := pair_collapse_slope (g := combine g.shape (· * ·) g a.real) hb
    rw [hleft, hright, shape_combine, shape_combine, ← Shape.sum_add]
    refine Shape.sum_congr fun i j hi hj => ?_
    have hslope : (BinaryOp.apply .multiply (a.spread i j) (b.spread i j)).snd =
        (a.spread i j).fst * (b.spread i j).snd + (a.spread i j).snd * (b.spread i j).fst :=
      DualNumber.snd_mul _ _
    rw [entry_combine hi hj, entry_combine hi hj, spread_eq_entry hi hj, spread_real, spread_real,
      hslope]
    ring
  | divide => exact absurd rfl hop

/-- The same for a sum in which only the second operand is stretched. -/
theorem pair_bias (hshape : g.shape = a.shape) (hb : b.shape.Stretches a.shape) :
    g.pair a.slope + (g.collapse b.shape).pair b.slope =
      g.pair (combine a.shape (· + ·) a b).slope := by
  rw [pair_collapse_slope (hshape ▸ hb), pair_slope_combine hshape, pair, ← Shape.sum_add]
  refine Shape.sum_congr fun i j hi hj => ?_
  rw [hshape] at hi hj
  have hslope : (a.spread i j + b.spread i j).snd = (a.spread i j).snd + (b.spread i j).snd := rfl
  rw [hslope, mul_add, spread_eq_entry hi hj, entry_slope]

/-- The gradient of a negation. -/
theorem pair_negate (hshape : g.shape = a.shape) :
    g.negate.pair a.slope = g.pair a.negate.slope := by
  refine Shape.sum_congr fun i j hi hj => ?_
  have hentry : g.negate.entry i j = -g.entry i j := entry_map hi hj
  rw [shape_negate, hshape] at hi hj
  have hnegate : a.negate.entry i j = -a.entry i j := entry_map hi hj
  rw [hentry, entry_slope, entry_slope, hnegate, snd_neg]
  ring

/-- The gradient of a square. -/
theorem pair_square (hshape : g.shape = a.shape) :
    (combine a.shape (fun g x => g * x + g * x) g a.real).pair a.slope =
      g.pair (a.map fun x => x * x).slope := by
  rw [pair, pair, shape_combine, hshape]
  refine Shape.sum_congr fun i j hi hj => ?_
  have hsquare : (a.map fun x => x * x).entry i j = a.entry i j * a.entry i j := entry_map hi hj
  rw [entry_combine_of_shape_eq hshape a.shape_real hi hj, entry_slope, entry_slope, hsquare,
    DualNumber.snd_mul, entry_real]
  ring

/-- The gradients of a matrix product. -/
theorem pair_matmul (hinner : a.cols = b.rows) (hrows : g.rows = a.rows) (hcols : g.cols = b.cols) :
    (g.matmul b.real.transpose).pair a.slope + (a.real.transpose.matmul g).pair b.slope =
      g.pair (a.matmul b).slope := by
  -- the three pairings as sums of products of three entries
  have hleft : (g.matmul b.real.transpose).pair a.slope =
      ∑ i ∈ range g.rows, ∑ k ∈ range a.cols, ∑ j ∈ range g.cols,
        g.entry i j * ((a.entry i k).snd * (b.entry k j).fst) := by
    rw [hinner]
    change ∑ i ∈ range g.rows, ∑ k ∈ range b.rows, _ = _
    refine Finset.sum_congr rfl fun i hi => Finset.sum_congr rfl fun k hk => ?_
    have hentry := entry_matmul (r := b.real.transpose) (mem_range.1 hi) (mem_range.1 hk)
    rw [hentry, Scalar.sumTo_eq_sum, sum_mul]
    refine Finset.sum_congr rfl fun j hj => ?_
    have htranspose : b.real.transpose.entry j k = b.real.entry k j :=
      entry_transpose (hcols ▸ mem_range.1 hj) (mem_range.1 hk)
    rw [htranspose, entry_real, entry_slope]
    ring
  have hright : (a.real.transpose.matmul g).pair b.slope =
      ∑ k ∈ range a.cols, ∑ j ∈ range g.cols, ∑ i ∈ range g.rows,
        g.entry i j * ((a.entry i k).fst * (b.entry k j).snd) := by
    rw [hrows]
    change ∑ k ∈ range a.cols, ∑ j ∈ range g.cols, _ = _
    refine Finset.sum_congr rfl fun k hk => Finset.sum_congr rfl fun j hj => ?_
    have hentry := entry_matmul (l := a.real.transpose) (mem_range.1 hk) (mem_range.1 hj)
    rw [hentry, Scalar.sumTo_eq_sum, sum_mul]
    refine Finset.sum_congr rfl fun i hi => ?_
    have htranspose : a.real.transpose.entry k i = a.real.entry i k :=
      entry_transpose (mem_range.1 hk) (mem_range.1 hi)
    rw [htranspose, entry_real, entry_slope]
    ring
  have hvalue : g.pair (a.matmul b).slope =
      ∑ i ∈ range g.rows, ∑ j ∈ range g.cols, ∑ k ∈ range a.cols,
        (g.entry i j * ((a.entry i k).snd * (b.entry k j).fst) +
          g.entry i j * ((a.entry i k).fst * (b.entry k j).snd)) := by
    change ∑ i ∈ range g.rows, ∑ j ∈ range g.cols, _ = _
    refine Finset.sum_congr rfl fun i hi => Finset.sum_congr rfl fun j hj => ?_
    rw [entry_slope, entry_matmul (hrows ▸ mem_range.1 hi) (hcols ▸ mem_range.1 hj),
      Scalar.snd_sumTo, Scalar.sumTo_eq_sum, mul_sum]
    refine Finset.sum_congr rfl fun k _ => ?_
    rw [DualNumber.snd_mul]
    ring
  -- the order of summation does not matter
  rw [hleft, hright, hvalue]
  simp only [sum_add_distrib]
  congr 1
  · exact Finset.sum_congr rfl fun i _ => sum_comm
  · rw [Finset.sum_congr rfl fun k _ => sum_comm, sum_comm]
    exact Finset.sum_congr rfl fun i _ => sum_comm

/-- The gradient of the mean of the last axis. -/
theorem pair_meanLast (hlength : a.shape.length ≤ 2) (haxis : a.shape ≠ [])
    (hshape : g.shape = a.shape.dropLast) :
    (tabulate a.shape fun i _ => (1 / Scalar.ofInt a.cols) *
        g.entry (i / Shape.cols a.shape.dropLast) (i % Shape.cols a.shape.dropLast)).pair a.slope =
      g.pair a.meanLast.slope := by
  -- the means stand in one row
  have hone : Shape.rows a.shape.dropLast = 1 ∧ Shape.cols a.shape.dropLast = a.rows := by
    unfold rows
    match a.shape, hlength, haxis with
    | [n], _, _ => exact ⟨rfl, rfl⟩
    | [m, n], _, _ => exact ⟨rfl, rfl⟩
  obtain ⟨hone, hcols⟩ := hone
  have hvalue : g.pair a.meanLast.slope =
      ∑ i ∈ range a.rows,
        g.entry 0 i * ((∑ j ∈ range a.cols, (a.entry i j).snd) / (a.cols : K)) := by
    rw [pair, hshape, Shape.sum, hone, hcols, sum_range_one]
    refine Finset.sum_congr rfl fun i hi => ?_
    have hentry : a.meanLast.entry 0 i = _ :=
      entry_tabulate (hone ▸ Nat.zero_lt_one) (hcols ▸ mem_range.1 hi)
    rw [entry_slope, hentry, Nat.zero_mul, Nat.zero_add, Scalar.snd_div_ofInt,
      entry_rowSums (mem_range.1 hi), Scalar.snd_sumTo, Scalar.sumTo_eq_sum, Int.cast_natCast]
  -- every entry of a row takes the same share of what reaches its mean
  rw [hvalue]
  change ∑ i ∈ range a.rows, ∑ j ∈ range a.cols, _ = _
  refine Finset.sum_congr rfl fun i hi => ?_
  rw [sum_div, mul_sum]
  refine Finset.sum_congr rfl fun j hj => ?_
  have hcount : (Scalar.ofInt (a.cols : Int) : K) = a.cols := Int.cast_natCast _
  rw [entry_tabulate (mem_range.1 hi) (mem_range.1 hj), entry_slope, hcols,
    Nat.div_eq_of_lt (mem_range.1 hi), Nat.mod_eq_of_lt (mem_range.1 hi), hcount]
  ring

/-- The gradient of the sum of all entries. -/
theorem pair_reduceSum (hshape : g.shape = []) :
    (full a.shape (g.entry 0 0)).pair a.slope = g.pair (full [] a.total).slope := by
  have hvalue : g.pair (full [] a.total).slope = g.entry 0 0 * (a.total).snd := by
    have hentry : (full [] a.total).entry 0 0 = a.total :=
      entry_full Nat.zero_lt_one Nat.zero_lt_one
    rw [pair, hshape]
    change ∑ i ∈ range 1, ∑ j ∈ range 1, _ = _
    rw [sum_range_one, sum_range_one, entry_slope, hentry]
  -- the slope of the total is the sum of all slopes
  rw [hvalue, total, Scalar.snd_sumTo, Scalar.sumTo_eq_sum, mul_sum]
  change ∑ i ∈ range a.rows, ∑ j ∈ range a.cols, _ = _
  refine Finset.sum_congr rfl fun i hi => ?_
  rw [Scalar.snd_sumTo, Scalar.sumTo_eq_sum, mul_sum]
  refine Finset.sum_congr rfl fun j hj => ?_
  rw [entry_full (mem_range.1 hi) (mem_range.1 hj), entry_slope]

end Operations

end Tensor
end TensorGraph
