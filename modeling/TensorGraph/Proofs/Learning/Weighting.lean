import TensorGraph.Proofs.Derivative.Pairing
import TensorGraph.Proofs.Learning.Objective

/-!
# What losses weigh

Training goes down along the derivative of the summed objective. Where the losses that are added up
have different shapes, an addition stretches them to a common one, and what it stretches it repeats.
So the entries of the objective add up to those of the losses, each loss taken as often as it is
repeated: once if it has the shape of the objective, and perhaps once for every row of the batch if
it has not.

## Main definitions

* `Scalar.Additive`: maps to exact numbers that keep sums.

## Main results

* `Tensor.total_combine_add`: the summed entries of a sum of stretched tensors.
* `Settled.total_eq`: the summed entries of the objective.
-/

open Finset

namespace TensorGraph

variable {S K : Type} [Scalar S] [Field K]

/-- A map to exact numbers that keeps sums, such as the real part or the slope of dual numbers. -/
structure Scalar.Additive (φ : S → K) : Prop where
  zero : φ 0 = 0
  add (x y : S) : φ (x + y) = φ x + φ y

theorem Scalar.additive_id [LinearOrder K] [Elementary K] : Additive (id : K → K) :=
  ⟨rfl, fun _ _ => rfl⟩

namespace Tensor

variable {φ : S → K}

theorem map_total (h : Scalar.Additive φ) (t : Tensor S) :
    φ t.total = t.shape.sum fun i j => φ (t.entry i j) := by
  have hsum : ∀ (f : Nat → S) (n : Nat), φ (Scalar.sumTo f n) = ∑ i ∈ range n, φ (f i) := by
    intro f n
    induction n with
    | zero => exact h.zero
    | succ n ih => rw [Scalar.sumTo, h.add, ih, sum_range_succ]
  simp only [total, hsum]
  rfl

/-- The summed entries of a stretched tensor. -/
theorem sum_spread (h : Scalar.Additive φ) {t : Tensor S} {shape : Shape}
    (hstretches : t.shape.Stretches shape) :
    shape.sum (fun i j => φ (t.spread i j)) = t.shape.repeats shape * φ t.total := by
  have hsum := hstretches.sum_eq fun _ _ i j => φ (t.entry i j)
  refine hsum.trans ?_
  simp only [sum_const, card_range, nsmul_eq_mul]
  rw [map_total h, Shape.sum, Shape.sum, mul_sum]
  refine sum_congr rfl fun i _ => ?_
  rw [mul_sum]
  refine sum_congr rfl fun j _ => ?_
  rw [Shape.repeats, Nat.cast_mul, mul_assoc]

/-- Adding stretched tensors adds up their entries, each as often as it is repeated. -/
theorem total_combine_add (h : Scalar.Additive φ) {a b : Tensor S} {shape : Shape}
    (ha : a.shape.Stretches shape) (hb : b.shape.Stretches shape) :
    φ (combine shape (· + ·) a b).total =
      a.shape.repeats shape * φ a.total + b.shape.repeats shape * φ b.total := by
  rw [map_total h, shape_combine, ← sum_spread h ha, ← sum_spread h hb, ← Shape.sum_add]
  refine Shape.sum_congr fun i j hi hj => ?_
  rw [entry_combine hi hj, h.add]

end Tensor

namespace Settled

variable {env : Setting S} {listed losses : List Nat} {total : Nat} {e : Evaluation S} {φ : S → K}

/-- The value of an evaluated slot has at most two axes. -/
theorem length_shape_le (h : Settled env listed e) (hg : env.graph.Typed) (hfits : env.Fits)
    (hlisted : env.graph.Finished listed) {slot : Nat} (hslot : slot ∈ listed) :
    (e.known.value slot).shape.length ≤ 2 := by
  obtain ⟨n, hn⟩ := Graph.exists_node_of_lt (hlisted.lt_size hslot)
  rw [(h.covers hg hfits hlisted hslot hn).length_eq]
  exact (hg.held hn).length_le

/-- When a sum of losses has been evaluated, every loss stretches to its shape, and its entries add
up to those of the losses, each loss as often as it is repeated. -/
theorem total_eq (h : Settled env listed e) (hg : env.graph.Typed) (hfits : env.Fits)
    (hlisted : env.graph.Finished listed) (hφ : Scalar.Additive φ)
    (hsum : env.graph.AddsUp losses total) (htotal : total ∈ listed) :
    (∀ loss ∈ losses,
      (e.known.value loss).shape.Stretches (e.known.value total).shape) ∧
    φ (e.known.value total).total =
      (losses.map fun loss => ((e.known.value loss).shape.repeats (e.known.value total).shape : K) *
        φ (e.known.value loss).total).sum := by
  induction hsum with
  | single loss =>
    refine ⟨List.forall_mem_singleton.2 (.refl _), ?_⟩
    rw [List.map_singleton, List.sum_singleton, Shape.repeats_self, Nat.cast_one, one_mul]
  | @add losses sum loss total _ hop ih =>
    have hsum := hlisted.mem_of_op? htotal hop List.mem_cons_self
    have hloss := hlisted.mem_of_op? htotal hop (List.mem_cons_of_mem _ List.mem_cons_self)
    obtain ⟨hlosses, hvalue⟩ := ih hsum
    obtain ⟨shape, hcommon, heq⟩ := except_bind_eq_ok_iff.1 (h.computed_op htotal hop)
    obtain ⟨hleft, hright⟩ := Shape.stretches_of_broadcast
      (h.length_shape_le hg hfits hlisted hsum) (h.length_shape_le hg hfits hlisted hloss)
      (Setting.commonShape_eq_ok_iff.1 hcommon)
    rw [← Except.ok.inj heq, Tensor.shape_combine]
    refine ⟨List.forall_mem_append.2 ⟨fun loss hmem => (hlosses loss hmem).trans hleft,
      List.forall_mem_singleton.2 hright⟩, ?_⟩
    -- the sum of the others is stretched, and with it every loss in it
    have hothers : (shape.sum fun i j => φ ((e.known.value sum).spread i j)) =
        (losses.map fun loss => ((e.known.value loss).shape.repeats shape : K) *
          φ (e.known.value loss).total).sum := by
      rw [Tensor.sum_spread hφ hleft, hvalue, ← List.sum_map_mul_left]
      refine congrArg List.sum (List.map_congr_left fun loss hmem => ?_)
      rw [(hlosses loss hmem).repeats_trans hleft, Nat.cast_mul]
      ring
    have hadd := Tensor.total_combine_add hφ hleft hright
    rw [← Tensor.sum_spread hφ hleft, hothers] at hadd
    rw [List.map_append, List.sum_append, List.map_singleton, List.sum_singleton]
    exact hadd

end Settled
end TensorGraph
