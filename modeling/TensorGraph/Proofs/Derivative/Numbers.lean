import Mathlib.Algebra.BigOperators.Intervals
import Mathlib.Algebra.DualNumber
import Mathlib.Algebra.Field.Rat
import Mathlib.Algebra.Order.Ring.Unbundled.Rat
import TensorGraph.Proofs.Tensor.Entries

/-!
# Exact and dual numbers

Graphs can be evaluated over the numbers of any ordered field, where no operation rounds, and over
the dual numbers `a + b * ε` with `ε * ε = 0`. The coefficient of `ε` in the value of an expression
is its derivative in the direction in which its variables were moved.

## Main definitions

* `Elementary`: what an ordered field needs beside its operations to evaluate graphs.
* `Scalar.Hom`: maps of numbers that keep arithmetic.

## Main results

* `Scalar.hom_fst` and `Scalar.hom_inl`: taking the real part of a dual number keeps arithmetic, and
  so does reading a number as a dual one.
-/

open DualNumber TrivSqZeroExt

namespace TensorGraph

/-- The functions that evaluating graphs needs beside the operations of an ordered field, and how
literals are read. -/
class Elementary (K : Type) where
  /-- The exponential function. -/
  exp : K → K
  /-- The natural logarithm. -/
  log : K → K
  /-- The hyperbolic tangent. -/
  tanh : K → K
  /-- The value of a literal. -/
  ofSingle : Float32 → K

/-- The rationals read finite literals exactly. Polynomials do without the functions. -/
instance : Elementary ℚ where
  exp _ := 0
  log _ := 0
  tanh _ := 0
  ofSingle x :=
    match Single.read x with
    | .finite d => (if d.negative then -1 else 1) * (d.fraction.1 / d.fraction.2)
    | _ => 0

section Instances

variable {K : Type} [Field K] [LinearOrder K] [Elementary K]

/-- Exact arithmetic. -/
instance (priority := low) exactScalar : Scalar K where
  abs x := max x (-x)
  exp := Elementary.exp
  log := Elementary.log
  tanh := Elementary.tanh
  less x y := decide (x < y)
  atMost x y := decide (x ≤ y)
  ofSingle := Elementary.ofSingle
  ofInt n := n

/-- Arithmetic of dual numbers. A function moves by its derivative, and comparing reads the real
parts. -/
instance dualScalar : Scalar K[ε] where
  div x y := x * y⁻¹
  abs x := if x.fst < 0 then -x else x
  exp x := inl (Elementary.exp x.fst) + inr (Elementary.exp x.fst * x.snd)
  log x := inl (Elementary.log x.fst) + inr (x.snd / x.fst)
  tanh x :=
    inl (Elementary.tanh x.fst) + inr ((1 - Elementary.tanh x.fst * Elementary.tanh x.fst) * x.snd)
  less x y := decide (x.fst < y.fst)
  atMost x y := decide (x.fst ≤ y.fst)
  ofSingle x := inl (Elementary.ofSingle x)
  ofInt n := inl n

end Instances

namespace Scalar

variable {S T : Type} [Scalar S] [Scalar T]

/-- A map of numbers that keeps arithmetic and literals. -/
structure Hom (φ : S → T) : Prop where
  zero : φ 0 = 0
  add (x y : S) : φ (x + y) = φ x + φ y
  sub (x y : S) : φ (x - y) = φ x - φ y
  mul (x y : S) : φ (x * y) = φ x * φ y
  div (x y : S) : φ (x / y) = φ x / φ y
  neg (x : S) : φ (-x) = -φ x
  ofSingle (x : Float32) : φ (Scalar.ofSingle x) = Scalar.ofSingle x
  ofInt (n : Int) : φ (Scalar.ofInt n) = Scalar.ofInt n

theorem Hom.sumTo {φ : S → T} (h : Hom φ) (f : Nat → S) (n : Nat) :
    φ (Scalar.sumTo f n) = Scalar.sumTo (fun i => φ (f i)) n := by
  induction n with
  | zero => exact h.zero
  | succ n ih => rw [Scalar.sumTo, Scalar.sumTo, h.add, ih]

variable {K : Type} [Field K] [LinearOrder K] [Elementary K]

/-- The real part keeps arithmetic. -/
theorem hom_fst : Hom (fst : K[ε] → K) where
  zero := rfl
  add _ _ := rfl
  sub _ _ := rfl
  mul _ _ := rfl
  div x y := by
    -- dual numbers are divided by multiplying with an inverse
    change x.fst * y.fst⁻¹ = x.fst / y.fst
    rw [div_eq_mul_inv]
  neg _ := rfl
  ofSingle x := rfl
  ofInt n := rfl

/-- Numbers are dual numbers without a slope. -/
theorem hom_inl : Hom (inl : K → K[ε]) where
  zero := rfl
  add x y := inl_add K x y
  sub x y := inl_sub K x y
  mul x y := inl_mul K x y
  div x y := by
    change inl (x / y) = inl x * (inl y)⁻¹
    rw [TrivSqZeroExt.inv_inl, ← inl_mul, div_eq_mul_inv]
  neg x := inl_neg K x
  ofSingle x := rfl
  ofInt n := rfl

open Finset in
theorem sumTo_eq_sum (f : Nat → K) (n : Nat) : sumTo f n = ∑ i ∈ range n, f i := by
  induction n with
  | zero => rfl
  | succ n ih => rw [sumTo, sum_range_succ, ih]

theorem snd_sumTo (f : Nat → K[ε]) (n : Nat) :
    (sumTo f n).snd = sumTo (fun i => (f i).snd) n := by
  induction n with
  | zero => rfl
  | succ n ih => rw [sumTo, sumTo, ← ih]; rfl

/-- A dual number over one without a slope. -/
theorem snd_div_ofInt (x : K[ε]) (n : Int) : (x / ofInt n).snd = x.snd / n := by
  -- the inverse of a number without a slope has none
  change (x * (inl (n : K))⁻¹).snd = _
  rw [DualNumber.snd_mul, snd_inv, fst_inv]
  simp [div_eq_mul_inv]

end Scalar
end TensorGraph
