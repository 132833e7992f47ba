import TensorGraph.Proofs.Derivative.Tensors

/-!
# Guarded numbers

Exact arithmetic takes a quotient by zero and the logarithm of a number that is not positive to be
some number. Over guarded numbers both are undefined, and so is what is computed from them. So where
an evaluation over guarded numbers gives a number, it has left no domain on the way.

## Main definitions

* `Guarded`: a number, or the result of leaving the domain of an operation.
* `Tensor.guarded`: a tensor of numbers as one of guarded numbers.

## Main results

* `Guarded.number_div` and `Guarded.number_log`: operations inside of their domains.
-/

namespace TensorGraph

/-- A number, or the result of leaving the domain of an operation. -/
inductive Guarded (K : Type) where
  | number (x : K)
  | undefined

namespace Guarded

variable {K : Type}

def map (f : K → K) : Guarded K → Guarded K
  | number x => number (f x)
  | undefined => undefined

def map₂ (f : K → K → K) : Guarded K → Guarded K → Guarded K
  | number x, number y => number (f x y)
  | _, _ => undefined

/-- Whether two numbers are related; nothing is related to what is undefined. -/
def relate (r : K → K → Prop) [DecidableRel r] : Guarded K → Guarded K → Bool
  | number x, number y => decide (r x y)
  | _, _ => false

variable [Field K] [LinearOrder K] [Elementary K]

def divide : Guarded K → Guarded K → Guarded K
  | number x, number y => if y = 0 then undefined else number (x / y)
  | _, _ => undefined

def log : Guarded K → Guarded K
  | number x => if 0 < x then number (Elementary.log x) else undefined
  | undefined => undefined

/-- Arithmetic that is undefined outside of the domains of its operations. -/
instance : Scalar (Guarded K) where
  zero := number 0
  one := number 1
  add := map₂ (· + ·)
  sub := map₂ (· - ·)
  mul := map₂ (· * ·)
  div := divide
  neg := map (-·)
  abs := map Scalar.abs
  exp := map Elementary.exp
  log := log
  tanh := map Elementary.tanh
  less := relate (· < ·)
  atMost := relate (· ≤ ·)
  ofSingle x := number (Elementary.ofSingle x)
  ofInt n := number n

variable {x y : K}

theorem number_zero : (0 : Guarded K) = number 0 := rfl

theorem number_one : (1 : Guarded K) = number 1 := rfl

/-- Guarded numbers are added as numbers. -/
theorem number_add (x y : K) : number x + number y = number (x + y) := rfl

theorem number_sub (x y : K) : number x - number y = number (x - y) := rfl

/-- Guarded numbers are multiplied as numbers. -/
theorem number_mul (x y : K) : number x * number y = number (x * y) := rfl

theorem number_neg (x : K) : -number x = number (-x) := rfl

theorem number_abs (x : K) : Scalar.abs (number x) = number (Scalar.abs x) := rfl

/-- Guarded numbers have the exponentials of numbers. -/
theorem number_exp (x : K) : Scalar.exp (number x) = number (Scalar.exp x) := rfl

/-- A quotient is a number when its divisor is not zero. -/
theorem number_div (hy : y ≠ 0) : number x / number y = number (x / y) := if_neg hy

/-- A logarithm is a number when it is taken of a positive number. -/
theorem number_log (hx : 0 < x) : Scalar.log (number x) = number (Scalar.log x) := if_pos hx

/-- Bounds are compared with numbers as they are. -/
theorem number_capBelow (low x : K) :
    Scalar.capBelow (number low) (number x) = number (Scalar.capBelow low x) := by
  rw [Scalar.capBelow, Scalar.capBelow, apply_ite number]
  rfl

/-- A guarded number is capped as a number. -/
theorem number_capAbove (high x : K) :
    Scalar.capAbove (number high) (number x) = number (Scalar.capAbove high x) := by
  rw [Scalar.capAbove, Scalar.capAbove, apply_ite number]
  rfl

/-- A guarded number is clipped as a number. -/
theorem number_clip (low high x : K) :
    Scalar.clip (number low) (number high) (number x) = number (Scalar.clip low high x) := by
  rw [Scalar.clip, number_capAbove, number_capBelow]
  rfl

end Guarded

namespace Tensor

variable {K : Type}

/-- A tensor of numbers as one of guarded numbers. -/
def guarded (t : Tensor K) : Tensor (Guarded K) := t.under .number

/-- The entries of a tensor are guarded one by one. -/
theorem entry_guarded [Field K] [LinearOrder K] [Elementary K] (t : Tensor K) (i j : Nat) :
    t.guarded.entry i j = .number (t.entry i j) := entry_under rfl t i j

end Tensor
end TensorGraph
