import TensorGraph.Number.Single

/-!
# Scalars

The numbers a tensor is made of. Graphs hold single-precision literals; evaluating one is possible
over any type that has the operations below and reads such literals. The engine computes in single
precision, where every operation rounds.
-/

namespace TensorGraph

/-- The operations that evaluating a graph needs of its numbers. -/
class Scalar (S : Type) extends Zero S, One S, Add S, Sub S, Mul S, Div S, Neg S where
  abs : S → S
  exp : S → S
  log : S → S
  tanh : S → S
  less : S → S → Bool
  atMost : S → S → Bool
  /-- The value of a literal. -/
  ofSingle : Float32 → S
  ofInt : Int → S

instance : Scalar Float32 where
  zero := 0
  one := 1
  abs := Float32.abs
  exp := Float32.exp
  log := Float32.log
  tanh := Float32.tanh
  less x y := decide (x < y)
  atMost x y := decide (x ≤ y)
  ofSingle x := x
  ofInt := Single.ofInt

namespace Scalar

variable {S : Type} [Scalar S]

/-- The sign of a number: one, minus one, or zero when it is neither positive nor negative. -/
def sign (x : S) : S := if less 0 x then 1 else if less x 0 then -1 else 0

/-- A number, or zero when it is at most zero. -/
def relu (x : S) : S := if atMost x 0 then 0 else x

/-- The logistic function. -/
def sigmoid (x : S) : S := exp (-(log (exp (-x) + 1)))

/-- A number brought down to `high`. -/
def capAbove (high x : S) : S := if less high x then high else x

/-- A number brought up to `low`. -/
def capBelow (low x : S) : S := if less x low then low else x

/-- A number brought between two bounds, the upper one first. -/
def clip (low high x : S) : S := capBelow low (capAbove high x)

/-- The greater of two numbers, the first one unless the second exceeds it. -/
def greater (x y : S) : S := if less x y then y else x

/-- `f 0 + f 1 + … + f (n - 1)`, added from left to right. -/
def sumTo (f : Nat → S) : Nat → S
  | 0 => 0
  | n + 1 => sumTo f n + f n

end Scalar
end TensorGraph
