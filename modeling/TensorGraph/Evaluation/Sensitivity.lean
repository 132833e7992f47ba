import TensorGraph.Evaluation.Setting

/-!
# Sensitivities

How the sum of a loss changes with the nodes it was computed from. Starting from ones at the loss,
a sweep over the slots in decreasing order hands the sensitivity of every node on to its operands
(`Op.pullback`) and adds up what reaches a slot along different ways.

* A gradient node, an assignment and a node without operands hand nothing on.
* A stretched operand receives the sum over what stretching repeated.
* Clipping, the positive part and the maximum subtracted by a softmax are constant where they
  replace a number.
-/

namespace TensorGraph

namespace Tensor

open Scalar

variable {S : Type} [Scalar S]

/-- Combine two tensors stretched to a common shape with a third one of that shape. -/
def combine3 (f : S → S → S → S) (g a b : Tensor S) : Tensor S :=
  tabulate g.shape fun i j => f (g.entry i j) (a.spread i j) (b.spread i j)

/-- What reaches the operand of a softmax with exponentials `e`, when `g` reaches the softmax. -/
def softmaxPullback (t g : Tensor S) : Tensor S :=
  let e := t.shiftedExp
  let sums := e.rowSums
  -- an exponential reaches the quotient as its numerator and through the sum of its row
  let direct := combine t.shape (fun g s => g * (1 / s)) g sums
  let throughSum := (combine3 (fun g e s => g * (-e / (s * s))) g e sums).rowSums
  combine3 (fun e d s => (d + s) * e) e direct throughSum

/-- What reaches the logits of a log-softmax when `g` reaches the log-softmax. -/
def logSoftmaxPullback (t g : Tensor S) : Tensor S :=
  let e := t.shiftedExp
  let share := combine [t.rows, 1] (fun h s => -h / s) g.rowSums e.rowSums
  combine3 (fun g e share => g + share * e) g e share

/-- What reaches a logit of the cross entropy of logits and targets: the slopes of its three parts,
in the order of the formula. -/
def logitSlope (g z x : S) : S :=
  let e := exp (-(abs x))
  ((if less x 0 then 0 else g) - g * z) + (-(g / (e + 1) * e)) * sign x

end Tensor

open Scalar in
/-- What reaches the operand of an operation on single elements when `g` reaches its value. -/
def UnaryOp.pullback {S : Type} [Scalar S] (x out g : Tensor S) : UnaryOp → Tensor S
  | identity => g
  | negate => g.negate
  | square => .combine x.shape (fun g x => g * x + g * x) g x
  | abs => .combine x.shape (fun g x => g * sign x) g x
  | log => .combine x.shape (· / ·) g x
  | sigmoid => .combine x.shape (fun g s => s * (1 - s) * g) g out
  | relu => .combine x.shape (fun g y => if atMost y 0 then 0 else g) g out
  | tanh => .combine x.shape (fun g y => (1 - y * y) * g) g out
  | softmax => x.softmaxPullback g

/-- What reaches the two operands of an operation on pairs of elements when `g` reaches its
value. -/
def BinaryOp.pullback {S : Type} [Scalar S] (a b g : Tensor S) : BinaryOp → Tensor S × Tensor S
  | add => (g.collapse a.shape, g.collapse b.shape)
  | subtract => (g.collapse a.shape, g.negate.collapse b.shape)
  | multiply =>
    ((Tensor.combine g.shape (· * ·) g b).collapse a.shape,
      (Tensor.combine g.shape (· * ·) g a).collapse b.shape)
  -- a quotient has the slope `1 / y` in its first operand and `-x / (y * y)` in its second one
  | divide =>
    ((Tensor.combine g.shape (fun g y => g * (1 / y)) g b).collapse a.shape,
      (Tensor.combine3 (fun g x y => g * (-x / (y * y))) g a b).collapse b.shape)

namespace Op

open Scalar

variable {S : Type} [Scalar S]

/-- What reaches the operands of a node when `g` reaches the node. -/
def pullback (known : Known S) (slot : Nat) (g : Tensor S) : Op → List (Nat × Tensor S)
  | dot left right =>
    let l := known.value left
    let r := known.value right
    [(left, g.matmul r.transpose), (right, l.transpose.matmul g)]
  | biasAdd input bias => [(input, g), (bias, g.collapse (known.value bias).shape)]
  | binary op a b =>
    let (ga, gb) := op.pullback (known.value a) (known.value b) g
    [(a, ga), (b, gb)]
  | unary op input => [(input, op.pullback (known.value input) (known.value slot) g)]
  -- an entry that a bound has replaced hands nothing on
  | clip input min max =>
    let low : S := ofSingle min
    let high : S := ofSingle max
    let kept (x : S) : Bool := !less high x && !less (capAbove high x) low
    let x := known.value input
    [(input, .combine x.shape (fun g x => if kept x then g else 0) g x)]
  | cast input => [(input, g)]
  | dropout input _ _ =>
    match known.noise slot with
    | some factors => [(input, g.hadamard factors)]
    | none => [(input, g)]
  -- entry `i` of a mean stands for row `i`, and the means of a matrix stand in one row
  | mean input =>
    let x := known.value input
    let share : S := 1 / ofInt x.cols
    let c := Shape.cols x.shape.dropLast
    [(input, .tabulate x.shape fun i _ => share * g.entry (i / c) (i % c))]
  | reduceSum input => [(input, .full (known.value input).shape (g.entry 0 0))]
  | sigmoidCrossEntropy targets logits =>
    let z := known.value targets
    let x := known.value logits
    [(targets, (Tensor.combine g.shape (fun g x => -g * x) g x).collapse z.shape),
      (logits, (Tensor.combine3 Tensor.logitSlope g z x).collapse x.shape)]
  | softmaxCrossEntropy logits labels =>
    let x := known.value logits
    let z := known.value labels
    let c := Shape.cols x.shape.dropLast
    -- entry `i` of the cross entropy stands for row `i`, too
    let row (i : Nat) : S := -(g.entry (i / c) (i % c))
    let h := Tensor.tabulate x.shape fun i j => row i * z.entry i j
    let logs := x.logSoftmax
    [(labels, .tabulate z.shape fun i j => row i * logs.entry i j),
      (logits, x.logSoftmaxPullback h)]
  | placeholder | constant _ | .variable _ _ | random _ _ | fill _ | gradient _ _ | assign _ _
  | assignAdd _ _ => []

end Op

namespace Graph

variable {S : Type} [Scalar S]

/-- Add a contribution to what has reached a slot. -/
def receive (reached : SlotMap (Tensor S)) (contribution : Nat × Tensor S) :
    SlotMap (Tensor S) :=
  let (slot, g) := contribution
  match reached.get? slot with
  -- another user of the slot has contributed before
  | some sum => reached.insert slot (sum.add g)
  | none => reached.insert slot g

/-- Hand the sensitivities of the slots below a bound on to their operands, in decreasing order. -/
def sweep (g : Graph) (known : Known S) : Nat → SlotMap (Tensor S) → SlotMap (Tensor S)
  | 0, reached => reached
  | slot + 1, reached =>
    match reached.get? slot, g.nodes[slot]? with
    -- the users of a slot are later slots, so nothing more will reach it
    | some sensitivity, some node =>
      sweep g known slot ((node.op.pullback known slot sensitivity).foldl receive reached)
    | _, _ => sweep g known slot reached

/-- The derivatives of the summed loss by every slot it depends on. -/
def sensitivities (g : Graph) (known : Known S) (loss : Nat) : SlotMap (Tensor S) :=
  g.sweep known (loss + 1) (SlotMap.empty.insert loss (.full (known.value loss).shape 1))

end Graph
end TensorGraph
