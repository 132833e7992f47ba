import TensorGraph.Data.SlotMap
import TensorGraph.Graph.Basic
import TensorGraph.Record
import TensorGraph.Tensor.Arithmetic

/-!
# The value of a node

`Setting.compute` gives the value of one node from what a run reads (`Setting`) and from what is
known of earlier nodes (`Known`). It draws no random number and changes nothing: the draws of
sampling nodes and the derivatives of losses are among the things known.

An operation checks the run-time shapes of its operands, since an open axis may have become any
size. A variable is read as the session holds it, whatever assignments the run has made.
-/

namespace TensorGraph

/-- What a run reads: a graph, the variables at its start, what is fed, and the phase. -/
structure Setting (S : Type) where
  graph : Graph
  store : SlotMap (Tensor S)
  feeds : SlotMap (Tensor S)
  phase : Phase
  /-- What the streams of nodes without a seed are derived from. -/
  entropy : UInt64

/-- What is known of earlier nodes. -/
structure Known (S : Type) where
  value : Nat → Tensor S
  /-- What a sampling node drew: samples, or the factors of a dropout. -/
  noise : Nat → Option (Tensor S)
  /-- The derivative of a summed loss by a slot, if the loss depends on it. -/
  sensitivity : Nat → Nat → Option (Tensor S)

namespace BinaryOp

/-- The operation on two numbers. -/
@[specialize] def apply {S : Type} [Scalar S] : BinaryOp → S → S → S
  | add => (· + ·)
  | subtract => (· - ·)
  | multiply => (· * ·)
  | divide => (· / ·)

end BinaryOp

namespace UnaryOp

open Scalar in
/-- The operation on a tensor. -/
def apply {S : Type} [Scalar S] (t : Tensor S) : UnaryOp → Tensor S
  | identity => t
  | negate => t.negate
  | square => t.map fun x => x * x
  | abs => t.map Scalar.abs
  | log => t.map Scalar.log
  | sigmoid => t.map Scalar.sigmoid
  | relu => t.map Scalar.relu
  | tanh => t.map Scalar.tanh
  | softmax => t.softmax

end UnaryOp

namespace Setting

variable {S : Type}

/-- The shape of a node that must have no open axis. -/
def staticShape (env : Setting S) (slot : Nat) : Except Failure Shape :=
  let declared : DeclaredShape := ((env.graph.nodes[slot]?).map (·.shape)).getD []
  match declared.concrete? with
  | some shape => .ok shape
  | none => .error (.error (.engine (.openShape (env.graph.label slot) declared)))

/-- Whether a dropout of the given rate is active. -/
def dropsAt (env : Setting S) (rate : Float32) : Bool :=
  env.phase == .train && decide (0 < rate)

variable [Scalar S]

/-- A tensor stretched to a shape that it must fit. -/
def fitTo (shape : Shape) (t : Tensor S) : Except Failure (Tensor S) :=
  if t.stretches shape then .ok (t.stretch shape)
  else .error (.fault (.cannotStretch t.shape shape))

/-- The common run-time shape of two operands of a slot. -/
def commonShape (env : Setting S) (slot : Nat) (a b : Tensor S) : Except Failure Shape :=
  match Shape.broadcast a.shape b.shape with
  | some shape => .ok shape
  | none =>
    .error (.error (.shapeMismatch (env.graph.label slot) (Shape.declared a.shape) b.shape))

/-- The matrix product of two operands whose inner sizes must agree. -/
def product (env : Setting S) (slot : Nat) (l r : Tensor S) : Except Failure (Tensor S) :=
  if l.cols = r.rows then .ok (l.matmul r)
  else
    .error (.error (.shapeMismatch (env.graph.label slot)
      (Shape.declared [l.cols, r.cols]) r.shape))

/-- A bias added to an operand whose last axis it must have. -/
def biased (env : Setting S) (slot : Nat) (x b : Tensor S) : Except Failure (Tensor S) :=
  if x.shape.getLast? = b.shape.head? then .ok (Tensor.combine x.shape (· + ·) x b)
  else
    .error (.error (.shapeMismatch (env.graph.label slot)
      (Shape.declared x.shape.getLast?.toList) b.shape))

/-- The value of a node. -/
def compute (env : Setting S) (known : Known S) (slot : Nat) : Op → Except Failure (Tensor S)
  | .placeholder =>
    match env.feeds.get? slot with
    | some t => .ok t
    | none => .error (.error (.unresolvedInput (env.graph.label slot)))
  | .constant v => .ok (.ofValue v)
  | .variable _ _ =>
    match env.store.get? slot with
    -- the shape is asked for so that a variable with an open axis fails
    | some t => (env.staticShape slot).map fun _ => t
    | none => .error (.error (.engine (.noVariable (env.graph.label slot))))
  -- the samples have been drawn before the node is computed
  | .random _ _ => do
    let shape ← env.staticShape slot
    return (known.noise slot).getD (.full shape 0)
  | .fill x => (env.staticShape slot).map fun shape => .full shape (Scalar.ofSingle x)
  | .dot left right => env.product slot (known.value left) (known.value right)
  | .biasAdd input bias => env.biased slot (known.value input) (known.value bias)
  | .binary op a b => do
    let shape ← env.commonShape slot (known.value a) (known.value b)
    return .combine shape op.apply (known.value a) (known.value b)
  | .unary op input => .ok (op.apply (known.value input))
  | .clip input min max =>
    .ok ((known.value input).map (Scalar.clip (Scalar.ofSingle min) (Scalar.ofSingle max)))
  | .cast input => .ok (known.value input)
  | .dropout input _ _ =>
    match known.noise slot with
    | some factors => .ok ((known.value input).hadamard factors)
    | none => .ok (known.value input)
  | .mean input => .ok (known.value input).meanLast
  | .reduceSum input => .ok (.full [] (known.value input).total)
  | .sigmoidCrossEntropy targets logits => do
    let shape ← env.commonShape slot (known.value targets) (known.value logits)
    return .sigmoidCrossEntropy shape (known.value targets) (known.value logits)
  | .softmaxCrossEntropy logits labels =>
    let x := known.value logits
    let z := known.value labels
    if x.shape = z.shape then .ok (x.softmaxCrossEntropy z)
    else
      .error (.error (.shapeMismatch (env.graph.label slot) (Shape.declared x.shape) z.shape))
  -- a variable that the loss does not depend on has a zero derivative
  | .gradient loss target =>
    .ok ((known.sensitivity loss target).getD (.full (known.value target).shape 0))
  -- an update is a value like any other; committing it is left to the caller
  | .assign target value => do
    let shape ← env.staticShape target
    fitTo shape (known.value value)
  | .assignAdd target delta => do
    let current := known.value target
    let delta ← fitTo current.shape (known.value delta)
    return current.add delta

end Setting
end TensorGraph
