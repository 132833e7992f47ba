import TensorGraph.Data.Value
import TensorGraph.Random.Sampler

/-!
# Operations

The computations that a graph records. An operation names its inputs by their slots.

* `Op.inputs` lists the slots an operation is connected to, as a summary shows them.
* `Op.operands` lists the slots that evaluating it needs, in the order in which they are evaluated.
  A variable is read from the session, so its initializer is an input and no operand; an assignment
  does not read the variable it assigns to.
-/

namespace TensorGraph

/-- Operations on every element of one operand. -/
inductive UnaryOp where
  | identity
  | negate
  | square
  | abs
  | log
  | sigmoid
  /-- The positive part. -/
  | relu
  | tanh
  /-- Exponentials of a row over their sum. -/
  | softmax
  deriving DecidableEq, Repr

namespace UnaryOp

def name : UnaryOp → String
  | identity => "IDENTITY"
  | negate => "NEGATE"
  | square => "SQUARE"
  | abs => "ABS"
  | log => "LOG"
  | sigmoid => "SIGMOID"
  | relu => "RELU"
  | tanh => "TANH"
  | softmax => "SOFTMAX"

/-- Whether the operation is defined on integers. -/
def acceptsIntegers : UnaryOp → Bool
  | identity | negate | square | abs => true
  | log | sigmoid | relu | tanh | softmax => false

end UnaryOp

/-- Operations on pairs of elements of two operands that stretch to a common shape. -/
inductive BinaryOp where
  | add
  | subtract
  | multiply
  | divide
  deriving DecidableEq, Repr

namespace BinaryOp

def name : BinaryOp → String
  | add => "ADD"
  | subtract => "SUBTRACT"
  | multiply => "MULTIPLY"
  | divide => "DIVIDE"

end BinaryOp

/-- A computation recorded in a graph. -/
inductive Op where
  | placeholder
  | constant (value : Value)
  /-- A value kept by the session, with the node that made the first one. -/
  | variable (trainable : Bool) (initializer : Option Nat)
  | random (sampler : Sampler) (seed : Option UInt64)
  | fill (value : Float32)
  | dot (left right : Nat)
  | biasAdd (input bias : Nat)
  | binary (op : BinaryOp) (a b : Nat)
  | unary (op : UnaryOp) (input : Nat)
  | clip (input : Nat) (min max : Float32)
  /-- Integers read as numbers. -/
  | cast (input : Nat)
  /-- Elements dropped at random while training. -/
  | dropout (input : Nat) (rate : Float32) (seed : Option UInt64)
  /-- The mean over the last axis. -/
  | mean (input : Nat)
  | reduceSum (input : Nat)
  | sigmoidCrossEntropy (targets logits : Nat)
  | softmaxCrossEntropy (logits labels : Nat)
  /-- The derivative of the summed loss by a variable. -/
  | gradient (loss target : Nat)
  /-- A value given to a variable after the run. -/
  | assign (target value : Nat)
  /-- A value added to a variable after the run. -/
  | assignAdd (target delta : Nat)

namespace Op

def name : Op → String
  | placeholder => "PLACEHOLDER"
  | constant _ => "CONSTANT"
  | .variable true _ => "WEIGHTS"
  | .variable false _ => "VARIABLE"
  | random (.normal _ _) _ => "RANDOM_NORMAL"
  | random (.uniform _ _) _ => "RANDOM_UNIFORM"
  | random (.truncatedNormal _ _) _ => "TRUNCATED_NORMAL"
  | fill _ => "FILL"
  | dot _ _ => "DOT"
  | biasAdd _ _ => "BIAS_ADD"
  | binary op _ _ => op.name
  | unary op _ => op.name
  | clip _ _ _ => "CLIP_BY_VALUE"
  | cast _ => "FLOAT"
  | dropout _ _ _ => "DROPOUT"
  | mean _ => "MEAN"
  | reduceSum _ => "REDUCE_SUM"
  | sigmoidCrossEntropy _ _ => "SIGMOID_CROSS_ENTROPY_WITH_LOGITS"
  | softmaxCrossEntropy _ _ => "SOFTMAX_CROSS_ENTROPY_WITH_LOGITS"
  | gradient _ _ => "GRADIENT"
  | assign _ _ => "UPDATE"
  | assignAdd _ _ => "UPDATE_ADD"

/-- The slots an operation is connected to. -/
def inputs : Op → List Nat
  | placeholder | constant _ | random _ _ | fill _ => []
  | .variable _ initializer => initializer.toList
  | dot left right => [left, right]
  | biasAdd input bias => [input, bias]
  | binary _ a b => [a, b]
  | unary _ input | clip input _ _ | cast input | dropout input _ _ | mean input
  | reduceSum input => [input]
  | sigmoidCrossEntropy targets logits => [targets, logits]
  | softmaxCrossEntropy logits labels => [logits, labels]
  | gradient loss target => [loss, target]
  | assign target value => [target, value]
  | assignAdd target delta => [target, delta]

/-- The slots that evaluating an operation needs, in order. -/
def operands : Op → List Nat
  | .variable _ _ => []
  | assign _ value => [value]
  | op => op.inputs

def isVariable : Op → Bool
  | .variable _ _ => true
  | _ => false

/-- Whether the operation is a variable that is trained. -/
def isTrainable : Op → Bool
  | .variable trainable _ => trainable
  | _ => false

/-- Whether the operation changes a variable. -/
def isUpdate : Op → Bool
  | assign _ _ | assignAdd _ _ => true
  | _ => false

def isPlaceholder : Op → Bool
  | placeholder => true
  | _ => false

def rate? : Op → Option Float32
  | dropout _ rate _ => some rate
  | _ => none

end Op
end TensorGraph
