import TensorGraph.Engine.Basic

/-!
# Building a graph

The calls that append nodes without a value of their own in the session. Each checks its operands,
works out the declared shape and the element type of the new node, and registers it.

An operation on numbers refuses integers. Operands of a binary operation share one element type and
have a common declared shape.
-/

namespace TensorGraph.Engine

/-! ## Sources -/

/-- The placeholder registered under a name and shape, appended if there is none. -/
def placeholder (name : String) (shape : DeclaredShape) : Call Node := do
  checkActive
  checkShape shape true
  let g ← currentGraph
  match g.find? name with
  -- asking again for the same placeholder gives the node that there is
  | some slot =>
    if (g.nodes[slot]?).any fun n => n.op.isPlaceholder && n.shape == shape then
      return g.handle slot
    else refuse (.duplicateName name)
  | none => register ⟨.placeholder, shape, .f32, none⟩ (some name)

def constant (value : Value) (name : Option String) : Call Node := do
  let shape := Shape.declared value.shape
  checkShape shape false
  register ⟨.constant value, shape, value.type, none⟩ name

/-- Samples of a distribution. -/
def random (shape : DeclaredShape) (sampler : Sampler) (seed : Option UInt64) : Call Node := do
  checkShape shape false
  register ⟨.random sampler seed, shape, .f32, none⟩ none

/-- Refuse a standard deviation that is negative or not finite. -/
def checkDeviation (stddev : Float32) : Call Unit := do
  if !(stddev.isFinite && decide (0 ≤ stddev)) then
    refuse (.invalidArgument (.badDeviation stddev))

def randomNormal (shape : DeclaredShape) (mean stddev : Float32) (seed : Option UInt64) :
    Call Node := do
  checkDeviation stddev
  random shape (.normal mean stddev) seed

def randomUniform (shape : DeclaredShape) (min max : Float32) (seed : Option UInt64) :
    Call Node := do
  if !decide (min < max) then refuse (.invalidArgument (.emptyRange min max))
  random shape (.uniform min max) seed

def truncatedNormal (shape : DeclaredShape) (mean stddev : Float32) (seed : Option UInt64) :
    Call Node := do
  checkDeviation stddev
  random shape (.truncatedNormal mean stddev) seed

def fill (shape : DeclaredShape) (value : Float32) : Call Node := do
  checkShape shape false
  register ⟨.fill value, shape, .f32, none⟩ none

def zeros (shape : DeclaredShape) : Call Node := fill shape 0

def ones (shape : DeclaredShape) : Call Node := fill shape 1

/-! ## Arithmetic -/

/-- An operation on single elements. -/
def unary (op : UnaryOp) (input : Node) (name : Option String) : Call Node := do
  let (x, source) ← locate input
  if !op.acceptsIntegers then expectFloat op.name x source
  register ⟨.unary op x, source.shape, source.type, none⟩ name

/-- An operation on pairs of elements. -/
def binary (op : BinaryOp) (left right : Node) (name : Option String) : Call Node := do
  let (a, l) ← locate left
  let (b, r) ← locate right
  if l.type ≠ r.type then refuse (.compilation (.mixedOperands op.name l.type r.type))
  -- integers are added, subtracted and multiplied, but not divided
  if op = .divide then expectFloat op.name a l
  match DeclaredShape.broadcast l.shape r.shape with
  | some shape => register ⟨.binary op a b, shape, l.type, none⟩ name
  | none => refuse (.compilation (.noBroadcast op.name l.shape r.shape))

def add (a b : Node) (name : Option String) : Call Node := binary .add a b name

def subtract (a b : Node) (name : Option String) : Call Node := binary .subtract a b name

def multiply (a b : Node) (name : Option String) : Call Node := binary .multiply a b name

def divide (a b : Node) (name : Option String) : Call Node := binary .divide a b name

/-- The matrix product of two nodes with two axes each. -/
def dot (left right : Node) (name : Option String) : Call Node := do
  let (a, l) ← locate left
  let (b, r) ← locate right
  expectFloat "DOT" a l
  expectFloat "DOT" b r
  match l.shape, r.shape with
  | [rows, inner], [inner', cols] =>
    -- open inner axes are compared again when the product is evaluated
    if DeclaredShape.axesAgree inner inner' then
      register ⟨.dot a b, [rows, cols], .f32, none⟩ name
    else refuse (.compilation (.dotShapes l.shape r.shape))
  | _, _ => refuse (.compilation (.dotShapes l.shape r.shape))

/-- A bias with one axis added along the last axis of a node. -/
def biasAdd (input bias : Node) (name : Option String) : Call Node := do
  let (x, source) ← locate input
  let (b, added) ← locate bias
  expectFloat "BIAS_ADD" x source
  expectFloat "BIAS_ADD" b added
  match source.shape.getLast?, added.shape with
  | some last, [size] =>
    if DeclaredShape.axesAgree last size then
      register ⟨.biasAdd x b, source.shape, .f32, none⟩ name
    else refuse (.compilation (.biasShapes added.shape source.shape))
  | _, _ => refuse (.compilation (.biasShapes added.shape source.shape))

def clip (input : Node) (min max : Float32) (name : Option String) : Call Node := do
  if max < min then refuse (.invalidArgument (.crossedBounds min max))
  let (x, source) ← locate input
  expectFloat "CLIP_BY_VALUE" x source
  register ⟨.clip x min max, source.shape, .f32, none⟩ name

/-- Integers read as numbers. -/
def float (input : Node) (name : Option String) : Call Node := do
  let (x, source) ← locate input
  register ⟨.cast x, source.shape, .f32, none⟩ name

/-- Elements dropped with probability `rate` while training; the others are scaled so that the
expected value stays the same. -/
def dropout (input : Node) (rate : Float32) (seed : Option UInt64) (name : Option String) :
    Call Node := do
  -- what is no number passes neither comparison
  if !(decide (0 ≤ rate) && decide (rate < 1)) then refuse (.invalidArgument (.badRate rate))
  let (x, source) ← locate input
  expectFloat "DROPOUT" x source
  register ⟨.dropout x rate seed, source.shape, .f32, none⟩ name

/-! ## Reductions and losses -/

def mean (input : Node) (name : Option String) : Call Node := do
  let (x, source) ← locate input
  expectFloat "MEAN" x source
  if source.shape.isEmpty then refuse (.compilation (.meanOfScalar (source.label x)))
  register ⟨.mean x, source.shape.dropLast, .f32, none⟩ name

def reduceSum (input : Node) (name : Option String) : Call Node := do
  let (x, source) ← locate input
  register ⟨.reduceSum x, [], source.type, none⟩ name

/-- The cross entropy of logits and targets, element by element. -/
def sigmoidCrossEntropy (targets logits : Node) (name : Option String) : Call Node := do
  let (z, target) ← locate targets
  let (x, source) ← locate logits
  expectFloat "SIGMOID_CROSS_ENTROPY_WITH_LOGITS" z target
  expectFloat "SIGMOID_CROSS_ENTROPY_WITH_LOGITS" x source
  match DeclaredShape.broadcast target.shape source.shape with
  | some shape => register ⟨.sigmoidCrossEntropy z x, shape, .f32, none⟩ name
  | none => refuse (.compilation (.targetShapes target.shape source.shape))

/-- The cross entropy of rows of logits and labels. -/
def softmaxCrossEntropy (logits labels : Node) (name : Option String) : Call Node := do
  let (x, source) ← locate logits
  let (z, label) ← locate labels
  expectFloat "SOFTMAX_CROSS_ENTROPY_WITH_LOGITS" x source
  expectFloat "SOFTMAX_CROSS_ENTROPY_WITH_LOGITS" z label
  let compatible := !source.shape.isEmpty && source.shape.length == label.shape.length &&
    (source.shape.zip label.shape).all fun (a, b) => DeclaredShape.axesAgree a b
  if compatible then
    register ⟨.softmaxCrossEntropy x z, source.shape.dropLast, .f32, none⟩ name
  else refuse (.compilation (.labelShapes label.shape source.shape))

/-! ## Derivatives and updates -/

/-- The derivative of the summed loss in a slot by one variable. -/
def gradient (loss : Nat) (weight : Node) : Call Node := do
  let (target, node) ← locate weight
  expectVariable target node
  expectFloat "GRADIENT" target node
  register ⟨.gradient loss target, node.shape, .f32, none⟩ none

/-- The derivatives of the summed loss by some variables, in order. -/
def gradients (loss : Node) (targets : List Node) : Call (List Node) := do
  let (slot, node) ← locate loss
  expectFloat "GRADIENT" slot node
  -- a target at fault leaves the derivatives by earlier targets in the graph
  targets.mapM (gradient slot)

/-- The slots of a variable and of a value that may be given or added to it, with the shape and type
of the variable. -/
def assignable (target value : Node) : Call (Nat × Nat × GraphNode) := do
  let (slot, node) ← locate target
  let (source, given) ← locate value
  expectVariable slot node
  if node.type ≠ given.type then
    refuse (.compilation (.updateType node.type (node.label slot) given.type))
  -- the value may stretch to the variable, and never the other way around
  if DeclaredShape.broadcast node.shape given.shape ≠ some node.shape then
    refuse (.compilation (.updateShape (node.label slot) node.shape given.shape))
  return (slot, source, node)

/-- Give a variable a value after the run. -/
def update (target value : Node) : Call Node := do
  let (slot, source, node) ← assignable target value
  register ⟨.assign slot source, node.shape, node.type, none⟩ none

/-- Add a value to a variable after the run. -/
def updateAdd (target delta : Node) : Call Node := do
  let (slot, source, node) ← assignable target delta
  register ⟨.assignAdd slot source, node.shape, node.type, none⟩ none

end TensorGraph.Engine
