import TensorGraph.Graph.Basic
import TensorGraph.Proofs.Shape.Covering

/-!
# Typing of graphs

The rules by which a node's declared shape and element type follow from those of the nodes it is
computed from. There is one rule for every operation; a rule records everything that registering
such a node checks. A node is typed over the nodes registered before it, so the operands of a typed
graph are earlier slots.

## Main definitions

* `Op.Typed`: the typing rules.
* `Graph.Typed`: every node is typed over the nodes before it.

## Main results

* `Graph.Typed.push`: a graph stays typed when a typed node is appended.
* `Graph.Typed.lt_of_mem_inputs`: an operation is connected to earlier slots only.
* `Graph.Typed.held`: a declared shape has at most two axes, each positive or open.
-/

namespace TensorGraph

/-- The typing rules of operations: the declared shape and the element type of an operation over the
nodes that `look` finds. -/
inductive Op.Typed (look : Nat → Option GraphNode) : Op → DeclaredShape → ElementType → Prop
  | placeholder {shape : DeclaredShape} (held : shape.Held) : Typed look .placeholder shape .f32
  | constant {v : Value} (closed : DeclaredShape.Closed (Shape.declared v.shape)) :
      Typed look (.constant v) (Shape.declared v.shape) v.type
  | stored {trainable : Bool} {init : Nat} {n : GraphNode} (found : look init = some n)
      (closed : n.shape.Closed) : Typed look (.variable trainable (some init)) n.shape .f32
  | counter : Typed look (.variable false none) [] .i64
  | random {sampler : Sampler} {seed : Option UInt64} {shape : DeclaredShape}
      (closed : shape.Closed) : Typed look (.random sampler seed) shape .f32
  | fill {x : Float32} {shape : DeclaredShape} (closed : shape.Closed) :
      Typed look (.fill x) shape .f32
  | dot {a b : Nat} {l r : GraphNode} {rows inner inner' cols : Int} (left : look a = some l)
      (right : look b = some r) (leftType : l.type = .f32) (rightType : r.type = .f32)
      (leftShape : l.shape = [rows, inner]) (rightShape : r.shape = [inner', cols])
      (agree : DeclaredShape.axesAgree inner inner') : Typed look (.dot a b) [rows, cols] .f32
  | biasAdd {x b : Nat} {n m : GraphNode} {last size : Int} (input : look x = some n)
      (bias : look b = some m) (inputType : n.type = .f32) (biasType : m.type = .f32)
      (lastAxis : n.shape.getLast? = some last) (biasShape : m.shape = [size])
      (agree : DeclaredShape.axesAgree last size) : Typed look (.biasAdd x b) n.shape .f32
  | binary {op : BinaryOp} {a b : Nat} {l r : GraphNode} {shape : DeclaredShape}
      (left : look a = some l) (right : look b = some r) (sameType : l.type = r.type)
      (float : op = .divide → l.type = .f32)
      (common : DeclaredShape.broadcast l.shape r.shape = some shape) :
      Typed look (.binary op a b) shape l.type
  | unary {op : UnaryOp} {x : Nat} {n : GraphNode} (input : look x = some n)
      (float : op.acceptsIntegers = false → n.type = .f32) :
      Typed look (.unary op x) n.shape n.type
  | clip {x : Nat} {min max : Float32} {n : GraphNode} (input : look x = some n)
      (float : n.type = .f32) : Typed look (.clip x min max) n.shape .f32
  | cast {x : Nat} {n : GraphNode} (input : look x = some n) : Typed look (.cast x) n.shape .f32
  | dropout {x : Nat} {rate : Float32} {seed : Option UInt64} {n : GraphNode}
      (input : look x = some n) (float : n.type = .f32) :
      Typed look (.dropout x rate seed) n.shape .f32
  | mean {x : Nat} {n : GraphNode} (input : look x = some n) (float : n.type = .f32)
      (axis : n.shape ≠ []) : Typed look (.mean x) n.shape.dropLast .f32
  | reduceSum {x : Nat} {n : GraphNode} (input : look x = some n) :
      Typed look (.reduceSum x) [] n.type
  | sigmoidCrossEntropy {z x : Nat} {n m : GraphNode} {shape : DeclaredShape}
      (targets : look z = some n) (logits : look x = some m) (targetType : n.type = .f32)
      (logitType : m.type = .f32) (common : DeclaredShape.broadcast n.shape m.shape = some shape) :
      Typed look (.sigmoidCrossEntropy z x) shape .f32
  | softmaxCrossEntropy {x z : Nat} {n m : GraphNode} (logits : look x = some n)
      (labels : look z = some m) (logitType : n.type = .f32) (labelType : m.type = .f32)
      (axis : n.shape ≠ []) (sameLength : n.shape.length = m.shape.length)
      (agree : ∀ p ∈ n.shape.zip m.shape, DeclaredShape.axesAgree p.1 p.2) :
      Typed look (.softmaxCrossEntropy x z) n.shape.dropLast .f32
  | gradient {loss target : Nat} {n v : GraphNode} (lossFound : look loss = some n)
      (targetFound : look target = some v) (lossType : n.type = .f32) (isVariable : v.op.isVariable)
      (targetType : v.type = .f32) : Typed look (.gradient loss target) v.shape .f32
  | assign {target value : Nat} {v n : GraphNode} (targetFound : look target = some v)
      (valueFound : look value = some n) (isVariable : v.op.isVariable) (sameType : v.type = n.type)
      (fits : DeclaredShape.broadcast v.shape n.shape = some v.shape) :
      Typed look (.assign target value) v.shape v.type
  | assignAdd {target delta : Nat} {v n : GraphNode} (targetFound : look target = some v)
      (deltaFound : look delta = some n) (isVariable : v.op.isVariable) (sameType : v.type = n.type)
      (fits : DeclaredShape.broadcast v.shape n.shape = some v.shape) :
      Typed look (.assignAdd target delta) v.shape v.type

namespace Op

/-- Evaluating an operation needs only slots that it is connected to. -/
theorem operands_subset_inputs (op : Op) : op.operands ⊆ op.inputs := by
  cases op <;> simp [operands, inputs]

variable {look : Nat → Option GraphNode} {op : Op} {shape : DeclaredShape} {type : ElementType}

/-- A typed operation stays typed where more nodes are found. -/
theorem Typed.mono {look' : Nat → Option GraphNode}
    (hlook : ∀ {s n}, look s = some n → look' s = some n) (h : op.Typed look shape type) :
    op.Typed look' shape type := by
  -- every rule asks only for nodes that are found, and these stay
  cases h with
  | placeholder held => exact .placeholder held
  | constant closed => exact .constant closed
  | stored found closed => exact .stored (hlook found) closed
  | counter => exact .counter
  | random closed => exact .random closed
  | fill closed => exact .fill closed
  | dot left right leftType rightType leftShape rightShape agree =>
    exact .dot (hlook left) (hlook right) leftType rightType leftShape rightShape agree
  | biasAdd input bias inputType biasType lastAxis biasShape agree =>
    exact .biasAdd (hlook input) (hlook bias) inputType biasType lastAxis biasShape agree
  | binary left right sameType float common =>
    exact .binary (hlook left) (hlook right) sameType float common
  | unary input float => exact .unary (hlook input) float
  | clip input float => exact .clip (hlook input) float
  | cast input => exact .cast (hlook input)
  | dropout input float => exact .dropout (hlook input) float
  | mean input float axis => exact .mean (hlook input) float axis
  | reduceSum input => exact .reduceSum (hlook input)
  | sigmoidCrossEntropy targets logits targetType logitType common =>
    exact .sigmoidCrossEntropy (hlook targets) (hlook logits) targetType logitType common
  | softmaxCrossEntropy logits labels logitType labelType axis sameLength agree =>
    exact .softmaxCrossEntropy (hlook logits) (hlook labels) logitType labelType axis sameLength
      agree
  | gradient lossFound targetFound lossType isVariable targetType =>
    exact .gradient (hlook lossFound) (hlook targetFound) lossType isVariable targetType
  | assign targetFound valueFound isVariable sameType fits =>
    exact .assign (hlook targetFound) (hlook valueFound) isVariable sameType fits
  | assignAdd targetFound deltaFound isVariable sameType fits =>
    exact .assignAdd (hlook targetFound) (hlook deltaFound) isVariable sameType fits

/-- The slots that a typed operation is connected to are found. -/
theorem Typed.found (h : op.Typed look shape type) {s : Nat} (hs : s ∈ op.inputs) :
    ∃ n, look s = some n := by
  -- what is left are the operations with one operand, and then those with two
  cases h <;> simp only [inputs, Option.toList, List.mem_cons, List.not_mem_nil, or_false] at hs
  case stored found _ => exact ⟨_, hs ▸ found⟩
  case unary input _ => exact ⟨_, hs ▸ input⟩
  case clip input _ => exact ⟨_, hs ▸ input⟩
  case cast input => exact ⟨_, hs ▸ input⟩
  case dropout input _ => exact ⟨_, hs ▸ input⟩
  case mean input _ _ => exact ⟨_, hs ▸ input⟩
  case reduceSum input => exact ⟨_, hs ▸ input⟩
  all_goals rcases hs with rfl | rfl <;> exact ⟨_, by assumption⟩

/-- Typed operations declare shapes that the engine can hold, when their operands do. -/
theorem Typed.held (h : op.Typed look shape type)
    (hlook : ∀ {s n}, look s = some n → n.shape.Held) : shape.Held := by
  cases h with
  | placeholder held => exact held
  | constant closed => exact closed.held
  | stored found closed => exact closed.held
  | counter => exact DeclaredShape.closed_nil.held
  | random closed => exact closed.held
  | fill closed => exact closed.held
  | dot left right _ _ leftShape rightShape _ =>
    -- the rows of the left factor and the columns of the right one
    have hl := (hlook left).pos_or_open
    have hr := (hlook right).pos_or_open
    rw [leftShape] at hl
    rw [rightShape] at hr
    refine ⟨by simp, ?_⟩
    simp only [List.forall_mem_cons] at hl hr ⊢
    exact ⟨hl.1, hr.2.1, by simp⟩
  | binary left right _ _ common => exact (hlook left).broadcast (hlook right) common
  | mean input _ _ => exact (hlook input).dropLast
  | reduceSum _ => exact DeclaredShape.closed_nil.held
  | sigmoidCrossEntropy targets logits _ _ common =>
    exact (hlook targets).broadcast (hlook logits) common
  | softmaxCrossEntropy logits _ _ _ _ _ _ => exact (hlook logits).dropLast
  | biasAdd input => exact hlook input
  | unary input => exact hlook input
  | clip input => exact hlook input
  | cast input => exact hlook input
  | dropout input => exact hlook input
  | gradient _ target => exact hlook target
  | assign target => exact hlook target
  | assignAdd target => exact hlook target

theorem isVariable_of_isTrainable {op : Op} (h : op.isTrainable) : op.isVariable := by
  cases op with
  | «variable» => rfl
  | _ => cases h

theorem isTrainable_of_not_isVariable {op : Op} (h : op.isVariable = false) :
    op.isTrainable = false := by
  refine Bool.eq_false_iff.2 fun htrainable => ?_
  rw [isVariable_of_isTrainable htrainable] at h
  cases h

end Op

namespace Graph

/-- The nodes registered before a slot. -/
def before (g : Graph) (slot s : Nat) : Option GraphNode := if s < slot then g.nodes[s]? else none

theorem before_eq_some_iff {g : Graph} {slot s : Nat} {n : GraphNode} :
    g.before slot s = some n ↔ s < slot ∧ g.nodes[s]? = some n := by
  by_cases h : s < slot <;> simp [before, h]

/-- A graph whose nodes are typed over the nodes before them. -/
structure Typed (g : Graph) : Prop where
  /-- Every node is typed over the nodes before it. -/
  node : ∀ {slot : Nat} {n : GraphNode}, g.nodes[slot]? = some n →
    n.op.Typed (g.before slot) n.shape n.type

theorem lt_size_of_getElem? {g : Graph} {s : Nat} {n : GraphNode} (h : g.nodes[s]? = some n) :
    s < g.size :=
  (Array.getElem?_eq_some_iff.1 h).1

theorem exists_node_of_lt {g : Graph} {s : Nat} (h : s < g.size) : ∃ n, g.nodes[s]? = some n := by
  have h : s < g.nodes.size := h
  exact ⟨g.nodes[s], Array.getElem?_eq_getElem h⟩

/-- A node of a graph with one more node is an old one or the new one. -/
theorem getElem?_push_eq_some_iff {g : Graph} {n m : GraphNode} {s : Nat} :
    (g.push n).nodes[s]? = some m ↔ g.nodes[s]? = some m ∨ s = g.size ∧ m = n := by
  rw [push, Array.getElem?_push]
  split
  · next h =>
    subst h
    simp [size, eq_comm]
  · next h => simp [size, h]

theorem lt_size_push (g : Graph) (n : GraphNode) : g.size < (g.push n).size := by
  change g.nodes.size < (g.nodes.push n).size
  rw [Array.size_push]
  exact Nat.lt_succ_self _

/-- What was found before the new node is found in the longer graph. -/
theorem before_push {g : Graph} {n : GraphNode} {slot s : Nat} {m : GraphNode}
    (h : g.before slot s = some m) : (g.push n).before slot s = some m := by
  obtain ⟨hlt, hs⟩ := before_eq_some_iff.1 h
  exact before_eq_some_iff.2 ⟨hlt, getElem?_push_eq_some_iff.2 (.inl hs)⟩

theorem typed_empty (id : Nat) : (empty id).Typed := ⟨by simp [empty]⟩

namespace Typed

variable {g : Graph}

/-- Appending a typed node keeps a graph typed. -/
theorem push (h : g.Typed) {n : GraphNode} (hn : n.op.Typed (g.before g.size) n.shape n.type) :
    (g.push n).Typed where
  node {slot m} hm := by
    rcases getElem?_push_eq_some_iff.1 hm with hold | ⟨rfl, rfl⟩
    · exact (h.node hold).mono before_push
    · exact hn.mono before_push

/-- An operation is connected to earlier slots. -/
theorem lt_of_mem_inputs (h : g.Typed) {slot s : Nat} {n : GraphNode}
    (hn : g.nodes[slot]? = some n) (hs : s ∈ n.op.inputs) : s < slot := by
  obtain ⟨m, hm⟩ := (h.node hn).found hs
  exact (before_eq_some_iff.1 hm).1

/-- Evaluating a slot needs earlier slots. -/
theorem lt_of_mem_operands (h : g.Typed) {slot s : Nat} (hs : s ∈ g.operands slot) : s < slot := by
  cases hn : g.nodes[slot]? with
  | none => simp [operands, hn] at hs
  | some n =>
    simp only [operands, hn, Option.map_some, Option.getD_some] at hs
    exact h.lt_of_mem_inputs hn (n.op.operands_subset_inputs hs)

/-- Every declared shape is one that the engine can hold. -/
theorem held (h : g.Typed) {slot : Nat} {n : GraphNode} (hn : g.nodes[slot]? = some n) :
    n.shape.Held := by
  -- the operands of a node are earlier slots
  induction slot using Nat.strongRecOn generalizing n with
  | ind slot ih =>
    refine (h.node hn).held fun {s m} hm => ?_
    obtain ⟨hlt, hs⟩ := before_eq_some_iff.1 hm
    exact ih s hlt hs

/-- A variable has a closed declared shape. -/
theorem closed_of_isVariable (h : g.Typed) {slot : Nat} {n : GraphNode}
    (hn : g.nodes[slot]? = some n) (hvar : n.op.isVariable) : n.shape.Closed := by
  have htyped := h.node hn
  obtain ⟨op, shape, type, name⟩ := n
  cases htyped <;> simp only [Op.isVariable, Bool.false_eq_true] at hvar
  case stored found closed => exact closed
  case counter => exact DeclaredShape.closed_nil

end Typed
end Graph
end TensorGraph
