import TensorGraph.Failure
import TensorGraph.Proofs.Graph.Finishing

/-!
# Graphs without dropout

Every dropout of a graph may be replaced by the identity of its operand. The graph keeps its shape:
each slot has the same operands, the same declared shape, element type and name, so the same slots
are evaluated in the same order. Only the labels of nameless dropouts change, since such a label
tells the operation.

## Main definitions

* `Graph.rate?`: the rate of the dropout in a slot.
* `Op.withoutDropout`, `GraphNode.withoutDropout` and `Graph.withoutDropout`: identities in place of
  dropouts.
* `Failure.Alike`: failures that blame the same slot by its labels in two graphs.

## Main results

* `Graph.schedule_withoutDropout`: the same slots are scheduled in the same order.
-/

namespace TensorGraph

/-- The identity of its operand for a dropout, and any other operation itself. -/
def Op.withoutDropout : Op → Op
  | dropout input _ _ => unary .identity input
  | op => op

namespace Op

variable (op : Op)

/-- An identity has the operand of the dropout that it stands for. -/
@[simp] theorem operands_withoutDropout : op.withoutDropout.operands = op.operands := by
  cases op <;> rfl

end Op

/-- The node with the identity in place of a dropout. -/
def GraphNode.withoutDropout (n : GraphNode) : GraphNode := { n with op := n.op.withoutDropout }

namespace Graph

/-- The graph with the identity in place of every dropout. -/
def withoutDropout (g : Graph) : Graph := { g with nodes := g.nodes.map (·.withoutDropout) }

/-- The rate of the dropout in a slot. -/
def rate? (g : Graph) (slot : Nat) : Option Float32 := (g.nodes[slot]?).bind (·.op.rate?)

variable {g : Graph} {slot : Nat} {n : GraphNode}

/-- The rate in a slot is that of its operation. -/
theorem rate?_eq (hn : g.nodes[slot]? = some n) : g.rate? slot = n.op.rate? := by
  simp [rate?, hn]

/-- Each slot has its own node without dropout. -/
@[simp] theorem getElem?_withoutDropout (slot : Nat) :
    g.withoutDropout.nodes[slot]? = (g.nodes[slot]?).map (·.withoutDropout) := by
  simp [withoutDropout]

@[simp] theorem size_withoutDropout : g.withoutDropout.size = g.size := by
  simp [withoutDropout, size]

/-- The same handles are accepted without dropout. -/
theorem slot?_withoutDropout (handle : Node) : g.withoutDropout.slot? handle = g.slot? handle := by
  rw [slot?, slot?, size_withoutDropout]
  rfl

/-- A node is as typed and as shaped as before. -/
theorem shape_withoutDropout (slot : Nat) :
    (g.withoutDropout.nodes[slot]?).map (·.shape) = (g.nodes[slot]?).map (·.shape) := by
  rw [getElem?_withoutDropout, Option.map_map]
  rfl

/-- Slots depend on the same slots without dropout. -/
@[simp] theorem operands_withoutDropout (slot : Nat) :
    g.withoutDropout.operands slot = g.operands slot := by
  rw [operands, operands, getElem?_withoutDropout, Option.map_map]
  congr 1
  refine Option.map_congr fun n _ => ?_
  exact n.op.operands_withoutDropout

/-- Slots are visited in the same order without dropout. -/
theorem visit_withoutDropout (depth : Nat) (listed : List Nat) (slot : Nat) :
    g.withoutDropout.visit depth listed slot = g.visit depth listed slot := by
  induction depth generalizing slot listed with
  | zero => rfl
  | succ depth ih =>
    rw [visit, visit, operands_withoutDropout]
    congr 2
    exact List.foldl_ext _ _ _ fun listed o _ => ih listed o

/-- The same slots are evaluated in the same order. -/
theorem schedule_withoutDropout (targets : List Nat) :
    g.withoutDropout.schedule targets = g.schedule targets := by
  rw [schedule, schedule]
  congr 1
  exact List.foldl_ext _ _ _ fun listed t _ => visit_withoutDropout (t + 1) listed t

end Graph

/-- Failures that are the same, but that each graph has its own label for the slot to blame. -/
inductive Failure.Alike (g g' : Graph) : Failure → Failure → Prop
  | same (failure : Failure) : Alike g g' failure failure
  | unresolvedInput (slot : Nat) :
      Alike g g' (.error (.unresolvedInput (g.label slot)))
        (.error (.unresolvedInput (g'.label slot)))
  | noVariable (slot : Nat) :
      Alike g g' (.error (.engine (.noVariable (g.label slot))))
        (.error (.engine (.noVariable (g'.label slot))))
  | openShape (slot : Nat) (shape : DeclaredShape) :
      Alike g g' (.error (.engine (.openShape (g.label slot) shape)))
        (.error (.engine (.openShape (g'.label slot) shape)))
  | shapeMismatch (slot : Nat) (expected : DeclaredShape) (actual : Shape) :
      Alike g g' (.error (.shapeMismatch (g.label slot) expected actual))
        (.error (.shapeMismatch (g'.label slot) expected actual))
  | typeMismatch (slot : Nat) (expected actual : ElementType) :
      Alike g g' (.error (.typeMismatch (g.label slot) expected actual))
        (.error (.typeMismatch (g'.label slot) expected actual))
  | emptyAxis (slot : Nat) (shape : Shape) :
      Alike g g' (.error (.invalidData (.emptyAxis (g.label slot) shape)))
        (.error (.invalidData (.emptyAxis (g'.label slot) shape)))

end TensorGraph
