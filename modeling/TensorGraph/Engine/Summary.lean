import TensorGraph.Document.Printer
import TensorGraph.Engine.Function

/-!
# Summaries

A description of the graph of an engine that can be read without it: the nodes in the order in
which they were registered, and the trained variables. `Engine.exportSummary` writes it as a
document, where a node shows its name, inputs and rate only if it has any.
-/

namespace TensorGraph

/-- What a summary says about a node. -/
structure NodeSummary where
  index : Nat
  name : Option String
  op : String
  shape : DeclaredShape
  type : ElementType
  /-- The slots the node is connected to. -/
  inputs : List Nat
  rate : Option Float32

/-- What a summary says about a graph. -/
structure GraphSummary where
  graph : Nat
  nodes : List NodeSummary
  trainable : List Nat

namespace NodeSummary

/-- The summary of the node in a slot. -/
def ofNode (slot : Nat) (n : GraphNode) : NodeSummary :=
  { index := slot, name := n.name, op := n.op.name, shape := n.shape, type := n.type,
    inputs := n.op.inputs, rate := n.op.rate? }

def toDocument (n : NodeSummary) : Document :=
  -- a field that a node does not have is left out
  .record <|
    [("index", .natural n.index)] ++
    (n.name.map fun name => ("name", Document.string name)).toList ++
    [("type", .string n.op),
      ("shape", .array (n.shape.map .integer)),
      ("dtype", .string n.type.name)] ++
    (if n.inputs.isEmpty then [] else [("inputs", .array (n.inputs.map .natural))]) ++
    (n.rate.map fun rate => ("rate", Document.ofSingle rate)).toList

end NodeSummary

namespace GraphSummary

/-- The number of nodes with an operation of the given name. -/
def count (s : GraphSummary) (op : String) : Nat := s.nodes.countP (·.op == op)

def toDocument (s : GraphSummary) : Document :=
  .record [("graph", .natural s.graph),
    ("nodes", .array (s.nodes.map NodeSummary.toDocument)),
    ("trainable_weights", .array (s.trainable.map .natural))]

end GraphSummary

namespace Engine

def size (e : Engine) : Nat := e.graph.size

def summary (e : Engine) : GraphSummary :=
  { graph := e.graph.id
    nodes := e.graph.nodes.toList.mapIdx NodeSummary.ofNode
    trainable := e.graph.trainable }

def exportSummary (e : Engine) : String := e.summary.toDocument.pretty

/-- The engine in one line. -/
def describe (e : Engine) : String :=
  "BurnModelBackend \x7b id: " ++ NumberText.natural e.graph.id ++ ", nodes: " ++
    NumberText.natural e.size ++ ", trainable: " ++
    NumberText.bracketed (e.trainableWeights.map Node.describe) ++ ", disposed: " ++
    (if e.isDisposed then "true" else "false") ++ " \x7d"

end Engine
end TensorGraph
