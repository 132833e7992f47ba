import TensorGraph.Graph.Op

/-!
# Graphs

A graph is a list of nodes that only grows. A node records an operation on earlier nodes, a declared
shape, an element type and perhaps a name. Beside its nodes a graph keeps a table of the names in
use and a list of the trained variables, which are written when nodes are registered and never read
off the nodes again.

* `Graph.push` appends a node and binds its name; `Graph.train` adds a slot to the trained ones.
* `Graph.find?` looks a name up in the table.
* `Graph.schedule` lists the nodes that evaluating some targets needs, every node once and after
  its operands.
-/

namespace TensorGraph

/-- A node of a graph. -/
structure GraphNode where
  op : Op
  shape : DeclaredShape
  type : ElementType
  name : Option String := none

namespace GraphNode

/-- The name of a node in messages: its own, or else its slot and operation. -/
def label (n : GraphNode) (slot : Nat) : String :=
  n.name.getD ("#" ++ NumberText.natural slot ++ " (" ++ n.op.name ++ ")")

end GraphNode

/-- A symbolic graph. -/
structure Graph where
  /-- The number that tells the graph from others. -/
  id : Nat
  nodes : Array GraphNode
  /-- The names in use with the slots that they are bound to. -/
  bound : List (String × Nat)
  /-- The slots of the trained variables, in the order in which they were added. -/
  trainable : List Nat

namespace Graph

def empty (id : Nat) : Graph := ⟨id, #[], [], []⟩

def size (g : Graph) : Nat := g.nodes.size

/-- The slot that a name is bound to. -/
def find? (g : Graph) (name : String) : Option Nat := g.bound.lookup name

/-- The slot that a handle names, if it names one of this graph. -/
def slot? (g : Graph) (n : Node) : Option Nat :=
  if n.graph = g.id ∧ n.index < g.size then some n.index else none

def handle (g : Graph) (slot : Nat) : Node := ⟨g.id, slot⟩

/-- The name of a slot in messages. -/
def label (g : Graph) (slot : Nat) : String := ((g.nodes[slot]?).map (·.label slot)).getD ""

/-- The slots that evaluating a slot needs first. -/
def operands (g : Graph) (slot : Nat) : List Nat := ((g.nodes[slot]?).map (·.op.operands)).getD []

/-- Put a slot in front of the slots already listed, its operands first, unless it is listed. The
walk descends at most `depth` levels; operands are earlier slots, so `slot + 1` levels suffice. -/
def visit (g : Graph) : Nat → List Nat → Nat → List Nat
  | 0, listed, _ => listed
  | depth + 1, listed, slot =>
    if slot ∈ listed then listed
    -- a slot finishes after its operands, so it goes in front of them
    else slot :: (g.operands slot).foldl (visit g depth) listed

/-- The slots that evaluating the targets from left to right needs, in the order in which their
evaluation finishes. -/
def schedule (g : Graph) (targets : List Nat) : List Nat :=
  (targets.foldl (fun listed slot => g.visit (slot + 1) listed slot) []).reverse

/-- Append a node, and bind its name to its slot if it has one. -/
def push (g : Graph) (n : GraphNode) : Graph :=
  { g with
    nodes := g.nodes.push n
    bound := match n.name with
      | some name => (name, g.size) :: g.bound
      | none => g.bound }

/-- Add a slot to the trained ones. -/
def train (g : Graph) (slot : Nat) : Graph := { g with trainable := g.trainable ++ [slot] }

end Graph
end TensorGraph
