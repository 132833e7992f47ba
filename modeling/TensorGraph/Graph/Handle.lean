import TensorGraph.Number.Text

/-!
# Handles

A node handle names a slot of one graph, a layer handle a position in one network. Two handles are
equal when they name the same place; the values found there are never compared.
-/

namespace TensorGraph

/-- A handle to a node of a graph. -/
structure Node where
  /-- The number of the graph that owns the node. -/
  graph : Nat
  index : Nat
  deriving DecidableEq, Repr

namespace Node

/-- The handle as it is written in messages. -/
def label (n : Node) : String :=
  "#" ++ NumberText.natural n.index ++ "@" ++ NumberText.natural n.graph

def describe (n : Node) : String :=
  "Node(" ++ NumberText.natural n.graph ++ ":" ++ NumberText.natural n.index ++ ")"

end Node

/-- A handle to a layer of a network. -/
structure LayerId where
  /-- The number of the network that owns the layer. -/
  graph : Nat
  index : Nat
  deriving DecidableEq, Repr

namespace LayerId

def describe (l : LayerId) : String :=
  "LayerId \x7b graph: " ++ NumberText.natural l.graph ++ ", index: " ++
    NumberText.natural l.index ++ " \x7d"

end LayerId
end TensorGraph
