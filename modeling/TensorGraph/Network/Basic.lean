import TensorGraph.Network.Layer

/-!
# Networks

A network is a list of named layers that only grows. A layer is fed by an earlier one, so going
from layers to their feeders ends at an input. Names are unique: a layer without a requested name
gets the first free one of `kind_1`, `kind_2`, ….
-/

namespace TensorGraph

/-- A layer of a network under its name. -/
structure NamedLayer where
  name : String
  layer : Layer

/-- A growing list of layers. -/
structure Network where
  /-- The number that tells the network from others; copies share it. -/
  id : Nat
  layers : Array NamedLayer

namespace Network

/-- The network without layers. -/
def empty (id : Nat) : Network := ⟨id, #[]⟩

def size (n : Network) : Nat := n.layers.size

/-- The layer that a handle names. -/
def layer? (n : Network) (id : LayerId) : Option NamedLayer :=
  if id.graph = n.id then n.layers[id.index]? else none

def layer (n : Network) (id : LayerId) : Except Error NamedLayer :=
  match n.layer? id with
  | some l => .ok l
  | none => .error (.invalidArgument .foreignLayer)

def contains (n : Network) (id : LayerId) : Bool := (n.layer? id).isSome

def name (n : Network) (id : LayerId) : Except Error String := (n.layer id).map (·.name)

def hasName (n : Network) (name : String) : Bool := n.layers.any (·.name == name)

/-- The name of a kind with a number. -/
def numbered (kind : String) (k : Nat) : String := kind ++ "_" ++ NumberText.natural k

/-- The first of the names `kind_k`, `kind_(k+1)`, … that is free, among the given number of
them. -/
def firstFree (n : Network) (kind : String) : Nat → Nat → String
  | 0, k => numbered kind k
  | more + 1, k =>
    if n.hasName (numbered kind k) then firstFree n kind more (k + 1) else numbered kind k

/-- The first free name of a kind. One of the first `size + 1` names is free. -/
def generateName (n : Network) (kind : String) : String := n.firstFree kind n.size 1

/-- Add a layer. The layer that feeds it must be in the network and its name must be free. -/
def add (n : Network) (l : Layer) : Except Error (LayerId × Network) :=
  if l.feeder?.any (!n.contains ·) then .error (.invalidArgument .foreignFeeder)
  else
    let name := l.requestedName?.getD (n.generateName l.kind)
    if n.hasName name then .error (.invalidArgument (.takenLayerName name))
    -- the handle is the position that the layer gets
    else .ok (⟨n.id, n.size⟩, { n with layers := n.layers.push ⟨name, l⟩ })

/-- The layers from a given one up to its input, going to a feeder at most `depth` times. -/
def ancestry (n : Network) : Nat → LayerId → Except Error (List (LayerId × Layer))
  | 0, _ => .error (.invalidArgument .foreignLayer)
  | depth + 1, id => do
    let l := (← n.layer id).layer
    match l.feeder? with
    | none => return [(id, l)]
    | some feeder =>
      let above ← n.ancestry depth feeder
      return (id, l) :: above

/-- The layers from a given one up to its input. A feeder is an earlier layer. -/
def lineage (n : Network) (id : LayerId) : Except Error (List (LayerId × Layer)) :=
  n.ancestry (id.index + 1) id

/-- The shape of a layer above which the given layers stand. -/
def shapeOf : List (LayerId × Layer) → DeclaredShape
  | [] => []
  | (_, .input i) :: _ => i.shape
  | (_, .dense d _) :: above => d.outputShape (shapeOf above)
  | (_, .dropout _ _) :: above => shapeOf above

/-- The shape of the output of a layer, with an open batch axis. -/
def shape (n : Network) (id : LayerId) : Except Error DeclaredShape :=
  (n.lineage id).map shapeOf

/-- The input layers that a layer depends on, itself included. -/
def inputsOf (n : Network) (id : LayerId) : Except Error (List LayerId) :=
  (n.lineage id).map fun ls => (ls.filter (·.2.isInput)).map (·.1)

def feeder (n : Network) (id : LayerId) : Except Error (Option LayerId) :=
  (n.layer id).map (·.layer.feeder?)

end Network
end TensorGraph
