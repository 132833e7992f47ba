import TensorGraph.Engine.Initializer

/-!
# Variables

Variables have a value in the session. A weight or a state variable is made together with the node
of its initializer, which is evaluated once for the first value; a counter holds an integer.
-/

namespace TensorGraph.Engine

/-- Add a slot to the trained variables. -/
def train (slot : Nat) : Call Unit := modify fun e => { e with graph := e.graph.train slot }

/-- Append a variable whose first value an initializer makes. -/
def createVariable (shape : DeclaredShape) (initializer : Initializer) (name : String)
    (trainable : Bool) : Call Node := do
  checkActive
  checkShape shape false
  checkFresh name
  let (init, made) ← locate (← initializer.compile shape)
  if made.shape ≠ shape then
    refuse (.compilation (.initializerShape name made.shape shape))
  -- the first draw of the initializer is the value of the variable; a later run draws further
  let ev ← evaluate .inference .empty [init]
  let node ← register ⟨.variable trainable (some init), shape, .f32, none⟩ (some name)
  commit [(node.index, ev.known.value init)]
  if trainable then train node.index
  report (.createdVariable name shape)
  return node

/-- Append a variable that is trained. -/
def weights (shape : DeclaredShape) (initializer : Initializer) (name : String) : Call Node :=
  createVariable shape initializer name true

/-- Append a variable that is kept from run to run and not trained. -/
def stateVariable (shape : DeclaredShape) (initializer : Initializer) (name : String) : Call Node :=
  createVariable shape initializer name false

/-- Append an integer variable without axes. -/
def counter (initial : Int64) (name : String) : Call Node := do
  let node ← register ⟨.variable false none, [], .i64, none⟩ (some name)
  -- the session holds integers in single precision, like all its numbers
  commit [(node.index, .ofValue (.integer initial))]
  return node

/-- The current value of a variable. -/
def readVariable (n : Node) : Call Value := do
  let (slot, node) ← locate n
  expectVariable slot node
  let ev ← evaluate .inference .empty [slot]
  return (ev.known.value slot).toValue node.type

/-! ## Looking at nodes -/

/-- The node a name is bound to. -/
def find? (e : Engine) (name : String) : Option Node := (e.graph.find? name).map e.graph.handle

/-- The trained variables in the order in which they were created. -/
def trainableWeights (e : Engine) : List Node := e.graph.trainable.map e.graph.handle

def isDisposed (e : Engine) : Bool := e.session.isNone

def shape (n : Node) : Call DeclaredShape := do
  checkActive
  return (← locate n).2.shape

def type (n : Node) : Call ElementType := do
  checkActive
  return (← locate n).2.type

/-- The node that made the first value of a variable, if there is one. -/
def initializer (n : Node) : Call (Option Node) := do
  checkActive
  let (slot, node) ← locate n
  match node.op with
  | .variable _ init => return init.map (← currentGraph).handle
  | op => refuse (.invalidNodeKind (node.label slot) "VARIABLE" op.name)

/-- End the session. Doing so again changes nothing. -/
def dispose : Call Unit := do
  if !(← get).isDisposed then
    report (.disposedSession (← currentGraph).id)
    modify fun e => { e with session := none }

end TensorGraph.Engine
