import TensorGraph.Engine.Variable

/-!
# Functions

A function is a set of inputs, fetched outputs and updates over one graph. Running it does not
change it.

* `Function.resolve` gives every input its override, or else its default.
* `Engine.run` evaluates the outputs and the updates on the variables as they are at its start, and
  then commits the assignments; a failing run commits nothing.
-/

namespace TensorGraph

/-- A unit of execution over a graph. -/
structure Function where
  graph : Nat
  inputs : List Node
  outputs : List Node
  updates : List Node
  /-- Values for inputs that a call does not override, at most one for an input. -/
  defaults : List (Node × Value)
  phase : Phase

namespace Function

/-- A function without defaults that is executed for inference. -/
def ofNodes (graph : Nat) (inputs outputs updates : List Node) : Function :=
  { graph := graph, inputs := inputs, outputs := outputs, updates := updates, defaults := [],
    phase := .inference }

def withPhase (f : Function) (phase : Phase) : Function := { f with phase := phase }

/-- The function with a value for an input that a call does not override. -/
def withDefault (f : Function) (input : Node) (value : Value) : Except Error Function :=
  if input ∈ f.inputs then
    -- a new default takes the place of an old one
    .ok { f with defaults := f.defaults.filter (·.1 ≠ input) ++ [(input, value)] }
  else .error (.invalidArgument (.strayDefault input))

/-- The last value bound to a node. -/
def lastBinding? (bindings : List (Node × Value)) (n : Node) : Option Value :=
  (bindings.reverse.find? (·.1 = n)).map (·.2)

/-- One value for every input in order. An override is used up by the first input it is for. -/
def resolveInputs (f : Function) :
    List Node → List (Node × Value) → Except Error (List (Node × Value))
  | [], _ => .ok []
  | input :: rest, overrides =>
    match (lastBinding? overrides input).or (lastBinding? f.defaults input) with
    | none => .error (.unresolvedInput input.label)
    | some value => do
      let feeds ← resolveInputs f rest (overrides.filter (·.1 ≠ input))
      return (input, value) :: feeds

/-- Merge the overrides of a call with the defaults. Of several overrides for a node the last one
counts; one for a node that is not an input is refused. -/
def resolve (f : Function) (overrides : List (Node × Value)) :
    Except Error (List (Node × Value)) :=
  match overrides.find? fun (n, _) => n ∉ f.inputs with
  | some (n, _) => .error (.invalidArgument (.strayOverride n))
  | none => f.resolveInputs f.inputs overrides

end Function

namespace Engine

/-- Refuse a handle that is not a placeholder of the graph. -/
def checkInput (n : Node) : Call Unit := do
  let (slot, node) ← locate n
  if !node.op.isPlaceholder then
    refuse (.invalidNodeKind (node.label slot) "PLACEHOLDER" node.op.name)

/-- Refuse a handle that is not an update of the graph. -/
def checkUpdate (n : Node) : Call Unit := do
  let (slot, node) ← locate n
  if !node.op.isUpdate then
    refuse (.invalidNodeKind (node.label slot) "UPDATE" node.op.name)

/-- Bind a function over the graph. -/
def function (inputs outputs updates : List Node) : Call Function := do
  checkActive
  inputs.forM checkInput
  outputs.forM fun n => discard (locate n)
  updates.forM checkUpdate
  return .ofNodes (← currentGraph).id inputs outputs updates

/-- Refuse a value that does not fit the node it is fed into, and report one that is not finite. -/
def checkFeed (slot : Nat) (node : GraphNode) (value : Value) : Call Unit := do
  let label := node.label slot
  if value.type ≠ node.type then refuse (.typeMismatch label node.type value.type)
  if !value.fits node.shape then refuse (.shapeMismatch label node.shape value.shape)
  if value.shape.contains 0 then refuse (.invalidData (.emptyAxis label value.shape))
  if !value.isFinite then report (.nonFiniteFeed label)

/-- The checked feeds by slot, added to those of earlier nodes. -/
def collectFeeds :
    List (Node × Value) → SlotMap (Tensor Float32) → Call (SlotMap (Tensor Float32))
  | [], feeds => pure feeds
  | (n, value) :: rest, feeds => do
    let (slot, node) ← locate n
    checkFeed slot node value
    -- a later value for the same node takes the place of an earlier one
    collectFeeds rest (feeds.insert slot (.ofValue value))

/-- Run a function on the given feeds: one value for every output, in order. -/
def run (f : Function) (feeds : List (Node × Value)) : Call (List Value) := do
  checkActive
  if f.graph ≠ (← currentGraph).id then refuse (.foreignFunction f.graph)
  let fed ← collectFeeds feeds .empty
  let outputs ← f.outputs.mapM locate
  let updates ← f.updates.mapM locate
  report (.running outputs.length updates.length f.phase)
  let ev ← evaluate f.phase fed ((outputs ++ updates).map (·.1))
  -- nothing can fail from here on
  commit ev.assignments.toList
  return outputs.map fun (slot, node) => (ev.known.value slot).toValue node.type

/-- Run a function with overrides for some of its inputs. -/
def execute (f : Function) (overrides : List (Node × Value)) : Call (List Value) := do
  run f (← lift (f.resolve overrides))

/-- Run a function with one value for every input, in order. -/
def executePositional (f : Function) (values : List Value) : Call (List Value) := do
  if values.length ≠ f.inputs.length then
    refuse (.invalidArgument (.valueCount f.inputs.length values.length))
  execute f (f.inputs.zip values)

end Engine
end TensorGraph
