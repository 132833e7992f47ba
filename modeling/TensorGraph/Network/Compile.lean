import TensorGraph.Network.Basic

/-!
# Compiling layers

A compile context belongs to one engine and remembers what became of every layer that was compiled
through it, so that a layer reached along several ways is compiled once. Compiling a layer compiles
its feeder first; what has been compiled is remembered even if a later layer fails.
-/

namespace TensorGraph

/-- The nodes that a layer became. -/
structure Blueprint where
  output : Node
  parameters : List Node
  /-- The nodes that made their first values. -/
  initializers : List Node

/-- The layers compiled on one engine. -/
structure CompileContext where
  /-- The number of the engine's graph. -/
  engine : Nat
  blueprints : List (LayerId × Blueprint)

namespace CompileContext

/-- The context of an engine on which nothing has been compiled. -/
def ofEngine (e : Engine) : CompileContext := ⟨e.graph.id, []⟩

/-- What a layer became. -/
def blueprint? (c : CompileContext) (id : LayerId) : Option Blueprint := c.blueprints.lookup id

def isCompiled (c : CompileContext) (id : LayerId) : Bool := (c.blueprint? id).isSome

end CompileContext

/-- A context with the engine it is used on. -/
structure Workspace where
  context : CompileContext
  engine : Engine

/-- Steps of compiling layers. The workspace survives a failure. -/
abbrev Compiling := EStateM Failure Workspace

namespace Compiling

/-- A call on the engine as a step. -/
def onEngine {α : Type} (call : Call α) : Compiling α := fun w =>
  match call w.engine with
  | .ok a e => .ok a { w with engine := e }
  | .error f e => .error f { w with engine := e }

def lift {α : Type} : Except Error α → Compiling α
  | .ok a => pure a
  | .error e => throw (.error e)

end Compiling

namespace Input

/-- Append the placeholder of an input layer. -/
def compile (i : Input) (name : String) : Call Blueprint := do
  if i.dims.isEmpty then Engine.refuse (.compilation (.noInputDimensions name))
  let output ← Engine.placeholder name i.shape
  return { output := output, parameters := [], initializers := [] }

end Input

namespace Dense

/-- Append the weights, the bias and the operations of a dense layer. -/
def compile (d : Dense) (name : String) (input : Node) (fed : DeclaredShape) :
    Call Blueprint := do
  -- every column of the weights has one entry for each input
  let size ← match fed.getLast? with
    | some size =>
      if 0 < size then pure size
      else Engine.refuse (.compilation (.openInputSize name fed))
    | none => Engine.refuse (.compilation (.openInputSize name fed))
  let weights ← Engine.weights [size, d.width] (d.weightsInitializer.getD .standard)
    (name ++ "/weights")
  let bias ← Engine.weights [d.width] (d.biasInitializer.getD .standard) (name ++ "/bias")
  let projected ← Engine.dot input weights none
  let shifted ← Engine.biasAdd projected bias none
  let output ← d.resolvedActivation.compile shifted (some name)
  let ofWeights ← Engine.initializer weights
  let ofBias ← Engine.initializer bias
  return { output := output, parameters := [weights, bias],
           initializers := ofWeights.toList ++ ofBias.toList }

end Dense

namespace Dropout

/-- Append the operation of a dropout layer. -/
def compile (d : Dropout) (name : String) (input : Node) : Call Blueprint := do
  let output ← Engine.dropout input d.rate d.seed (some name)
  return { output := output, parameters := [], initializers := [] }

end Dropout

namespace Network

open Compiling

/-- Compile a layer of a network unless the context remembers it, going to a feeder at most
`depth` times, and return the node of its output. -/
def compileWithin (n : Network) : Nat → LayerId → Compiling Node
  | 0, _ => lift (.error (.invalidArgument .foreignLayer))
  | depth + 1, id => do
    if (← get).engine.graph.id ≠ (← get).context.engine then
      lift (.error (.invalidArgument .foreignContext))
    -- the context is asked before the network, whose copies share their handles
    match (← get).context.blueprint? id with
    | some made => return made.output
    | none =>
      let named ← lift (n.layer id)
      let made ← match named.layer with
        | .input i => onEngine (i.compile named.name)
        | .dense d feeder => do
          let input ← compileWithin n depth feeder
          let fed ← lift (n.shape feeder)
          onEngine (d.compile named.name input fed)
        | .dropout d feeder => do
          let input ← compileWithin n depth feeder
          onEngine (d.compile named.name input)
      onEngine (Engine.report (.compiledLayer named.name made.parameters.length))
      modify fun w =>
        { w with context.blueprints := w.context.blueprints ++ [(id, made)] }
      return made.output

/-- Compile a layer of a network unless the context remembers it. -/
def compileLayer (n : Network) (id : LayerId) : Compiling Node := n.compileWithin (id.index + 1) id

end Network
end TensorGraph
