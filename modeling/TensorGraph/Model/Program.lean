import TensorGraph.Learning.Plan
import TensorGraph.Model.Basic

/-!
# Programs

A program is a model compiled on an engine: three functions that train on a batch, predict, and
evaluate, and the nodes that their inputs and results belong to.

* `Model.compile` appends the nodes of the layers, targets, losses, metrics and updates, and binds
  the functions. Targets are placeholders named after their outputs; the losses add up to the one
  quantity that training minimizes, over all trained variables of the engine.
* `Program.trainBatch` makes one step, `Program.trainWith` makes the steps of a plan.
* `Program.predict` and `Program.evaluate` read the outputs, losses and metrics.
-/

namespace TensorGraph

/-- A model compiled on an engine. -/
structure Program where
  inputs : List Node
  outputs : List Node
  /-- The placeholder of the target of every output. -/
  targets : List Node
  losses : List Node
  metrics : List Node
  /-- The sum of the losses. -/
  objective : Node
  trainFunction : Function
  predictFunction : Function
  evaluateFunction : Function

namespace Model

/-- Compile layers in a workspace, one after the other. -/
def compileLayers (m : Model) (ids : List LayerId) : Compiling (List Node) :=
  ids.mapM m.network.compileLayer

/-- Append the target of an output layer, shaped like its node. -/
def compileTarget (m : Model) (id : LayerId) (output : Node) : Call Node := do
  let shape ← Engine.shape output
  let name ← Engine.lift (m.network.name id)
  Engine.placeholder (name ++ "_Target") shape

/-- An output of a model with its node and the node of its target. -/
structure Pairing where
  name : String
  output : Node
  target : Node

/-- The outputs of the model with their nodes and targets. -/
def pairings (m : Model) : List (LayerId × Node × Node) → Except Error (List Pairing)
  | [] => return []
  | (id, output, target) :: rest => do
    let name ← m.network.name id
    return ⟨name, output, target⟩ :: (← m.pairings rest)

/-- Append what follows the layers, whose nodes are given, and bind the functions. -/
def assemble (m : Model) (inputs outputs : List Node) : Call Program := do
  let targets ← (m.outputs.zip outputs).mapM fun (id, output) => m.compileTarget id output
  let pairs ← Engine.lift (m.pairings (m.outputs.zip (outputs.zip targets)))
  let losses ← (m.losses.zip pairs).mapM fun (loss, p) =>
    loss.compile p.output p.target (some (p.name ++ "_Loss"))
  let objective ← Engine.aggregate losses
  Engine.report (.aggregatedLosses losses.length)
  let metrics ← (m.metrics.zip pairs).mapM fun (metric, p) =>
    metric.compile p.output p.target (some (p.name ++ "_" ++ metric.name))
  let weights := (← get).trainableWeights
  -- weights that were on the engine before the model are trained along with its own
  let updates ← m.descent.compile objective weights
  let trainFunction ← Engine.function (inputs ++ targets) (outputs ++ losses) updates
  let predictFunction ← Engine.function inputs outputs []
  let evaluateFunction ← Engine.function (inputs ++ targets) (losses ++ metrics) []
  Engine.report (.compiledModel inputs.length outputs.length weights.length)
  return { inputs := inputs, outputs := outputs, targets := targets, losses := losses,
           metrics := metrics, objective := objective,
           trainFunction := trainFunction.withPhase .train,
           predictFunction := predictFunction, evaluateFunction := evaluateFunction }

/-- Compile the inputs and then the outputs in a workspace. -/
def compileEnds (m : Model) : Compiling (List Node × List Node) := do
  let inputs ← m.compileLayers m.inputs
  let outputs ← m.compileLayers m.outputs
  return (inputs, outputs)

/-- Append the nodes of the model and bind its functions. -/
def compile (m : Model) : Call Program := fun e =>
  -- the context of compiled layers does not outlive the call
  match m.compileEnds ⟨.ofEngine e, e⟩ with
  | .error failure w => .error failure w.engine
  | .ok (inputs, outputs) w => m.assemble inputs outputs w.engine

end Model

/-- Mean losses and metrics over a set of data. -/
structure Scores where
  /-- The mean of every loss. -/
  losses : List Float32
  metrics : List Float32

namespace Program

/-- Refuse the wrong number of features. -/
def checkFeatures (p : Program) (features : List Value) : Except Error Unit :=
  if features.length = p.inputs.length then .ok ()
  else .error (.invalidArgument (.featureCount p.inputs.length features.length))

def checkTargets (p : Program) (targets : List Value) : Except Error Unit :=
  if targets.length = p.targets.length then .ok ()
  else .error (.invalidArgument (.targetCount p.targets.length targets.length))

/-- The number of rows that values share with an earlier one, if there is one. -/
def sharedRows : Option Nat → List Value → Except Error Nat
  | known, [] => .ok (known.getD 0)
  | known, v :: rest =>
    match v.rows, known with
    | none, _ => .error (.invalidData .noLeadingAxis)
    | some count, none => sharedRows (some count) rest
    | some count, some expected =>
      if count = expected then sharedRows known rest
      else .error (.invalidData (.rowCounts expected count))

/-- The number of rows of every value of a batch. -/
def rowCount (values : List Value) : Except Error Nat := sharedRows none values

/-- The feeds of a batch with targets. -/
def batchFeeds (p : Program) (features targets : List Value) :
    Except Error (List (Node × Value)) := do
  p.checkFeatures features
  p.checkTargets targets
  discard (rowCount (features ++ targets))
  return p.inputs.zip features ++ p.targets.zip targets

/-- Make one training step and return one loss for every output, from before the step. -/
def trainBatch (p : Program) (features targets : List Value) : Call (List Value) := do
  let feeds ← Engine.lift (p.batchFeeds features targets)
  let results ← Engine.execute p.trainFunction feeds
  -- the function fetches the outputs first
  return (results.drop p.outputs.length).take p.losses.length

/-- The same window of rows of several values. -/
def sliceAll (values : List Value) (start count : Nat) : Except Error (List Value) :=
  values.mapM (·.sliceRows start count)

/-- Make one step for every window and add the means of the losses to a total. -/
def trainWindows (p : Program) (features targets : List Value) :
    List (Nat × Nat) → Float32 → Call Float32
  | [], total => return total
  | (start, count) :: rest, total => do
    let batchFeatures ← Engine.lift (sliceAll features start count)
    let batchTargets ← Engine.lift (sliceAll targets start count)
    let losses ← p.trainBatch batchFeatures batchTargets
    trainWindows p features targets rest
      (total + (losses.filterMap Value.mean).foldl (· + ·) 0)

/-- Whether the epoch of a number is reported: the first, every tenth after it, and the last. -/
def isReported (plan : TrainingPlan) (epoch : Nat) : Bool :=
  plan.verbose && (epoch % 10 == 0 || epoch + 1 == plan.epochs)

/-- Train for the epochs from a given number on and return the mean loss of every one. -/
def trainEpochs (p : Program) (features targets : List Value) (plan : TrainingPlan)
    (windows : List (Nat × Nat)) : Nat → Nat → Call (List Float32)
  | 0, _ => return []
  | more + 1, epoch => do
    let total ← p.trainWindows features targets windows 0
    let loss := total / Single.ofInt windows.length
    if isReported plan epoch then Engine.report (.epoch (epoch + 1) plan.epochs loss)
    return loss :: (← trainEpochs p features targets plan windows more (epoch + 1))

/-- The windows of a plan over some data, if it can be trained on. -/
def planWindows (p : Program) (features targets : List Value) (plan : TrainingPlan) :
    Except Error (Nat × List (Nat × Nat)) := do
  p.checkFeatures features
  p.checkTargets targets
  let rows ← rowCount (features ++ targets)
  if plan.epochs = 0 then throw (.invalidArgument .noEpochs)
  if plan.batchSize = 0 then throw (.invalidArgument .emptyBatch)
  let windows := plan.windows rows
  if windows.isEmpty then throw (.invalidData (.noBatch plan.batchSize rows))
  return (rows, windows)

/-- Train by a plan and return the mean loss of every epoch. -/
def trainWith (p : Program) (features targets : List Value) (plan : TrainingPlan) :
    Call (List Float32) := do
  let (rows, windows) ← Engine.lift (p.planWindows features targets plan)
  -- rows that no window covers
  let dropped := rows - windows.foldl (fun n w => n + w.2) 0
  if 0 < dropped ∧ plan.partialBatch = .drop then Engine.report (.droppedRows dropped)
  p.trainEpochs features targets plan windows plan.epochs 0

def train (p : Program) (features targets : List Value) (epochs batchSize : Nat) :
    Call (List Float32) :=
  p.trainWith features targets { epochs := epochs, batchSize := batchSize, verbose := false }

/-- The outputs for some features. -/
def predict (p : Program) (features : List Value) : Call (List Value) := do
  Engine.lift (p.checkFeatures features)
  Engine.execute p.predictFunction (p.inputs.zip features)

/-- The mean losses and metrics without training. -/
def evaluate (p : Program) (features targets : List Value) : Call Scores := do
  let feeds ← Engine.lift (p.batchFeeds features targets)
  let results ← Engine.execute p.evaluateFunction feeds
  return { losses := (results.take p.losses.length).filterMap Value.mean
           metrics := (results.drop p.losses.length).filterMap Value.mean }

end Program
end TensorGraph
