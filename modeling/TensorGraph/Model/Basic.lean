import TensorGraph.Learning.Descent
import TensorGraph.Learning.Objective
import TensorGraph.Network.Compile

/-!
# Models

A model pairs the output layers of a network with losses, and perhaps with metrics, and says how to
train them. Every input that an output depends on is listed; `Model.create` checks that.
-/

namespace TensorGraph

/-- A trainable network. -/
structure Model where
  network : Network
  /-- The input layers, in the order in which features are given. -/
  inputs : List LayerId
  /-- The output layers, in the order in which predictions are given. -/
  outputs : List LayerId
  /-- One loss for every output. -/
  losses : List Loss
  descent : Descent
  /-- No metric, or one for every output. -/
  metrics : List Metric

namespace Model

/-- Refuse a model input that is not an input layer. -/
def checkInput (n : Network) (id : LayerId) : Except Error Unit := do
  let named ← n.layer id
  if !named.layer.isInput then throw (.invalidArgument (.notAnInputLayer named.name))

/-- Refuse an output that depends on an input which is not listed. -/
def checkOutput (n : Network) (inputs : List LayerId) (id : LayerId) : Except Error Unit := do
  match (← n.inputsOf id).find? (· ∉ inputs) with
  | some required =>
    throw (.invalidArgument (.unlistedInput (← n.name id) (← n.name required)))
  | none => pure ()

/-- A model over a network. -/
def create (n : Network) (inputs outputs : List LayerId) (losses : List Loss) (descent : Descent)
    (metrics : List Metric) : Except Error Model := do
  if inputs.isEmpty then throw (.invalidArgument .noInputs)
  if outputs.isEmpty then throw (.invalidArgument .noOutputs)
  if losses.length ≠ outputs.length then
    throw (.invalidArgument (.lossCount outputs.length losses.length))
  if !metrics.isEmpty && metrics.length != outputs.length then
    throw (.invalidArgument (.metricCount outputs.length metrics.length))
  -- the counts are checked before the layers are looked up
  inputs.forM (checkInput n)
  outputs.forM (checkOutput n inputs)
  return { network := n, inputs := inputs, outputs := outputs, losses := losses,
           descent := descent, metrics := metrics }

def describe (m : Model) : String :=
  "Model \x7b layers: " ++ NumberText.natural m.network.size ++
    ", inputs: " ++ NumberText.bracketed (m.inputs.map LayerId.describe) ++
    ", outputs: " ++ NumberText.bracketed (m.outputs.map LayerId.describe) ++
    ", losses: " ++ NumberText.bracketed (m.losses.map Loss.describe) ++
    ", metrics: " ++ NumberText.bracketed (m.metrics.map Metric.describe) ++
    ", optimizer: " ++ m.descent.describe ++ " \x7d"

end Model
end TensorGraph
