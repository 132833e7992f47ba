import TensorGraph.Engine.Function

/-!
# Objectives

Losses, which training minimizes, and metrics, which are only reported. Both become nodes that
compare predictions with targets.

* `Loss.compile` and `Metric.compile` append the nodes.
* `Engine.aggregate` adds losses up.
-/

namespace TensorGraph

/-- The distance from zero and one that cross entropies keep their predictions at. -/
def epsilon : Float32 := 1e-7

/-- A quantity that training minimizes. -/
inductive Loss where
  | meanSquaredError
  /-- The cross entropy of probabilities. -/
  | binaryCrossEntropy
  /-- The cross entropy of rows of logits. -/
  | categoricalCrossEntropy
  /-- The sum of targets times logarithms of clipped predictions, negated. -/
  | negativeLogLikelihood (epsilon : Float32)

namespace Loss

def name : Loss → String
  | meanSquaredError => "MeanSquaredError"
  | binaryCrossEntropy => "BinaryCrossEntropy"
  | categoricalCrossEntropy => "CategoricalCrossEntropy"
  | negativeLogLikelihood _ => "NegativeLogLikelihood"

def describe : Loss → String
  | negativeLogLikelihood e =>
    "NegativeLogLikelihood \x7b epsilon: " ++ NumberText.render .detailed e ++ " \x7d"
  | loss => loss.name

/-- Append the nodes of the loss of predictions against targets. -/
def compile (predictions targets : Node) (name : Option String) : Loss → Call Node
  | meanSquaredError => do
    let difference ← Engine.subtract predictions targets none
    let squared ← Engine.unary .square difference none
    Engine.mean squared name
  | binaryCrossEntropy => do
    let clipped ← Engine.clip predictions epsilon (1 - epsilon) none
    -- the logit of a probability is the logarithm of its odds
    let one ← Engine.constant (.scalar 1) none
    let complement ← Engine.subtract one clipped none
    let odds ← Engine.divide clipped complement none
    let logits ← Engine.unary .log odds none
    Engine.sigmoidCrossEntropy targets logits name
  | categoricalCrossEntropy => Engine.softmaxCrossEntropy predictions targets name
  | negativeLogLikelihood e => do
    if !(decide (0 < e) && decide (e < 0.5)) then Engine.refuse (.invalidArgument (.badEpsilon e))
    let clipped ← Engine.clip predictions e (1 - e) none
    let log ← Engine.unary .log clipped none
    let weighted ← Engine.multiply targets log none
    let total ← Engine.reduceSum weighted none
    Engine.unary .negate total name

end Loss

/-- A quantity that is reported beside the losses. -/
inductive Metric where
  | meanSquaredError
  | meanAbsoluteError
  /-- A loss that is not trained on. -/
  | loss (loss : Loss)

namespace Metric

def name : Metric → String
  | meanSquaredError => "MeanSquaredError"
  | meanAbsoluteError => "MeanAbsoluteError"
  | loss l => l.name

def describe : Metric → String
  | loss l => "Loss(" ++ l.describe ++ ")"
  | metric => metric.name

/-- Append the nodes of the metric of predictions against targets. -/
def compile (predictions targets : Node) (name : Option String) : Metric → Call Node
  | meanSquaredError => Loss.meanSquaredError.compile predictions targets name
  | meanAbsoluteError => do
    let difference ← Engine.subtract predictions targets none
    let magnitude ← Engine.unary .abs difference none
    Engine.mean magnitude name
  | loss l => l.compile predictions targets name

end Metric

namespace Engine

/-- Add losses up from left to right. A single loss is returned as it is. -/
def aggregate : List Node → Call Node
  | [] => refuse (.compilation .noLosses)
  | first :: rest => rest.foldlM (fun total loss => add total loss none) first

end Engine
end TensorGraph
