import TensorGraph.Engine.Function

/-!
# Gradient descent

Stochastic gradient descent with momentum. A weight `w` with gradient `g` has an accumulator `v`
that begins at zero, and one step is

    v := momentum * v - learningRate * g
    w := w + v

A counter holds the number of steps. Counter and accumulators are variables of the engine.
-/

namespace TensorGraph

/-- Gradient descent with momentum. -/
structure Descent where
  learningRate : Float32
  /-- The factor of the accumulator. -/
  momentum : Float32
  learningRate_pos : learningRate.isFinite ∧ 0 < learningRate
  momentum_nonneg : momentum.isFinite ∧ 0 ≤ momentum

namespace Descent

/-- Descent with learning rate `0.01` and without momentum. -/
def standard : Descent := ⟨0.01, 0, by decide +kernel, by decide +kernel⟩

def withLearningRate (d : Descent) (rate : Float32) : Except Error Descent :=
  if h : rate.isFinite ∧ 0 < rate then .ok { d with learningRate := rate, learningRate_pos := h }
  else .error (.invalidArgument (.badLearningRate rate))

def withMomentum (d : Descent) (momentum : Float32) : Except Error Descent :=
  if h : momentum.isFinite ∧ 0 ≤ momentum then
    .ok { d with momentum := momentum, momentum_nonneg := h }
  else .error (.invalidArgument (.badMomentum momentum))

/-- Descent with a learning rate and without momentum. -/
def ofLearningRate (rate : Float32) : Except Error Descent := standard.withLearningRate rate

def describe (d : Descent) : String :=
  "Sgd \x7b learning_rate: " ++ NumberText.render .detailed d.learningRate ++ ", momentum: " ++
    NumberText.render .detailed d.momentum ++ " \x7d"

/-- Append accumulators for some weights, numbered from `k` on. -/
def accumulators : Nat → List Node → Call (List Node)
  | _, [] => return []
  | k, weight :: rest => do
    let shape ← Engine.shape weight
    let accumulator ←
      Engine.stateVariable shape .zeros ("SGD_Momentum_" ++ NumberText.natural k)
    return accumulator :: (← accumulators (k + 1) rest)

/-- Append the two updates of one weight: of its accumulator, then of the weight itself. -/
def step (rate momentum weight gradient accumulator : Node) : Call (List Node) := do
  let scaled ← Engine.multiply rate gradient none
  let decayed ← Engine.multiply momentum accumulator none
  let velocity ← Engine.subtract decayed scaled none
  -- both updates read the weight and the accumulator as they are before the step
  let ofAccumulator ← Engine.update accumulator velocity
  let moved ← Engine.add weight velocity none
  let ofWeight ← Engine.update weight moved
  return [ofAccumulator, ofWeight]

/-- Append the updates of weights that pair with gradients and accumulators. -/
def steps (rate momentum : Node) : List (Node × Node × Node) → Call (List Node)
  | [] => return []
  | (weight, gradient, accumulator) :: rest => do
    let updates ← step rate momentum weight gradient accumulator
    return updates ++ (← steps rate momentum rest)

/-- Append the updates that train some weights against a loss: of the counter, then of every
weight. -/
def compile (d : Descent) (loss : Node) (weights : List Node) : Call (List Node) := do
  let iterations ← Engine.counter 0 "SGD_Iterations"
  let rate ← Engine.constant (.scalar d.learningRate) (some "SGD_LearningRate")
  let momentum ← Engine.constant (.scalar d.momentum) (some "SGD_Momentum")
  let one ← Engine.constant (.integer 1) none
  let accumulators ← accumulators 0 weights
  let gradients ← Engine.gradients loss weights
  -- the steps are counted before the weights move
  let count ← Engine.updateAdd iterations one
  let trained ← steps rate momentum (weights.zip (gradients.zip accumulators))
  Engine.report (.compiledUpdates (trained.length + 1) weights.length)
  return count :: trained

end Descent
end TensorGraph
