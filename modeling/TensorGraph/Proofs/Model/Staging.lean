import TensorGraph.Model.Program
import TensorGraph.Proofs.Evaluation.Outcome

/-!
# The stages of compiling a model

What follows the layers of a model is appended in three stages: what training aims at, which are
the targets, the losses and their sum; the metrics; and the updates, with the functions that are
bound over all of it. The metrics depend on the targets, and nothing depends on the metrics.

## Main definitions

* `Model.Goal` and `Model.compileGoal`: the targets and losses of a model.
* `Model.compileMetrics`: its metrics.
* `Model.conclude`: its updates and functions.

## Main results

* `Model.assemble_eq`: the stages make up what follows the layers.
* `Model.compile_eq_ok_iff`: a model compiles when all of its stages do.
-/

namespace TensorGraph
namespace Model

/-- What training a model aims at. -/
structure Goal where
  targets : List Node
  /-- The outputs with their targets. -/
  pairs : List Pairing
  losses : List Node
  /-- The sum of the losses. -/
  objective : Node

/-- Append the losses of some outputs. -/
def compileLosses (m : Model) (pairs : List Pairing) : Call (List Node) :=
  (m.losses.zip pairs).mapM fun (loss, p) =>
    loss.compile p.output p.target (some (p.name ++ "_Loss"))

/-- Append the targets of the outputs, the losses, and their sum. -/
def compileGoal (m : Model) (outputs : List Node) : Call Goal := do
  let targets ← (m.outputs.zip outputs).mapM fun (id, output) => m.compileTarget id output
  let pairs ← Engine.lift (m.pairings (m.outputs.zip (outputs.zip targets)))
  let losses ← m.compileLosses pairs
  let objective ← Engine.aggregate losses
  Engine.report (.aggregatedLosses losses.length)
  return ⟨targets, pairs, losses, objective⟩

/-- Append the metrics of some outputs. -/
def compileMetrics (m : Model) (pairs : List Pairing) : Call (List Node) :=
  (m.metrics.zip pairs).mapM fun (metric, p) =>
    metric.compile p.output p.target (some (p.name ++ "_" ++ metric.name))

/-- Append the updates and bind the functions. -/
def conclude (m : Model) (inputs outputs : List Node) (goal : Goal) (metrics : List Node) :
    Call Program := do
  let weights := (← get).trainableWeights
  let updates ← m.descent.compile goal.objective weights
  let trainFunction ←
    Engine.function (inputs ++ goal.targets) (outputs ++ goal.losses) updates
  let predictFunction ← Engine.function inputs outputs []
  let evaluateFunction ←
    Engine.function (inputs ++ goal.targets) (goal.losses ++ metrics) []
  Engine.report (.compiledModel inputs.length outputs.length weights.length)
  return { inputs := inputs, outputs := outputs, targets := goal.targets, losses := goal.losses,
           metrics := metrics, objective := goal.objective,
           trainFunction := trainFunction.withPhase .train,
           predictFunction := predictFunction, evaluateFunction := evaluateFunction }

/-- What follows the layers is appended stage by stage. -/
theorem assemble_eq (m : Model) (inputs outputs : List Node) :
    m.assemble inputs outputs = (do
      let goal ← m.compileGoal outputs
      let metrics ← m.compileMetrics goal.pairs
      m.conclude inputs outputs goal metrics) := by
  simp only [assemble, compileGoal, conclude, bind_assoc, pure_bind]
  rfl

/-- A model compiles when its layers and all the stages that follow them do. -/
theorem compile_eq_ok_iff {m : Model} {e e' : Engine} {p : Program} :
    m.compile e = .ok p e' ↔ ∃ inputs outputs w goal aimed metrics scored,
      m.compileEnds ⟨.ofEngine e, e⟩ = .ok (inputs, outputs) w ∧
      m.compileGoal outputs w.engine = .ok goal aimed ∧
      m.compileMetrics goal.pairs aimed = .ok metrics scored ∧
      m.conclude inputs outputs goal metrics scored = .ok p e' := by
  unfold compile
  cases m.compileEnds ⟨.ofEngine e, e⟩ with
  | error failure w =>
    simp
  | ok ends w =>
    obtain ⟨inputs, outputs⟩ := ends
    simp only [assemble_eq, bind_eq_ok_iff, EStateM.Result.ok.injEq, Prod.mk.injEq]
    constructor
    · rintro ⟨goal, aimed, hgoal, metrics, scored, hmetrics, hconclude⟩
      exact ⟨_, _, _, goal, aimed, metrics, scored, ⟨⟨rfl, rfl⟩, rfl⟩, hgoal, hmetrics, hconclude⟩
    · rintro ⟨_, _, _, goal, aimed, metrics, scored, ⟨⟨rfl, rfl⟩, rfl⟩, hgoal, hmetrics, hconclude⟩
      exact ⟨goal, aimed, hgoal, metrics, scored, hmetrics, hconclude⟩

end Model
end TensorGraph
