import TensorGraph.Learning.Descent
import TensorGraph.Learning.Objective
import TensorGraph.Proofs.Engine.Mirroring

/-!
# Losses and updates side by side

Losses, metrics and the updates of gradient descent are built from calls that can be made side by
side on two engines, so they can be built side by side themselves.

## Main results

* `Loss.mirrors_compile`: compiling a loss of renamed predictions and targets.
* `Descent.mirrors_compile`: compiling gradient descent on renamed weights.
-/

namespace TensorGraph

open Engine Renaming

variable {r : Renaming} {rel : Engine → Engine → Prop} (hrel : r.Mirroring rel)

section Losses

include hrel

/-- Adding renamed losses up. -/
theorem Engine.mirrors_aggregate (losses : List Node) :
    Mirrors rel r.node (aggregate losses) (aggregate (losses.map r.node)) := by
  cases losses with
  | nil => exact .refuse _ _
  | cons first rest =>
    change Mirrors rel r.node (rest.foldlM (fun total loss => add total loss none) first)
      ((rest.map r.node).foldlM (fun total loss => add total loss none) (r.node first))
    induction rest generalizing first with
    | nil => exact .pure first
    | cons loss rest ih => exact (hrel.binary .add first loss).bind ih

/-- A loss is mirrored on renamed predictions and targets. -/
theorem Loss.mirrors_compile (predictions targets : Node) (name : Option String) (loss : Loss) :
    Mirrors rel r.node (loss.compile predictions targets name)
      (loss.compile (r.node predictions) (r.node targets) name) := by
  cases loss with
  | meanSquaredError =>
    exact (hrel.binary .subtract _ _).bind fun _ => (hrel.unary .square _).bind fun _ =>
      hrel.mean _
  | binaryCrossEntropy =>
    exact (hrel.clip _ _ _).bind fun _ => (hrel.constant _).bind fun _ =>
      (hrel.binary .subtract _ _).bind fun _ => (hrel.binary .divide _ _).bind fun _ =>
        (hrel.unary .log _).bind fun _ => hrel.sigmoidCrossEntropy _ _
  | categoricalCrossEntropy => exact hrel.softmaxCrossEntropy _ _
  | negativeLogLikelihood ε =>
    unfold Loss.compile
    refine .refuse_unless ?_
    exact (hrel.clip _ _ _).bind fun _ => (hrel.unary .log _).bind fun _ =>
      (hrel.binary .multiply _ _).bind fun _ => (hrel.reduceSum _).bind fun _ =>
        hrel.unary .negate _

end Losses

namespace Descent

/-- The accumulators of renamed variables are renamed accumulators. -/
theorem mirrors_accumulators (k : Nat) (weights : List Node) :
    Mirrors r.Engines (List.map r.node) (accumulators k weights)
      (accumulators k (weights.map r.node)) := by
  induction weights generalizing k with
  | nil => exact .pure []
  | cons weight weights ih =>
    have hzeros : Initializer.Repeatable .zeros := trivial
    exact (mirroring_engines.shape weight).bind fun shape =>
      (Engines.createVariable shape hzeros _ false).bind fun accumulator =>
        (ih (k + 1)).bind fun rest => .pure (accumulator :: rest)

/-- A step of descent is mirrored on renamed nodes. -/
theorem mirrors_step (rate momentum weight gradient accumulator : Node) :
    Mirrors r.Engines (List.map r.node) (step rate momentum weight gradient accumulator)
      (step (r.node rate) (r.node momentum) (r.node weight) (r.node gradient)
        (r.node accumulator)) :=
  have hrel := @mirroring_engines r
  (hrel.binary .multiply _ _).bind fun _ => (hrel.binary .multiply _ _).bind fun _ =>
    (hrel.binary .subtract _ _).bind fun _ => (hrel.update _ _).bind fun ofAccumulator =>
      (hrel.binary .add _ _).bind fun _ => (hrel.update _ _).bind fun ofWeight =>
        .pure [ofAccumulator, ofWeight]

/-- Steps for several variables are mirrored one after the other. -/
theorem mirrors_steps (rate momentum : Node) (parts : List (Node × Node × Node)) :
    Mirrors r.Engines (List.map r.node) (steps rate momentum parts)
      (steps (r.node rate) (r.node momentum)
        (parts.map (Prod.map r.node (Prod.map r.node r.node)))) := by
  induction parts with
  | nil => exact .pure []
  | cons part parts ih =>
    refine (mirrors_step rate momentum part.1 part.2.1 part.2.2).bind fun updates =>
      ih.bind fun rest => ?_
    rw [← List.map_append]
    exact .pure (updates ++ rest)

/-- Compiling gradient descent on renamed weights. -/
theorem mirrors_compile (d : Descent) (loss : Node) (weights : List Node) :
    Mirrors r.Engines (List.map r.node) (d.compile loss weights)
      (d.compile (r.node loss) (weights.map r.node)) := by
  have hrel := @mirroring_engines r
  refine (Engines.counter _ _).bind fun iterations => (hrel.constant _).bind fun rate =>
    (hrel.constant _).bind fun momentum => (hrel.constant _).bind fun one =>
      (mirrors_accumulators 0 weights).bind fun accumulators =>
        (hrel.gradients loss weights).bind fun gradients =>
          (hrel.updateAdd iterations one).bind fun count => ?_
  -- the parts of the steps are renamed by renaming the three lists that they are zipped from
  have hparts : (weights.map r.node).zip ((gradients.map r.node).zip (accumulators.map r.node)) =
      (weights.zip (gradients.zip accumulators)).map
        (Prod.map r.node (Prod.map r.node r.node)) := by
    rw [List.zip_map, List.zip_map]
  rw [hparts]
  refine (mirrors_steps rate momentum _).bind fun trained => ?_
  rw [List.length_map, List.length_map]
  exact (hrel.reporting _ _).bind fun _ => .pure (count :: trained)

end Descent
end TensorGraph
