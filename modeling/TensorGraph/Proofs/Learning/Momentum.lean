import TensorGraph.Proofs.Evaluation.Shapes
import TensorGraph.Proofs.Learning.Descent
import TensorGraph.Proofs.Learning.Objective
import TensorGraph.Proofs.Shape.Stretching

/-!
# The momentum recurrence

The values that the nodes of a step have in a run: the new accumulator and the new weight, computed
from the weight, the accumulator and the gradient as they are at the start of the run.

## Main definitions

* `Setting.lossGradient`: the derivative of a loss by a variable, over recomputed values.
* `Descent.velocity` and `Descent.moved`: the accumulator and the weight after a step.
* `Descent.Wiring.Evaluated`: the nodes of a step have been evaluated.

## Main results

* `Descent.Wiring.Present.values`: the values of the two updates of a step.
-/

namespace TensorGraph

/-- The derivative of the summed loss in a slot by a variable, over recomputed values. It is zero
when the loss does not depend on the variable. -/
def Setting.lossGradient {S : Type} [Scalar S] (env : Setting S) (noise : Nat → Option (Tensor S))
    (loss target : Nat) : Option (Tensor S) :=
  (env.store.get? target).map fun w =>
    let known := Known.ofValues (fun slot => env.recompute noise (slot + 1) slot) noise
    ((env.graph.sensitivities known loss).get? target).getD (.full w.shape 0)

namespace Descent

/-- The accumulator after a step. -/
def velocity (d : Descent) (v g : Tensor Float32) : Tensor Float32 :=
  .tabulate v.shape fun i j => d.momentum * v.entry i j - d.learningRate * g.entry i j

/-- The weight after a step, when `v` is the accumulator after it. -/
def moved (w v : Tensor Float32) : Tensor Float32 :=
  .tabulate w.shape fun i j => w.entry i j + v.entry i j

/-- The accumulator after a step, as the nodes of the step compute it. -/
theorem velocity_eq_combine (d : Descent) {v g : Tensor Float32} (h : g.shape = v.shape) :
    d.velocity v g = .combine v.shape (BinaryOp.apply .subtract)
      (.combine v.shape (BinaryOp.apply .multiply) (.ofValue (.scalar d.momentum)) v)
      (.combine g.shape (BinaryOp.apply .multiply) (.ofValue (.scalar d.learningRate)) g) := by
  rw [Tensor.combine_scalar, Tensor.combine_scalar, h,
    Tensor.combine_of_shape_eq (Tensor.shape_tabulate _ _) (Tensor.shape_tabulate _ _)]
  refine Tensor.tabulate_congr fun i j hi hj => ?_
  rw [Tensor.entry_tabulate hi hj, Tensor.entry_tabulate hi hj]
  rfl

theorem moved_eq_combine {w v : Tensor Float32} (h : v.shape = w.shape) :
    moved w v = .combine w.shape (BinaryOp.apply .add) w v :=
  (Tensor.combine_of_shape_eq rfl h).symm

end Descent

namespace Settled

variable {S : Type} [Scalar S] {env : Setting S} {listed : List Nat} {e : Evaluation S}

/-- The value of a gradient node is the derivative over recomputed values. -/
theorem lossGradient_eq (h : Settled env listed e) (hg : env.graph.Typed)
    (hlisted : env.graph.Finished listed) {slot loss target : Nat} {v : GraphNode}
    (hslot : slot ∈ listed) (hop : env.graph.op? slot = some (.gradient loss target))
    (hv : env.graph.nodes[target]? = some v) (hvar : v.op.isVariable) :
    env.lossGradient e.noise.get? loss target = some (e.known.value slot) := by
  have hcomputed := h.computed_op hslot hop
  obtain ⟨n, hn, hop'⟩ := Option.map_eq_some_iff.1 hop
  have hloss : loss ∈ listed := hlisted.mem_of_op? hslot hop (by simp [Op.operands, Op.inputs])
  have htarget : target ∈ listed := hlisted.mem_of_op? hslot hop (by simp [Op.operands, Op.inputs])
  -- what the loss reaches has been evaluated, and its values are the recomputed ones
  have hsweep : env.graph.sensitivities e.known loss = env.graph.sensitivities
      (.ofValues (fun slot => env.recompute e.noise.get? (slot + 1) slot) e.noise.get?) loss := by
    refine Graph.sensitivities_congr (fun s hs => ?_) fun _ _ => rfl
    simp only [Known.ofValues, h.recompute_eq hg hlisted (Nat.lt_succ_self s)
      (hlisted.mem_of_reaches hloss hs), Option.getD_some]
  simp only [Setting.compute, Except.ok.injEq] at hcomputed
  rw [Setting.lossGradient, h.store_eq htarget hv hvar, Option.map_some, ← hcomputed,
    h.known_sensitivity hslot hn hop', hsweep]

/-- The value of a gradient node has the shape of the variable. -/
theorem shape_of_gradient (h : Settled env listed e) (hg : env.graph.Typed) (hfits : env.Fits)
    (hlisted : env.graph.Finished listed) {slot loss target : Nat} {v : GraphNode} {shape : Shape}
    (hslot : slot ∈ listed) (hop : env.graph.op? slot = some (.gradient loss target))
    (hv : env.graph.nodes[target]? = some v) (hshape : v.shape.concrete? = some shape) :
    (e.known.value slot).shape = shape := by
  obtain ⟨n, hn, hop⟩ := Option.map_eq_some_iff.1 hop
  have hcovers := h.covers hg hfits hlisted hslot hn
  have htyped := hg.node hn
  obtain ⟨op, declared, type, name⟩ := n
  obtain rfl := hop
  -- a gradient is declared with the shape of its variable
  cases htyped with | gradient _ found _ _ _ =>
  obtain rfl := Option.some.inj (hv.symm.trans (Graph.before_eq_some_iff.1 found).2)
  exact (DeclaredShape.covers_iff_of_concrete? hshape).1 hcovers

/-- The value of an operation on two operands that stretch to a common shape. -/
theorem binary_eq (h : Settled env listed e) {slot a b : Nat} {op : BinaryOp} {shape : Shape}
    (hslot : slot ∈ listed) (hop : env.graph.op? slot = some (.binary op a b))
    (hshape : Shape.broadcast (e.known.value a).shape (e.known.value b).shape = some shape) :
    e.known.value slot = .combine shape op.apply (e.known.value a) (e.known.value b) := by
  obtain ⟨shape', hcommon, heq⟩ := except_bind_eq_ok_iff.1 (h.computed_op hslot hop)
  rw [Setting.commonShape_eq_ok_iff, hshape, Option.some.injEq] at hcommon
  subst hcommon
  exact (Except.ok.inj heq).symm

/-- The value of an operation whose first operand is a scalar has the shape of the second one. -/
theorem binary_eq_of_scalar (h : Settled env listed e) {slot a b : Nat} {op : BinaryOp}
    (hslot : slot ∈ listed) (hop : env.graph.op? slot = some (.binary op a b))
    (ha : (e.known.value a).shape = []) :
    e.known.value slot =
      .combine (e.known.value b).shape op.apply (e.known.value a) (e.known.value b) :=
  h.binary_eq hslot hop (ha.symm ▸ Shape.broadcast_nil _)

/-- The value of an update that gives a variable a value of its own shape. -/
theorem assign_eq (h : Settled env listed e) {slot target value : Nat} {v : GraphNode}
    (hslot : slot ∈ listed) (hop : env.graph.op? slot = some (.assign target value))
    (hv : env.graph.nodes[target]? = some v)
    (hshape : v.shape.concrete? = some (e.known.value value).shape) :
    e.known.value slot = e.known.value value := by
  obtain ⟨shape, hstatic, hfit⟩ := except_bind_eq_ok_iff.1 (h.computed_op hslot hop)
  rw [Setting.staticShape_eq_ok_iff hv, hshape, Option.some.injEq] at hstatic
  subst hstatic
  rw [(Setting.fitTo_eq_ok_iff.1 hfit).2, Tensor.stretch_self]

end Settled

namespace Descent.Wiring

/-- The nodes of a step against an objective are among the evaluated ones. -/
structure Evaluated (w : Wiring) (objective : Nat) (listed : List Nat) : Prop where
  objective : objective ∈ listed
  rate : w.rate ∈ listed
  momentum : w.momentum ∈ listed
  weight : w.weight ∈ listed
  gradient : w.gradient ∈ listed
  accumulator : w.accumulator ∈ listed
  scaled : w.scaled ∈ listed
  decayed : w.decayed ∈ listed
  velocity : w.velocity ∈ listed
  moved : w.moved ∈ listed
  ofAccumulator : w.ofAccumulator ∈ listed
  ofWeight : w.ofWeight ∈ listed

namespace Present

variable {env : Setting Float32} {listed : List Nat} {e : Evaluation Float32} {d : Descent}
  {w : Wiring} {objective : Nat} {x a : GraphNode}

/-- A run that evaluates the updates of a step evaluates all of its nodes. -/
theorem evaluated {g : Graph} (h : w.Present d g objective) (hlisted : g.Finished listed)
    (hofAccumulator : w.ofAccumulator ∈ listed) (hofWeight : w.ofWeight ∈ listed) :
    w.Evaluated objective listed := by
  have hassigned : ∀ {u target value}, u ∈ listed → g.op? u = some (.assign target value) →
      value ∈ listed := fun hu hop => hlisted.mem_of_op? hu hop List.mem_cons_self
  have hcombined : ∀ {s op a b}, s ∈ listed → g.op? s = some (.binary op a b) →
      a ∈ listed ∧ b ∈ listed := fun hs hop =>
    ⟨hlisted.mem_of_op? hs hop List.mem_cons_self,
      hlisted.mem_of_op? hs hop (List.mem_cons_of_mem _ List.mem_cons_self)⟩
  -- from the updates down to what the step starts from
  have hvelocity := hassigned hofAccumulator h.ofAccumulator
  have hmoved := hassigned hofWeight h.ofWeight
  obtain ⟨hdecayed, hscaled⟩ := hcombined hvelocity h.velocity
  obtain ⟨hrate, hgradient⟩ := hcombined hscaled h.scaled
  obtain ⟨hmomentum, haccumulator⟩ := hcombined hdecayed h.decayed
  obtain ⟨hweight, -⟩ := hcombined hmoved h.moved
  have hobjective := hlisted.mem_of_op? hgradient h.gradient List.mem_cons_self
  exact ⟨hobjective, hrate, hmomentum, hweight, hgradient, haccumulator, hscaled, hdecayed,
    hvelocity, hmoved, hofAccumulator, hofWeight⟩

/-- The node of the velocity has the accumulator after the step as its value. -/
theorem velocity_eq (hpresent : w.Present d env.graph objective) (h : Settled env listed e)
    (hmem : w.Evaluated objective listed)
    (hshape : (e.known.value w.gradient).shape = (e.known.value w.accumulator).shape) :
    e.known.value w.velocity =
      d.velocity (e.known.value w.accumulator) (e.known.value w.gradient) := by
  have hrate := Except.ok.inj (h.computed_op hmem.rate hpresent.rate)
  have hmomentum := Except.ok.inj (h.computed_op hmem.momentum hpresent.momentum)
  have hscaled := h.binary_eq_of_scalar hmem.scaled hpresent.scaled (hrate ▸ rfl)
  have hdecayed := h.binary_eq_of_scalar hmem.decayed hpresent.decayed (hmomentum ▸ rfl)
  -- the constants are scalars, so the products have the shapes of the gradient and of the
  -- accumulator
  rw [velocity_eq_combine d hshape, hrate, hmomentum, ← hscaled, ← hdecayed]
  refine h.binary_eq hmem.velocity hpresent.velocity ?_
  rw [hscaled, hdecayed, Tensor.shape_combine, Tensor.shape_combine, hshape]
  exact Shape.broadcast_self _

/-- The node of the moved weight has the weight after the step as its value. -/
theorem moved_eq (hpresent : w.Present d env.graph objective) (h : Settled env listed e)
    (hmem : w.Evaluated objective listed)
    (hshape : (e.known.value w.velocity).shape = (e.known.value w.weight).shape) :
    e.known.value w.moved =
      Descent.moved (e.known.value w.weight) (e.known.value w.velocity) := by
  rw [moved_eq_combine hshape]
  refine h.binary_eq hmem.moved hpresent.moved ?_
  rw [hshape]
  exact Shape.broadcast_self _

/-- The two updates of a step give the accumulator and the weight their values after it. All that
is read are the values at the start of the run. -/
theorem values (hpresent : w.Present d env.graph objective) (h : Settled env listed e)
    (hg : env.graph.Typed) (hfits : env.Fits) (hlisted : env.graph.Finished listed)
    (hmem : w.Evaluated objective listed)
    (hx : env.graph.nodes[w.weight]? = some x) (hxvar : x.op.isVariable)
    (ha : env.graph.nodes[w.accumulator]? = some a) (havar : a.op.isVariable)
    (hsame : a.shape = x.shape) :
    ∃ weight accumulator gradient : Tensor Float32,
      env.store.get? w.weight = some weight ∧ env.store.get? w.accumulator = some accumulator ∧
      env.lossGradient e.noise.get? objective w.weight = some gradient ∧
      accumulator.shape = weight.shape ∧ gradient.shape = weight.shape ∧
      e.known.value w.ofAccumulator = d.velocity accumulator gradient ∧
      e.known.value w.ofWeight = Descent.moved weight (d.velocity accumulator gradient) := by
  have hw := h.store_eq hmem.weight hx hxvar
  have hv := h.store_eq hmem.accumulator ha havar
  have hgrad := h.lossGradient_eq hg hlisted hmem.gradient hpresent.gradient hx hxvar
  -- the three tensors have the shape that the weight declares
  obtain ⟨x', hx', hwshape⟩ := hfits.stored hw
  obtain ⟨a', ha', hvshape⟩ := hfits.stored hv
  obtain rfl := Option.some.inj (hx.symm.trans hx')
  obtain rfl := Option.some.inj (ha.symm.trans ha')
  have hgw := h.shape_of_gradient hg hfits hlisted hmem.gradient hpresent.gradient hx hwshape
  have hvw := Option.some.inj ((hsame ▸ hvshape).symm.trans hwshape)
  have hvelocity := hpresent.velocity_eq h hmem (hgw.trans hvw.symm)
  have hmoved := hpresent.moved_eq h hmem (hvelocity ▸ hvw)
  refine ⟨_, _, _, hw, hv, hgrad, hvw, hgw, ?_, ?_⟩
  · rw [← hvelocity]
    refine h.assign_eq hmem.ofAccumulator hpresent.ofAccumulator ha ?_
    rw [hvelocity]
    exact hvshape
  · rw [← hvelocity, ← hmoved]
    refine h.assign_eq hmem.ofWeight hpresent.ofWeight hx ?_
    rw [hmoved]
    exact hwshape

end Present

end Descent.Wiring

end TensorGraph
