import TensorGraph.Proofs.Derivative.Runs
import TensorGraph.Proofs.Engine.Reachable

/-!
# Gradients

The value of a gradient node is the derivative of its summed loss by its variable, when the loss
reaches only operations that are polynomials in their operands and no operation rounds. The
derivative is read off an evaluation of the loss on dual numbers in which the variable moves in a
direction.

## Main results

* `Settled.exists_moved`: the summed loss on dual numbers.
* `Engine.gradient_differentiates`: the value of a gradient node.
-/

open DualNumber TrivSqZeroExt

namespace TensorGraph

variable {K : Type} [Field K] [LinearOrder K] [Elementary K]

/-- Whether an operation is a certain gradient. -/
def Op.isGradient (loss target : Nat) : Op → Bool
  | gradient l t => l == loss && t == target
  | _ => false

theorem Op.eq_of_isGradient {op : Op} {loss target : Nat} (h : op.isGradient loss target) :
    op = .gradient loss target := by
  cases op with
  | gradient l t =>
    simp only [isGradient, Bool.and_eq_true, beq_iff_eq] at h
    rw [h.1, h.2]
  | _ => cases h

/-- A gradient is by a variable. -/
theorem Op.Typed.exists_target {look : Nat → Option GraphNode} {op : Op} {declared : DeclaredShape}
    {type : ElementType} (h : op.Typed look declared type) {loss target : Nat}
    (hop : op = .gradient loss target) : ∃ w, look target = some w ∧ w.op.isVariable := by
  subst hop
  cases h with | gradient _ found _ isVariable _ => exact ⟨_, found, isVariable⟩

/-- The derivative by a slot that is kept for a loss, or zeros when the loss does not reach the
slot. -/
def Graph.derivative (g : Graph) (known : Known K) (loss target : Nat) : Tensor K :=
  ((g.sensitivities known loss).get? target).getD (.full (known.value target).shape 0)

namespace Settled

variable {env : Setting K} {listed : List Nat} {e : Evaluation K} {loss target : Nat}
  {w : GraphNode}

/-- The derivative by a slot has the shape of its value. -/
theorem shape_derivative (h : Settled env listed e) (hg : env.graph.Typed) (hfits : env.Fits)
    (hlisted : env.graph.Finished listed) (hloss : loss ∈ listed) :
    (env.graph.derivative e.known loss target).shape = (e.known.value target).shape := by
  unfold Graph.derivative
  cases ht : (env.graph.sensitivities e.known loss).get? target with
  | none => rfl
  | some t =>
    refine h.shape_of_sensitivity hg hlisted hloss (fun s hs k hk => ?_) ht
    exact h.covers hg hfits hlisted (hlisted.mem_of_reaches hloss hs) hk

/-- When the variable moves in a direction, the summed loss moves by the derivative paired with the
direction. -/
theorem exists_moved (h : Settled env listed e) (hg : env.graph.Typed) (hfits : env.Fits)
    (hlisted : env.graph.Finished listed) (hloss : loss ∈ listed) (htarget : target ∈ listed)
    (hop : ∀ s n, env.graph.Reaches loss s → env.graph.nodes[s]? = some n → n.op.isPolynomial)
    (hw : env.graph.nodes[target]? = some w) (hvar : w.op.isVariable) {d : Tensor K}
    (hd : d.shape = (e.known.value target).shape) (streams : SlotMap Stream) :
    ∃ e' moved, (env.move target d).evaluate [loss] (.start streams) = .ok () e' ∧
      e'.values.get? loss = some moved ∧
      moved.total = inl (e.known.value loss).total +
        inl ((env.graph.derivative e.known loss target).hadamard d).total * ε := by
  -- the run on dual numbers gives a result, whose real parts are the values
  have hloss' := hlisted.lt_size hloss
  have hmem : ∀ s, s ∈ ((env.move target d).graph.schedule [loss]).reverse ↔
      env.graph.Reaches loss s := fun s => by
    rw [List.mem_reverse, ← hg.mem_schedule_singleton_iff hloss']
    rfl
  obtain ⟨e', he', hreal⟩ := Setting.exists_evaluate_under Scalar.hom_fst
    (Setting.under_move env target d) hg h hlisted hloss hop streams
  have hg' : (env.move target d).graph.Typed := hg
  have h' := settled_of_evaluate hg' (List.forall_mem_singleton.2 hloss') he'
  refine ⟨e', e'.known.value loss, he', h'.values_eq ((hmem loss).2 .refl), ?_⟩
  -- its slopes are what the sweep is adjoint to
  have hmoving := Setting.moving_of_settled hg hfits h hlisted hloss hop hw hvar h'
    (fun s hs => (hmem s).2 hs) fun s hs => hreal s ((hmem s).1 hs)
  have hvalue := hreal loss .refl
  have hshape : (e'.known.value loss).shape = (e.known.value loss).shape :=
    congrArg Tensor.shape hvalue
  have hslope := hmoving.total_slope hg hshape
  have hpair : Graph.pairAt (fun s => (e'.known.value s).slope)
      (env.graph.sensitivities e.known loss) target =
        ((env.graph.derivative e.known loss target).hadamard d).total := by
    rw [Tensor.total_hadamard (hd.trans (h.shape_derivative hg hfits hlisted hloss).symm),
      Graph.derivative]
    cases ht : (env.graph.sensitivities e.known loss).get? target with
    | none => exact (Graph.pairAt_eq_zero ht).trans (Tensor.pair_full_zero _ d).symm
    | some t =>
      -- the slope of the variable is the direction
      have hreached : target ∈ ((env.move target d).graph.schedule [loss]).reverse :=
        (hmem target).2 (Graph.reaches_of_sensitivity ht)
      have hmoved := h'.store_eq hreached hw hvar
      have hstored := h.store_eq htarget hw hvar
      simp only [Setting.move, SlotMap.get?_mapSlots, hstored, Option.map_some, if_true,
        Option.some.injEq] at hmoved
      have hshape : t.shape = (e.known.value target).shape :=
        h.shape_of_sensitivity hg hlisted hloss (fun s hs k hk =>
          h.covers hg hfits hlisted (hlisted.mem_of_reaches hloss hs) hk) ht
      rw [Graph.pairAt_eq ht, Option.getD_some, ← hmoved]
      refine Shape.sum_congr fun i j hi hj => ?_
      rw [hshape] at hi hj
      rw [Tensor.entry_slope_move hi hj]
  refine TrivSqZeroExt.ext ?_ ?_
  · rw [Tensor.under_total Scalar.hom_fst, hvalue]
    simp
  · rw [Tensor.snd_total, hslope, hpair]
    simp

end Settled

namespace Engine

/-- The value of a gradient node has the shape of its variable and is the derivative of the summed
loss by it: when the variable moves in a direction, evaluating the loss on dual numbers moves its
sum by the derivative times the direction. It is zero when the loss does not reach the variable. -/
theorem gradient_differentiates {e : Engine} (h : e.Reachable) {env : Setting K}
    (hgraph : env.graph = e.graph) (hfits : env.Fits) {slot loss target : Nat} {n : GraphNode}
    (hn : e.graph.nodes[slot]? = some n) (hop : n.op = .gradient loss target)
    (hpolynomial : ∀ (s : Nat) (m : GraphNode), e.graph.Reaches loss s →
      e.graph.nodes[s]? = some m → m.op.isPolynomial)
    {targets : List Nat} (htargets : ∀ t ∈ targets, t < e.graph.size) (hslot : slot ∈ targets)
    {streams : SlotMap Stream} {ev : Evaluation K}
    (hev : env.evaluate targets (.start streams) = .ok () ev) :
    ∃ value w grad, ev.values.get? loss = some value ∧ env.store.get? target = some w ∧
      ev.values.get? slot = some grad ∧ grad.shape = w.shape ∧
      (∀ (d : Tensor K) (streams' : SlotMap Stream), d.shape = w.shape → ∃ ev' moved,
        (env.move target d).evaluate [loss] (.start streams') = .ok () ev' ∧
        ev'.values.get? loss = some moved ∧
        moved.total = inl value.total + inl (grad.hadamard d).total * ε) ∧
      (¬ e.graph.Reaches loss target → grad = .full w.shape 0) := by
  have hg : env.graph.Typed := hgraph ▸ h.sound.typed
  rw [← hgraph] at hn hpolynomial htargets ⊢
  -- the run has evaluated the node, its loss and its variable
  have hsettled := settled_of_evaluate hg htargets hev
  have hlisted := hg.finished_schedule htargets
  have hmem : slot ∈ (env.graph.schedule targets).reverse :=
    List.mem_reverse.2 ((hg.mem_schedule_iff htargets).2 ⟨slot, hslot, .refl⟩)
  have hoperands := hlisted.operands_subset hmem
  rw [Graph.operands_eq hn, hop] at hoperands
  have hloss := hoperands (a := loss) (by simp [Op.operands, Op.inputs])
  have htarget := hoperands (a := target) (by simp [Op.operands, Op.inputs])
  -- its value is the derivative that is kept for the loss
  have hgrad := hsettled.computed hmem hn
  rw [hop, Setting.compute, hsettled.known_sensitivity hmem hn hop, Except.ok.injEq] at hgrad
  obtain ⟨w, hw, hvar⟩ : ∃ w, env.graph.nodes[target]? = some w ∧ w.op.isVariable := by
    obtain ⟨w, hw, hvar⟩ := (hg.node hn).exists_target hop
    exact ⟨w, (Graph.before_eq_some_iff.1 hw).2, hvar⟩
  refine ⟨_, _, _, hsettled.values_eq hloss, hsettled.store_eq htarget hw hvar,
    hsettled.values_eq hmem, ?_, fun d streams' hd => ?_, fun hunreached => ?_⟩
  · rw [← hgrad]
    exact hsettled.shape_derivative hg hfits hlisted hloss
  · rw [← hgrad]
    exact hsettled.exists_moved hg hfits hlisted hloss htarget hpolynomial hw hvar hd streams'
  · rw [← hgrad]
    cases ht : (env.graph.sensitivities ev.known loss).get? target with
    | none => rfl
    | some t => exact absurd (Graph.reaches_of_sensitivity ht) hunreached

/-- An engine with weights, the means over the rows of the squared products of fed rows with the
weights, and the derivative by the weights. -/
def fitting : Engine :=
  built [.placeholder "x" [-1, 2], .weights [2] .ones "w", .binary .multiply ⟨0, 0⟩ ⟨0, 2⟩ none,
    .unary .square ⟨0, 3⟩ none, .mean ⟨0, 4⟩ none, .gradients ⟨0, 5⟩ [⟨0, 2⟩]]

/-- Three rows are fed to the weights one and two. -/
def fittingSetting : Setting ℚ where
  graph := fitting.graph
  store := SlotMap.empty.insert 2 (.tabulate [2] fun _ j => j + 1)
  feeds := SlotMap.empty.insert 0 (.tabulate [3, 2] fun i j => i - 2 * j)
  phase := .train
  entropy := 0

/-- The entries of the derivative. -/
def fitted : Option (Array ℚ) :=
  match fittingSetting.evaluate [6] (.start .empty) with
  | .ok _ ev => (ev.values.get? 6).map (·.data)
  | .error _ _ => none

theorem fits_fittingSetting : fittingSetting.Fits where
  fed ht := by
    obtain ⟨rfl, rfl⟩ := Graph.eq_of_start ht
    have hshape : (fitting.graph.nodes[0]?).map (·.shape) = some [-1, 2] := by decide +kernel
    obtain ⟨n, hn, hshape⟩ := Option.map_eq_some_iff.1 hshape
    exact ⟨n, hn, hshape ▸ DeclaredShape.covers_of_admits (by decide) (by decide)⟩
  stored ht := by
    obtain ⟨rfl, rfl⟩ := Graph.eq_of_start ht
    have hshape : (fitting.graph.nodes[2]?).map (·.shape) = some [2] := by decide +kernel
    obtain ⟨n, hn, hshape⟩ := Option.map_eq_some_iff.1 hshape
    exact ⟨n, hn, by rw [hshape]; decide⟩

/-- The derivative by the weights is five and ten. -/
theorem fitting_gradient :
    ∃ ev value grad, fittingSetting.evaluate [6] (.start .empty) = .ok () ev ∧
      ev.values.get? 5 = some value ∧ ev.values.get? 6 = some grad ∧ grad.data = #[5, 10] ∧
      ∀ d : Tensor ℚ, d.shape = [2] → ∃ ev' moved,
        (fittingSetting.move 2 d).evaluate [5] (.start .empty) = .ok () ev' ∧
        ev'.values.get? 5 = some moved ∧
        moved.total = inl value.total + inl (grad.hadamard d).total * ε := by
  have hresult : fitted = some #[5, 10] := by decide +kernel
  have hgradient : (fitting.graph.nodes[6]?).any fun n => n.op.isGradient 5 2 := by decide +kernel
  have hall : ∀ s < 6, (fitting.graph.nodes[s]?).all fun n => n.op.isPolynomial := by
    decide +kernel
  have hgraph : fittingSetting.graph = fitting.graph := rfl
  have hsound := (reachable_built _ : fitting.Reachable).sound
  obtain ⟨n, hn, hop⟩ := (Option.any_eq_true _ _).1 hgradient
  -- the loss reaches earlier slots only, and all of these hold polynomials
  have hpolynomial : ∀ (s : Nat) (m : GraphNode), fitting.graph.Reaches 5 s →
      fitting.graph.nodes[s]? = some m → m.op.isPolynomial := by
    intro s m hs hm
    have hle := hsound.typed.le_of_reaches hs
    have := hall s (by omega)
    rwa [hm] at this
  -- the evaluation succeeds, as its derivative has been computed
  cases hev : fittingSetting.evaluate [6] (.start .empty) with
  | error => simp only [fitted, hev, reduceCtorEq] at hresult
  | ok _ ev =>
    obtain ⟨value, w, grad, hvalue, hw, hgrad, -, hmoved, -⟩ :=
      gradient_differentiates (reachable_built _) hgraph fits_fittingSetting hn
        (Op.eq_of_isGradient hop) hpolynomial
        (by decide +kernel) (List.mem_singleton_self 6) hev
    simp only [fitted, hev, hgrad, Option.map_some, Option.some.injEq] at hresult
    obtain ⟨-, rfl⟩ := Graph.eq_of_start hw
    exact ⟨ev, value, grad, rfl, hvalue, hgrad, hresult, fun d hd => hmoved d .empty hd⟩

end Engine
end TensorGraph
