import TensorGraph.Proofs.Model.Training
import TensorGraph.Proofs.Tensor.Exact

/-!
# What training leaves alone

A model trains all weights of its engine, whether they are its own or not. A weight that the sum of
the losses does not reach has a derivative of zeros. Its accumulator begins with zeros and stays at
zeros, so the weight keeps its numbers in every step. Only the sign of a zero may change. All other
variables of the engine are left alone, but for the counter and the accumulators.

## Main definitions

* `Tensor.SameNumbers`: tensors with the same numbers, whichever zeros these may be.
* `Descent.Rests`: a weight with the numbers of a tensor, whose accumulator holds zeros.

## Main results

* `Program.rests_of_trainBatches`: steps keep a weight at rest that the objective does not reach.
* `Program.stored?_of_trainBatches`: steps keep the variables that they do not update.
* `Model.training_spares_unreached`: both for a compiled model.
-/

namespace TensorGraph

open Engine

/-! ## Tensors of zeros -/

namespace Tensor

variable {t t' t'' : Tensor Float32} {shape : Shape}

/-- Tensors with the same numbers in the same places, whichever zeros these may be. -/
structure SameNumbers (t t' : Tensor Float32) : Prop where
  shape : t'.shape = t.shape
  number : ∀ i j, i < t.rows → j < t.cols →
    Single.number (t'.entry i j) = Single.number (t.entry i j)

theorem SameNumbers.refl (t : Tensor Float32) : t.SameNumbers t := ⟨rfl, fun _ _ _ _ => rfl⟩

theorem SameNumbers.trans (h : t.SameNumbers t') (h' : t'.SameNumbers t'') : t.SameNumbers t'' where
  shape := h'.shape.trans h.shape
  number i j hi hj := by
    have hrows : t'.rows = t.rows := congrArg Shape.rows h.shape
    have hcols : t'.cols = t.cols := congrArg Shape.cols h.shape
    rw [h'.number i j (hrows ▸ hi) (hcols ▸ hj), h.number i j hi hj]

theorem Reads.entry_zero (h : t.Reads (full shape 0)) {i j : Nat} (hi : i < shape.rows)
    (hj : j < shape.cols) : Single.Reads (t.entry i j) 0 :=
  entry_full (x := (0 : ℚ)) hi hj ▸ h.entry i j

end Tensor

namespace Descent

variable {d : Descent} {e e' : Engine} {weight accumulator : Nat} {v w g : Tensor Float32}
  {shape : Shape}

/-- Momentum and a derivative of zeros leave an accumulator of zeros. -/
theorem velocity_reads_zero (d : Descent) (hv : v.Reads (.full shape 0))
    (hg : g.Reads (.full shape 0)) : (d.velocity v g).Reads (.full shape 0) := by
  refine Tensor.reads_of_entries hv.shape fun i j (hi : i < shape.rows) (hj : j < shape.cols) => ?_
  have hdecayed := Single.reads_mul_zero d.momentum_nonneg.1 (hv.entry_zero hi hj)
  have hscaled := Single.reads_mul_zero d.learningRate_pos.1 (hg.entry_zero hi hj)
  have hvelocity := Single.reads_sub hdecayed hscaled
  rw [sub_zero] at hvelocity
  rw [Tensor.entry_full hi hj, velocity, Tensor.entry_tabulate (hv.shape ▸ hi) (hv.shape ▸ hj)]
  exact hvelocity ⟨0, Single.reads_zero⟩

/-- A velocity of zeros moves a weight nowhere. -/
theorem moved_sameNumbers (hv : v.Reads (.full w.shape 0)) : w.SameNumbers (moved w v) where
  shape := rfl
  number i j hi hj := by
    rw [moved, Tensor.entry_tabulate hi hj]
    exact Single.number_add_of_reads_zero (hv.entry_zero hi hj)

/-- A weight at rest: it has the numbers of a tensor, and its accumulator holds zeros. -/
def Rests (e : Engine) (weight accumulator : Nat) (w : Tensor Float32) : Prop :=
  ∃ w' v, e.stored? weight = some w' ∧ w.SameNumbers w' ∧ e.stored? accumulator = some v ∧
    v.Reads (.full w.shape 0)

/-- A step with a derivative of zeros keeps a weight at rest. -/
theorem Moves.rests (h : d.Moves e e' weight accumulator g) (hrests : Rests e weight accumulator w)
    (hg : g.Reads (.full w.shape 0)) : Rests e' weight accumulator w := by
  obtain ⟨w₁, v₁, hw, hv, -, -, hvelocity, hmoved⟩ := h
  obtain ⟨w', v, hw', hsame, hv', hzeros⟩ := hrests
  obtain rfl := Option.some.inj (hw.symm.trans hw')
  obtain rfl := Option.some.inj (hv.symm.trans hv')
  have hafter := d.velocity_reads_zero hzeros hg
  exact ⟨_, _, hmoved, hsame.trans (moved_sameNumbers (hsame.shape ▸ hafter)), hvelocity, hafter⟩

end Descent

/-- The derivative by a variable that the loss does not reach is zero. -/
theorem Setting.lossGradient_of_not_reaches {S : Type} [Scalar S] {env : Setting S}
    {noise : Nat → Option (Tensor S)} {loss target : Nat} {g w : Tensor S}
    (h : ¬env.graph.Reaches loss target) (hg : env.lossGradient noise loss target = some g)
    (hw : env.store.get? target = some w) : g = .full w.shape 0 := by
  have hnone : ∀ known : Known S, (env.graph.sensitivities known loss).get? target = none :=
    fun known => Option.eq_none_iff_forall_not_mem.2 fun t ht => h (Graph.reaches_of_sensitivity ht)
  simp only [lossGradient, hw, hnone, Option.map_some, Option.getD_none, Option.some.injEq] at hg
  exact hg.symm

/-- A trained variable of an engine with a session has a value. -/
theorem Engine.exists_stored {e : Engine} {s : Session} {slot : Nat} (hsound : e.Sound)
    (hs : e.session = some s) (hslot : slot ∈ e.graph.trainable) :
    ∃ t, e.stored? slot = some t := by
  obtain ⟨n, hn, hvar⟩ := hsound.indexed.exists_variable_of_mem_trainable hslot
  obtain ⟨t, ht⟩ := Option.isSome_iff_exists.1 ((hsound.holds hs).isSome hn hvar)
  exact ⟨t, (stored?_eq hs slot).trans ht⟩

/-- Whatever the updates of gradient descent change is the counter, an accumulator or trained. -/
theorem Descent.Laid.named_or_trained {d : Descent} {e e' : Engine} {objective : Nat}
    {updates : List Nat} {iterations count : Nat} {ws : List Descent.Wiring}
    (h : d.Laid e objective e.graph.trainable updates e' iterations count ws) {u target : Nat}
    (hu : u ∈ updates) (htarget : e'.graph.updated? u = some target) :
    e'.find? "SGD_Iterations" = some (e'.graph.handle target) ∨
      (∃ i < e'.trainableWeights.length,
        e'.find? ("SGD_Momentum_" ++ NumberText.natural i) = some (e'.graph.handle target)) ∨
      target ∈ e'.graph.trainable := by
  have hsound := h.grown.sound
  -- the updates are the count and, for every step, one of its accumulator and one of its weight
  rcases h.target_of_mem hu htarget with ⟨-, rfl⟩ | ⟨step, hstep, ⟨-, rfl⟩ | ⟨-, rfl⟩⟩
  · exact .inl (find?_of_counts hsound h.counts)
  · obtain ⟨i, hi⟩ := List.mem_iff_getElem?.1 hstep
    refine .inr (.inl ⟨i, ?_, find?_of_accumulates hsound (h.accumulates i step hi)⟩)
    rw [trainableWeights, h.grown.trainable, ← h.weights, List.length_map, List.length_map]
    exact (List.getElem?_eq_some_iff.1 hi).1
  · refine .inr (.inr ?_)
    rw [h.grown.trainable, ← h.weights]
    exact List.mem_map_of_mem hstep

namespace Program

variable {p : Program} {d : Descent} {e e' : Engine} {ws : List Descent.Wiring}
  {step : Descent.Wiring}

/-! ## One step -/

section Step

variable {features targets results : List Value}

/-- A step keeps a weight at rest that the objective does not reach. -/
theorem rests_of_trainBatch (h : p.Trains d e.graph ws) (hsound : e.Sound)
    (htrain : p.trainBatch features targets e = .ok results e') (hstep : step ∈ ws)
    (hunreached : ¬e.graph.Reaches p.objective.index step.weight) {w : Tensor Float32}
    (hrests : Descent.Rests e step.weight step.accumulator w) :
    Descent.Rests e' step.weight step.accumulator w := by
  obtain ⟨-, s, ev, hs, -, hmoves⟩ := moves_of_trainBatch h hsound htrain
  obtain ⟨-, gradient, hgradient, hmoved⟩ := hmoves step hstep
  have ⟨w', _, hw', hsame, _, _⟩ := hrests
  rw [stored?_eq hs] at hw'
  have hseparate : ¬(p.batchSetting e s features targets).graph.Reaches p.objective.index
      step.weight := hunreached
  -- the gradient is zero, so with a zero accumulator the weight does not move
  have hzero := Setting.lossGradient_of_not_reaches hseparate hgradient hw'
  refine hmoved.rests hrests ?_
  rw [hzero, hsame.shape]
  exact Tensor.reads_full Single.reads_zero _

/-- A step keeps the variables of which it reaches no update. -/
theorem stored?_of_trainBatch (h : p.Trains d e.graph ws) (hsound : e.Sound)
    (htrain : p.trainBatch features targets e = .ok results e') {slot : Nat}
    (huntouched : ∀ u ∈ p.stepUpdates e.graph, e.graph.updated? u ≠ some slot) :
    e'.stored? slot = e.stored? slot := by
  obtain ⟨-, -, s, ev, values, hran⟩ := exists_ran_of_trainBatch h.inputs h.defaults htrain
  exact hran.stored?_of_untouched hsound huntouched

end Step

/-! ## Any number of steps -/

variable {engines : Nat → Engine} {features targets results : Nat → List Value} {steps : Nat}

theorem rests_of_trainBatches (h : p.Trains d (engines 0).graph ws) (hsound : (engines 0).Sound)
    (htrain : ∀ k < steps,
      p.trainBatch (features k) (targets k) (engines k) = .ok (results k) (engines (k + 1)))
    (hstep : step ∈ ws) (hunreached : ¬(engines 0).graph.Reaches p.objective.index step.weight)
    {w : Tensor Float32} (hrests : Descent.Rests (engines 0) step.weight step.accumulator w) :
    ∀ k ≤ steps, Descent.Rests (engines k) step.weight step.accumulator w := by
  have hkeeps := keeps_of_trainBatches h hsound htrain
  intro k hk
  induction k with
  | zero => exact hrests
  | succ k ih =>
    obtain ⟨hgraph, hsound⟩ := hkeeps k (Nat.le_of_lt hk)
    exact rests_of_trainBatch (hgraph ▸ h) hsound (htrain k hk) hstep (hgraph ▸ hunreached)
      (ih (Nat.le_of_lt hk))

theorem stored?_of_trainBatches (h : p.Trains d (engines 0).graph ws)
    (hsound : (engines 0).Sound)
    (htrain : ∀ k < steps,
      p.trainBatch (features k) (targets k) (engines k) = .ok (results k) (engines (k + 1)))
    {slot : Nat}
    (huntouched : ∀ u ∈ p.stepUpdates (engines 0).graph, (engines 0).graph.updated? u ≠ some slot) :
    ∀ k ≤ steps, (engines k).stored? slot = (engines 0).stored? slot := by
  have hkeeps := keeps_of_trainBatches h hsound htrain
  intro k hk
  induction k with
  | zero => rfl
  | succ k ih =>
    obtain ⟨hgraph, hsound⟩ := hkeeps k (Nat.le_of_lt hk)
    rw [stored?_of_trainBatch (hgraph ▸ h) hsound (htrain k hk) (hgraph ▸ huntouched),
      ih (Nat.le_of_lt hk)]

end Program

namespace Model

variable {m : Model} {p : Program} {e₀ : Engine} {engines : Nat → Engine}
  {features targets results : Nat → List Value} {steps : Nat}

/-- Training touches only what the losses reach. On an engine that may already hold weights and
other variables, a trained weight that the sum of the losses does not reach keeps its numbers over
any number of steps, and its accumulator stays at zeros. Every variable that is not trained keeps
its value, but for the counter and the accumulators. -/
theorem training_spares_unreached (h : e₀.Reachable) (hcompile : m.compile e₀ = .ok p (engines 0))
    (htrain : ∀ k < steps,
      p.trainBatch (features k) (targets k) (engines k) = .ok (results k) (engines (k + 1))) :
    (∀ i weight, (engines 0).trainableWeights[i]? = some weight →
      ¬(engines 0).graph.Reaches p.objective.index weight.index → ∃ accumulator w,
        (engines 0).find? ("SGD_Momentum_" ++ NumberText.natural i) = some accumulator ∧
        (engines 0).stored? weight.index = some w ∧
        ∀ k ≤ steps, Descent.Rests (engines k) weight.index accumulator.index w) ∧
    ∀ (v : Node) (n : GraphNode), Located (engines 0).graph v (v.index, n) → n.op.isVariable →
      n.op.isTrainable = false → (engines 0).find? "SGD_Iterations" ≠ some v →
      (∀ i < (engines 0).trainableWeights.length,
        (engines 0).find? ("SGD_Momentum_" ++ NumberText.natural i) ≠ some v) →
      ∀ k ≤ steps, (engines k).stored? v.index = (engines 0).stored? v.index := by
  obtain ⟨built, updates, trained, hcompiled⟩ := exists_compiled hcompile
  obtain ⟨iterations, count, ws, hlaid⟩ := hcompiled.exists_laid h.sound
  have htrains := hcompiled.trains_of_laid h.sound hlaid
  have hsound := hlaid.grown.sound
  refine ⟨fun i weight hi hunreached => ?_, fun v n hv hvar huntrained hcounter hothers => ?_⟩
  · -- the steps are in the order of the trained variables
    have hweights : ws.map (·.weight) = (engines 0).graph.trainable :=
      hlaid.weights.trans hlaid.grown.trainable.symm
    rw [trainableWeights, ← hweights, List.map_map, List.getElem?_map] at hi
    obtain ⟨step, hstep, rfl⟩ := Option.map_eq_some_iff.1 hi
    have hmem := List.mem_of_getElem? hstep
    have haccumulates := hlaid.accumulates i step hstep
    obtain ⟨s, hs, -⟩ := Option.bind_eq_some_iff.1 hlaid.zero
    obtain ⟨w, hw⟩ := exists_stored hsound hs (hweights ▸ List.mem_map_of_mem hmem)
    have hrests : Descent.Rests (engines 0) step.weight step.accumulator w :=
      ⟨w, _, hw, .refl w, stored?_of_accumulates hsound haccumulates hw,
        Tensor.reads_full Single.reads_zero _⟩
    exact ⟨_, w, find?_of_accumulates hsound haccumulates, hw,
      Program.rests_of_trainBatches htrains hsound htrain hmem hunreached hrests⟩
  · refine Program.stored?_of_trainBatches htrains hsound htrain fun u hu hupdated => ?_
    have hhandle : (engines 0).graph.handle v.index = v :=
      congrArg (Node.mk · v.index) hv.graph.symm
    have hchanged := hlaid.named_or_trained
      (hcompiled.mem_updates_of_stepUpdates h.sound hlaid hu) hupdated
    rw [hhandle] at hchanged
    -- all that a step changes has been excluded by the hypotheses
    rcases hchanged with hname | ⟨i, hi, hname⟩ | htrained
    · exact hcounter hname
    · exact hothers i hi hname
    · obtain ⟨n', hn', htrainable⟩ := hsound.indexed.mem_trainable_iff.1 htrained
      obtain rfl := Option.some.inj (hn'.symm.trans hv.node)
      rw [huntrained] at htrainable
      cases htrainable

/-- An engine with a weight and another variable, which no model of its own uses. -/
def furnished : Engine := built [.weights [2] .ones "spare", .stateVariable [2] .ones "total"]

/-- A step of the line trains the spare weight along with its own, and neither it nor the total
changes. -/
theorem line_spares_furniture :
    ∃ p accumulator w results e e', line.compile furnished = .ok p e ∧
      p.trainBatch [.full [1, 1] 1] [.full [1, 1] 0] e = .ok results e' ∧
      e.trainableWeights = [⟨0, 1⟩, ⟨0, 6⟩, ⟨0, 8⟩] ∧
      e.find? "SGD_Momentum_0" = some accumulator ∧
      Descent.Rests e' 1 accumulator.index w ∧ e'.stored? 3 = e.stored? 3 := by
  obtain ⟨⟨p, e⟩, _, hrun, hfacts⟩ := exists_of_answer (c := line.compileKeeping) (e := furnished)
    (f := fun r => decide (gives (r.1.trainBatch [.full [1, 1] 1] [.full [1, 1] 0]) r.2 ∧
      r.2.trainableWeights = [⟨0, 1⟩, ⟨0, 6⟩, ⟨0, 8⟩] ∧ r.2.graph.id = 0 ∧
      1 ∉ r.2.graph.schedule [r.1.objective.index] ∧
      (r.2.graph.nodes[3]?).map (fun n => (n.op.isVariable, n.op.isTrainable, n.name)) =
        some (true, false, some "total")))
    (b := true) (by decide +kernel)
  obtain ⟨hgives, (hweights : e.trainableWeights = _), hid, hschedule, hnode⟩ :=
    of_decide_eq_true hfacts
  obtain ⟨_, _, hcompile, hrun⟩ := bind_eq_ok_iff.1 hrun
  cases hrun
  obtain ⟨results, e', htrain⟩ := exists_of_gives hgives
  have hsound := sound_of_compile (reachable_built _).sound hcompile
  have hweight : e.trainableWeights[0]? = some ⟨0, 1⟩ := by rw [hweights]; rfl
  have hobjective := (reads_of_compile (reachable_built _).sound hcompile).objective.lt_size
  have hunreached : ¬e.graph.Reaches p.objective.index 1 := fun hreached =>
    hschedule ((hsound.typed.mem_schedule_singleton_iff hobjective).2 hreached)
  obtain ⟨n, hn, hvariable⟩ := Option.map_eq_some_iff.1 hnode
  simp only [Prod.mk.injEq] at hvariable
  obtain ⟨hvar, htrainable, hname⟩ := hvariable
  -- a name that is bound to the total is its own
  have hunnamed : ∀ name, name ≠ "total" → e.find? name ≠ some ⟨0, 3⟩ := by
    intro name hne hfind
    obtain ⟨slot, hslot, hhandle⟩ := Option.map_eq_some_iff.1 hfind
    obtain rfl := (Node.mk.inj hhandle).2
    obtain ⟨n', hn', hname'⟩ := hsound.indexed.find?_eq_some_iff.1 hslot
    obtain rfl := Option.some.inj (hn.symm.trans hn')
    exact hne (Option.some.inj (hname'.symm.trans hname))
  let engines : Nat → Engine
    | 0 => e
    | _ => e'
  obtain ⟨hspared, hkept⟩ := @training_spares_unreached line p furnished engines
    (fun _ => [.full [1, 1] 1]) (fun _ => [.full [1, 1] 0]) (fun _ => results) 1
    (reachable_built _) hcompile fun | 0, _ => htrain
  obtain ⟨accumulator, w, haccumulator, -, hrests⟩ := hspared 0 ⟨0, 1⟩ hweight hunreached
  refine ⟨p, accumulator, w, results, e, e', hcompile, htrain, hweights, haccumulator,
    hrests 1 le_rfl, hkept ⟨0, 3⟩ n ⟨hid.symm, rfl, hn⟩ hvar htrainable
      (hunnamed _ (by decide)) (fun i _ => hunnamed _ fun h => ?_) 1 le_rfl⟩
  have hlength := congrArg String.length h
  rw [String.length_append] at hlength
  have hprefix : "SGD_Momentum_".length = 13 := by decide
  have htotal : "total".length = 5 := by decide
  omega

end Model
end TensorGraph
