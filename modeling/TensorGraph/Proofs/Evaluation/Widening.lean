import TensorGraph.Proofs.Graph.Reaching

/-!
# Evaluating in a longer graph

Nodes that are appended to a graph do not change what the earlier slots evaluate to. A node is
connected to earlier slots only, so an evaluation of earlier slots never meets what came later: it
visits the same slots in the same order and computes, draws and records the same in each of them.

## Main results

* `Graph.Extends.schedule_eq`: earlier targets need the same slots in a longer graph.
* `Setting.evaluate_widen`: earlier targets evaluate to the same in a longer graph.
-/

namespace TensorGraph

namespace Graph.Extends

variable {g g' : Graph} {slot : Nat} (h : g.Extends g')
include h

/-- A larger graph has the same nodes in the slots of the smaller one. -/
theorem getElem?_of_lt (hslot : slot < g.size) : g'.nodes[slot]? = g.nodes[slot]? := by
  obtain ⟨n, hn⟩ := exists_node_of_lt hslot
  rw [hn, h.node hn]

/-- A larger graph has the same labels for the slots of the smaller one. -/
theorem label_eq (hslot : slot < g.size) : g'.label slot = g.label slot := by
  rw [label, label, h.getElem?_of_lt hslot]

/-- Slots of the smaller graph depend on the same slots in the larger one. -/
theorem operands_eq (hslot : slot < g.size) : g'.operands slot = g.operands slot := by
  rw [operands, operands, h.getElem?_of_lt hslot]

/-- Walking through the operands of an earlier slot stays among the earlier slots. -/
theorem visit_eq (hg : g.Typed) (depth : Nat) (listed : List Nat) (hslot : slot < g.size) :
    g'.visit depth listed slot = g.visit depth listed slot := by
  induction depth generalizing slot listed with
  | zero => rfl
  | succ depth ih =>
    have hoperands : ∀ o ∈ g.operands slot, o < g.size := fun o ho =>
      Nat.lt_trans (hg.lt_of_mem_operands ho) hslot
    rw [visit, visit, h.operands_eq hslot]
    congr 2
    exact List.foldl_ext _ _ _ fun listed o ho => ih listed (hoperands o ho)

/-- Earlier targets need the same slots, in the same order. -/
theorem schedule_eq (hg : g.Typed) {targets : List Nat} (htargets : ∀ t ∈ targets, t < g.size) :
    g'.schedule targets = g.schedule targets := by
  rw [schedule, schedule]
  congr 1
  exact List.foldl_ext _ _ _ fun listed t ht => h.visit_eq hg (t + 1) listed (htargets t ht)

section Sweep

variable {S : Type} [Scalar S] (known : Known S)

/-- Sensitivities are the same in a larger graph. -/
theorem sweep_eq {bound : Nat} (hbound : bound ≤ g.size) (reached : SlotMap (Tensor S)) :
    g'.sweep known bound reached = g.sweep known bound reached := by
  induction bound generalizing reached with
  | zero => rfl
  | succ slot ih =>
    -- what is handed on next goes to lower slots, whatever it is
    have hbelow := ih (Nat.le_of_succ_le hbound)
    rw [sweep, sweep, h.getElem?_of_lt hbound]
    simp only [hbelow]

/-- An earlier loss has the same derivatives. -/
theorem sensitivities_eq {loss : Nat} (hloss : loss < g.size) :
    g'.sensitivities known loss = g.sensitivities known loss :=
  h.sweep_eq known hloss _

end Sweep

end Graph.Extends

namespace Setting

variable {S : Type} {env : Setting S} {g' : Graph} {slot : Nat} {op : Op}
  (h : env.graph.Extends g')
include h

/-- A slot has the same static shape in a larger graph. -/
theorem staticShape_widen (hslot : slot < env.graph.size) :
    ({ env with graph := g' } : Setting S).staticShape slot = env.staticShape slot := by
  rw [staticShape, staticShape, h.getElem?_of_lt hslot, h.label_eq hslot]

variable [Scalar S]

/-- The value of an earlier node is the same in a longer graph, down to the names in its failures.
-/
theorem compute_widen (known : Known S) (hslot : slot < env.graph.size)
    (hop : ∀ o ∈ op.inputs, o < env.graph.size) :
    ({ env with graph := g' } : Setting S).compute known slot op = env.compute known slot op := by
  cases op with
  | assign target value =>
    -- an assignment asks for the shape of its variable, which is an input but no operand
    have htarget : target < env.graph.size := hop target (by simp [Op.inputs])
    rw [compute, compute, staticShape_widen h htarget]
  | _ =>
    simp only [compute, product, biased, commonShape, h.label_eq hslot, staticShape_widen h hslot]

/-- A slot draws the same in a larger graph. -/
theorem drawNoise_widen (hslot : slot < env.graph.size) :
    ({ env with graph := g' } : Setting S).drawNoise slot op = env.drawNoise slot op := by
  cases op with
  | random sampler seed =>
    rw [drawNoise, drawNoise, staticShape_widen h hslot]
    rfl
  | _ => rfl

/-- Derivatives are the same in a larger graph. -/
theorem differentiate_widen (hop : ∀ o ∈ op.inputs, o < env.graph.size) :
    ({ env with graph := g' } : Setting S).differentiate op = env.differentiate op := by
  cases op with
  | gradient loss target =>
    have hloss : loss < env.graph.size := hop loss (by simp [Op.inputs])
    have htarget : target < env.graph.size := hop target (by simp [Op.inputs])
    have hsweep (known : Known S) :
        g'.sensitivities known loss = env.graph.sensitivities known loss :=
      h.sensitivities_eq known hloss
    simp only [differentiate, hsweep, h.label_eq hloss, h.label_eq htarget]
  | _ => rfl

/-- A slot evaluates to the same in a larger graph. -/
theorem evaluateSlot_widen (hg : env.graph.Typed) (hslot : slot < env.graph.size) :
    ({ env with graph := g' } : Setting S).evaluateSlot slot = env.evaluateSlot slot := by
  unfold evaluateSlot
  dsimp only
  rw [h.getElem?_of_lt hslot]
  split
  · rfl
  · next n hn =>
    have hop : ∀ o ∈ n.op.inputs, o < env.graph.size := fun o ho =>
      Nat.lt_trans (hg.lt_of_mem_inputs hn ho) hslot
    simp only [drawNoise_widen h hslot, differentiate_widen h hop, compute_widen h _ hslot hop]

/-- Slots evaluate to the same in a larger graph. -/
theorem evaluateAll_widen (hg : env.graph.Typed) {slots : List Nat}
    (hslots : ∀ s ∈ slots, s < env.graph.size) :
    ({ env with graph := g' } : Setting S).evaluateAll slots = env.evaluateAll slots := by
  induction slots with
  | nil => rfl
  | cons slot slots ih =>
    obtain ⟨hslot, hslots⟩ := List.forall_mem_cons.1 hslots
    rw [evaluateAll, evaluateAll, evaluateSlot_widen h hg hslot, ih hslots]

/-- Earlier targets evaluate to the same in a longer graph. -/
theorem evaluate_widen (hg : env.graph.Typed) {targets : List Nat}
    (htargets : ∀ t ∈ targets, t < env.graph.size) :
    ({ env with graph := g' } : Setting S).evaluate targets = env.evaluate targets := by
  have hschedule : g'.schedule targets = env.graph.schedule targets :=
    h.schedule_eq hg htargets
  have hlisted : ∀ s ∈ env.graph.schedule targets, s < env.graph.size := fun s hs =>
    (hg.finished_schedule htargets).lt_size (List.mem_reverse.2 hs)
  rw [evaluate, evaluate, hschedule, evaluateAll_widen h hg hlisted]

end Setting
end TensorGraph
