import TensorGraph.Proofs.Engine.Reachable
import TensorGraph.Proofs.Evaluation.Recomputation

/-!
# What a run fetches

A run keeps every value that it computes and makes its assignments on the way. What it fetches is
nevertheless the plain meaning of the fetched nodes: their values recomputed from scratch on the
variables as they were before the run.

## Main results

* `Engine.run_fetches_recomputed`: the values of a run, and that they depend neither on the updates
  nor on what else is fetched.
-/

namespace TensorGraph.Engine

variable {e e' e'' : Engine} {s : Session} {f f' : Function} {feeds : List (Node × Value)}
  {values values' : List Value} {i j : Nat} {n : Node}

/-- What is fetched from a node that reaches no sampling node is recomputed. -/
theorem Ran.fetched {ev : Evaluation Float32} (h : Ran e s f feeds ev values e') (hsound : e.Sound)
    (hn : f.outputs[i]? = some n)
    (hquiet : (e.setting s f.phase (feedTable feeds .empty)).Quiet n.index) :
    ∃ node t, e.graph.nodes[n.index]? = some node ∧
      (e.setting s f.phase (feedTable feeds .empty)).valueOf n.index = some t ∧
      values[i]? = some (t.toValue node.type) := by
  obtain ⟨node, hnode, hvalue⟩ := h.exists_value hn
  have hrecomputed := (h.settled hsound).valueOf_eq hsound.typed (h.finished hsound)
    (h.mem_listed_of_output hsound hn) hquiet
  exact ⟨node, _, hnode, hrecomputed, hvalue⟩

/-- A run gives one value for every fetched node in order. Where a fetched node reaches no node that
samples, its value is the one recomputed from scratch on the variables of the session at the start
of the run. So it stays the same whatever the updates are and whatever else is fetched. -/
theorem run_fetches_recomputed (h : e.Reachable) (hs : e.session = some s)
    (hrun : run f feeds e = .ok values e') :
    values.length = f.outputs.length ∧
    (∀ (i : Nat) (n : Node), f.outputs[i]? = some n →
      (e.setting s f.phase (feedTable feeds .empty)).Quiet n.index →
      ∃ (node : GraphNode) (t : Tensor Float32), e.graph.nodes[n.index]? = some node ∧
        (e.setting s f.phase (feedTable feeds .empty)).valueOf n.index = some t ∧
        values[i]? = some (t.toValue node.type)) ∧
    ∀ (f' : Function) (values' : List Value) (e'' : Engine), f'.phase = f.phase →
      run f' feeds e = .ok values' e'' → ∀ (i j : Nat) (n : Node), f.outputs[i]? = some n →
        f'.outputs[j]? = some n → (e.setting s f.phase (feedTable feeds .empty)).Quiet n.index →
        values[i]? = values'[j]? := by
  obtain ⟨ev, hran⟩ := exists_ran hs hrun
  refine ⟨hran.values.length_eq.symm, fun i n hn hquiet => hran.fetched h.sound hn hquiet, ?_⟩
  intro f' values' e'' hphase hrun' i j n hn hn' hquiet
  obtain ⟨ev', hran'⟩ := exists_ran hs hrun'
  -- both runs recompute the node on the same variables
  obtain ⟨node, t, hnode, ht, hvalue⟩ := hran.fetched h.sound hn hquiet
  rw [← hphase] at hquiet ht
  obtain ⟨node', t', hnode', ht', hvalue'⟩ := hran'.fetched h.sound hn' hquiet
  obtain rfl : node = node' := Option.some.inj (hnode.symm.trans hnode')
  obtain rfl : t = t' := Option.some.inj (ht.symm.trans ht')
  rw [hvalue, hvalue']

/-- The sum of the counter and the constant is fetched as it is before the counter changes. -/
theorem counting_fetches_sum :
    ∃ s values e', counting.session = some s ∧ run countSteps [] counting = .ok values e' ∧
      values.length = 3 ∧ values[0]? = values[2]? ∧
      ∃ t, (counting.setting s .inference .empty).valueOf 2 = some t ∧
        values[0]? = some (t.toValue .i64) := by
  obtain ⟨values, e', hrun⟩ := exists_of_gives counting_gives
  obtain ⟨s, ev, hran⟩ := (leads_run _ _).of_eq_ok hrun
  -- nothing samples outside of training, since no node is random
  have hrandom : counting.graph.nodes.all fun n => !n.op.isRandom := by decide +kernel
  have hquiet : (counting.setting s .inference .empty).Quiet 2 := by
    refine Setting.quiet_of_inference rfl fun n hn sampler seed hop => ?_
    have := Array.all_eq_true_iff_forall_mem.1 hrandom n hn
    simp [hop, Op.isRandom] at this
  obtain ⟨hlength, hfetched, hother⟩ := run_fetches_recomputed reachable_counting hran.active hrun
  obtain ⟨node, t, hnode, ht, hvalue⟩ := hfetched 0 ⟨0, 2⟩ rfl hquiet
  have htype : counting.graph.nodes[2]?.map (·.type) = some .i64 := by decide +kernel
  rw [hnode] at htype
  have htype : node.type = .i64 := by simpa using htype
  exact ⟨s, values, e', hran.active, hrun, hlength,
    hother _ values e' rfl hrun 0 2 _ rfl rfl hquiet, t, ht, htype ▸ hvalue⟩

end TensorGraph.Engine
