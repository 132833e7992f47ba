import TensorGraph.Proofs.Evaluation.Settled

/-!
# Recomputing values

The plain meaning of a slot: its value, with every operand recomputed from scratch wherever it is
used. Recomputing keeps no values, makes no assignments and reads the variables as they are at the
start of a run. A gradient is the sweep of its own loss over recomputed values.

What sampling nodes drew in a run is a parameter. Where a slot reaches no node that samples, it does
not matter.

## Main definitions

* `Setting.recompute`: the value of a slot, recomputed.
* `Setting.Quiet` and `Setting.valueOf`: slots that reach no sampling node, and their values.

## Main results

* `Settled.recompute_eq`: the values kept by a run are the recomputed ones.
* `Setting.recompute_congr`: recomputing depends on what the slots drew that are reached.
-/

namespace TensorGraph

variable {S : Type} [Scalar S]

/-- What is known of the slots with the given values, but for derivatives. -/
def Known.ofValues (values noise : Nat → Option (Tensor S)) : Known S where
  value slot := (values slot).getD (.full [] 0)
  noise := noise
  sensitivity _ _ := none

namespace Setting

/-- What is known of the slots with the given values. A derivative is that of the loss by itself. -/
def knownOf (env : Setting S) (values noise : Nat → Option (Tensor S)) : Known S :=
  { Known.ofValues values noise with
    sensitivity := fun loss target =>
      (env.graph.sensitivities (Known.ofValues values noise) loss).get? target }

/-- The value of a slot whose operands have the given values; there is none when an operand has
none. -/
def computeFrom (env : Setting S) (values noise : Nat → Option (Tensor S)) (slot : Nat) :
    Option (Tensor S) :=
  (env.graph.nodes[slot]?).bind fun node =>
    if node.op.operands.all fun o => (values o).isSome then
      (env.compute (env.knownOf values noise) slot node.op).toOption
    else none

/-- The value of a slot, with every operand recomputed from scratch wherever it is used. The
recomputation descends at most `depth` levels. -/
def recompute (env : Setting S) (noise : Nat → Option (Tensor S)) : Nat → Nat → Option (Tensor S)
  | 0 => fun _ => none
  | depth + 1 => env.computeFrom (recompute env noise depth) noise

/-- The value that recomputing a slot gives when no node samples. -/
def valueOf (env : Setting S) (slot : Nat) : Option (Tensor S) :=
  env.recompute (fun _ => none) (slot + 1) slot

/-- No node that a slot reaches draws random numbers. -/
def Quiet (env : Setting S) (slot : Nat) : Prop :=
  ∀ t n, env.graph.Reaches slot t → env.graph.nodes[t]? = some n → env.samples n.op = false

omit [Scalar S] in
/-- Outside of training only random nodes sample. -/
theorem quiet_of_inference {env : Setting S} {slot : Nat} (hphase : env.phase = .inference)
    (hrandom : ∀ n ∈ env.graph.nodes, ∀ sampler seed, n.op ≠ .random sampler seed) :
    env.Quiet slot := by
  intro t n _ hn
  have hop := hrandom n (Array.mem_of_getElem? hn)
  cases h : n.op
  case random sampler seed => exact absurd h (hop sampler seed)
  case dropout input rate seed => simp [samples, dropsAt, hphase]
  all_goals rfl

omit [Scalar S] in
/-- A variable samples nothing, and evaluating it needs no other slot. -/
theorem quiet_of_isVariable {env : Setting S} {slot : Nat} {n : GraphNode}
    (hn : env.graph.nodes[slot]? = some n) (hvar : n.op.isVariable) : env.Quiet slot := by
  intro t m ht hm
  rcases ht.cases_head with rfl | ⟨o, ho, -⟩
  · obtain rfl : n = m := Option.some.inj (hn.symm.trans hm)
    revert hvar
    cases n.op <;> simp [samples, Op.isVariable]
  · rw [Graph.operands_eq hn] at ho
    revert ho hvar
    cases n.op <;> simp [Op.operands, Op.isVariable]

/-- Computing a variable reads it from the session. -/
theorem store_of_compute {env : Setting S} {known : Known S} {slot : Nat} {op : Op} {t : Tensor S}
    (hvar : op.isVariable) (h : env.compute known slot op = .ok t) :
    env.store.get? slot = some t := by
  cases op with
  | «variable» trainable init =>
    simp only [compute] at h
    split at h
    · next t ht =>
      obtain ⟨_, _, rfl⟩ := except_map_eq_ok_iff.1 h
      exact ht
    · cases h
  | _ => cases hvar

/-- The value of a slot depends on the values of the slots that its operands reach, and on what
these and the slot drew. -/
theorem computeFrom_congr (env : Setting S) {values values' noise noise' : Nat → Option (Tensor S)}
    {slot : Nat}
    (hvalues : ∀ o ∈ env.graph.operands slot, ∀ s, env.graph.Reaches o s → values s = values' s)
    (hnoise : ∀ s, env.graph.Reaches slot s → noise s = noise' s) :
    env.computeFrom values noise slot = env.computeFrom values' noise' slot := by
  unfold computeFrom
  cases hn : env.graph.nodes[slot]? with
  | none => rfl
  | some n =>
    -- a gradient also reads what its loss reaches, which is within what an operand reaches
    rw [Graph.operands_eq hn] at hvalues
    have hstep : ∀ {o s}, o ∈ n.op.operands → env.graph.Reaches o s → env.graph.Reaches slot s :=
      fun ho hs => .head (by rwa [Graph.operands_eq hn]) hs
    have hall : (n.op.operands.all fun o => (values o).isSome) =
        n.op.operands.all fun o => (values' o).isSome := by
      rw [Bool.eq_iff_iff, List.all_eq_true, List.all_eq_true]
      exact forall₂_congr fun o ho => by rw [hvalues o ho o .refl]
    have hcompute : env.compute (env.knownOf values noise) slot n.op =
        env.compute (env.knownOf values' noise') slot n.op := by
      refine env.compute_congr (fun o ho => ?_) (hnoise slot .refl) fun loss target hop => ?_
      · simp only [knownOf, Known.ofValues, hvalues o ho o .refl]
      · have hloss : loss ∈ n.op.operands := by simp [hop, Op.operands, Op.inputs]
        have hsweep : env.graph.sensitivities (Known.ofValues values noise) loss =
            env.graph.sensitivities (Known.ofValues values' noise') loss := by
          refine Graph.sensitivities_congr (fun s hs => ?_) fun s hs => hnoise s (hstep hloss hs)
          simp only [Known.ofValues, hvalues loss hloss s hs]
        simp only [knownOf, hsweep]
    simp only [Option.bind_some, hall, hcompute]

/-- Recomputing depends on what the slots drew that are reached. -/
theorem recompute_congr (env : Setting S) {noise noise' : Nat → Option (Tensor S)}
    {depth slot : Nat} (hnoise : ∀ s, env.graph.Reaches slot s → noise s = noise' s) :
    env.recompute noise depth slot = env.recompute noise' depth slot := by
  induction depth generalizing slot with
  | zero => rfl
  | succ depth ih =>
    refine env.computeFrom_congr (fun o ho s hs => ih fun t ht => ?_) hnoise
    exact hnoise t (.head ho (hs.trans ht))

end Setting

namespace Settled

variable {env : Setting S} {listed : List Nat} {e : Evaluation S}

/-- An evaluated slot has a value. -/
theorem values_eq (h : Settled env listed e) {s : Nat} (hs : s ∈ listed) :
    e.values.get? s = some (e.known.value s) := by
  obtain ⟨t, ht⟩ := Option.isSome_iff_exists.1 ((h.isSome_iff s).2 hs)
  rw [ht, Evaluation.known_value_eq ht]

/-- The value of an evaluated variable is the one at the start of the run. -/
theorem store_eq (h : Settled env listed e) {s : Nat} {v : GraphNode} (hs : s ∈ listed)
    (hv : env.graph.nodes[s]? = some v) (hvar : v.op.isVariable) :
    env.store.get? s = some (e.known.value s) :=
  Setting.store_of_compute hvar (h.computed hs hv)

/-- A kept value is the one that is computed from the kept values. -/
theorem computeFrom_eq (h : Settled env listed e) (hlisted : env.graph.Finished listed) {s : Nat}
    (hs : s ∈ listed) :
    env.computeFrom e.values.get? e.noise.get? s = some (e.known.value s) := by
  obtain ⟨n, hn⟩ := Graph.exists_node_of_lt (hlisted.lt_size hs)
  have hall : n.op.operands.all (fun o => (e.values.get? o).isSome) := by
    refine List.all_eq_true.2 fun o ho => (h.isSome_iff o).2 ?_
    exact hlisted.mem_of_mem_operands hs hn ho
  -- a derivative is the one case that looks past the operands, at the sweep from its loss
  have hcompute : env.compute (env.knownOf e.values.get? e.noise.get?) s n.op =
      env.compute e.known s n.op := by
    refine env.compute_congr (fun _ _ => rfl) rfl fun loss target hop => ?_
    rw [h.known_sensitivity hs hn hop]
    have hsweep : env.graph.sensitivities (Known.ofValues e.values.get? e.noise.get?) loss =
        env.graph.sensitivities e.known loss :=
      Graph.sensitivities_congr (fun _ _ => rfl) fun _ _ => rfl
    simp only [Setting.knownOf, hsweep]
  simp only [Setting.computeFrom, hn, Option.bind_some, hall, if_true, hcompute, h.computed hs hn,
    Except.toOption]

/-- The values kept by a run are the recomputed ones. -/
theorem recompute_eq (h : Settled env listed e) (hg : env.graph.Typed)
    (hlisted : env.graph.Finished listed) {depth s : Nat} (hdepth : s < depth) (hs : s ∈ listed) :
    env.recompute e.noise.get? depth s = some (e.known.value s) := by
  induction depth generalizing s with
  | zero => omega
  | succ depth ih =>
    rw [← h.computeFrom_eq hlisted hs]
    refine env.computeFrom_congr (fun o ho t ht => ?_) fun _ _ => rfl
    -- the operands reach earlier slots, which have been evaluated
    have hlt : t < s := Nat.lt_of_le_of_lt (hg.le_of_reaches ht) (hg.lt_of_mem_operands ho)
    have hmem : t ∈ listed := hlisted.mem_of_reaches (hlisted.operands_subset hs ho) ht
    rw [ih (by omega) hmem, h.values_eq hmem]

/-- Where no node samples, the kept values are those recomputed without samples. -/
theorem valueOf_eq (h : Settled env listed e) (hg : env.graph.Typed)
    (hlisted : env.graph.Finished listed) {s : Nat} (hs : s ∈ listed)
    (hquiet : env.Quiet s) : env.valueOf s = some (e.known.value s) := by
  rw [Setting.valueOf, ← h.recompute_eq hg hlisted (Nat.lt_succ_self s) hs]
  refine env.recompute_congr fun t ht => ?_
  -- a slot that is reached samples nothing, so it has kept no noise
  have hmem := hlisted.mem_of_reaches hs ht
  obtain ⟨n, hn⟩ := Graph.exists_node_of_lt (hlisted.lt_size hmem)
  rw [eq_comm, ← Option.not_isSome_iff_eq_none, h.noise_iff hmem hn, hquiet t n ht hn]
  exact Bool.false_ne_true

end Settled
end TensorGraph
