import TensorGraph.Proofs.Engine.Reachable
import TensorGraph.Proofs.Evaluation.Recomputation
import TensorGraph.Proofs.Evaluation.Shapes

/-!
# What a run commits

The updates that a run evaluates are applied once each, in the order in which evaluation finishes
them, wherever they stand: among the updates of the function, among its outputs, or inside of other
nodes. Every contribution is computed on the variables as they were before the run, so the last
update of a variable decides.

## Main definitions

* `Graph.updates`: the updates that some targets reach, in the order in which evaluation finishes
  them.
* `Setting.contribution`: what an update gives its variable, recomputed.

## Main results

* `Engine.run_commits_updates`: the variables after a run.
-/

namespace TensorGraph

/-- The updates that some targets reach, in the order in which evaluation finishes them. -/
def Graph.updates (g : Graph) (targets : List Nat) : List Nat :=
  (g.trailOf targets).eraseDups.filter fun slot => (g.updated? slot).isSome

theorem Graph.nodup_updates (g : Graph) (targets : List Nat) : (g.updates targets).Nodup :=
  (nodup_eraseDups (g.trailOf targets)).filter _

/-- The updates of targets are the updating nodes that they reach. -/
theorem Graph.Typed.mem_updates_iff {g : Graph} (hg : g.Typed) {targets : List Nat}
    (htargets : ∀ t ∈ targets, t < g.size) {u : Nat} :
    u ∈ g.updates targets ↔ (∃ t ∈ targets, g.Reaches t u) ∧ (g.updated? u).isSome := by
  rw [updates, List.mem_filter, ← hg.schedule_eq htargets, hg.mem_schedule_iff htargets]

namespace Setting

variable {S : Type} [Scalar S]

/-- What an update gives its variable: the value stretched to the shape of the variable, for an
addition on top of the value that the variable has at the start of the run. -/
def contribute (env : Setting S) (noise : Nat → Option (Tensor S)) : Op → Option (Tensor S)
  | .assign target value => do
    let t ← env.recompute noise (value + 1) value
    let shape ← (env.staticShape target).toOption
    return t.stretch shape
  | .assignAdd target delta => do
    let t ← env.recompute noise (delta + 1) delta
    let current ← env.store.get? target
    return current.add (t.stretch current.shape)
  | _ => none

/-- What the update in a slot gives its variable. -/
def contribution (env : Setting S) (noise : Nat → Option (Tensor S)) (slot : Nat) :
    Option (Tensor S) :=
  (env.graph.nodes[slot]?).bind fun n => env.contribute noise n.op

/-- The variables after the update in a slot has been applied. -/
def apply (env : Setting S) (noise : Nat → Option (Tensor S)) (store : SlotMap (Tensor S))
    (slot : Nat) : SlotMap (Tensor S) :=
  match env.graph.updated? slot, env.contribution noise slot with
  | some target, some t => store.insert target t
  | _, _ => store

theorem apply_eq {env : Setting S} {noise : Nat → Option (Tensor S)} {u target : Nat} {t : Tensor S}
    (hupdated : env.graph.updated? u = some target) (ht : env.contribution noise u = some t)
    (store : SlotMap (Tensor S)) : env.apply noise store u = store.insert target t := by
  simp only [apply, hupdated, ht]

/-- Applying updates leaves the variables alone that they do not target. -/
theorem get?_foldl_apply (env : Setting S) (noise : Nat → Option (Tensor S)) {slots : List Nat}
    {store : SlotMap (Tensor S)} {slot : Nat}
    (h : ∀ u ∈ slots, env.graph.updated? u ≠ some slot) :
    (slots.foldl (env.apply noise) store).get? slot = store.get? slot := by
  -- an update may also have no contribution, and then changes nothing at all
  induction slots generalizing store with
  | nil => rfl
  | cons u slots ih =>
    obtain ⟨hu, hslots⟩ := List.forall_mem_cons.1 h
    rw [List.foldl_cons, ih hslots, apply]
    split
    · next target t htarget _ =>
      refine SlotMap.get?_insert_of_ne _ _ fun heq => hu ?_
      rw [htarget, heq]
    · rfl

end Setting

section Contributing

variable {S : Type} [Scalar S] {env : Setting S} {noise : Nat → Option (Tensor S)}

/-- The value of an update is what it contributes, when it is computed from recomputed values. -/
theorem Op.Typed.contribute_eq {look : Nat → Option GraphNode} {op : Op} {shape : DeclaredShape}
    {type : ElementType} (h : op.Typed look shape type) (hupdated : op.updated?.isSome)
    {known : Known S} {slot : Nat} {t : Tensor S}
    (hoperands : ∀ o ∈ op.operands, env.recompute noise (o + 1) o = some (known.value o))
    (hstore : ∀ o ∈ op.operands, ∀ v, look o = some v → v.op.isVariable →
      env.store.get? o = some (known.value o))
    (ht : env.compute known slot op = .ok t) : env.contribute noise op = some t := by
  cases h with
  | @assign target value =>
    -- the value stretched to the declared shape of the variable
    obtain ⟨shape, hshape, hfit⟩ := except_bind_eq_ok_iff.1 ht
    obtain ⟨-, rfl⟩ := Setting.fitTo_eq_ok_iff.1 hfit
    have hvalue := hoperands value (by simp [Op.operands])
    simp [Setting.contribute, hvalue, hshape, Except.toOption]
  | @assignAdd target delta v _ found _ isVariable =>
    -- the delta stretched to the value of the variable at the start
    obtain ⟨_, hfit, hsum⟩ := except_bind_eq_ok_iff.1 ht
    obtain ⟨-, rfl⟩ := Setting.fitTo_eq_ok_iff.1 hfit
    have hdelta := hoperands delta (by simp [Op.operands, Op.inputs])
    have hcurrent := hstore target (by simp [Op.operands, Op.inputs]) v found isVariable
    simp [Setting.contribute, hdelta, hcurrent, ← Except.ok.inj hsum]
  | _ => cases hupdated

end Contributing

namespace Settled

variable {S : Type} [Scalar S] {env : Setting S} {listed : List Nat} {e : Evaluation S}

/-- The value of an evaluated update is its contribution. -/
theorem contribution_eq (h : Settled env listed e) (hg : env.graph.Typed)
    (hlisted : env.graph.Finished listed) {u target : Nat} (hu : u ∈ listed)
    (hupdated : env.graph.updated? u = some target) :
    env.contribution e.noise.get? u = some (e.known.value u) := by
  obtain ⟨n, hn, hop⟩ := Option.bind_eq_some_iff.1 hupdated
  -- the operands of the update have been evaluated, and their values are the recomputed ones
  have hmem : ∀ o ∈ n.op.operands, o ∈ listed := fun o ho => hlisted.mem_of_mem_operands hu hn ho
  rw [Setting.contribution, hn, Option.bind_some]
  refine (hg.node hn).contribute_eq (by rw [hop]; rfl)
    (fun o ho => h.recompute_eq hg hlisted (Nat.lt_succ_self o) (hmem o ho))
    (fun o ho v hv hvar => ?_) (h.computed hu hn)
  exact h.store_eq (hmem o ho) (Graph.before_eq_some_iff.1 hv).2 hvar

/-- Committing the assignments of a run applies the evaluated updates in order. -/
theorem foldl_assignments (h : Settled env listed e) (hg : env.graph.Typed)
    (hlisted : env.graph.Finished listed) (store : SlotMap (Tensor S)) :
    e.assignments.toList.foldl (fun vs (slot, t) => vs.insert slot t) store =
      (listed.reverse.filter fun slot => (env.graph.updated? slot).isSome).foldl
        (env.apply e.noise.get?) store := by
  rw [h.assignments]
  -- the induction is on a list of evaluated slots, of which the updates are assigned
  have hsubset : listed.reverse ⊆ listed := fun _ => List.mem_reverse.1
  revert hsubset
  generalize listed.reverse = slots
  intro hsubset
  induction slots generalizing store with
  | nil => rfl
  | cons u slots ih =>
    obtain ⟨hu, hslots⟩ := List.cons_subset.1 hsubset
    cases hupdated : env.graph.updated? u with
    | none => simpa [hupdated] using ih store hslots
    | some target =>
      have happly := Setting.apply_eq hupdated (h.contribution_eq hg hlisted hu hupdated) store
      simpa [hupdated, happly] using ih _ hslots

end Settled

/-- The variables after updates have been applied in order, with what their nodes drew. -/
structure Setting.Commits {S : Type} [Scalar S] (env : Setting S)
    (noise : Nat → Option (Tensor S)) (updates : List Nat) (store : SlotMap (Tensor S)) : Prop where
  /-- The updates are applied once each, in order. -/
  applied : store = updates.foldl (env.apply noise) env.store
  /-- Every update contributes. -/
  contributes : ∀ u ∈ updates, (env.contribution noise u).isSome
  /-- A variable holds what its last update contributes. -/
  last : ∀ {before after : List Nat} {u slot : Nat}, updates = before ++ u :: after →
    env.graph.updated? u = some slot → (∀ v ∈ after, env.graph.updated? v ≠ some slot) →
    store.get? slot = env.contribution noise u
  /-- A variable without updates keeps its value. -/
  untouched : ∀ {slot : Nat}, (∀ u ∈ updates, env.graph.updated? u ≠ some slot) →
    store.get? slot = env.store.get? slot

/-- Applying updates in order commits them, when every one contributes. -/
theorem Setting.commits_foldl {S : Type} [Scalar S] {env : Setting S}
    {noise : Nat → Option (Tensor S)} {updates : List Nat}
    (h : ∀ u ∈ updates, (env.contribution noise u).isSome) :
    env.Commits noise updates (updates.foldl (env.apply noise) env.store) where
  applied := rfl
  contributes := h
  last {before after u slot} hsplit hu hafter := by
    -- the updates after the last one leave its variable alone
    obtain ⟨t, ht⟩ := Option.isSome_iff_exists.1
      (h u (hsplit ▸ List.mem_append_right _ List.mem_cons_self))
    rw [hsplit, List.foldl_append, List.foldl_cons, get?_foldl_apply _ _ hafter, apply_eq hu ht,
      SlotMap.get?_insert_self, ht]
  untouched := get?_foldl_apply _ _

/-- Committing the assignments of an evaluation applies the updates that its targets reach. -/
theorem Setting.commits_of_evaluate {S : Type} [Scalar S] {env : Setting S}
    (hg : env.graph.Typed) {targets : List Nat} (htargets : ∀ t ∈ targets, t < env.graph.size)
    {streams : SlotMap Stream} {ev : Evaluation S}
    (hev : env.evaluate targets (.start streams) = .ok () ev) :
    env.Commits ev.noise.get? (env.graph.updates targets)
      (ev.assignments.toList.foldl (fun vs (slot, t) => vs.insert slot t) env.store) := by
  have hsettled := settled_of_evaluate hg htargets hev
  have hlisted := hg.finished_schedule htargets
  have hupdates : env.graph.updates targets =
      (env.graph.schedule targets).filter fun slot => (env.graph.updated? slot).isSome := by
    rw [Graph.updates, hg.schedule_eq htargets]
  have hstore := hsettled.foldl_assignments hg hlisted env.store
  rw [List.reverse_reverse, ← hupdates] at hstore
  rw [hstore]
  -- each update in the schedule contributes the value that it has been evaluated to
  refine commits_foldl fun u hu => ?_
  rw [hupdates, List.mem_filter] at hu
  obtain ⟨target, htarget⟩ := Option.isSome_iff_exists.1 hu.2
  rw [hsettled.contribution_eq hg hlisted (List.mem_reverse.2 hu.1) htarget]
  rfl

namespace Engine

variable {e e' : Engine} {s : Session} {f : Function} {feeds : List (Node × Value)}
  {values : List Value}

/-- The updates of a run are the updating nodes that it reaches. -/
theorem Ran.mem_updates_iff {ev : Evaluation Float32} (h : Ran e s f feeds ev values e')
    (hsound : e.Sound) {u : Nat} :
    u ∈ e.graph.updates ((f.outputs ++ f.updates).map (·.index)) ↔
      (∃ n ∈ f.outputs ++ f.updates, e.graph.Reaches n.index u) ∧ (e.graph.updated? u).isSome := by
  rw [hsound.typed.mem_updates_iff h.lt_size]
  simp only [List.mem_map, exists_exists_and_eq_and]

/-- The session holds the variables with the updates of the run applied. -/
theorem Ran.commits {ev : Evaluation Float32} (h : Ran e s f feeds ev values e')
    (hsound : e.Sound) :
    (e.setting s f.phase (feedTable feeds .empty)).Commits ev.noise.get?
      (e.graph.updates ((f.outputs ++ f.updates).map (·.index)))
      (ev.assignments.toList.foldl (fun vs (slot, t) => vs.insert slot t) s.store) :=
  Setting.commits_of_evaluate hsound.typed h.lt_size h.evaluated

/-- After a run, the updates that it reaches have been applied once each, in the order in which
evaluation finishes them; everything else that an engine shows is as before. What the updates
contribute is computed on the variables at the start of the run, with the samples of the fetched
values. -/
theorem run_commits_updates (h : e.Reachable) (hs : e.session = some s)
    (hrun : run f feeds e = .ok values e') :
    let env := e.setting s f.phase (feedTable feeds .empty)
    let updates := e.graph.updates ((f.outputs ++ f.updates).map (·.index))
    updates.Nodup ∧
    (∀ u, u ∈ updates ↔ (∃ n ∈ f.outputs ++ f.updates, e.graph.Reaches n.index u) ∧
      (e.graph.updated? u).isSome) ∧
    (∃ (noise : Nat → Option (Tensor Float32)) (s' : Session), e'.session = some s' ∧
      env.Commits noise updates s'.store ∧
      (∀ (i : Nat) (n : Node), f.outputs[i]? = some n →
        ∃ (node : GraphNode) (t : Tensor Float32), e.graph.nodes[n.index]? = some node ∧
          env.recompute noise (n.index + 1) n.index = some t ∧
          values[i]? = some (t.toValue node.type)) ∧
      ∀ t, (noise t).isSome → ∃ n, e.graph.nodes[t]? = some n ∧ env.samples n.op) ∧
    e'.graph = e.graph ∧ (∀ name, e'.find? name = e.find? name) ∧
    e'.trainableWeights = e.trainableWeights := by
  obtain ⟨ev, hran⟩ := exists_ran hs hrun
  intro env updates
  refine ⟨?_, fun u => hran.mem_updates_iff h.sound, ⟨ev.noise.get?, _, hran.session,
    hran.commits h.sound, fun i n hn => ?_, fun t ht => ?_⟩, hran.graph, fun name => ?_, ?_⟩
  · -- the updates are a part of the trail, which names every slot once
    have hnodup := nodup_eraseDups (e.graph.trailOf ((f.outputs ++ f.updates).map (·.index)))
    exact hnodup.filter _
  · obtain ⟨node, hnode, hvalue⟩ := hran.exists_value hn
    exact ⟨node, _, hnode, (hran.settled h.sound).recompute_eq h.sound.typed
      (hran.finished h.sound) (Nat.lt_succ_self _) (hran.mem_listed_of_output h.sound hn), hvalue⟩
  · have hmem := (hran.settled h.sound).mem_of_noise ht
    obtain ⟨n, hn⟩ := Graph.exists_node_of_lt ((hran.finished h.sound).lt_size hmem)
    exact ⟨n, hn, ((hran.settled h.sound).noise_iff hmem hn).1 ht⟩
  · rw [find?, find?, hran.graph]
  · rw [trainableWeights, trainableWeights, hran.graph]

/-- The counter is increased and then given the sum; it holds the sum. -/
theorem counting_commits_sum :
    ∃ s s' values e' noise, counting.session = some s ∧
      run countSteps [] counting = .ok values e' ∧ e'.session = some s' ∧
      counting.graph.updates [2, 3, 2, 3, 4] = [3, 4] ∧
      s'.store.get? 0 = (counting.setting s .inference .empty).contribution noise 4 ∧
      (s'.store.get? 0).isSome ∧ e'.graph = counting.graph := by
  obtain ⟨values, e', hrun⟩ := exists_of_gives counting_gives
  obtain ⟨s, ev, hran⟩ := (leads_run _ _).of_eq_ok hrun
  obtain ⟨-, -, ⟨noise, s', hs', hcommits, -, -⟩, hgraph, -, -⟩ :=
    run_commits_updates reachable_counting hran.active hrun
  -- three fetched nodes and two updates reach the two updates, each of them once
  have hupdates : counting.graph.updates [2, 3, 2, 3, 4] = [3] ++ 4 :: [] := by decide +kernel
  have htarget : counting.graph.updated? 4 = some 0 := by decide +kernel
  have hlast := hcommits.last hupdates htarget (by simp)
  have hsome := hcommits.contributes 4 (List.mem_of_getElem? (i := 1) (congrArg (·[1]?) hupdates))
  exact ⟨s, s', values, e', noise, hran.active, hrun, hs', hupdates, hlast, hlast ▸ hsome, hgraph⟩

end Engine
end TensorGraph
