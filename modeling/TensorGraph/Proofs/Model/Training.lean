import TensorGraph.Proofs.Learning.Momentum
import TensorGraph.Proofs.Model.Reaching
import TensorGraph.Proofs.Network.Specimens
import TensorGraph.Proofs.Run.Commitment
import TensorGraph.Proofs.Run.Overrides

/-!
# Training a compiled model

A batch makes one step: every trained variable and its accumulator move by the momentum recurrence,
on the values that the engine held before the batch and with the derivative of the objective there.
Steps leave the graph as it is, so a whole training run is one recurrence.

## Main definitions

* `Descent.Moves`: a weight and its accumulator before and after a step.
* `Program.SumsLosses`: the objective is the sum of the losses.

## Main results

* `Engine.Ran.moves`: one run of a function with the updates of a step.
* `Program.moves_of_trainBatch`: one batch.
* `Model.training_follows_momentum`: any number of batches.
-/

namespace TensorGraph

open Engine

variable {e e' : Engine}

/-- A weight and its accumulator before and after a step with a gradient. -/
def Descent.Moves (d : Descent) (e e' : Engine) (weight accumulator : Nat)
    (gradient : Tensor Float32) : Prop :=
  ∃ w v, e.stored? weight = some w ∧ e.stored? accumulator = some v ∧
    v.shape = w.shape ∧ gradient.shape = w.shape ∧
    e'.stored? accumulator = some (d.velocity v gradient) ∧
    e'.stored? weight = some (Descent.moved w (d.velocity v gradient))

namespace Engine

/-- A variable holds what its initializer makes when it is evaluated for the first time. -/
def HoldsFirst (e : Engine) (slot : Nat) (t : Tensor Float32) : Prop :=
  ∃ s n trainable init, e.session = some s ∧ e.graph.nodes[slot]? = some n ∧
    n.op = .variable trainable (some init) ∧ (e.setting s .inference .empty).Makes init t ∧
    s.store.get? slot = some t

/-- On an initialized engine a trained variable holds what its initializer first makes. -/
theorem Initialized.exists_holdsFirst (h : e.Initialized) (hactive : e.session.isSome) {slot : Nat}
    (hslot : slot ∈ e.graph.trainable) : ∃ t, e.HoldsFirst slot t ∧ e.stored? slot = some t := by
  obtain ⟨s, hs⟩ := Option.isSome_iff_exists.1 hactive
  obtain ⟨n, hn, htrainable⟩ := h.sound.indexed.mem_trainable_iff.1 hslot
  -- only counters have no initializer, and they are not trained
  obtain ⟨trainable, init, hop⟩ : ∃ trainable init, n.op = .variable trainable (some init) := by
    have htyped := h.sound.typed.node hn
    obtain ⟨op, shape, type, name⟩ := n
    cases htyped with
    | stored => exact ⟨_, _, rfl⟩
    | _ => cases htrainable
  obtain ⟨made, t, -, -, ht, hmakes⟩ := h.made hs hn hop
  exact ⟨t, ⟨s, n, trainable, init, hs, hn, hop, hmakes, ht⟩, (stored?_eq hs slot).trans ht⟩

theorem find?_of_name {slot : Nat} {n : GraphNode} {name : String} (hsound : e.Sound)
    (hn : e.graph.nodes[slot]? = some n) (hname : n.name = some name) :
    e.find? name = some (e.graph.handle slot) := by
  rw [find?, hsound.indexed.find?_eq_some_iff.2 ⟨n, hn, hname⟩, Option.map_some]

theorem find?_of_counts {iterations count : Nat} (hsound : e.Sound)
    (h : Descent.Counts e.graph iterations count) :
    e.find? "SGD_Iterations" = some (e.graph.handle iterations) := by
  obtain ⟨n, hn, -, -, hname⟩ := h.node
  exact find?_of_name hsound hn hname

theorem find?_of_accumulates {k weight accumulator : Nat} (hsound : e.Sound)
    (h : Descent.Accumulates e k weight accumulator) :
    e.find? ("SGD_Momentum_" ++ NumberText.natural k) = some (e.graph.handle accumulator) := by
  obtain ⟨-, n, -, -, hn, hname, -⟩ := h
  exact find?_of_name hsound hn hname

/-- An accumulator begins with zeros, as many as its weight has numbers. -/
theorem stored?_of_accumulates {k weight accumulator : Nat} {w : Tensor Float32} (hsound : e.Sound)
    (h : Descent.Accumulates e k weight accumulator) (hw : e.stored? weight = some w) :
    e.stored? accumulator = some (.full w.shape 0) := by
  obtain ⟨v, n, shape, hv, -, -, -, hshape, hzeros⟩ := h
  obtain ⟨s, hs, ht⟩ := Option.bind_eq_some_iff.1 hw
  -- the weight has the shape that it declares
  obtain ⟨v', hv', -, hshape'⟩ := (hsound.holds hs).shape ht
  obtain rfl := Option.some.inj (hv.symm.trans hv')
  rwa [Option.some.inj (hshape.symm.trans hshape')] at hzeros

/-- A trained variable begins with its first value, and its accumulator with zeros. -/
theorem Initialized.begins (h : e.Initialized) {k weight accumulator : Nat}
    (haccumulates : Descent.Accumulates e k weight accumulator)
    (hweight : weight ∈ e.graph.trainable) :
    e.find? ("SGD_Momentum_" ++ NumberText.natural k) = some (e.graph.handle accumulator) ∧
      ∃ w, e.HoldsFirst weight w ∧ e.stored? accumulator = some (.full w.shape 0) := by
  have ⟨_, _, _, _, _, _, _, _, hzeros⟩ := haccumulates
  obtain ⟨s, hs, -⟩ := Option.bind_eq_some_iff.1 hzeros
  obtain ⟨t, hfirst, ht⟩ := h.exists_holdsFirst (hs ▸ rfl) hweight
  exact ⟨find?_of_accumulates h.sound haccumulates, t, hfirst,
    stored?_of_accumulates h.sound haccumulates ht⟩

theorem map_index_trainableWeights (e : Engine) :
    e.trainableWeights.map (·.index) = e.graph.trainable := by
  rw [trainableWeights, List.map_map]
  exact List.map_id _

/-- When a run reaches one update of a variable, the variable holds its value. -/
theorem Ran.stored?_of_unique {s : Session} {f : Function} {feeds : List (Node × Value)}
    {ev : Evaluation Float32} {values : List Value} (h : Ran e s f feeds ev values e')
    (hsound : e.Sound) {u slot : Nat} (hu : u ∈ f.updates.map (·.index))
    (hupdated : e.graph.updated? u = some slot)
    (hunique : ∀ v ∈ e.graph.updates ((f.outputs ++ f.updates).map (·.index)),
      e.graph.updated? v = some slot → v = u) :
    e'.stored? slot = some (ev.known.value u) := by
  have hcommits := h.commits hsound
  obtain ⟨n, hn, rfl⟩ := List.mem_map.1 hu
  have hreached : ∃ m ∈ f.outputs ++ f.updates, e.graph.Reaches m.index n.index :=
    ⟨n, List.mem_append_right _ hn, .refl⟩
  have hmem := (h.mem_updates_iff hsound).2 ⟨hreached, by rw [hupdated]; rfl⟩
  obtain ⟨before, after, hsplit⟩ := List.append_of_mem hmem
  -- the update is listed once, so it is the last one of its variable
  have hafter : ∀ v ∈ after, e.graph.updated? v ≠ some slot := by
    intro v hv hvslot
    have hlisted := List.mem_append_right before (List.mem_cons_of_mem n.index hv)
    have hnodup := e.graph.nodup_updates ((f.outputs ++ f.updates).map (·.index))
    rw [← hsplit] at hlisted
    rw [hsplit, List.nodup_append] at hnodup
    exact (List.nodup_cons.1 hnodup.2.1).1 (hunique v hlisted hvslot ▸ hv)
  have hlast := hcommits.last hsplit hupdated hafter
  rw [(h.settled hsound).contribution_eq hsound.typed (h.finished hsound)
    ((h.mem_listed_iff hsound).2 hreached) hupdated] at hlast
  rw [stored?_eq h.session, hlast]

/-- A variable without an update among those that a run reaches keeps its value. -/
theorem Ran.stored?_of_untouched {s : Session} {f : Function} {feeds : List (Node × Value)}
    {ev : Evaluation Float32} {values : List Value} (h : Ran e s f feeds ev values e')
    (hsound : e.Sound) {slot : Nat}
    (huntouched : ∀ v ∈ e.graph.updates ((f.outputs ++ f.updates).map (·.index)),
      e.graph.updated? v ≠ some slot) : e'.stored? slot = e.stored? slot := by
  rw [stored?_eq h.session, stored?_eq h.active]
  exact (h.commits hsound).untouched huntouched

/-- A run of a function with the two updates of a step moves the weight and its accumulator, when
it reaches no other updates of them. -/
theorem Ran.moves {s : Session} {f : Function} {feeds : List (Node × Value)}
    {ev : Evaluation Float32} {values : List Value} (h : Ran e s f feeds ev values e')
    (hsound : e.Sound) {d : Descent} {w : Descent.Wiring} {objective : Nat}
    (hpresent : w.Present d e.graph objective) (hupdates : w.updates ⊆ f.updates.map (·.index))
    (hofAccumulator : ∀ u ∈ e.graph.updates ((f.outputs ++ f.updates).map (·.index)),
      e.graph.updated? u = some w.accumulator → u = w.ofAccumulator)
    (hofWeight : ∀ u ∈ e.graph.updates ((f.outputs ++ f.updates).map (·.index)),
      e.graph.updated? u = some w.weight → u = w.ofWeight)
    (hsame : ∀ x a, e.graph.nodes[w.weight]? = some x → e.graph.nodes[w.accumulator]? = some a →
      a.shape = x.shape) :
    objective ∈ (e.graph.schedule ((f.outputs ++ f.updates).map (·.index))).reverse ∧
      ∃ gradient, (e.setting s f.phase (feedTable feeds .empty)).lossGradient ev.noise.get?
          objective w.weight = some gradient ∧
        d.Moves e e' w.weight w.accumulator gradient := by
  have hlisted : ∀ u ∈ w.updates,
      u ∈ (e.graph.schedule ((f.outputs ++ f.updates).map (·.index))).reverse := by
    intro u hu
    obtain ⟨n, hn, rfl⟩ := List.mem_map.1 (hupdates hu)
    exact (h.mem_listed_iff hsound).2 ⟨n, List.mem_append_right _ hn, .refl⟩
  have hmem : w.ofAccumulator ∈ w.updates := List.mem_cons_self
  have hmem' : w.ofWeight ∈ w.updates := List.mem_cons_of_mem _ List.mem_cons_self
  -- both updates are evaluated, so everything that a step is made of has a value
  have hevaluated := hpresent.evaluated (h.finished hsound) (hlisted _ hmem) (hlisted _ hmem')
  have hchanges := Graph.updated?_of_op? hpresent.ofAccumulator
  have hchanges' := Graph.updated?_of_op? hpresent.ofWeight
  obtain ⟨a, ha, havar⟩ := hsound.typed.exists_of_updated? hchanges
  obtain ⟨x, hx, hxvar⟩ := hsound.typed.exists_of_updated? hchanges'
  obtain ⟨weight, accumulator, gradient, hweight, haccumulator, hgradient, hshape, hshape',
      hvelocity, hmoved⟩ :=
    hpresent.values (h.settled hsound) hsound.typed (hsound.fits h.active h.checked)
      (h.finished hsound) hevaluated hx hxvar ha havar (hsame x a hx ha)
  refine ⟨hevaluated.objective, gradient, hgradient, weight, accumulator,
    (stored?_eq h.active _).trans hweight, (stored?_eq h.active _).trans haccumulator, hshape,
    hshape', ?_, ?_⟩
  · -- no other update of the run writes to the same variable
    rw [← hvelocity]
    exact h.stored?_of_unique hsound (hupdates hmem) hchanges hofAccumulator
  · rw [← hmoved]
    exact h.stored?_of_unique hsound (hupdates hmem') hchanges' hofWeight

end Engine

namespace Program

variable {p : Program} {features targets results : List Value}

/-- What a batch is fed: features and targets, in order. -/
def fed (p : Program) (features targets : List Value) : SlotMap (Tensor Float32) :=
  feedTable (p.inputs.zip features ++ p.targets.zip targets) .empty

/-- The bindings that a batch is fed with. -/
def batchBindings (p : Program) (features targets : List Value) : List (Node × Value) :=
  p.inputs.zip features ++ p.targets.zip targets

theorem batchFeeds_eq_ok {feeds : List (Node × Value)}
    (h : p.batchFeeds features targets = .ok feeds) :
    features.length = p.inputs.length ∧ targets.length = p.targets.length ∧
      feeds = p.batchBindings features targets := by
  obtain ⟨_, hfeatures, h⟩ := except_bind_eq_ok_iff.1 h
  obtain ⟨_, htargets, h⟩ := except_bind_eq_ok_iff.1 h
  obtain ⟨_, -, h⟩ := except_bind_eq_ok_iff.1 h
  unfold checkFeatures at hfeatures
  unfold checkTargets at htargets
  split at hfeatures
  · split at htargets
    · next hlength hlength' => exact ⟨hlength, hlength', (Except.ok.inj h).symm⟩
    · cases htargets
  · cases hfeatures

/-- The setting of a batch that is fed on an engine with a session. -/
def batchSetting (p : Program) (e : Engine) (s : Session) (features targets : List Value) :
    Setting Float32 :=
  e.setting s .train (p.fed features targets)

/-- The losses have values in a setting, and the objective has their sum, recomputed. -/
def SumsLosses (p : Program) (env : Setting Float32) (noise : Nat → Option (Tensor Float32)) :
    Prop :=
  ∃ losses total, List.Forall₂
      (fun (n : Node) t => env.recompute noise (n.index + 1) n.index = some t) p.losses losses ∧
    Tensor.addUp losses = some total ∧
    env.recompute noise (p.objective.index + 1) p.objective.index = some total

/-- In a run that has evaluated the objective it is the sum of the losses. -/
theorem sumsLosses_of_settled {env : Setting Float32} {listed : List Nat}
    {ev : Evaluation Float32} (h : Settled env listed ev) (hg : env.graph.Typed)
    (hlisted : env.graph.Finished listed)
    (hsum : env.graph.AddsUp (p.losses.map (·.index)) p.objective.index)
    (hobjective : p.objective.index ∈ listed) : p.SumsLosses env ev.noise.get? := by
  obtain ⟨hlosses, hvalue⟩ := h.addUp_eq hlisted hsum hobjective
  rw [List.map_map] at hvalue
  refine ⟨_, _, ?_, hvalue, h.recompute_eq hg hlisted (Nat.lt_succ_self _) hobjective⟩
  rw [List.forall₂_map_right_iff, List.forall₂_same]
  exact fun n hn => h.recompute_eq hg hlisted (Nat.lt_succ_self _)
    (hlosses _ (List.mem_map_of_mem hn))

theorem batchBindings_eq_zip {f : Function} (hinputs : f.inputs = p.inputs ++ p.targets)
    (hfeatures : features.length = p.inputs.length) :
    p.batchBindings features targets = f.inputs.zip (features ++ targets) := by
  rw [batchBindings, hinputs, List.zip_append hfeatures.symm]

/-- A function whose inputs are those of the model and the targets runs on the features and targets
of a batch. -/
theorem exists_ran_of_execute {f : Function} {feeds : List (Node × Value)} {values : List Value}
    (hinputs : f.inputs = p.inputs ++ p.targets) (hdefaults : f.defaults = [])
    (hfeeds : p.batchFeeds features targets = .ok feeds)
    (h : execute f feeds e = .ok values e') :
    f.inputs.Nodup ∧ ∃ s ev, Ran e s f (p.batchBindings features targets) ev values e' := by
  obtain ⟨hfeatures, htargets, rfl⟩ := batchFeeds_eq_ok hfeeds
  obtain ⟨feeds, s, ev, hresolve, hran⟩ := (leads_execute _ _).of_eq_ok h
  -- every input has one override, so the inputs are bound to just these
  have hnodup := Function.nodup_of_resolve hdefaults hresolve
  have hlength : (features ++ targets).length = f.inputs.length := by
    rw [hinputs, List.length_append, List.length_append, hfeatures, htargets]
  rw [batchBindings_eq_zip hinputs hfeatures] at hresolve ⊢
  obtain rfl := Function.resolve_zip hdefaults hlength hresolve
  exact ⟨hnodup, s, ev, hran⟩

/-- A step gives the part of the fetched values that belongs to the losses. -/
theorem trainBatch_eq_ok_iff : p.trainBatch features targets e = .ok results e' ↔
    ∃ feeds values, p.batchFeeds features targets = .ok feeds ∧
      execute p.trainFunction feeds e = .ok values e' ∧
      results = (values.drop p.outputs.length).take p.losses.length := by
  rw [trainBatch, lift_bind_eq_ok_iff]
  constructor
  · rintro ⟨feeds, hfeeds, h⟩
    obtain ⟨values, _, hexecute, hresults⟩ := bind_eq_ok_iff.1 h
    cases hresults
    exact ⟨feeds, values, hfeeds, hexecute, rfl⟩
  · rintro ⟨feeds, values, hfeeds, hexecute, rfl⟩
    exact ⟨feeds, hfeeds, bind_eq_ok_iff.2 ⟨values, e', hexecute, rfl⟩⟩

/-- A batch runs the training function on the features and targets of the batch. -/
theorem exists_ran_of_trainBatch (hinputs : p.trainFunction.inputs = p.inputs ++ p.targets)
    (hdefaults : p.trainFunction.defaults = [])
    (h : p.trainBatch features targets e = .ok results e') :
    p.batchFeeds features targets = .ok (p.batchBindings features targets) ∧
    p.trainFunction.inputs.Nodup ∧ ∃ s ev values,
      Ran e s p.trainFunction (p.batchBindings features targets) ev values e' := by
  obtain ⟨feeds, values, hfeeds, hexecute, -⟩ := trainBatch_eq_ok_iff.1 h
  obtain ⟨hnodup, s, ev, hran⟩ := exists_ran_of_execute hinputs hdefaults hfeeds hexecute
  obtain ⟨-, -, rfl⟩ := batchFeeds_eq_ok hfeeds
  exact ⟨hfeeds, hnodup, s, ev, values, hran⟩

/-- The updates that a step reaches in a graph. -/
def stepUpdates (p : Program) (g : Graph) : List Nat :=
  g.updates ((p.trainFunction.outputs ++ p.trainFunction.updates).map (·.index))

/-- What a graph must hold so that a batch makes a step of gradient descent: the sum of the losses,
and the nodes of the step of every weight, whose updates are the only ones of their variables that
the step reaches. -/
structure Trains (p : Program) (d : Descent) (g : Graph) (ws : List Descent.Wiring) : Prop where
  inputs : p.trainFunction.inputs = p.inputs ++ p.targets
  defaults : p.trainFunction.defaults = []
  phase : p.trainFunction.phase = .train
  objective : g.AddsUp (p.losses.map (·.index)) p.objective.index
  updates : ∀ w ∈ ws, w.updates ⊆ p.trainFunction.updates.map (·.index)
  present : ∀ w ∈ ws, w.Present d g p.objective.index
  ofWeight : ∀ w ∈ ws, ∀ u ∈ p.stepUpdates g, g.updated? u = some w.weight → u = w.ofWeight
  ofAccumulator : ∀ w ∈ ws, ∀ u ∈ p.stepUpdates g, g.updated? u = some w.accumulator →
    u = w.ofAccumulator
  same_shape : ∀ w ∈ ws, ∀ x a, g.nodes[w.weight]? = some x → g.nodes[w.accumulator]? = some a →
    a.shape = x.shape

theorem preserves_sound_trainBatch (p : Program) (features targets : List Value) :
    Preserves Sound (p.trainBatch features targets) :=
  (preserves_lift _).bind fun _ =>
    (changing_execute _ _).preserves_sound.bind fun _ => .pure _

/-- What a batch does: one step for every weight, all of them on the values before the batch and
with the samples of one run. -/
theorem moves_of_trainBatch {d : Descent} {ws : List Descent.Wiring}
    (h : p.Trains d e.graph ws) (hsound : e.Sound)
    (htrain : p.trainBatch features targets e = .ok results e') :
    e'.graph = e.graph ∧ ∃ s ev, e.session = some s ∧
      (p.batchSetting e s features targets).evaluate
        ((p.trainFunction.outputs ++ p.trainFunction.updates).map (·.index))
        (.start s.streams) = .ok () ev ∧
      ∀ w ∈ ws, p.SumsLosses (p.batchSetting e s features targets) ev.noise.get? ∧
        ∃ gradient, (p.batchSetting e s features targets).lossGradient ev.noise.get?
            p.objective.index w.weight = some gradient ∧
          d.Moves e e' w.weight w.accumulator gradient := by
  obtain ⟨-, -, s, ev, values, hran⟩ := exists_ran_of_trainBatch h.inputs h.defaults htrain
  have hsettled := hran.settled hsound
  have hevaluated := hran.evaluated
  rw [h.phase] at hsettled hevaluated
  -- one evaluation serves all weights: the variables move after it
  refine ⟨hran.graph, s, ev, hran.active, hevaluated, fun w hw => ?_⟩
  obtain ⟨hobjective, hmoves⟩ := hran.moves hsound (h.present w hw) (h.updates w hw)
    (h.ofAccumulator w hw) (h.ofWeight w hw) (h.same_shape w hw)
  rw [h.phase] at hmoves
  exact ⟨sumsLosses_of_settled hsettled hsound.typed (hran.finished hsound) h.objective hobjective,
    hmoves⟩

/-- A run of batches leaves the graph as it is and the engine sound. -/
theorem keeps_of_trainBatches {d : Descent} {ws : List Descent.Wiring} {engines : Nat → Engine}
    {features targets results : Nat → List Value} {steps : Nat}
    (h : p.Trains d (engines 0).graph ws) (hsound : (engines 0).Sound)
    (htrain : ∀ k < steps,
      p.trainBatch (features k) (targets k) (engines k) = .ok (results k) (engines (k + 1))) :
    ∀ k ≤ steps, (engines k).graph = (engines 0).graph ∧ (engines k).Sound := by
  intro k hk
  induction k with
  | zero => exact ⟨rfl, hsound⟩
  | succ k ih =>
    obtain ⟨hgraph, hsound⟩ := ih (Nat.le_of_lt hk)
    have hstep := htrain k hk
    refine ⟨?_, p.preserves_sound_trainBatch _ _ _ _ _ hsound hstep⟩
    rw [(moves_of_trainBatch (hgraph ▸ h) hsound hstep).1, hgraph]

end Program

namespace Model

variable {m : Model} {p : Program} {built trained : Engine} {updates : List Node}

/-- Compiling a model lays down gradient descent for every weight that there is by then. -/
theorem Compiled.exists_laid {e₀ : Engine} (h : m.Compiled e₀ p built updates trained e)
    (hsound : e₀.Sound) : ∃ iterations count ws,
      m.descent.Laid built p.objective.index built.graph.trainable
        (p.trainFunction.updates.map (·.index)) e iterations count ws := by
  obtain ⟨iterations, count, ws, hlaid⟩ :=
    (Descent.leads_compile (h.builds buildable_sound hsound) _ _ _).of_eq_ok h.trains
  rw [map_index_trainableWeights] at hlaid
  have hgrown := hlaid.grown.trans (h.reported.grown hlaid.grown.sound)
  rw [h.trainFunction]
  -- the last record changes neither the graph nor the session
  obtain ⟨records, rfl⟩ := h.reported
  exact ⟨iterations, count, ws, { hlaid with grown := hgrown }⟩

section Laid

variable {e₀ : Engine} {iterations count : Nat} {ws : List Descent.Wiring} (hsound : e₀.Sound)
  (h : m.Compiled e₀ p built updates trained e)
  (hlaid : m.descent.Laid built p.objective.index built.graph.trainable
    (p.trainFunction.updates.map (·.index)) e iterations count ws)

include hsound h hlaid

/-- A step reaches no updates but its own. -/
theorem Compiled.mem_updates_of_stepUpdates {u : Nat} (hu : u ∈ p.stepUpdates e.graph) :
    u ∈ p.trainFunction.updates.map (·.index) := by
  have hreads := reads_of_compile hsound h.compiles
  have htyped := hlaid.grown.sound.typed
  have htargets : ∀ t ∈ (p.trainFunction.outputs ++ p.trainFunction.updates).map (·.index),
      t < e.graph.size :=
    List.forall_mem_map.2 fun n hn => (hreads.steady n hn).lt_size
  obtain ⟨⟨t, ht, hreached⟩, hupdated⟩ := (htyped.mem_updates_iff htargets).1 hu
  obtain ⟨n, hn, rfl⟩ := List.mem_map.1 ht
  -- outputs of a model reach no updates at all
  rcases List.mem_append.1 hn with hn | hn
  · rw [(hreads.passive n hn).updated?_of_reaches hreached] at hupdated
    cases hupdated
  · exact hlaid.mem_updates_of_reaches hreads.objective (List.mem_map_of_mem hn) hreached hupdated

/-- A batch makes a step for every weight. -/
theorem Compiled.trains_of_laid : p.Trains m.descent e.graph ws := by
  have hindexed := (h.builds buildable_sound hsound).indexed
  have hold : ∀ t ∈ built.graph.trainable, t < built.graph.size := fun _ ht =>
    hindexed.lt_size_of_mem_trainable ht
  have hfunction := h.trainFunction
  have hmem : ∀ u ∈ p.stepUpdates e.graph, u ∈ p.trainFunction.updates.map (·.index) := fun u hu =>
    mem_updates_of_stepUpdates hsound h hlaid hu
  constructor
  case inputs | defaults | phase => rw [hfunction]; rfl
  case objective =>
    exact h.objective.mono fun _ _ => hlaid.grown.op?
  case updates =>
    intro w hw u hu
    rw [hlaid.updates]
    exact List.mem_cons_of_mem _ (List.mem_flatMap.2 ⟨w, hw, hu⟩)
  case present => exact hlaid.present
  case ofWeight =>
    exact fun w hw u hu => hlaid.eq_ofWeight hindexed.pairwise_trainable.nodup hold hw (hmem u hu)
  case ofAccumulator => exact fun w hw u hu => hlaid.eq_ofAccumulator hold hw (hmem u hu)
  case same_shape =>
    intro w hw x a hx ha
    obtain ⟨i, hi⟩ := List.mem_iff_getElem?.1 hw
    obtain ⟨v, n, -, hv, hn, -, hshape, -⟩ := hlaid.accumulates i w hi
    obtain rfl := Option.some.inj (hv.symm.trans hx)
    obtain rfl := Option.some.inj (hn.symm.trans ha)
    exact hshape

end Laid

/-- A model that is compiled on a fresh engine trains every weight there is, with an accumulator of
its own. -/
theorem Compiled.exists_wirings {id : Nat} {entropy : UInt64}
    (h : m.Compiled (.create id entropy) p built updates trained e) :
    ∃ ws, p.Trains m.descent e.graph ws ∧ e.Initialized ∧
      ws.map (·.weight) = e.graph.trainable ∧
      ∀ i w, ws[i]? = some w → Descent.Accumulates e i w.weight w.accumulator := by
  obtain ⟨iterations, count, ws, hlaid⟩ := h.exists_laid (sound_create id entropy)
  have hinitial : built.Initialized :=
    h.builds buildable_initialized (initialized_create id entropy)
  exact ⟨ws, h.trains_of_laid (sound_create id entropy) hlaid, hlaid.grown.initialized hinitial,
    hlaid.weights.trans hlaid.grown.trainable.symm, fun i w hw => hlaid.accumulates i w hw⟩

/-- On a model that is compiled on a fresh engine, training follows the momentum recurrence. Every
trained variable has the accumulator of its number, which begins with zeros, while the variable
begins with what its initializer makes. In every batch the gradient is that of the sum of the losses
of the batch, on the values of all variables before the batch. -/
theorem training_follows_momentum {id : Nat} {entropy : UInt64} {engines : Nat → Engine}
    {features targets results : Nat → List Value} {steps : Nat}
    (hcompile : m.compile (.create id entropy) = .ok p (engines 0))
    (htrain : ∀ k < steps,
      p.trainBatch (features k) (targets k) (engines k) = .ok (results k) (engines (k + 1))) :
    (∀ k ≤ steps, (engines k).graph = (engines 0).graph) ∧
    ∀ i weight, (engines 0).trainableWeights[i]? = some weight → ∃ accumulator,
      (engines 0).find? ("SGD_Momentum_" ++ NumberText.natural i) = some accumulator ∧
      (∃ w, (engines 0).HoldsFirst weight.index w ∧
        (engines 0).stored? accumulator.index = some (.full w.shape 0)) ∧
      ∀ k < steps, ∃ s ev gradient, (engines k).session = some s ∧
        (p.batchSetting (engines k) s (features k) (targets k)).evaluate
          ((p.trainFunction.outputs ++ p.trainFunction.updates).map (·.index))
          (.start s.streams) = .ok () ev ∧
        p.SumsLosses (p.batchSetting (engines k) s (features k) (targets k)) ev.noise.get? ∧
        (p.batchSetting (engines k) s (features k) (targets k)).lossGradient ev.noise.get?
          p.objective.index weight.index = some gradient ∧
        m.descent.Moves (engines k) (engines (k + 1)) weight.index accumulator.index gradient := by
  obtain ⟨built, updates, trained, hcompiled⟩ := exists_compiled hcompile
  obtain ⟨ws, htrains, hinitialized, hweights, haccumulates⟩ := hcompiled.exists_wirings
  -- the graph stays the same, so the wiring found after compiling serves for every batch
  have hkeeps := Program.keeps_of_trainBatches htrains hinitialized.sound htrain
  refine ⟨fun k hk => (hkeeps k hk).1, fun i weight hi => ?_⟩
  rw [trainableWeights, ← hweights, List.map_map, List.getElem?_map] at hi
  obtain ⟨w, hw, rfl⟩ := Option.map_eq_some_iff.1 hi
  have hmem := List.mem_of_getElem? hw
  obtain ⟨hname, hbegins⟩ :=
    hinitialized.begins (haccumulates i w hw) (hweights ▸ List.mem_map_of_mem hmem)
  refine ⟨(engines 0).graph.handle w.accumulator, hname, hbegins, fun k hk => ?_⟩
  obtain ⟨hgraph, hsound⟩ := hkeeps k (Nat.le_of_lt hk)
  obtain ⟨-, s, ev, hs, hev, hmoves⟩ :=
    Program.moves_of_trainBatch (hgraph ▸ htrains) hsound (htrain k hk)
  obtain ⟨hsum, gradient, hgradient, hmoved⟩ := hmoves w hmem
  exact ⟨s, ev, gradient, hs, hev, hsum, hgradient, hmoved⟩

/-- A line, whose weight starts at one and whose bias starts at zero. -/
def line : Model where
  network := ⟨0, #[⟨"x", .input (.singles none)⟩,
    ⟨"y", .dense (.ones 1 (some .linear) none Nat.one_pos) ⟨0, 0⟩⟩]⟩
  inputs := [⟨0, 0⟩]
  outputs := [⟨0, 1⟩]
  losses := [.meanSquaredError]
  descent := .halves
  metrics := []

/-- Compile the line and train it twice on the point `(1, 0)`, keeping the engine in between. -/
def trainLineTwice : Call (Program × Engine × Engine × Engine) := do
  let p ← line.compile
  let e₀ ← get
  let _ ← p.trainBatch [.full [1, 1] 1] [.full [1, 1] 0]
  let e₁ ← get
  let _ ← p.trainBatch [.full [1, 1] 1] [.full [1, 1] 0]
  return (p, e₀, e₁, ← get)

theorem steps_of_trainLineTwice {e e' : Engine} {r : Program × Engine × Engine × Engine}
    (h : trainLineTwice e = .ok r e') : ∃ (engines : Nat → Engine) (results : Nat → List Value),
      r.2 = (engines 0, engines 1, engines 2) ∧ line.compile e = .ok r.1 (engines 0) ∧
      ∀ k < 2, r.1.trainBatch [.full [1, 1] 1] [.full [1, 1] 0] (engines k) =
        .ok (results k) (engines (k + 1)) := by
  obtain ⟨p, e₀, hcompile, h⟩ := bind_eq_ok_iff.1 h
  obtain ⟨_, _, hget, h⟩ := bind_eq_ok_iff.1 h
  cases hget
  obtain ⟨r₁, e₁, hfirst, h⟩ := bind_eq_ok_iff.1 h
  obtain ⟨_, _, hget, h⟩ := bind_eq_ok_iff.1 h
  cases hget
  obtain ⟨r₂, e₂, hsecond, h⟩ := bind_eq_ok_iff.1 h
  obtain ⟨_, _, hget, h⟩ := bind_eq_ok_iff.1 h
  cases hget
  cases h
  exact ⟨fun | 0 => e₀ | 1 => e₁ | _ => e', fun | 0 => r₁ | _ => r₂, rfl, hcompile, fun
    | 0, _ => hfirst
    | 1, _ => hsecond⟩

/-- The weight of the line goes from one to zero, and on to one half when the bias has moved too. -/
theorem line_follows_momentum :
    ∃ p accumulator g₁ g₂, ∃ engines : Nat → Engine,
      line.compile (.create 0 0) = .ok p (engines 0) ∧
      (∀ k < 2, ∃ results, p.trainBatch [.full [1, 1] 1] [.full [1, 1] 0] (engines k) =
        .ok results (engines (k + 1))) ∧
      (engines 0).find? "SGD_Momentum_0" = some accumulator ∧
      line.descent.Moves (engines 0) (engines 1) 2 accumulator.index g₁ ∧
      line.descent.Moves (engines 1) (engines 2) 2 accumulator.index g₂ ∧
      (List.range 3).map (fun k => (engines k).stored? 2 |>.map (·.data)) =
        [some #[1], some #[0], some #[0.5]] := by
  obtain ⟨⟨p, r⟩, e, hrun, hfacts⟩ := exists_of_answer (c := trainLineTwice)
    (e := .create 0 0)
    (f := fun r => (r.2.1.trainableWeights[0]?,
      [r.2.1, r.2.2.1, r.2.2.2].map fun e => e.stored? 2 |>.map (·.data)))
    (b := (some ⟨0, 2⟩, [some #[1], some #[0], some #[0.5]])) (by decide +kernel)
  obtain ⟨engines, results, rfl, hcompile, hsteps⟩ := steps_of_trainLineTwice hrun
  obtain ⟨hweight, hvalues⟩ := Prod.mk.inj hfacts
  obtain ⟨-, htrained⟩ := training_follows_momentum hcompile hsteps
  obtain ⟨accumulator, hname, -, hmoves⟩ := htrained 0 ⟨0, 2⟩ hweight
  obtain ⟨-, -, g₁, -, -, -, -, hmoves₁⟩ := hmoves 0 (by decide)
  obtain ⟨-, -, g₂, -, -, -, -, hmoves₂⟩ := hmoves 1 (by decide)
  exact ⟨p, accumulator, g₁, g₂, engines, hcompile, fun k hk => ⟨_, hsteps k hk⟩, hname, hmoves₁,
    hmoves₂, hvalues⟩

end Model

end TensorGraph
