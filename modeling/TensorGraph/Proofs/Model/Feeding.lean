import TensorGraph.Proofs.Engine.Sourced
import TensorGraph.Proofs.Model.Targets
import TensorGraph.Proofs.Run.Feeding

/-!
# What the functions of a compiled model are fed by

A model lists all the inputs that its outputs depend on. So the placeholders that are reached from
an output are inputs of the program, and those that are reached from a loss, a metric or an update
are inputs or targets. Every function of a program lists these, and never meets a placeholder
without a value when all of its inputs are fed.

## Main definitions

* `Graph.ClosedOver`: the placeholders that a node reaches are among some inputs.
* `Program.Fed`: what the nodes of a program are fed by.

## Main results

* `Model.Assembly.inherits_scored` and `Model.Assembly.inherits_trained`: what losses, metrics and
  updates inherit.
* `Model.compiled_functions_are_closed`: the functions of a compiled model are closed over their
  inputs.
-/

namespace TensorGraph

open Engine

variable {n : Network} {m : Model} {p : Program} {e e' e₀ e₁ : Engine} {g : Graph} {P : Op → Prop}
  {holds : Graph → Nat → Prop} {inputs outputs ns : List Node}

/-- Every placeholder that is reached from a node is among some inputs. -/
def Graph.ClosedOver (g : Graph) (inputs : List Node) (n : Node) : Prop :=
  ∀ slot k, Relation.ReflTransGen g.Connected n.index slot → g.nodes[slot]? = some k →
    k.op.isPlaceholder → g.handle slot ∈ inputs

/-- The slots of some nodes. -/
def Graph.SlotOf (ns : List Node) (slot : Nat) : Prop := ∃ n ∈ ns, n.index = slot

theorem Graph.FedBy.closedOver {n : Node} (h : g.FedBy (SlotOf ns) n.index)
    (hns : ∀ n ∈ ns, n.graph = g.id) : g.ClosedOver ns n := by
  intro slot k hslot hk hplaceholder
  obtain ⟨input, hinput, rfl⟩ := (h.of_connected hslot).fed_of_isPlaceholder hk hplaceholder
  rwa [Graph.handle_index (hns input hinput)]

/-- The node of a layer inherits from the nodes of the inputs that the layer depends on, if the
dropouts on the way are of the kind that inherits. -/
theorem Chronicle.inherits {made : List (LayerId × Blueprint)} (h : Chronicle (fun _ => n) g made)
    (hfed : n.WellFed) (hsourced : g.Sourced) (hholds : Graph.Inherits P holds) {id : LayerId}
    {b : Blueprint} (hmem : (id, b) ∈ made) {ls : List (LayerId × Layer)}
    (hls : n.lineage id = .ok ls)
    (hinputs : ∀ up ∈ ls, up.2.isInput → ∀ node k, Finds made up.1 node → g.Holds node k →
      k.op = .placeholder → holds g node.index)
    (hdropouts : ∀ up ∈ ls, ∀ d feeder, up.2 = .dropout d feeder →
      ∀ input, P (.dropout input d.rate d.seed)) : holds g b.output.index := by
  have hvariable : ∀ {node : Node} {k : GraphNode}, g.Holds node k → k.op.isVariable →
      holds g node.index := fun hnode hvar => hholds.stored hnode.2 hvar (hsourced _ _ hnode.2 hvar)
  induction id using hfed.induction generalizing b ls with
  | layer id ih =>
    obtain ⟨⟨name, layer⟩, hnamed, fedBy, hfeeds, hrealizes⟩ := h.exists_layer hmem
    have hfeeder : ∀ {feeder : LayerId} {b' : Blueprint}, layer.feeder? = some feeder →
        (feeder, b') ∈ made → (id, layer) ∈ ls ∧ holds g b'.output.index := by
      intro feeder b' hf hmem'
      rw [hfed.lineage_of_feeder hnamed hf] at hls
      obtain ⟨above, habove, rfl⟩ := except_map_eq_ok_iff.1 hls
      exact ⟨List.mem_cons_self, ih hnamed hf hmem' habove
        (fun up hup => hinputs up (List.mem_cons_of_mem _ hup))
        (fun up hup => hdropouts up (List.mem_cons_of_mem _ hup))⟩
    cases hrealizes with
    | input dims holds =>
      rw [n.lineage_of_input hnamed rfl] at hls
      cases hls
      exact hinputs _ (List.mem_singleton_self _) rfl _ _ ⟨_, hmem, rfl⟩ holds rfl
    | dense positive ofWeights ofBias product sum holds =>
      cases hfeeds with | layer hf hmem' _ =>
      have hproduct := hholds.node product.2 (hholds.deterministic _ ⟨⟨rfl, rfl⟩, nofun⟩) rfl
        (List.forall_mem_cons.2 ⟨(hfeeder hf hmem').2,
          List.forall_mem_singleton.2 (hvariable ofWeights rfl)⟩)
      have hsum := hholds.node sum.2 (hholds.deterministic _ ⟨⟨rfl, rfl⟩, nofun⟩) rfl
        (List.forall_mem_cons.2 ⟨hproduct, List.forall_mem_singleton.2 (hvariable ofBias rfl)⟩)
      exact hholds.node holds.2 (hholds.deterministic _ ⟨⟨rfl, rfl⟩, nofun⟩) rfl
        (List.forall_mem_singleton.2 hsum)
    | dropout holds =>
      cases hfeeds with | layer hf hmem' _ =>
      obtain ⟨hself, hinput⟩ := hfeeder hf hmem'
      exact hholds.node holds.2 (hdropouts _ hself _ _ rfl _) rfl
        (List.forall_mem_singleton.2 hinput)

/-- The node of a layer is fed by the inputs that the layer depends on. -/
theorem Chronicle.fedBy {made : List (LayerId × Blueprint)} (h : Chronicle (fun _ => n) g made)
    (hfed : n.WellFed) (hsourced : g.Sourced) {fed : Nat → Prop} {listed : List LayerId}
    (hlisted : ∀ id ∈ listed, ∀ node, Finds made id node → fed node.index) {id : LayerId}
    {b : Blueprint} (hmem : (id, b) ∈ made) (hid : Model.Listed n listed id) :
    g.FedBy fed b.output.index := by
  obtain ⟨ls, hls, hinputs⟩ := hid
  refine h.inherits hfed hsourced
    (Graph.inherits_fedBy (P := fun _ => True) (fun _ _ => trivial) fed) hmem hls ?_ (by simp)
  intro up hup hinput node k hnode hholds hop
  have hfed := hlisted _ (hinputs up hup hinput) node hnode
  exact .intro hholds.2 (fun _ => hfed) (by simp [hop, Op.inputs])

/-- Variables stay connected to sources when nodes that are no variables are added. -/
theorem Engine.Padded.sourced {Q : Option String → Prop} (h : Padded Q e e')
    (hsourced : e.graph.Sourced) : e'.graph.Sourced := by
  intro slot k hk hvar s hs
  have hlt : slot < e.graph.size := by
    by_contra hle
    rw [(h.added hk (Nat.not_lt.1 hle)).1] at hvar
    cases hvar
  obtain ⟨k', hk'⟩ := Graph.exists_node_of_lt hlt
  obtain rfl := Option.some.inj ((h.changes.getElem? hk').symm.trans hk)
  obtain ⟨made, hmade, hsource⟩ := hsourced _ _ hk' hvar s hs
  exact ⟨made, h.changes.getElem? hmade, hsource⟩

/-- What is inherited holds of the variables that are trained. -/
theorem Engine.atAll_trainableWeights (hholds : Graph.Inherits P holds) (hsound : e.Sound)
    (hsourced : e.graph.Sourced) : AtAll holds e.graph e.trainableWeights := by
  intro n hn
  obtain ⟨slot, hslot, rfl⟩ := List.mem_map.1 hn
  obtain ⟨v, hv, hvar⟩ := hsound.indexed.exists_variable_of_mem_trainable hslot
  exact hholds.stored hv hvar (hsourced _ _ hv hvar)

/-- A program in a graph where its outputs are fed by its inputs, and all that it computes from them
and from its targets by both. -/
structure Program.Fed (p : Program) (g : Graph) : Prop where
  placed : ∀ n ∈ p.inputs ++ p.targets, n.graph = g.id
  outputs : AtAll (fun g => g.FedBy (Graph.SlotOf p.inputs)) g p.outputs
  results : AtAll (fun g => g.FedBy (Graph.SlotOf (p.inputs ++ p.targets))) g
    (p.losses ++ p.metrics ++ p.objective :: p.trainFunction.updates)

theorem Program.Fed.extend (h : p.Fed g) {g' : Graph} (hg : g.Extends g') : p.Fed g' where
  placed n hn := (h.placed n hn).trans hg.id.symm
  outputs n hn := (h.outputs n hn).extend hg
  results n hn := (h.results n hn).extend hg

namespace Model

namespace Assembly

variable {pairs : List Pairing} {updates : List Node}
  {targeted lost summed scored trained : Engine}
  (h : m.Assembly e p pairs updates targeted lost summed scored trained e')
include h

/-- Losses, their sum and metrics inherit from the outputs and the targets. -/
theorem inherits_scored (hholds : Graph.Inherits P holds)
    (houtputs : AtAll holds targeted.graph p.outputs)
    (htargets : AtAll holds targeted.graph p.targets) :
    AtAll holds scored.graph (p.losses ++ p.metrics) ∧ At holds scored.graph p.objective := by
  have hpaired : ∀ pair ∈ pairs, At holds targeted.graph pair.output ∧
      At holds targeted.graph pair.target := by
    intro pair hpair
    obtain ⟨id, hmem⟩ := mem_of_pairings h.paired pair hpair
    obtain ⟨houtput, htarget⟩ := List.of_mem_zip (List.of_mem_zip hmem).2
    exact ⟨houtputs _ houtput, htargets _ htarget⟩
  have hstay : ∀ {g g' : Graph}, g.Extends g' → ∀ pair : Pairing,
      At holds g pair.output ∧ At holds g pair.target →
        At holds g' pair.output ∧ At holds g' pair.target := fun hg _ hpair =>
    ⟨hholds.extend hpair.1 hg, hholds.extend hpair.2 hg⟩
  have hcompileLosses : Yields (AtAll holds) (m.compileLosses pairs) targeted :=
    Yields.mapM (Q := fun g row => At holds g row.2.output ∧ At holds g row.2.target)
      (fun row hrow => hpaired _ (List.of_mem_zip hrow).2) (fun hg row => hstay hg row.2)
      (fun hg n hn => hholds.extend hn hg)
      fun row _ hrow => row.1.yields_compile hholds _ hrow.1 hrow.2
  obtain ⟨hlost, hlosses⟩ := hcompileLosses.of_eq_ok h.losses
  obtain ⟨summed', haggregate, hreported⟩ := h.objective
  obtain ⟨hsummed, hobjective⟩ := (yields_aggregate hholds hlosses).of_eq_ok haggregate
  have hreported := hreported.changes.extends
  have hbefore := (hlost.trans hsummed).trans hreported
  -- metrics come after the sum, on the same pairs
  have hcompileMetrics : Yields (AtAll holds) (m.compileMetrics pairs) summed :=
    Yields.mapM (Q := fun g row => At holds g row.2.output ∧ At holds g row.2.target)
      (fun row hrow => hstay hbefore _ (hpaired _ (List.of_mem_zip hrow).2))
      (fun hg row => hstay hg row.2) (fun hg n hn => hholds.extend hn hg)
      fun row _ hrow => row.1.yields_compile hholds _ hrow.1 hrow.2
  obtain ⟨hscored, hmetrics⟩ := hcompileMetrics.of_eq_ok h.metrics
  have hlater := (hsummed.trans hreported).trans hscored
  exact ⟨List.forall_mem_append.2 ⟨AtAll.extend hlosses hholds hlater, hmetrics⟩,
    hholds.extend hobjective (hreported.trans hscored)⟩

/-- The updates inherit from the sum of the losses and the variables that are trained. -/
theorem inherits_trained (hholds : Graph.Inherits Op.Steady holds)
    (hobjective : At holds scored.graph p.objective)
    (hweights : AtAll holds scored.graph scored.trainableWeights) :
    AtAll holds trained.graph updates :=
  ((m.descent.yields_compile hholds hobjective hweights).of_eq_ok h.trains).2

end Assembly

/-- What a compiled model computes is fed by its inputs and its targets. -/
theorem fed_of_compile {inputs outputs : List LayerId} {losses : List Loss}
    {descent : Descent} {metrics : List Metric} (hgrown : n.Grown)
    (hcreate : Model.create n inputs outputs losses descent metrics = .ok m)
    (hreachable : e₀.Reachable) (hcompile : m.compile e₀ = .ok p e₁) : p.Fed e₁.graph := by
  obtain ⟨rfl, -, houtputs⟩ := create_eq_ok hcreate
  have hfed := hgrown.wellFed
  obtain ⟨_, _, w, hends, hassemble, -⟩ := exists_assembled hcompile
  obtain ⟨rfl, rfl, pairs, updates, targeted, lost, summed, scored, trained, h⟩ :=
    exists_assembly hassemble
  obtain ⟨hw, hfinds, hfinds'⟩ := chronicled_of_compileEnds hfed hreachable.sound hends
  obtain ⟨htargeted, names, -, htargets⟩ :=
    (leads_compileTargets hw.sound _ _).of_eq_ok h.targets
  have hscored := htargeted.trans h.padded_scored.changes
  have hsound : scored.Sound := Changes.sound hscored hw.sound
  have hextends := (h.changes_of_scored hsound).extends
  have hlater := htargeted.extends.trans (h.padded_scored.changes.extends.trans hextends)
  -- the outputs are fed by the nodes of the inputs
  have hsourced := keeping_compileEnds buildable_sourced _ _ _ _ hreachable.sourced hends
  have hfeeds : ∀ id ∈ inputs, ∀ node, Chronicle.Finds w.context.blueprints id node →
      Graph.SlotOf p.inputs node.index := by
    intro id hid node hnode
    obtain ⟨node', hnode', hfind⟩ := exists_mem_of_forall₂ hfinds hid
    rw [(hw.chronicle.biUnique hfed).2 hnode hfind]
    exact ⟨node', hnode', rfl⟩
  have hclosed : AtAll (fun g => g.FedBy (Graph.SlotOf p.inputs)) w.engine.graph p.outputs := by
    intro node hnode
    obtain ⟨id, hid, b, hb, rfl⟩ := exists_mem_of_forall₂ hfinds'.flip hnode
    exact hw.chronicle.fedBy hfed hsourced hfeeds hb (houtputs id hid)
  have hholds : ∀ target ∈ p.targets, ∃ k : GraphNode, targeted.graph.Holds target k ∧
      k.op = .placeholder := by
    intro target htarget
    obtain ⟨name, -, shape, hholds⟩ := exists_mem_of_forall₂ htargets.flip htarget
    exact ⟨_, hholds, rfl⟩
  -- losses, metrics and updates inherit from the outputs and the targets
  have hinherits : Graph.Inherits Op.Steady
      fun g => g.FedBy (Graph.SlotOf (p.inputs ++ p.targets)) :=
    Graph.inherits_fedBy (fun _ h => h.passive.steady) _
  have hboth : AtAll (fun g => g.FedBy (Graph.SlotOf (p.inputs ++ p.targets))) targeted.graph
      p.outputs := fun n hn => (hclosed n hn).mono
    (fun _ ⟨input, hinput, hs⟩ => ⟨input, List.mem_append_left _ hinput, hs⟩) htargeted.extends
  obtain ⟨hresults, hobjective⟩ := h.inherits_scored hinherits hboth fun target htarget => by
    obtain ⟨k, hk, hop⟩ := hholds target htarget
    exact .intro hk.2 (fun _ => ⟨target, List.mem_append_right _ htarget, rfl⟩)
      (by simp [hop, Op.inputs])
  have htrainable := h.padded_scored.sourced (Preserves.mapM
    (fun _ => preserves_compileTarget buildable_sourced _ _ _) _ _ _ _ hsourced h.targets)
  have hupdates := h.inherits_trained hinherits hobjective
    (atAll_trainableWeights hinherits hsound htrainable)
  constructor
  case placed =>
    refine List.forall_mem_append.2 ⟨fun input hinput => ?_, fun target htarget => ?_⟩
    · obtain ⟨id, -, b, hb, rfl⟩ := exists_mem_of_forall₂ hfinds.flip hinput
      obtain ⟨_, _, _, -, hplaced⟩ := hw.chronicle.exists_holds (fun _ => hfed) hb
      exact hplaced.1.trans hlater.id.symm
    · obtain ⟨k, hk, -⟩ := hholds target htarget
      exact hk.1.trans (h.padded_scored.changes.extends.trans hextends).id.symm
  case outputs => exact fun n hn => (hclosed n hn).extend hlater
  case results =>
    rw [h.trainFunction]
    refine List.forall_mem_append.2 ⟨AtAll.extend hresults hinherits hextends,
      List.forall_mem_cons.2 ⟨hinherits.extend hobjective hextends, ?_⟩⟩
    exact AtAll.extend hupdates hinherits h.reported.changes.extends

/-- The placeholders that are reached from an output of a compiled model are inputs, and those that
are reached from a loss, a metric, the sum of the losses or an update are inputs or targets. A
function all of whose inputs are fed, now or later, never meets a placeholder without a value. -/
theorem compiled_functions_are_closed {inputs outputs : List LayerId} {losses : List Loss}
    {descent : Descent} {metrics : List Metric} (hgrown : n.Grown)
    (hcreate : Model.create n inputs outputs losses descent metrics = .ok m)
    (hreachable : e₀.Reachable) (hcompile : m.compile e₀ = .ok p e₁) :
    (∀ output ∈ p.outputs, e₁.graph.ClosedOver p.inputs output) ∧
    (∀ result ∈ p.losses ++ p.metrics ++ p.objective :: p.trainFunction.updates,
      e₁.graph.ClosedOver (p.inputs ++ p.targets) result) ∧
    ∀ e, Changes e₁ e → ∀ f ∈ [p.predictFunction, p.evaluateFunction, p.trainFunction], ∀ feeds,
      (∀ input ∈ f.inputs, ∃ v, (input, v) ∈ feeds) →
        ∀ label e', run f feeds e ≠ .error (.error (.unresolvedInput label)) e' := by
  have hfed₁ := fed_of_compile hgrown hcreate hreachable hcompile
  have hreads := reads_of_compile hreachable.sound hcompile
  refine ⟨fun output houtput => (hfed₁.outputs output houtput).closedOver fun n hn =>
    hfed₁.placed n (List.mem_append_left _ hn), fun result hresult =>
      (hfed₁.results result hresult).closedOver hfed₁.placed, fun e he f hf feeds hfeeds => ?_⟩
  have hfed := hfed₁.extend he.extends
  have hsound := he.sound (sound_of_compile hreachable.sound hcompile)
  have hboth : ∀ output ∈ p.outputs,
      e.graph.FedBy (Graph.SlotOf (p.inputs ++ p.targets)) output.index := fun output houtput =>
    (hfed.outputs output houtput).mono
      (fun _ ⟨input, hinput, hs⟩ => ⟨input, List.mem_append_left _ hinput, hs⟩) (.refl _)
  -- each function asks for nodes that only need its own inputs
  have hclosed : ∀ n ∈ f.outputs ++ f.updates,
      e.graph.FedBy (Graph.SlotOf f.inputs) n.index := by
    have hresults := hfed.results
    obtain ⟨updates, -, htrain⟩ := hreads.trainFunction
    simp only [htrain, Function.withPhase, Function.ofNodes, AtAll, List.forall_mem_append,
      List.forall_mem_cons] at hresults
    obtain ⟨⟨hlosses, hmetrics⟩, -, hupdates⟩ := hresults
    simp only [List.mem_cons, List.not_mem_nil, or_false] at hf
    rcases hf with rfl | rfl | rfl
    · rw [hreads.predictFunction]
      simp only [Function.ofNodes, List.append_nil]
      exact hfed.outputs
    · rw [hreads.evaluateFunction]
      simp only [Function.ofNodes, List.append_nil]
      exact List.forall_mem_append.2 ⟨hlosses, hmetrics⟩
    · rw [htrain]
      exact List.forall_mem_append.2 ⟨List.forall_mem_append.2 ⟨hboth, hlosses⟩, hupdates⟩
  intro label e' hfail
  exact failsBy_run hsound hclosed hfeeds _ _ hfail

/-- A run of the evaluating function of a model with a dense layer and a dropout does not fail for
want of a value when its input and its target are fed, whatever the values are. -/
theorem chained_functions_are_closed : ∃ p e, createChained [⟨0, 0⟩] = .ok (chainedModel [⟨0, 0⟩]) ∧
    (chainedModel [⟨0, 0⟩]).compile (.create 0 0) = .ok p e ∧
    ∀ feeds, (∀ input ∈ p.inputs ++ p.targets, ∃ v, (input, v) ∈ feeds) → ∀ label e',
      run p.evaluateFunction feeds e ≠ .error (.error (.unresolvedInput label)) e' := by
  have hcreate : createChained [⟨0, 0⟩] = .ok (chainedModel [⟨0, 0⟩]) := rfl
  obtain ⟨p, e, hcompile⟩ := exists_of_gives (c := (chainedModel [⟨0, 0⟩]).compile)
    (e := .create 0 0) (by decide +kernel)
  obtain ⟨-, -, hruns⟩ :=
    compiled_functions_are_closed grown_chained hcreate (.create 0 0) hcompile
  refine ⟨p, e, hcreate, hcompile, fun feeds hfeeds => ?_⟩
  refine hruns e .refl p.evaluateFunction (by simp) feeds ?_
  rw [(reads_of_compile (sound_create 0 0) hcompile).evaluateFunction]
  exact hfeeds

end Model
end TensorGraph
