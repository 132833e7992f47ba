import TensorGraph.Proofs.Model.Mirroring

/-!
# Training with and without metrics

The nodes of metrics stand between the losses and the updates of a model, so metrics move the
updates, the accumulators and the counter to other slots. A model is compared with one that has no
metrics: up to the losses both compile to the same nodes, and from there on to the same nodes in
renamed slots. So two models that differ in their metrics are trained in the same way, and predict
the same.

## Main results

* `Model.exists_unscored`: a model compiles without its metrics to the same program, but for
  renaming.
* `Model.metrics_do_not_influence_training`: models that differ in their metrics have the same
  transcripts.
-/

namespace TensorGraph

open Engine

namespace Renaming

variable {e e₁ e₂ : Engine} {source target bound distance : Nat} {n : GraphNode}

theorem rename_shift_zero : n.rename (shift source target bound 0).slot = n := by
  have hid : (shift source target bound 0).slot = id := funext fun _ => shift_slot_zero
  rw [GraphNode.rename, hid, Op.rename_id]

/-- The handle of an early slot goes to the handle of the same slot. -/
theorem node_shift {handle : Node} (h : handle.index < bound) :
    (shift source target bound distance).node handle = (shift source target 0 0).node handle := by
  rw [node, node, shift_slot_of_lt h, shift_slot_zero]
  rfl

/-- Where nothing has a value from a bound on, slots from there on may have been moved. -/
theorem Carries.shift {α : Type} {m m' : SlotMap α} (h : (shift source target 0 0).Carries m m')
    (hnone : ∀ slot, bound ≤ slot → m'.get? slot = none) :
    (Renaming.shift source target bound distance).Carries m m' := by
  intro slot
  have hslot := h slot
  rw [shift_slot_zero] at hslot
  by_cases hlt : slot < bound
  · rw [shift_slot_of_lt hlt, hslot]
  · have hle := Nat.not_lt.1 hlt
    rw [shift_slot_of_le hle, ← hslot, hnone _ hle, hnone _ (Nat.le_add_right_of_le hle)]

namespace Engines

variable {P : Option String → Prop} (h : (shift source target 0 0).Engines e e₁)
include h

theorem nodes_eq : e₁.graph.nodes = e.graph.nodes := by
  refine Array.ext_getElem? fun slot => ?_
  have hnode := h.graph.getElem? slot
  simp only [rename_shift_zero, Option.map_id'] at hnode
  rwa [shift_slot_zero] at hnode

/-- The same names are bound. -/
theorem named (hnamed : e₁.graph.Named) : e.graph.Named where
  find?_eq_some_iff {name slot} := by
    rw [← h.graph.find?_eq fun _ => shift_slot_zero, ← h.nodes_eq]
    exact hnamed.find?_eq_some_iff

theorem trainable_eq : e₁.graph.trainable = e.graph.trainable := by
  rw [h.trainable]
  exact (List.map_congr_left fun _ _ => shift_slot_zero).trans (List.map_id _)

/-- On two engines with the same nodes, nodes that are no variables may be appended to the second
one. -/
theorem pad (hinitialized : e₁.Initialized) (hpadded : Padded P e₁ e₂) :
    (shift source target e.graph.size (e₂.graph.size - e.graph.size)).Engines e e₂ := by
  have hsize : e₁.graph.size = e.graph.size := congrArg Array.size h.nodes_eq
  have hle : e.graph.size ≤ e₂.graph.size := hsize ▸ hpadded.changes.size_le
  -- slots keep their numbers below the old size and move behind the padding above it
  refine ⟨embeds_shift h.graph.source ?_ (h.named hinitialized.sound.indexed.toNamed)
    (hpadded.changes.sound hinitialized.sound).indexed.toNamed ?_ h.graph.earlier fun hn => ?_, ?_,
    h.repeatable, ?_⟩
  · exact hpadded.changes.extends.id.trans h.graph.target
  · omega
  · exact hpadded.changes.getElem? (h.nodes_eq ▸ hn)
  · rw [hpadded.trainable, h.trainable_eq]
    refine ((List.map_congr_left fun slot hslot => ?_).trans (List.map_id _)).symm
    rw [← h.trainable_eq] at hslot
    exact shift_slot_of_lt (hsize ▸ hinitialized.sound.indexed.lt_size_of_mem_trainable hslot)
  · -- neither session has anything in slots that are not in use
    have hstore : ∀ {s₁}, e₁.session = some s₁ → ∀ slot, e.graph.size ≤ slot →
        s₁.store.get? slot = none := by
      intro s₁ hs₁ slot hslot
      cases ht : s₁.store.get? slot with
      | none => rfl
      | some t =>
        obtain ⟨n, hn, -⟩ := (hinitialized.sound.holds hs₁).shape ht
        have hlt := Graph.lt_size_of_getElem? hn
        omega
    have hstreams : ∀ {s₁}, e₁.session = some s₁ → ∀ slot, e.graph.size ≤ slot →
        s₁.streams.get? slot = none := by
      intro s₁ hs₁ slot hslot
      by_contra hne
      have hlt := hinitialized.drawn hs₁ (Option.ne_none_iff_isSome.1 hne)
      omega
    have hsessions := h.session
    rw [hpadded.session]
    revert hsessions
    generalize hs : e.session = s
    generalize hs₁ : e₁.session = s₁
    rintro (hsessions | _)
    · refine .some ⟨hsessions.store.shift (hstore hs₁), fun slot hslot => hstore hs₁ slot ?_,
        hsessions.streams.shift (hstreams hs₁)⟩
      by_contra hlt
      exact hslot slot (shift_slot_of_lt (Nat.not_le.1 hlt))
    · exact .none

theorem trainableWeights_pad (hinitialized : e₁.Initialized) (hpadded : Padded P e₁ e₂) :
    e₂.trainableWeights = e.trainableWeights.map
      (shift source target e.graph.size (e₂.graph.size - e.graph.size)).node := by
  have hpad := h.pad hinitialized hpadded
  rw [trainableWeights, hpad.trainable, trainableWeights, List.map_map, List.map_map]
  exact List.map_congr_left fun slot _ => hpad.graph.handle slot

end Engines

/-- Engines without nodes hold the same. -/
theorem engines_create (id id' : Nat) (entropy entropy' : UInt64) :
    (shift id id' 0 0).Engines (.create id entropy) (.create id' entropy') where
  graph := by
    -- no node of an empty graph has an input to rename
    have hearlier {s : Nat} {n : GraphNode} (hn : (Graph.empty id).nodes[s]? = some n) :
        ∀ o ∈ n.op.inputs, o < s := by simp [Graph.empty] at hn
    have hsize : (Graph.empty id').size = (Graph.empty id).size + 0 := rfl
    exact embeds_shift rfl rfl (Graph.indexed_empty id).toNamed (Graph.indexed_empty id').toNamed
      hsize hearlier (by simp [Graph.empty])
  trainable := rfl
  repeatable := by simp [create, Graph.empty]
  session := .some ⟨carries_empty, fun _ _ => SlotMap.get?_empty _, carries_empty⟩

end Renaming

open Renaming

namespace Model

variable {m : Model} {id : Nat} {entropy : UInt64} {p p' : Program} {e e' : Engine}

theorem pairings_with_metrics (m : Model) (metrics : List Metric)
    (rows : List (LayerId × Node × Node)) :
    ({ m with metrics := metrics } : Model).pairings rows = m.pairings rows := by
  induction rows with
  | nil => rfl
  | cons row rows ih => rw [pairings, ih, pairings]

/-- Targets and losses do not depend on the metrics. -/
theorem compileGoal_with_metrics (m : Model) (metrics : List Metric) (outputs : List Node) :
    ({ m with metrics := metrics } : Model).compileGoal outputs = m.compileGoal outputs := by
  simp only [compileGoal, pairings_with_metrics]
  rfl

/-- A model with its metrics left out compiles on another engine, to the same program but for
renaming. -/
theorem exists_unscored (hn : m.network.Repeatable)
    (h : m.compile (.create id entropy) = .ok p' e') :
    ∃ r p e, { m with metrics := [] }.compile (.create 0 0) = .ok p e ∧
      Renaming.Programs r p p' ∧ r.Engines e e' := by
  obtain ⟨_, _, w', _, aimed', metrics, scored', hends', hgoal', hmetrics', hconclude'⟩ :=
    compile_eq_ok_iff.1 h
  have hid : ∀ s, (shift 0 id 0 0).slot s = s := fun s => shift_slot_zero
  have hstart : (shift 0 id 0 0).Workspaces ⟨.ofEngine (.create 0 0), .create 0 0⟩
      ⟨.ofEngine (.create id entropy), .create id entropy⟩ :=
    ⟨engines_create 0 id 0 entropy, (number_source (shift 0 id 0 0)).symm, rfl⟩
  -- up to the losses both models become the same nodes
  have hconcur := concur_compileEnds hid hn hstart
  rw [hends'] at hconcur
  obtain ⟨⟨inputs, outputs⟩, w, hends, hsame, hw⟩ := hconcur.exists_left
  cases hsame
  obtain ⟨goal, aimed, hgoal, rfl, haimed⟩ :=
    (mirrors_compileGoal mirroring_engines hid m outputs).exists_left hw.engine hgoal'
  have hreaching := reaching_of_compileEnds hends
  obtain ⟨hinputs, houtputs⟩ := List.forall_mem_append.1 hreaching
  obtain ⟨hext, hpassive⟩ := (m.yields_compileGoal houtputs).of_eq_ok hgoal
  have hinitialized : aimed'.Initialized :=
    preserves_compileGoal buildable_initialized m _ _ _ _
      (keeping_compileEnds buildable_initialized m _ _ _ (initialized_create id entropy) hends')
      hgoal'
  -- the metrics are no variables, and nothing is connected to them
  have hpadded := padded_compileMetrics hmetrics'
  have hpad := haimed.pad hinitialized hpadded
  have hweights := haimed.trainableWeights_pad hinitialized hpadded
  generalize hr : shift 0 id aimed.graph.size (scored'.graph.size - aimed.graph.size) = r
    at hpad hweights
  have hnode : ∀ {n : Node}, Reaching Op.Passive aimed.graph n →
      (shift 0 id 0 0).node n = r.node n := fun hn => hr ▸ (node_shift hn.lt_size).symm
  have hmap : ∀ {ns : List Node}, (∀ n ∈ ns, Reaching Op.Passive aimed.graph n) →
      ns.map (shift 0 id 0 0).node = ns.map r.node :=
    fun hns => List.map_congr_left fun n hn => hnode (hns n hn)
  have hgoals : (shift 0 id 0 0).goal goal = r.goal goal := by
    have hpairs : goal.pairs.map (shift 0 id 0 0).pairing = goal.pairs.map r.pairing :=
      List.map_congr_left fun pair hpair => by
        rw [pairing, hnode (hpassive.pairs pair hpair).1, hnode (hpassive.pairs pair hpair).2]
        rfl
    rw [Renaming.goal, hmap hpassive.targets, hmap hpassive.losses, hnode hpassive.objective,
      hpairs]
    rfl
  rw [hmap fun n hn => (hinputs n hn).extend hext, hmap fun n hn => (houtputs n hn).extend hext,
    hgoals] at hconclude'
  obtain ⟨p, e, hconclude, hprograms, hengines⟩ := exists_conclude hpad hweights hconclude'
  refine ⟨r, p, e, compile_eq_ok_iff.2 ⟨inputs, outputs, w, goal, aimed, [], aimed, hends, ?_, rfl,
    hconclude⟩, hprograms, hengines⟩
  rw [compileGoal_with_metrics, hgoal]

/-- Metrics do not influence training. If two models that differ only in their metrics compile on
fresh engines, and all that they sample has a seed, then all variables have the same first values
under the same names, and both models can be used side by side: in any sequence of training steps,
of training by plans and of predictions, every call succeeds on both or on none and gives the same,
and after every call all variables have the same values under the same names. -/
theorem metrics_do_not_influence_training {metrics : List Metric} {id' : Nat} {entropy' : UInt64}
    (hn : m.network.Repeatable) (h : m.compile (.create id entropy) = .ok p e)
    (h' : { m with metrics := metrics }.compile (.create id' entropy') = .ok p' e')
    (us : List Program.Use) (hus : ∀ u ∈ us, u.scores = false) :
    e'.valueOf = e.valueOf ∧ p'.transcript us e' = p.transcript us e := by
  obtain ⟨r, p₀, e₀, h₀, hprograms, hengines⟩ := exists_unscored hn h
  obtain ⟨r', p₀', e₀', h₀', hprograms', hengines'⟩ :=
    exists_unscored (m := { m with metrics := metrics }) hn h'
  -- both models are the same without their metrics
  obtain ⟨rfl, rfl⟩ := EStateM.Result.ok.inj (h₀.symm.trans h₀')
  constructor
  · rw [hengines'.valueOf_eq, hengines.valueOf_eq]
  · rw [hprograms'.transcript_eq hengines' us hus, hprograms.transcript_eq hengines us hus]

/-- A step of training, a prediction with too many features, another prediction, and training by a
plan. -/
def mixedUses : List Program.Use :=
  [.trainBatch [.full [2, 1] 1] [.full [2, 1] 0], .predict [.full [1, 1] 1, .full [1, 1] 1],
    .predict [.full [1, 1] 1],
    .trainWith [.full [3, 1] 2] [.full [3, 1] 0] { epochs := 2, batchSize := 2, verbose := true }]

theorem repeatable_dropping : dropping.network.Repeatable := by
  intro l hl
  simp only [dropping, List.mem_toArray, List.mem_cons, List.not_mem_nil, or_false] at hl
  rcases hl with rfl | rfl | rfl
  · trivial
  · exact .inl rfl
  · exact ⟨trivial, trivial⟩

/-- The line behind a dropout is trained in the same way with a metric. -/
theorem dropping_ignores_metrics : ∃ p e p' e',
    dropping.compile (.create 0 0) = .ok p e ∧
    { dropping with metrics := [.meanAbsoluteError] }.compile (.create 1 5) = .ok p' e' ∧
    (p.transcript mixedUses e).map (·.1.isSome) = [true, false, true, true] ∧
    e'.valueOf = e.valueOf ∧ p'.transcript mixedUses e' = p.transcript mixedUses e := by
  obtain ⟨⟨p, e⟩, _, hrun, hgives⟩ := exists_of_answer (c := dropping.compileKeeping)
    (e := .create 0 0) (f := fun r => (r.1.transcript mixedUses r.2).map (·.1.isSome))
    (b := [true, false, true, true]) (by decide +kernel)
  obtain ⟨_, _, hcompile, hrun⟩ := bind_eq_ok_iff.1 hrun
  cases hrun
  obtain ⟨p', e', hcompile'⟩ := exists_of_gives
    (c := { dropping with metrics := [.meanAbsoluteError] }.compile) (e := .create 1 5)
    (by decide +kernel)
  exact ⟨p, e, p', e', hcompile, hcompile', hgives,
    metrics_do_not_influence_training repeatable_dropping hcompile hcompile' mixedUses
      (by decide)⟩

end Model
end TensorGraph
