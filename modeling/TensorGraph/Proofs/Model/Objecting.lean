import TensorGraph.Proofs.Model.Recompiling
import TensorGraph.Proofs.Network.Objecting

/-!
# What compiling a model objects to

Compiling a model finds fault with the parameters of losses, metrics and initializers only, of which
none is checked when a model is made. The names that it binds are those of its layers, of the
targets, losses and metrics of its outputs, and those that are kept for training, in this order.

## Main definitions

* `Model.Overlooks`: what is wrong with a parameter that is not checked when a model is made.
* `Model.layers`: the layers that a model is made of.
* `Model.labels`: the names that compiling a model binds.

## Main results

* `Model.binding_compile`: what compiling a model objects to, and which names it binds.
-/

namespace TensorGraph

open Engine

variable {K : ArgumentFault → Prop}

/-! ## Metrics -/

/-- What is wrong with the parameters of a metric. -/
def Metric.fault? : Metric → Option ArgumentFault
  | loss l => l.fault?
  | meanSquaredError | meanAbsoluteError => none

/-- Compiling a metric finds fault with the parameter of its loss only. -/
theorem Metric.binds_compile {metric : Metric} (h : ∀ cause, metric.fault? = some cause → K cause)
    (predictions targets : Node) (name : Option String) :
    Binds K (metric.compile predictions targets name) name.toList := by
  cases metric with
  | meanSquaredError =>
    have hloss : ∀ cause, Loss.meanSquaredError.fault? = some cause → K cause := nofun
    exact Loss.binds_compile hloss _ _ _
  | meanAbsoluteError =>
    exact (binds_binary .subtract _ _ none).skip fun _ => (binds_unary .abs _ none).skip fun _ =>
      binds_mean _ _
  | loss l => exact l.binds_compile h _ _ _

/-! ## Layers and outputs -/

namespace Network

variable {n : Network} {w : Workspace}

/-- The name of a layer of a network. -/
def title (n : Network) (id : LayerId) : String := ((n.layer? id).map (·.name)).getD ""

theorem title_of_layer? {id : LayerId} {named : NamedLayer} (hid : n.layer? id = some named) :
    n.title id = named.name := by
  simp [title, hid]

theorem title_eq {id : LayerId} {name : String} (h : n.name id = .ok name) : n.title id = name := by
  obtain ⟨named, hid, rfl⟩ := name_eq_ok_iff.1 h
  exact title_of_layer? hid

/-- The number of variables that some layers train. -/
def parameterCount (n : Network) (ids : List LayerId) : Nat :=
  (ids.map fun id => ((n.layer? id).map (·.layer.parameterCount)).getD 0).sum

theorem parameterCount_append (ids ids' : List LayerId) :
    n.parameterCount (ids ++ ids') = n.parameterCount ids + n.parameterCount ids' := by
  simp [parameterCount]

/-- A layer that is asked for adds the layers that have not been compiled, with their parameters. -/
theorem Adds.compiled {w' : Workspace} {id : LayerId} {node : Node}
    (h : Adds (fun _ => n) w id node w') :
    w'.compiled = w.compiled ++ n.unseen w.compiled id ∧
      w'.engine.trainableWeights.length =
        w.engine.trainableWeights.length + n.parameterCount (n.unseen w.compiled id) := by
  obtain ⟨added, hadded, hunseen, hweights⟩ := h.added
  -- a layer realizes as many parameters as it declares
  have hcount : (added.flatMap (·.2.parameters)).length = n.parameterCount (added.map (·.1)) := by
    rw [List.length_flatMap, parameterCount, List.map_map]
    refine congrArg List.sum (List.map_congr_left fun p hp => ?_)
    obtain ⟨named, hnamed, _, _, hrealizes⟩ := h.chronicled.chronicle.exists_layer
      (hadded ▸ List.mem_append_right _ hp)
    simp [hrealizes.length_parameters, hnamed]
  constructor
  · rw [Workspace.compiled, hadded, List.map_append, hunseen]
    rfl
  · rw [hweights, List.length_append, hcount, hunseen]
    rfl

end Network

/-! ## Models -/

namespace Model

variable {m : Model} {w w' : Workspace} {ids : List LayerId} {nodes : List Node} {e e' : Engine}

/-- What is wrong with a parameter that is not checked when a model is made: one of a loss, of a
metric, or of an initializer of a layer that an input or output depends on. -/
inductive Overlooks (m : Model) (cause : ArgumentFault) : Prop
  | loss {l : Loss} (listed : l ∈ m.losses) (fault : l.fault? = some cause)
  | metric {l : Metric} (listed : l ∈ m.metrics) (fault : l.fault? = some cause)
  | layer {id : LayerId} {ls : List (LayerId × Layer)} {up : LayerId × Layer}
      (exit : id ∈ m.inputs ++ m.outputs) (lineage : m.network.lineage id = .ok ls)
      (above : up ∈ ls) (fault : cause ∈ up.2.faults)

/-- The layers of a model in the order in which they are compiled. -/
def layers (m : Model) : List LayerId := m.network.pending [] (m.inputs ++ m.outputs)

/-- The names of the targets of a model. -/
def targetLabels (m : Model) : List String :=
  m.outputs.map fun id => m.network.title id ++ "_Target"

/-- The names of the losses of a model. -/
def lossLabels (m : Model) : List String :=
  (m.losses.zip m.outputs).map fun row => m.network.title row.2 ++ "_Loss"

/-- The names of the metrics of a model. -/
def metricLabels (m : Model) : List String :=
  (m.metrics.zip m.outputs).map fun row => m.network.title row.2 ++ "_" ++ row.1.name

/-- The names that compiling a model binds, on an engine with some trained variables. -/
def labels (m : Model) (trained : Nat) : List String :=
  m.layers.flatMap m.network.labels ++ (m.targetLabels ++ m.lossLabels ++ (m.metricLabels ++
    Descent.labels (trained + m.network.parameterCount m.layers)))

/-! ### Layers -/

theorem binding_compileLayers (hfed : m.network.WellFed)
    (hw : Network.Chronicled (fun _ => m.network) w)
    (hids : ∀ id ∈ ids, id ∈ m.inputs ++ m.outputs ∧ ∃ named, m.network.layer? id = some named) :
    Binding m.Overlooks Workspace.names (m.compileLayers ids) w
      ((m.network.pending w.compiled ids).flatMap m.network.labels) := by
  unfold compileLayers
  induction ids generalizing w with
  | nil => exact .pure []
  | cons id ids ih =>
    obtain ⟨⟨hid, named, hnamed⟩, hids⟩ := List.forall_mem_cons.1 hids
    have hlt := Nat.lt_succ_self id.index
    rw [List.mapM_cons, Network.pending, List.flatMap_append]
    refine Binding.bind (Network.binding_compileWithin hfed hnamed hlt hw
      fun ls hls up hup cause hcause => .layer hid hls hup hcause) fun node w₁ hnode => ?_
    have hadds := Network.adds_compileWithin (fun _ => hfed) rfl hlt hw hnode
    -- the layers that are pending afterwards are those that the first one has not brought along
    rw [← hadds.compiled.1]
    exact (ih hadds.chronicled hids).last fun _ _ _ => .pure _

/-- Once some layers have been compiled, they are listed, and their parameters are trained. -/
theorem compiled_of_compileLayers (hfed : m.network.WellFed)
    (hw : Network.Chronicled (fun _ => m.network) w)
    (h : m.compileLayers ids w = .ok nodes w') :
    w'.compiled = w.compiled ++ m.network.pending w.compiled ids ∧
      w'.engine.trainableWeights.length = w.engine.trainableWeights.length +
        m.network.parameterCount (m.network.pending w.compiled ids) := by
  unfold compileLayers at h
  induction ids generalizing w nodes with
  | nil =>
    cases h
    exact ⟨(List.append_nil _).symm, rfl⟩
  | cons id ids ih =>
    obtain ⟨node, w₁, rest, hnode, hrest, rfl⟩ := mapM_cons_eq_ok_iff.1 h
    have hadds := Network.adds_compileWithin (fun _ => hfed) rfl (Nat.lt_succ_self _) hw hnode
    obtain ⟨hcompiled, hweights⟩ := hadds.compiled
    obtain ⟨hcompiled', hweights'⟩ := ih hadds.chronicled hrest
    rw [hcompiled] at hcompiled' hweights'
    rw [Network.pending, Network.parameterCount_append]
    exact ⟨by rw [hcompiled', List.append_assoc], by rw [hweights', hweights, Nat.add_assoc]⟩

/-! ### What follows the layers -/

theorem exists_name {n : Network} {id : LayerId} (h : ∃ named, n.layer? id = some named) :
    n.name id = .ok (n.title id) := by
  obtain ⟨named, hnamed⟩ := h
  rw [Network.title_of_layer? hnamed]
  exact Network.name_eq_ok_iff.2 ⟨named, hnamed, rfl⟩

theorem exists_pairings (rows : List (LayerId × Node × Node))
    (h : ∀ row ∈ rows, ∃ named, m.network.layer? row.1 = some named) :
    ∃ pairs, m.pairings rows = .ok pairs := by
  induction rows with
  | nil => exact ⟨[], rfl⟩
  | cons row rows ih =>
    obtain ⟨hrow, hrows⟩ := List.forall_mem_cons.1 h
    obtain ⟨pairs, hpairs⟩ := ih hrows
    exact ⟨⟨_, row.2.1, row.2.2⟩ :: pairs, except_bind_eq_ok_iff.2 ⟨_, exists_name hrow,
      except_bind_eq_ok_iff.2 ⟨pairs, hpairs, rfl⟩⟩⟩

/-- The targets are no variables. -/
theorem trainableWeights_of_compileTarget {id : LayerId} {output target : Node}
    (h : m.compileTarget id output e = .ok target e') :
    e'.trainableWeights = e.trainableWeights := by
  obtain ⟨shape, e₁, hshape, hrest⟩ := bind_eq_ok_iff.1 h
  obtain rfl := (keeps_shape output e).of_eq_ok hshape
  obtain ⟨name, e₂, hname, hplaceholder⟩ := bind_eq_ok_iff.1 hrest
  obtain ⟨-, rfl⟩ := Engine.lift_eq_ok_iff.1 hname
  rcases (leads_placeholder _ _).of_eq_ok hplaceholder with ⟨rfl, -⟩ | ⟨n, -, happended⟩
  · rfl
  · exact happended.advances.weights.trans (List.append_nil _)

/-- The outputs are paired under their names. -/
theorem map_name_of_pairings {outputs targets : List Node} {pairs : List Pairing}
    (hlength : outputs.length = m.outputs.length) (hcount : targets.length = m.outputs.length)
    (h : m.pairings (m.outputs.zip (outputs.zip targets)) = .ok pairs) :
    pairs.map (·.name) = m.outputs.map m.network.title := by
  have hle : m.outputs.length ≤ (outputs.zip targets).length := by
    rw [List.length_zip, hlength, hcount, Nat.min_self]
  have hnames : pairs.map (·.name) =
      (m.outputs.zip (outputs.zip targets)).map fun row => m.network.title row.1 := by
    rw [← List.forall₂_eq_eq_eq, List.forall₂_map_left_iff, List.forall₂_map_right_iff]
    exact (forall₂_of_pairings h).flip.imp fun _ _ hrow => (Network.title_eq hrow.1).symm
  rw [hnames]
  conv_rhs => rw [← List.map_fst_zip hle, List.map_map]
  rfl

/-- The losses and their sum are no variables either. -/
theorem of_compileGoal {outputs : List Node} {goal : Goal}
    (hlength : outputs.length = m.outputs.length) (h : m.compileGoal outputs e = .ok goal e') :
    goal.pairs.map (·.name) = m.outputs.map m.network.title ∧
      e'.trainableWeights = e.trainableWeights := by
  obtain ⟨targets, e₁, htargets, h₁⟩ := bind_eq_ok_iff.1 h
  obtain ⟨pairs, e₂, hpairs, h₂⟩ := bind_eq_ok_iff.1 h₁
  obtain ⟨losses, e₃, hlosses, h₃⟩ := bind_eq_ok_iff.1 h₂
  obtain ⟨objective, e₄, hsum, h₄⟩ := bind_eq_ok_iff.1 h₃
  obtain ⟨_, e₅, hreport, h₅⟩ := bind_eq_ok_iff.1 h₄
  obtain ⟨hpaired, rfl⟩ := Engine.lift_eq_ok_iff.1 hpairs
  cases hreport
  cases h₅
  have hcount : targets.length = m.outputs.length := by
    rw [length_of_mapM htargets, List.length_zip, hlength, Nat.min_self]
  have hweights : Preserves (fun t : Engine => t.trainableWeights = e.trainableWeights)
      ((m.outputs.zip outputs).mapM fun row : LayerId × Node => m.compileTarget row.1 row.2) :=
    .mapM (fun row _ _ _ hkept hok => (trainableWeights_of_compileTarget hok).trans hkept) _
  refine ⟨map_name_of_pairings hlength hcount hpaired, ?_⟩
  -- neither sums nor losses nor targets are variables
  calc e₄.trainableWeights = e₃.trainableWeights :=
        ((leads_padded_aggregate losses e₃).of_eq_ok hsum).trainableWeights_eq
    _ = e₂.trainableWeights := (padded_compileLosses hlosses).1.trainableWeights_eq
    _ = e.trainableWeights := hweights _ _ _ rfl htargets

/-- What is attached to the outputs bears their names with endings. -/
theorem map_zip_pairs {pairs : List Pairing}
    (hpairs : pairs.map (·.name) = m.outputs.map m.network.title) {α : Type} (rows : List α)
    (ending : α → String) :
    (rows.zip pairs).map (fun row => row.2.name ++ ending row.1) =
      (rows.zip m.outputs).map fun row => m.network.title row.2 ++ ending row.1 := by
  have hzips := congrArg (fun names : List String =>
    (rows.zip names).map fun row => row.2 ++ ending row.1) hpairs
  simp only [List.zip_map_right, List.map_map] at hzips
  exact hzips

section Outputs

variable (houtputs : ∀ id ∈ m.outputs, ∃ named, m.network.layer? id = some named)
include houtputs

theorem binds_compileTargets {outputs : List Node} (hlength : m.outputs.length ≤ outputs.length) :
    Binds K ((m.outputs.zip outputs).mapM fun row : LayerId × Node =>
      m.compileTarget row.1 row.2) m.targetLabels := by
  have htargets : Binds K ((m.outputs.zip outputs).mapM fun row : LayerId × Node =>
      m.compileTarget row.1 row.2)
      ((m.outputs.zip outputs).flatMap fun row => [m.network.title row.1 ++ "_Target"]) :=
    .mapM fun row hrow => (binds_shape _).skip fun _ =>
      binds_lift (exists_name (houtputs row.1 (List.of_mem_zip hrow).1)) (binds_placeholder _ _)
  have hlabels : (m.outputs.zip outputs).flatMap (fun row => [m.network.title row.1 ++ "_Target"]) =
      m.targetLabels := by
    rw [← List.map_eq_flatMap, targetLabels]
    conv_rhs => rw [← List.map_fst_zip hlength, List.map_map]
    rfl
  rwa [hlabels] at htargets

/-- Targets, losses and their sum find fault with losses only. -/
theorem binding_compileGoal {outputs : List Node} (hlength : outputs.length = m.outputs.length) :
    Binding m.Overlooks (fun e => e.graph.names) (m.compileGoal outputs) e
      (m.targetLabels ++ m.lossLabels) := by
  refine (binds_compileTargets houtputs hlength.ge e).bind fun targets e₁ htargets => ?_
  have hcount : targets.length = m.outputs.length := by
    rw [length_of_mapM htargets, List.length_zip, hlength, Nat.min_self]
  obtain ⟨pairs, hpairs⟩ := exists_pairings (m.outputs.zip (outputs.zip targets)) fun row hrow =>
    houtputs row.1 (List.of_mem_zip hrow).1
  -- the list of labels is brought into the shape of the loop: one label for every pairing
  have hlosses : Binds m.Overlooks (m.compileLosses pairs) m.lossLabels := by
    rw [lossLabels, ← map_zip_pairs (map_name_of_pairings hlength hcount hpairs) m.losses
      fun _ => "_Loss", List.map_eq_flatMap]
    exact .mapM fun row hrow => Loss.binds_compile
      (fun _ hcause => .loss (List.of_mem_zip hrow).1 hcause) _ _ (some _)
  exact binds_lift hpairs (hlosses.last fun losses => (binds_aggregate _).skip fun _ =>
    (binds_report _).skip fun _ => .pure _) e₁

omit houtputs in
/-- Metrics find fault with their losses only. -/
theorem binds_compileMetrics {pairs : List Pairing}
    (hpairs : pairs.map (·.name) = m.outputs.map m.network.title) :
    Binds m.Overlooks (m.compileMetrics pairs) m.metricLabels := by
  have hlabels := map_zip_pairs hpairs m.metrics fun metric => "_" ++ metric.name
  simp only [← String.append_assoc] at hlabels
  rw [metricLabels, ← hlabels, List.map_eq_flatMap]
  exact .mapM fun row hrow => Metric.binds_compile
    (fun _ hcause => .metric (List.of_mem_zip hrow).1 hcause) _ _ (some _)

omit houtputs in
/-- Updates and functions find fault with nothing. -/
theorem binding_conclude (inputs outputs : List Node) (goal : Goal) (metrics : List Node) :
    Binding K (fun e => e.graph.names) (m.conclude inputs outputs goal metrics) e
      (Descent.labels e.trainableWeights.length) := by
  refine .get_bind ((m.descent.binds_compile _ _ e).last fun updates e₁ _ => ?_)
  exact (binds_function _ _ _).skip (fun _ => (binds_function _ _ _).skip fun _ =>
    (binds_function _ _ _).skip fun _ => (binds_report _).skip fun _ => .pure _) e₁

/-- What follows the layers finds fault with losses and metrics only. -/
theorem binding_assemble {outputs : List Node} (hlength : outputs.length = m.outputs.length)
    (inputs : List Node) :
    Binding m.Overlooks (fun e => e.graph.names) (m.assemble inputs outputs) e
      (m.targetLabels ++ m.lossLabels ++ (m.metricLabels ++
        Descent.labels e.trainableWeights.length)) := by
  rw [assemble_eq]
  refine (binding_compileGoal houtputs hlength).bind fun goal e₁ hgoal => ?_
  obtain ⟨hpairs, hweights⟩ := of_compileGoal hlength hgoal
  refine (binds_compileMetrics hpairs e₁).bind fun metrics e₂ hmetrics => ?_
  -- nothing that has been attached to the outputs is trained
  rw [← hweights, ← (padded_compileMetrics hmetrics).trainableWeights_eq]
  exact binding_conclude inputs outputs goal metrics

end Outputs

/-! ### Whole models -/

/-- The layers and what follows them are one program on a workspace. -/
theorem compile_apply (m : Model) (e : Engine) : m.compile e = Compiling.outcome
    ((m.compileEnds >>= fun ends => Compiling.onEngine (m.assemble ends.1 ends.2))
      ⟨.ofEngine e, e⟩) := by
  unfold compile
  cases hends : m.compileEnds ⟨.ofEngine e, e⟩ with
  | error failure w =>
    rw [bind_of_error hends]
    rfl
  | ok ends w =>
    rw [bind_of_ok hends, Compiling.onEngine]
    dsimp only
    cases m.assemble ends.1 ends.2 w.engine <;> rfl

section Compiling

variable (hfed : m.network.WellFed) (hsound : e.Sound)
  (hinputs : ∀ id ∈ m.inputs, ∃ named, m.network.layer? id = some named)
  (houtputs : ∀ id ∈ m.outputs, ∃ named, m.network.layer? id = some named)
include hfed hsound hinputs houtputs

/-- Compiling the inputs and the outputs finds fault with initializers only. -/
theorem binding_compileEnds : Binding m.Overlooks Workspace.names m.compileEnds ⟨.ofEngine e, e⟩
    (m.layers.flatMap m.network.labels) := by
  have hstart : Network.Chronicled (fun _ => m.network) ⟨.ofEngine e, e⟩ :=
    ⟨hsound, rfl, .nil, fun hne => absurd rfl hne⟩
  rw [layers, Network.pending_append, List.flatMap_append, List.nil_append]
  refine Binding.bind (binding_compileLayers hfed hstart fun id hid =>
    ⟨List.mem_append_left _ hid, hinputs id hid⟩) fun inputs w₁ hok => ?_
  obtain ⟨hw₁, -⟩ := finds_of_compileLayers hfed hstart hok
  obtain ⟨hcompiled, -⟩ := compiled_of_compileLayers hfed hstart hok
  -- the outputs only add what the inputs did not compile
  have hpending : w₁.compiled = m.network.pending [] m.inputs := hcompiled
  rw [← hpending]
  exact (binding_compileLayers hfed hw₁ fun id hid =>
    ⟨List.mem_append_right _ hid, houtputs id hid⟩).last fun _ _ _ => .pure _

omit hinputs houtputs in
/-- Once the layers have been compiled, all of their parameters are trained. -/
theorem length_trainableWeights_of_compileEnds {ends : List Node × List Node}
    (h : m.compileEnds ⟨.ofEngine e, e⟩ = .ok ends w) :
    w.engine.trainableWeights.length =
      e.trainableWeights.length + m.network.parameterCount m.layers := by
  have hstart : Network.Chronicled (fun _ => m.network) ⟨.ofEngine e, e⟩ :=
    ⟨hsound, rfl, .nil, fun hne => absurd rfl hne⟩
  obtain ⟨inputs, w₁, hinputs, h₁⟩ := bind_eq_ok_iff.1 h
  obtain ⟨outputs, w₂, houtputs, h₂⟩ := bind_eq_ok_iff.1 h₁
  cases h₂
  obtain ⟨hw₁, -⟩ := finds_of_compileLayers hfed hstart hinputs
  obtain ⟨hcompiled, hweights⟩ := compiled_of_compileLayers hfed hstart hinputs
  obtain ⟨-, hweights'⟩ := compiled_of_compileLayers hfed hw₁ houtputs
  rw [hweights', hweights, hcompiled, layers, Network.pending_append,
    Network.parameterCount_append, Nat.add_assoc]
  rfl

/-- Compiling a model finds fault with parameters only that were not checked before. The names that
it binds are those of the model. -/
theorem binding_compile : Binding m.Overlooks (fun e => e.graph.names) m.compile e
    (m.labels e.trainableWeights.length) := by
  refine (Network.binding_engine_iff (w := ⟨.ofEngine e, e⟩) (compile_apply m e)).2 ?_
  refine (binding_compileEnds hfed hsound hinputs houtputs).bind fun ends w hends => ?_
  -- how many accumulators there are is known once the layers have been compiled
  have hlength := length_trainableWeights_of_compileEnds hfed hsound hends
  obtain ⟨-, -, houts⟩ := chronicled_of_compileEnds hfed hsound hends
  rw [← hlength]
  exact Network.binding_onEngine (binding_assemble houtputs houts.length_eq.symm ends.1)

end Compiling

end Model
end TensorGraph
