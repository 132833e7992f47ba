import TensorGraph.Proofs.Model.Combining
import TensorGraph.Proofs.Model.Objecting

/-!
# Names of a compiled model

Compiling a model makes names for its nodes: those of layers, of their weights and biases, of the
targets, losses and metrics of outputs, and of what is kept for training. When the names of the
layers are generated, no two of these names are the same. A generated name ends in a digit, so it
can be told from an ending, and the endings of an output differ. The names that are kept for
training start with a letter of their own.

## Main definitions

* `Model.attachments`: the outputs of a model with the endings of what is attached to them.

## Main results

* `Model.nodup_labels`: the names that compiling a model binds are distinct.
* `Model.generated_names_do_not_collide`: compiling a model on a fresh engine.
-/

namespace TensorGraph

open Engine Network

/-! ## Names of each kind -/

/-- The nodes of a layer have names of their own. -/
theorem NamedLayer.nodup_labels (l : NamedLayer) : l.labels.Nodup := by
  have hendings : l.layer.endings.Nodup := by
    cases l.layer with
    | dense => exact (by decide : ["/weights", "/bias", ""].Nodup)
    | input | dropout => exact List.nodup_singleton ""
  exact hendings.map fun _ _ => (String.append_right_inj l.name).1

/-- The nodes of different layers with generated names have different names. -/
theorem Network.nodup_flatMap_labels {n : Network} (hfed : n.WellFed)
    (hplain : ∀ {id : LayerId} {named : NamedLayer}, n.layer? id = some named → Plain named.name)
    {ids : List LayerId} (hids : ids.Nodup) (hin : ∀ id ∈ ids, ∃ named, n.layer? id = some named) :
    (ids.flatMap n.labels).Nodup := by
  refine List.nodup_flatMap.2 ⟨fun id hid => ?_, hids.imp_of_mem fun {id id'} hid hid' hne => ?_⟩
  · -- within a layer
    obtain ⟨named, hnamed⟩ := hin id hid
    rw [labels_eq hnamed]
    exact named.nodup_labels
  · obtain ⟨named, hnamed⟩ := hin id hid
    obtain ⟨named', hnamed'⟩ := hin id' hid'
    rw [Function.onFun, labels_eq hnamed, labels_eq hnamed']
    intro label hlabel hlabel'
    -- a label has the name of its layer in front, so a common one would name the same layer twice
    exact hne (hfed.name hnamed hnamed'
      ((hplain hnamed).name_eq_of_mem_labels (hplain hnamed') hlabel hlabel'))

namespace Descent

theorem head?_of_mem_labels {count : Nat} {label : String} (h : label ∈ labels count) :
    label.toList.head? = some 'S' := by
  rcases List.mem_append.1 h with h | h
  · exact head?_of_mem_ownNames h
  · obtain ⟨k, -, rfl⟩ := List.mem_map.1 h
    exact head?_accumulatorName k

/-- The weights have accumulators under different names. -/
theorem nodup_labels (count : Nat) : (labels count).Nodup := by
  have hown : ownNames.Nodup := by decide
  refine List.nodup_append.2 ⟨hown, List.nodup_range.map fun _ _ => accumulatorName_inj, ?_⟩
  rintro name hname _ haccumulator rfl
  obtain ⟨k, -, rfl⟩ := List.mem_map.1 haccumulator
  exact accumulatorName_not_mem k hname

end Descent

/-! ## What is attached to the outputs -/

/-- The names of metrics. -/
def Metric.names : List String :=
  ["MeanSquaredError", "MeanAbsoluteError", "BinaryCrossEntropy", "CategoricalCrossEntropy",
    "NegativeLogLikelihood"]

theorem Metric.name_mem_names (metric : Metric) : metric.name ∈ names := by
  cases metric with
  | loss l => cases l <;> simp [names, name, Loss.name]
  | meanSquaredError | meanAbsoluteError => simp [names, name]

namespace Model

variable {n : Network} {m : Model} {p : Program} {e e' : Engine}

/-- No metric is named like a target or a loss. -/
theorem metricEnding_not_mem (metric : Metric) : "_" ++ metric.name ∉ ["_Target", "_Loss"] := by
  have hall : ∀ name ∈ Metric.names, "_" ++ name ∉ ["_Target", "_Loss"] := by decide
  exact hall _ metric.name_mem_names

/-- The endings of the names of what is attached to outputs. -/
def endings : List String := ["_Target", "_Loss"] ++ Metric.names.map ("_" ++ ·)

theorem metricEnding_mem (metric : Metric) : "_" ++ metric.name ∈ endings :=
  List.mem_append_right _ (List.mem_map_of_mem metric.name_mem_names)

/-- They have no digits, and are not those of the nodes of layers. -/
theorem digitless_of_mem_endings {ending : String} (h : ending ∈ endings) :
    Digitless ending ∧ ending ∉ ["/weights", "/bias", ""] := by
  have hall : ∀ ending ∈ endings, Digitless ending ∧ ending ∉ ["/weights", "/bias", ""] := by
    decide
  exact hall ending h

/-- The outputs of a model, as many as there are rows, with an ending for each. -/
def attached (m : Model) {α : Type} (rows : List α) (ending : α → String) :
    List (LayerId × String) :=
  (rows.zip m.outputs).map fun row => (row.2, ending row.1)

/-- The outputs of a model with the endings of what is attached to them. -/
def attachments (m : Model) : List (LayerId × String) :=
  m.attached m.outputs (fun _ => "_Target") ++ m.attached m.losses (fun _ => "_Loss") ++
    m.attached m.metrics fun metric => "_" ++ metric.name

/-- The names of targets, losses and metrics are those of the outputs with these endings. -/
theorem map_attachments (m : Model) :
    m.attachments.map (fun a => m.network.title a.1 ++ a.2) =
      m.targetLabels ++ m.lossLabels ++ m.metricLabels := by
  have hself : m.outputs.zip m.outputs = m.outputs.map fun id => (id, id) := by
    rw [← List.zip_map', List.map_id']
  simp only [attachments, attached, targetLabels, lossLabels, metricLabels, hself, List.map_append,
    List.map_map, Function.comp_def, String.append_assoc]

theorem of_mem_attached {α : Type} {rows : List α} {ending : α → String} {a : LayerId × String}
    (h : a ∈ m.attached rows ending) : a.1 ∈ m.outputs ∧ ∃ row, a.2 = ending row := by
  obtain ⟨row, hrow, rfl⟩ := List.mem_map.1 h
  exact ⟨(List.of_mem_zip hrow).2, row.1, rfl⟩

theorem of_mem_attachments {a : LayerId × String} (h : a ∈ m.attachments) :
    a.1 ∈ m.outputs ∧ a.2 ∈ endings := by
  rcases List.mem_append.1 h with h | h
  · rcases List.mem_append.1 h with h | h
    · obtain ⟨hid, _, hending⟩ := of_mem_attached h
      exact ⟨hid, hending ▸ List.mem_cons_self⟩
    · obtain ⟨hid, _, hending⟩ := of_mem_attached h
      exact ⟨hid, hending ▸ List.mem_cons_of_mem _ List.mem_cons_self⟩
  · obtain ⟨hid, metric, hending⟩ := of_mem_attached h
    exact ⟨hid, hending ▸ metricEnding_mem metric⟩

theorem nodup_attached (hdistinct : m.outputs.Nodup) {α : Type} (rows : List α)
    (ending : α → String) : (m.attached rows ending).Nodup := by
  refine List.Nodup.of_map Prod.fst ?_
  rw [attached, List.map_map]
  exact hdistinct.sublist (map_snd_zip_sublist rows m.outputs)

/-- Nothing is attached to an output twice. -/
theorem nodup_attachments (hdistinct : m.outputs.Nodup) : m.attachments.Nodup := by
  refine List.nodup_append.2 ⟨List.nodup_append.2 ⟨nodup_attached hdistinct _ _,
    nodup_attached hdistinct _ _, ?_⟩, nodup_attached hdistinct _ _, ?_⟩
  -- targets are no losses, and metrics are neither
  · rintro a htarget _ hloss rfl
    obtain ⟨-, _, hending⟩ := of_mem_attached htarget
    obtain ⟨-, _, hending'⟩ := of_mem_attached hloss
    exact absurd (hending.symm.trans hending') (by decide)
  · rintro a hother _ hmetric rfl
    obtain ⟨-, metric, hending⟩ := of_mem_attached hmetric
    refine metricEnding_not_mem metric (hending ▸ ?_)
    rcases List.mem_append.1 hother with hother | hother
    · obtain ⟨-, _, hending'⟩ := of_mem_attached hother
      exact hending' ▸ List.mem_cons_self
    · obtain ⟨-, _, hending'⟩ := of_mem_attached hother
      exact hending' ▸ List.mem_cons_of_mem _ List.mem_cons_self

/-! ## The names of a model -/

section Names

variable (hfed : m.network.WellFed)
  (hplain : ∀ {id : LayerId} {named : NamedLayer}, m.network.layer? id = some named →
    Plain named.name)
  (houtputs : ∀ id ∈ m.outputs, ∃ named, m.network.layer? id = some named)
include hfed hplain

/-- The names of the layers are distinct. -/
theorem nodup_layerLabels : (m.layers.flatMap m.network.labels).Nodup :=
  nodup_flatMap_labels hfed hplain (nodup_append_pending hfed List.nodup_nil _) fun _ =>
    exists_layer_of_mem_pending

include houtputs

/-- What is attached to the outputs has distinct names. -/
theorem nodup_attachedLabels (hdistinct : m.outputs.Nodup) :
    (m.targetLabels ++ m.lossLabels ++ m.metricLabels).Nodup := by
  rw [← map_attachments]
  refine List.Nodup.map_on (fun a ha b hb hsame => ?_) (nodup_attachments hdistinct)
  obtain ⟨hid, hending⟩ := of_mem_attachments ha
  obtain ⟨hid', hending'⟩ := of_mem_attachments hb
  obtain ⟨named, hnamed⟩ := houtputs a.1 hid
  obtain ⟨named', hnamed'⟩ := houtputs b.1 hid'
  rw [title_of_layer? hnamed, title_of_layer? hnamed'] at hsame
  obtain ⟨hname, hsame⟩ := (hplain hnamed).append_inj (hplain hnamed')
    (digitless_of_mem_endings hending).1 (digitless_of_mem_endings hending').1 hsame
  exact Prod.ext (hfed.name hnamed hnamed' hname) hsame

omit hfed in
/-- What is attached to an output is named after it. -/
theorem exists_of_mem_attachedLabels {label : String}
    (h : label ∈ m.targetLabels ++ m.lossLabels ++ m.metricLabels) :
    ∃ name ending, Plain name ∧ ending ∈ endings ∧ name ++ ending = label := by
  rw [← map_attachments] at h
  obtain ⟨a, ha, rfl⟩ := List.mem_map.1 h
  obtain ⟨hid, hending⟩ := of_mem_attachments ha
  obtain ⟨named, hnamed⟩ := houtputs a.1 hid
  exact ⟨named.name, a.2, hplain hnamed, hending, by rw [title_of_layer? hnamed]⟩

/-- The names that compiling a model binds are distinct. -/
theorem nodup_labels (hdistinct : m.outputs.Nodup) (trained : Nat) : (m.labels trained).Nodup := by
  have hlayer : ∀ label ∈ m.layers.flatMap m.network.labels,
      ∃ named : NamedLayer, Plain named.name ∧ label ∈ named.labels := by
    intro label hlabel
    obtain ⟨id, hid, hlabel⟩ := List.mem_flatMap.1 hlabel
    obtain ⟨named, hnamed⟩ := exists_layer_of_mem_pending hid
    exact ⟨named, hplain hnamed, labels_eq hnamed ▸ hlabel⟩
  rw [labels, ← List.append_assoc (m.targetLabels ++ m.lossLabels)]
  refine List.nodup_append.2 ⟨nodup_layerLabels hfed hplain, List.nodup_append.2
    ⟨nodup_attachedLabels hfed hplain houtputs hdistinct, Descent.nodup_labels _, ?_⟩, ?_⟩
  -- names that are kept for training start with a letter of their own
  · rintro label hattached _ htraining rfl
    obtain ⟨name, ending, hname, -, rfl⟩ := exists_of_mem_attachedLabels hplain houtputs hattached
    exact hname.append_ne (Descent.head?_of_mem_labels htraining) rfl
  -- names of layers end differently from those of what is attached to outputs
  · rintro label hlabel _ hother rfl
    obtain ⟨named, hname, hlabel⟩ := hlayer label hlabel
    rcases List.mem_append.1 hother with hattached | htraining
    · obtain ⟨name, ending, hname', hending, rfl⟩ :=
        exists_of_mem_attachedLabels hplain houtputs hattached
      obtain ⟨hdigits, hother⟩ := digitless_of_mem_endings hending
      exact hname.append_not_mem_labels hname' hdigits hother hlabel
    · exact hname.not_mem_labels (Descent.head?_of_mem_labels htraining) hlabel

omit houtputs in
/-- The targets of a compiled model differ from each other and from the inputs, and different input
layers have different inputs. -/
theorem targets_of_compile (hcounts : m.Counts) (hsound : e.Sound) (h : m.compile e = .ok p e') :
    p.targets.Nodup ∧ (∀ target ∈ p.targets, target ∉ p.inputs) ∧
      (m.inputs.Nodup → p.inputs.Nodup) := by
  have hnamed₁ := (sound_of_compile hsound h).indexed.toNamed
  obtain ⟨names, hnames, hnodup, htargets⟩ := exists_targeted hfed hcounts hsound h
  obtain ⟨made, hchronicle, hfinds, -⟩ := exists_chronicle hfed hsound h
  refine ⟨(List.rel_nodup (biUnique_targeted hnamed₁) htargets).1 hnodup, ?_,
    (hchronicle.nodup_iff hfed hfinds).1⟩
  intro target htarget hinput
  obtain ⟨id, -, b, hb, rfl⟩ := exists_mem_of_forall₂ hfinds.flip hinput
  obtain ⟨named, hnamed, _, -, hrealizes⟩ := hchronicle.exists_layer hb
  obtain ⟨op, hholds⟩ := hrealizes.exists_holds
  obtain ⟨name, hname, shape, htarget⟩ := exists_mem_of_forall₂ htargets.flip htarget
  obtain ⟨output, -, houtput⟩ := exists_mem_of_forall₂ hnames.flip hname
  obtain ⟨named', hnamed', rfl⟩ := name_eq_ok_iff.1 houtput
  -- the name of the input layer would be that of the output with the ending of a target
  have hsame : named.name ++ "" = named'.name ++ "_Target" := by
    simpa using (hholds.eq_iff_name_eq hnamed₁ htarget rfl).1 rfl
  have hending := ((hplain hnamed).append_inj (hplain hnamed') (by decide) (by decide) hsame).2
  exact absurd hending (by decide)

end Names

/-- When the names of all layers are generated, compiling a model with distinct outputs on a fresh
engine finds no name in use. It binds the names of the model, which are distinct, one after the
other; a target is neither that of another output nor an input. -/
theorem generated_names_do_not_collide {inputs outputs : List LayerId} {losses : List Loss}
    {descent : Descent} {metrics : List Metric} (hgrown : n.Grown)
    (hnames : ∀ {id : LayerId} {named : NamedLayer}, n.layer? id = some named →
      named.layer.requestedName? = none)
    (hcreate : create n inputs outputs losses descent metrics = .ok m) (hdistinct : outputs.Nodup)
    (number : Nat) (entropy : UInt64) :
    (m.labels 0).Nodup ∧
    (∀ failure e', m.compile (.create number entropy) = .error failure e' →
      (∀ name, failure ≠ .error (.duplicateName name)) ∧ e'.graph.names <+: m.labels 0) ∧
    ∀ p e', m.compile (.create number entropy) = .ok p e' →
      e'.graph.names = m.labels 0 ∧ p.targets.Nodup ∧ (∀ target ∈ p.targets, target ∉ p.inputs) ∧
        (inputs.Nodup → p.inputs.Nodup) := by
  have hcounts := counts_of_create hcreate
  obtain ⟨rfl, hsources, hlisted⟩ := create_eq_ok hcreate
  have hfed := hgrown.wellFed
  have hplain : ∀ {id : LayerId} {named : NamedLayer}, n.layer? id = some named →
      Plain named.name := fun hid => hgrown.plain hnames hid
  have hsound := sound_create number entropy
  have hinputs : ∀ id ∈ inputs, ∃ named, n.layer? id = some named := fun id hid => by
    obtain ⟨named, hnamed, -⟩ := hsources id hid
    exact ⟨named, hnamed⟩
  have houtputs : ∀ id ∈ outputs, ∃ named, n.layer? id = some named := fun id hid => by
    obtain ⟨ls, hls, -⟩ := hlisted id hid
    exact exists_layer_of_lineage hls
  have hnodup := nodup_labels (m := ⟨n, inputs, outputs, losses, descent, metrics⟩) hfed hplain
    houtputs hdistinct 0
  have hbinding := binding_compile (m := ⟨n, inputs, outputs, losses, descent, metrics⟩) hfed hsound
    hinputs houtputs
  -- no name is bound on a fresh engine
  refine ⟨hnodup, fun failure e' hfail => ?_, fun p e' hok => ?_⟩
  · obtain ⟨hname, first, hpre, hbound⟩ := hbinding.fails hfail hnodup
    exact ⟨fun name hsame => hname ⟨name, hsame⟩, hbound ▸ hpre⟩
  · exact ⟨hbinding.gives hok hnodup, targets_of_compile hfed hplain hcounts hsound hok⟩

/-! ## Two outputs with metrics -/

/-- Two outputs of one input, with a metric for each. -/
def scoredBranching : Model :=
  { branchingModel [⟨0, 1⟩, ⟨0, 2⟩] [.meanSquaredError, .binaryCrossEntropy] with
    metrics := [.meanAbsoluteError, .loss .binaryCrossEntropy] }

/-- The names of the nodes of such a model. -/
theorem scoredBranching_names :
    create (branching 3) [⟨0, 0⟩] [⟨0, 1⟩, ⟨0, 2⟩] [.meanSquaredError, .binaryCrossEntropy]
      scoredBranching.descent [.meanAbsoluteError, .loss .binaryCrossEntropy] =
      .ok scoredBranching ∧
    ∃ p e, scoredBranching.compile (.create 0 0) = .ok p e ∧
      e.graph.names = ["input_1", "dense_1/weights", "dense_1/bias", "dense_1", "dense_2/weights",
        "dense_2/bias", "dense_2", "dense_1_Target", "dense_2_Target", "dense_1_Loss",
        "dense_2_Loss", "dense_1_MeanAbsoluteError", "dense_2_BinaryCrossEntropy",
        "SGD_Iterations", "SGD_LearningRate", "SGD_Momentum", "SGD_Momentum_0", "SGD_Momentum_1",
        "SGD_Momentum_2", "SGD_Momentum_3"] ∧
      e.graph.names.Nodup ∧ (p.inputs ++ p.targets).Nodup := by
  have hcreate : create (branching 3) [⟨0, 0⟩] [⟨0, 1⟩, ⟨0, 2⟩]
    [.meanSquaredError, .binaryCrossEntropy] scoredBranching.descent
    [.meanAbsoluteError, .loss .binaryCrossEntropy] = .ok scoredBranching := rfl
  obtain ⟨p, e, hcompile⟩ := exists_of_gives (c := scoredBranching.compile) (e := .create 0 0)
    (by decide +kernel)
  obtain ⟨hnodup, -, hok⟩ := generated_names_do_not_collide grown_branching
    requestedName?_branching hcreate (by decide) 0 0
  obtain ⟨hnames, htargets, hapart, hinputs⟩ := hok p e hcompile
  refine ⟨hcreate, p, e, hcompile, ?_, hnames ▸ hnodup, List.nodup_append.2
    ⟨hinputs (List.nodup_singleton _), htargets, ?_⟩⟩
  · rw [hnames]
    decide +kernel
  · rintro input hinput _ htarget rfl
    exact hapart input htarget hinput

end Model
end TensorGraph
