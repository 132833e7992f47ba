import TensorGraph.Proofs.Learning.Following
import TensorGraph.Proofs.Model.Aiming
import TensorGraph.Proofs.Model.Targets

/-!
# Models that are compiled

When its layers can be compiled, a model whose layers have generated names is compiled on a fresh
engine as soon as its losses add up. Whatever else it appends has a name that nothing else competes
for, and the updates fit the weights that they change.

## Main definitions

* `Model.Agrees`: a model whose losses have widths that agree.

## Main results

* `Model.exists_conclude_of_free`: the updates are appended and the functions bound.
* `Model.exists_compile_iff`: when a model is compiled on a fresh engine.
-/

namespace TensorGraph

open Engine Network

variable {n : Network} {m : Model} {e : Engine} {w : Workspace} {entropy : UInt64}

/-- Trained variables hold numbers of closed shapes. -/
theorem Engine.Sound.exists_stores (h : e.Sound) :
    ∃ shapes, List.Forall₂ e.graph.Stores e.trainableWeights shapes ∧
      ∀ shape ∈ shapes, shape.Closed := by
  -- for any list of trained slots, so that the induction is not on the list that is kept
  suffices hlist : ∀ slots : List Nat, (∀ slot ∈ slots, slot ∈ e.graph.trainable) →
      ∃ shapes, List.Forall₂ e.graph.Stores (slots.map e.graph.handle) shapes ∧
        ∀ shape ∈ shapes, shape.Closed from hlist _ fun _ hslot => hslot
  intro slots hslots
  induction slots with
  | nil => exact ⟨[], .nil, by simp⟩
  | cons slot slots ih =>
    obtain ⟨hslot, hslots⟩ := List.forall_mem_cons.1 hslots
    obtain ⟨shapes, hstores, hclosed⟩ := ih hslots
    obtain ⟨⟨op, shape, type, name⟩, hn, htrained⟩ := h.indexed.mem_trainable_iff.1 hslot
    have hvar := Op.isVariable_of_isTrainable htrained
    -- of the nodes that the graph can hold, only variables are trained, and these store numbers
    have htype : type = .f32 := by
      cases h.typed.node hn with
      | stored => rfl
      | _ => cases htrained
    exact ⟨shape :: shapes, .cons ⟨op, name, hvar, rfl, htype ▸ hn⟩ hstores,
      List.forall_mem_cons.2 ⟨h.typed.closed_of_isVariable hn hvar, hclosed⟩⟩

/-! ## Outputs that have been compiled -/

namespace Network.Orderly

variable (hfed : n.WellFed)
  (hplain : ∀ {id : LayerId} {named : NamedLayer}, n.layer? id = some named → Plain named.name)
include hfed hplain

/-- A layer that is found is an output that has been compiled. -/
theorem exists_exit (hw : n.Orderly entropy w) {id : LayerId} {node : Node}
    (hfind : Chronicle.Finds w.context.blueprints id node) (loss : Loss) :
    ∃ x : Model.Exit, x.id = id ∧ x.loss = loss ∧ x.node = node ∧ x.Made n w.engine.graph ∧
      n.shape id = .ok [openAxis, x.width] := by
  obtain ⟨b, hb, rfl⟩ := hfind
  have hchronicle := hw.chronicled.chronicle
  have htyped := hw.initialized.sound.typed
  obtain ⟨named, hnamed, fed, hfeeds, hrealizes⟩ := hchronicle.exists_layer hb
  obtain ⟨above, hlineage, -⟩ := hfed.exists_lineage hnamed
  -- which inputs the layer depends on does not matter
  obtain ⟨anywhere, hall⟩ : ∃ fed : Nat → Prop, ∀ slot, fed slot :=
    ⟨fun _ => True, fun _ => trivial⟩
  obtain ⟨cols, hcols, -⟩ := hchronicle.rowwise hfed htyped (fun _ _ node _ => hall node.index) hb
    hlineage fun up hup _ => List.mem_map_of_mem hup
  obtain ⟨op, hholds⟩ := hrealizes.exists_holds
  have hshape : n.shape id = .ok (layerShape named.layer (fed.map (·.2))) := by
    cases hfeeds with
    | nothing source => exact shape_of_input hnamed source
    | layer fedBy _ shape => exact hfed.shape_of_feeder hnamed fedBy shape
  rw [← Except.ok.inj (hcols.symm.trans hshape)] at hholds
  have hpos : 0 < (cols : Int) := by
    have haxis := (htyped.held hholds.2).pos_or_open cols (by simp)
    simp only [openAxis] at haxis
    omega
  exact ⟨⟨id, loss, b.output, named.name, cols⟩, rfl, rfl, rfl,
    ⟨name_eq_ok_iff.2 ⟨named, hnamed, rfl⟩, hplain hnamed, hpos, op, hholds⟩, hcols⟩

/-- Layers that are found, with a loss for each of them. -/
theorem exists_exits (hw : n.Orderly entropy w) {ids : List LayerId} {nodes : List Node}
    {losses : List Loss} (hfinds : List.Forall₂ (Chronicle.Finds w.context.blueprints) ids nodes)
    (hlength : losses.length = ids.length) :
    ∃ xs : List Model.Exit, xs.map (fun x : Model.Exit => x.id) = ids ∧
      xs.map (fun x : Model.Exit => x.loss) = losses ∧
      xs.map (fun x : Model.Exit => x.node) = nodes ∧
      ∀ x ∈ xs, x.Made n w.engine.graph ∧ n.shape x.id = .ok [openAxis, x.width] := by
  induction hfinds generalizing losses with
  | nil =>
    obtain rfl := List.eq_nil_of_length_eq_zero hlength
    exact ⟨[], rfl, rfl, rfl, by simp⟩
  | cons hfind _ ih =>
    obtain ⟨loss, losses, rfl⟩ := List.exists_cons_of_length_eq_add_one hlength
    obtain ⟨xs, rfl, rfl, rfl, hxs⟩ := ih (by simpa using hlength)
    obtain ⟨x, rfl, rfl, rfl, hx⟩ := hw.exists_exit hfed hplain hfind loss
    exact ⟨x :: xs, rfl, rfl, rfl, List.forall_mem_cons.2 ⟨hx, hxs⟩⟩

omit hplain in
/-- Different layers have different names. -/
theorem nodup_names {g : Graph} {xs : List Model.Exit} (hxs : ∀ x ∈ xs, x.Made n g)
    (hnodup : (xs.map fun x : Model.Exit => x.id).Nodup) :
    (xs.map fun x : Model.Exit => x.name).Nodup := by
  refine (List.Nodup.of_map _ hnodup).map_on fun x hx y hy hname => ?_
  obtain ⟨named, hnamed, hsame⟩ := name_eq_ok_iff.1 (hxs x hx).name
  obtain ⟨named', hnamed', hsame'⟩ := name_eq_ok_iff.1 (hxs y hy).name
  exact List.inj_on_of_nodup_map hnodup hx hy
    (hfed.name hnamed hnamed' (hsame.trans (hname.trans hsame'.symm)))

end Network.Orderly

namespace Model

/-! ## Updates and functions -/

/-- The updates are appended and the functions bound, when the names that are kept for training are
free. -/
theorem exists_conclude_of_free {inputs outputs : List Node} {goal : Goal} (he : e.Initialized)
    (hactive : e.session.isSome)
    (hinputs : ∀ i ∈ inputs, ∃ n, e.graph.Holds i n ∧ n.op.isPlaceholder)
    (houtputs : ∀ o ∈ outputs, ∃ n, e.graph.Holds o n)
    (htargets : ∀ t ∈ goal.targets, ∃ n, e.graph.Holds t n ∧ n.op.isPlaceholder)
    (hlosses : ∀ l ∈ goal.losses, ∃ n, e.graph.Holds l n)
    (hobjective : ∃ n, e.graph.Holds goal.objective n ∧ n.type = .f32)
    (hfree : ∀ name : String, name.toList.head? = some 'S' → e.graph.find? name = none) :
    ∃ p e', m.conclude inputs outputs goal [] e = .ok p e' := by
  obtain ⟨n, hn, htype⟩ := hobjective
  obtain ⟨shapes, hweights, hclosed⟩ := he.sound.exists_stores
  obtain ⟨updates, e₁, hcall, hactive₁, hg, hupdates⟩ :=
    Descent.exists_compile (d := m.descent) he hactive hn htype hweights hclosed hfree
  -- what the goal has made is still there after the updates have been appended
  have hplaceholders : ∀ i ∈ inputs ++ goal.targets, ∃ n, e₁.graph.Holds i n ∧ n.op.isPlaceholder :=
    fun i hi => by
      obtain ⟨n, hn, hop⟩ := List.forall_mem_append.2 ⟨hinputs, htargets⟩ i hi
      exact ⟨n, hn.extend hg, hop⟩
  have hheld : ∀ o ∈ outputs ++ goal.losses, ∃ n, e₁.graph.Holds o n := fun o ho => by
    obtain ⟨n, hn⟩ := List.forall_mem_append.2 ⟨houtputs, hlosses⟩ o ho
    exact ⟨n, hn.extend hg⟩
  obtain ⟨hfeatures, -⟩ := List.forall_mem_append.1 hplaceholders
  obtain ⟨hpredicted, hlost⟩ := List.forall_mem_append.1 hheld
  have hnone : ∀ u ∈ ([] : List Node), ∃ n, e₁.graph.Holds u n ∧ n.op.isUpdate := by simp
  refine ⟨_, _, conclude_eq_ok_iff.2 ⟨updates, e₁, _, _, _, hcall,
    function_eq hactive₁ hplaceholders hheld hupdates,
    function_eq hactive₁ hfeatures hpredicted hnone,
    function_eq hactive₁ hplaceholders ?_ hnone, rfl, rfl⟩⟩
  rwa [List.append_nil]

/-! ## Compiling -/

/-- The widths of outputs with losses that are declared for every entry agree, apart from widths of
one. -/
def Agrees (m : Model) : Prop :=
  ∀ row ∈ m.outputs.zip m.losses, ∀ row' ∈ m.outputs.zip m.losses,
    row.2 = .binaryCrossEntropy → row'.2 = .binaryCrossEntropy →
      ∀ {width width' : Int}, m.network.shape row.1 = .ok [openAxis, width] →
        m.network.shape row'.1 = .ok [openAxis, width'] → width ≠ 1 → width' ≠ 1 → width = width'

theorem agrees_iff {xs : List Exit} (houtputs : m.outputs = xs.map fun x : Exit => x.id)
    (hlosses : m.losses = xs.map fun x : Exit => x.loss)
    (hshapes : ∀ x ∈ xs, m.network.shape x.id = .ok [openAxis, x.width]) :
    m.Agrees ↔ Exit.Agree xs := by
  have hrows : m.outputs.zip m.losses = xs.map fun x => (x.id, x.loss) := by
    rw [houtputs, hlosses, List.zip_map']
  simp only [Agrees, hrows, List.forall_mem_map]
  constructor
  · -- a layer has one shape only, which the hypothesis names
    intro h x hx y hy hxl hyl
    exact h x hx y hy hxl hyl (hshapes x hx) (hshapes y hy)
  · intro h x hx y hy hxl hyl width width' hwidth hwidth'
    cases (hshapes x hx).symm.trans hwidth
    cases (hshapes y hy).symm.trans hwidth'
    exact h x hx y hy hxl hyl

section Compiling

variable (hfed : m.network.WellFed)
  (hplain : ∀ {id : LayerId} {named : NamedLayer}, m.network.layer? id = some named →
    Plain named.name)
include hfed hplain

/-- When layers that are compiled are outputs of a model, the engine is ready for their targets and
losses. -/
theorem exists_prepared (hw : m.network.Orderly entropy w) {outputs : List Node}
    (hfinds : List.Forall₂ (Chronicle.Finds w.context.blueprints) m.outputs outputs)
    (hlength : m.losses.length = m.outputs.length) (hdistinct : m.outputs.Nodup) :
    ∃ xs : List Exit, outputs = xs.map (fun x : Exit => x.node) ∧ m.Prepared xs w.engine ∧
      ∀ x ∈ xs, m.network.shape x.id = .ok [openAxis, x.width] := by
  obtain ⟨xs, houtputs, hlosses, rfl, hxs⟩ := hw.exists_exits hfed hplain hfinds hlength
  have hmade : ∀ x ∈ xs, x.Made m.network w.engine.graph := fun x hx => (hxs x hx).1
  refine ⟨xs, rfl, ⟨hw.active, hw.initialized, houtputs.symm, hlosses.symm, hmade,
    Orderly.nodup_names hfed hmade (houtputs ▸ hdistinct), fun x hx ending hending => ?_⟩,
    fun x hx => (hxs x hx).2⟩
  -- the names of the nodes of layers end differently
  have hother : ∀ ending ∈ ["_Target", "_Loss"],
      Digitless ending ∧ ending ∉ ["/weights", "/bias", ""] := by decide
  refine hw.free _ fun id _ named hnamed => ?_
  exact (hplain hnamed).append_not_mem_labels (hmade x hx).plain (hother _ hending).1
    (hother _ hending).2

omit hfed in
/-- The layers of a model leave the names free that are kept for training, and so do its targets and
losses. -/
theorem find?_eq_none_of_aimed (hw : m.network.Orderly entropy w) {xs : List Exit} {goal : Goal}
    (hprepared : m.Prepared xs w.engine) (h : Aimed xs goal w.engine e) {name : String}
    (hname : name.toList.head? = some 'S') : e.graph.find? name = none := by
  refine h.padded.find?_eq_none (hw.free name fun id _ named hnamed =>
    (hplain hnamed).not_mem_labels hname) fun hadded => ?_
  obtain ⟨x, hx, ending, hending⟩ := hadded name rfl
  exact (hprepared.made x hx).plain.append_ne hname hending.symm

omit hfed hplain in
/-- The inputs of a model that are found are placeholders. -/
theorem exists_placeholder_of_finds (hw : m.network.Orderly entropy w) {inputs : List Node}
    (hinputs : ∀ id ∈ m.inputs, ∃ named, m.network.layer? id = some named ∧ named.layer.isInput)
    (hfinds : List.Forall₂ (Chronicle.Finds w.context.blueprints) m.inputs inputs) :
    ∀ i ∈ inputs, ∃ n, w.engine.graph.Holds i n ∧ n.op.isPlaceholder := by
  intro node hnode
  obtain ⟨id, hid, b, hb, rfl⟩ := exists_mem_of_forall₂ hfinds.flip hnode
  obtain ⟨named, hnamed, hinput⟩ := hinputs id hid
  obtain ⟨_, -, _, hholds⟩ := hw.chronicled.chronicle.exists_placeholder
    hw.initialized.sound.typed hb hnamed hinput
  exact ⟨_, hholds, rfl⟩

/-- A model whose layers can be compiled and whose losses are accepted is compiled on a fresh engine
when the widths of its losses agree. -/
theorem exists_compile_iff (hcounts : m.Counts)
    (hinputs : ∀ id ∈ m.inputs, ∃ named, m.network.layer? id = some named ∧ named.layer.isInput)
    (hdistinct : m.outputs.Nodup) (hmetrics : m.metrics = [])
    (havailable : ∀ id ∈ m.inputs ++ m.outputs, m.network.Available id)
    (haccepted : ∀ loss ∈ m.losses, loss.Accepted) (number : Nat) (entropy : UInt64) :
    (∃ p e', m.compile (.create number entropy) = .ok p e') ↔ m.Agrees := by
  -- The layers compile in any case. With what they made, the losses can be added up exactly when
  -- they agree, and after that nothing can fail.
  obtain ⟨inputs, outputs, w, hends, hw⟩ := exists_compileEnds hfed hplain havailable
    (m.network.orderly_create number entropy)
  obtain ⟨-, hfindsInputs, hfinds⟩ :=
    chronicled_of_compileEnds hfed (sound_create number entropy) hends
  obtain ⟨xs, rfl, hprepared, hshapes⟩ :=
    exists_prepared hfed hplain hw hfinds hcounts.losses hdistinct
  have hne : xs ≠ [] := by
    rintro rfl
    exact hcounts.outputs hprepared.outputs
  have haccepted' : ∀ x ∈ xs, x.loss.Accepted := fun x hx =>
    haccepted _ (hprepared.losses ▸ List.mem_map_of_mem hx)
  rw [agrees_iff hprepared.outputs hprepared.losses hshapes,
    ← hprepared.exists_compileGoal_iff haccepted' hne]
  constructor
  · -- both runs went through the same layers
    rintro ⟨p, e', h⟩
    obtain ⟨_, _, _, goal, aimed, _, _, hends', hgoal, -, -⟩ := compile_eq_ok_iff.1 h
    cases hends.symm.trans hends'
    exact ⟨goal, aimed, hgoal⟩
  · rintro ⟨goal, e, hgoal⟩
    have haimed := hprepared.aimed haccepted' hgoal
    have hg := haimed.padded.changes.extends
    have hmetric : m.compileMetrics goal.pairs e = .ok [] e := by
      rw [compileMetrics, hmetrics]
      rfl
    have hfeatures : ∀ i ∈ inputs, ∃ n, e.graph.Holds i n ∧ n.op.isPlaceholder := fun i hi => by
      obtain ⟨n, hn, hop⟩ := exists_placeholder_of_finds hw hinputs hfindsInputs i hi
      exact ⟨n, hn.extend hg, hop⟩
    have hpredicted : ∀ o ∈ xs.map fun x : Exit => x.node, ∃ n, e.graph.Holds o n := by
      refine List.forall_mem_map.2 fun x hx => ?_
      obtain ⟨op, hholds⟩ := (hprepared.made x hx).holds
      exact ⟨_, hholds.extend hg⟩
    obtain ⟨p, e', hconclude⟩ := exists_conclude_of_free (m := m)
      (preserves_compileGoal buildable_initialized m _ _ _ _ hw.initialized hgoal)
      (haimed.padded.session ▸ hw.active) hfeatures hpredicted haimed.targets haimed.losses
      haimed.objective fun _ => find?_eq_none_of_aimed hplain hw hprepared haimed
    exact ⟨p, e', compile_eq_ok_iff.2 ⟨_, _, _, _, _, _, _, hends, hgoal, hmetric, hconclude⟩⟩

end Compiling

end Model
end TensorGraph
