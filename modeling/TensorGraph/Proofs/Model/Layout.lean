import TensorGraph.Proofs.Model.Rowwise
import TensorGraph.Proofs.Network.Chronicle

/-!
# The layers of a compiled model

Compiling a model leaves a chronicle of its layers, in which its inputs and its outputs are found.
The node of every layer is computed row by row from the placeholders of the inputs that the layer
depends on, and a model lists all of these inputs.

## Main definitions

* `Chronicle.Finds`: the nodes of some layers in a chronicle.

## Main results

* `Model.exists_chronicle`: the chronicle of a compiled model.
* `Chronicle.rowwise`: the nodes of layers are computed row by row.
* `Chronicle.nodup_iff`: layers that are not repeated have nodes that are not repeated.
-/

namespace TensorGraph

open Engine

variable {g : Graph} {n : Network} {made : List (LayerId × Blueprint)} {id : LayerId}
  {b : Blueprint} {ids : List LayerId} {nodes : List Node} {m : Model} {w w' : Workspace}

namespace Chronicle

/-- A layer with the node of its output. -/
def Finds (made : List (LayerId × Blueprint)) (id : LayerId) (node : Node) : Prop :=
  ∃ b, (id, b) ∈ made ∧ b.output = node

theorem Finds.append {node : Node} (h : Finds made id node) (added : List (LayerId × Blueprint)) :
    Finds (made ++ added) id node := by
  obtain ⟨b, hb, rfl⟩ := h
  exact ⟨b, List.mem_append_left _ hb, rfl⟩

/-- Every layer has one node, which is that of no other layer: it bears the name of the layer. -/
theorem biUnique (h : Chronicle (fun _ => n) g made) (hfed : n.WellFed) :
    Relator.BiUnique (Finds made) := by
  constructor
  · -- the node bears the name of either layer, and names are unique in the network
    rintro id id' _ ⟨b, hb, rfl⟩ ⟨b', hb', hnode⟩
    obtain ⟨named, hnamed, _, _, hrealizes⟩ := h.exists_layer hb
    obtain ⟨named', hnamed', _, _, hrealizes'⟩ := h.exists_layer hb'
    obtain ⟨_, -, hn⟩ := hrealizes.exists_holds
    obtain ⟨_, -, hn'⟩ := hrealizes'.exists_holds
    rw [hnode, hn, Option.some.injEq, GraphNode.mk.injEq, Option.some.injEq] at hn'
    exact hfed.name hnamed hnamed' hn'.2.2.2
  · rintro id _ _ ⟨b, hb, rfl⟩ ⟨b', hb', rfl⟩
    obtain rfl := Option.some.inj ((h.lookup_eq hb).symm.trans (h.lookup_eq hb'))
    rfl

/-- Layers are repeated when their nodes are. -/
theorem nodup_iff (h : Chronicle (fun _ => n) g made) (hfed : n.WellFed)
    (hfinds : List.Forall₂ (Finds made) ids nodes) : ids.Nodup ↔ nodes.Nodup :=
  List.rel_nodup (h.biUnique hfed) hfinds

/-- An input layer became a placeholder of matrices: the engine holds no more axes. -/
theorem exists_placeholder (h : Chronicle (fun _ => n) g made) (hg : g.Typed)
    (hmem : (id, b) ∈ made) {named : NamedLayer} (hnamed : n.layer? id = some named)
    (hinput : named.layer.isInput) :
    ∃ cols : Nat, n.shape id = .ok [openAxis, (cols : Int)] ∧
      ∃ name, g.Holds b.output ⟨.placeholder, [openAxis, (cols : Int)], .f32, name⟩ := by
  obtain ⟨named', hnamed', _, _, hrealizes⟩ := h.exists_layer hmem
  obtain rfl := Option.some.inj (hnamed.symm.trans hnamed')
  obtain ⟨name, layer⟩ := named
  cases hrealizes with
  | @input i output dims holds =>
    -- The engine holds no shapes of more than two axes, and one is the open axis.
    have hlength := (hg.held holds.2).length_le
    obtain ⟨d, rest, hcons⟩ := List.exists_cons_of_ne_nil dims
    simp only [Input.shape, hcons, List.length_cons] at hlength
    obtain rfl : rest = [] := List.eq_nil_of_length_eq_zero (by omega)
    have hpos := i.dims_pos d (by simp [hcons])
    have hshape : i.shape = [openAxis, (d.toNat : Int)] := by
      simp only [Input.shape, hcons, List.cons.injEq, and_true, true_and]
      omega
    refine ⟨d.toNat, ?_, some name, hshape ▸ holds⟩
    rw [← hshape]
    exact Network.shape_of_input hnamed rfl
  | dense | dropout => cases hinput

/-- The node of a layer is computed row by row from the placeholders of the inputs that the layer
depends on. -/
theorem rowwise (h : Chronicle (fun _ => n) g made) (hfed : n.WellFed) (hg : g.Typed)
    {fed : Nat → Prop} {listed : List LayerId}
    (hlisted : ∀ id ∈ listed, ∀ node, Finds made id node → fed node.index)
    (hmem : (id, b) ∈ made) {ls : List (LayerId × Layer)} (hls : n.lineage id = .ok ls)
    (hinputs : ∀ up ∈ ls, up.2.isInput → up.1 ∈ listed) :
    ∃ cols : Nat, n.shape id = .ok [openAxis, (cols : Int)] ∧
      g.Rowwise fed b.output.index cols := by
  induction id using hfed.induction generalizing b ls with
  | layer id ih =>
    obtain ⟨⟨name, layer⟩, hnamed, fedBy, hfeeds, hrealizes⟩ := h.exists_layer hmem
    have hfeeder : ∀ {feeder : LayerId} {b' : Blueprint}, layer.feeder? = some feeder →
        (feeder, b') ∈ made → ∃ cols : Nat, n.shape feeder = .ok [openAxis, (cols : Int)] ∧
          g.Rowwise fed b'.output.index cols := by
      intro feeder b' hf hmem'
      rw [hfed.lineage_of_feeder hnamed hf] at hls
      obtain ⟨above, habove, rfl⟩ := except_map_eq_ok_iff.1 hls
      exact ih hnamed hf hmem' habove fun up hup => hinputs up (List.mem_cons_of_mem _ hup)
    cases hrealizes with
    | input dims holds =>
      obtain ⟨cols, hcols, _, hholds⟩ := h.exists_placeholder hg hmem hnamed rfl
      rw [n.lineage_of_input hnamed rfl] at hls
      cases hls
      refine ⟨cols, hcols, .fed hholds.2 rfl rfl (hlisted id ?_ _ ⟨_, hmem, rfl⟩)⟩
      exact hinputs _ (List.mem_singleton_self _) rfl
    | @dense d feeder rows size init init' input weights bias projected shifted output _ positive
        ofWeights ofBias product sum holds =>
      cases hfeeds with | @layer feeder' b' fed' hf hmem' hshape =>
      obtain ⟨inner, hinner, hrows⟩ := hfeeder hf hmem'
      cases hshape.symm.trans hinner
      -- a variable has no open axis
      have hpos := (hg.closed_of_isVariable ofBias.2 rfl).pos d.width List.mem_cons_self
      obtain ⟨cols, hcols⟩ : ∃ cols : Nat, d.width = cols := ⟨d.width.toNat, by omega⟩
      refine ⟨cols, ?_, .unary (Graph.op?_of_getElem? holds.2)
        (.biasAdd (Graph.op?_of_getElem? sum.2)
          (.dot (Graph.op?_of_getElem? product.2) hrows ofWeights.2 rfl ?_) ofBias.2 rfl ?_)⟩
      · rw [hfed.shape_of_feeder hnamed hf hinner, ← hcols]
        rfl
      · rw [hcols]
        rfl
      · rw [hcols]
        rfl
    | dropout holds =>
      cases hfeeds with | @layer feeder' b' fed' hf hmem' hshape =>
      obtain ⟨cols, hcols, hrows⟩ := hfeeder hf hmem'
      refine ⟨cols, ?_, .dropout (Graph.op?_of_getElem? holds.2) hrows⟩
      rw [hfed.shape_of_feeder hnamed hf hcols]
      rfl

end Chronicle

namespace Model

/-- Compiling layers one after the other finds the nodes of all of them. -/
theorem finds_of_compileLayers (hfed : m.network.WellFed)
    (hw : Network.Chronicled (fun _ => m.network) w)
    (h : m.compileLayers ids w = .ok nodes w') :
    Network.Chronicled (fun _ => m.network) w' ∧
      (∃ added, w'.context.blueprints = w.context.blueprints ++ added) ∧
      List.Forall₂ (Chronicle.Finds w'.context.blueprints) ids nodes := by
  unfold compileLayers at h
  induction ids generalizing w nodes with
  | nil =>
    cases h
    exact ⟨hw, ⟨[], (List.append_nil _).symm⟩, .nil⟩
  | cons id ids ih =>
    obtain ⟨node, w₁, rest, hnode, hrest, rfl⟩ := mapM_cons_eq_ok_iff.1 h
    obtain ⟨hw₁, -, ⟨added, hadded, -⟩, hmade⟩ :=
      Network.adds_compileWithin (fun _ => hfed) rfl (Nat.lt_succ_self _) hw hnode
    obtain ⟨hw₂, ⟨added', hadded'⟩, hfinds⟩ := ih hw₁ hrest
    -- what the first layers found is still found, because the chronicle only grows
    refine ⟨hw₂, ⟨added ++ added', ?_⟩, .cons ?_ hfinds⟩
    · rw [hadded', hadded, List.append_assoc]
    · rw [hadded']
      exact Chronicle.Finds.append hmade _

/-- What follows the layers keeps the nodes of the inputs and the outputs, and only a live engine
binds the functions. -/
theorem ends_of_assemble {inputs outputs : List Node} {p : Program} {e e' : Engine}
    (h : m.assemble inputs outputs e = .ok p e') :
    p.inputs = inputs ∧ p.outputs = outputs ∧ e'.session.isSome := by
  unfold assemble at h
  simp only [bind_eq_ok_iff] at h
  -- twelve calls, of which the last ones bind the functions and make a record
  obtain ⟨_, _, -, _, _, -, _, _, -, _, _, -, _, _, -, _, _, -, _, _, -, _, _, -, _, _, -, _, _, -,
    _, _, hbind, _, _, hreport, hp⟩ := h
  have hactive := isSome_of_checkActive hbind
  obtain ⟨rfl, -⟩ := (leads_function _ _ _).of_eq_ok hbind
  cases hreport
  cases hp
  exact ⟨rfl, rfl, hactive⟩

theorem isSome_of_compile {e e' : Engine} {p : Program} (h : m.compile e = .ok p e') :
    e'.session.isSome := by
  obtain ⟨_, _, _, -, hassemble, -⟩ := exists_assembled h
  exact (ends_of_assemble hassemble).2.2

/-- Compiling the layers of a model leaves a chronicle, with the inputs and the outputs of the model
in it. -/
theorem chronicled_of_compileEnds (hfed : m.network.WellFed) {e : Engine}
    {inputs outputs : List Node} (hsound : e.Sound)
    (h : m.compileEnds ⟨.ofEngine e, e⟩ = .ok (inputs, outputs) w) :
    Network.Chronicled (fun _ => m.network) w ∧
      List.Forall₂ (Chronicle.Finds w.context.blueprints) m.inputs inputs ∧
      List.Forall₂ (Chronicle.Finds w.context.blueprints) m.outputs outputs := by
  obtain ⟨_, w₁, hinputs, h⟩ := bind_eq_ok_iff.1 h
  obtain ⟨_, w₂, houtputs, h⟩ := bind_eq_ok_iff.1 h
  cases h
  have hstart : Network.Chronicled (fun _ => m.network) ⟨.ofEngine e, e⟩ :=
    ⟨hsound, rfl, .nil, fun hne => absurd rfl hne⟩
  obtain ⟨hw₁, -, hfinds⟩ := finds_of_compileLayers hfed hstart hinputs
  obtain ⟨hw₂, ⟨added, hadded⟩, hfinds'⟩ := finds_of_compileLayers hfed hw₁ houtputs
  refine ⟨hw₂, ?_, hfinds'⟩
  rw [hadded]
  exact hfinds.imp fun _ _ hfind => hfind.append _

/-- A compiled model has a chronicle of its layers, with its inputs and its outputs among them. -/
theorem exists_chronicle (hfed : m.network.WellFed) {e e' : Engine} {p : Program}
    (hsound : e.Sound) (h : m.compile e = .ok p e') :
    ∃ made, Chronicle (fun _ => m.network) e'.graph made ∧
      List.Forall₂ (Chronicle.Finds made) m.inputs p.inputs ∧
      List.Forall₂ (Chronicle.Finds made) m.outputs p.outputs := by
  obtain ⟨inputs, outputs, w, hends, hassemble, hassembled⟩ := exists_assembled h
  have hext := (hassembled hsound).1
  obtain ⟨rfl, rfl, -⟩ := ends_of_assemble hassemble
  obtain ⟨hw, hfinds⟩ := chronicled_of_compileEnds hfed hsound hends
  exact ⟨_, hw.chronicle.extend (fun _ => .refl _) hext, hfinds⟩

end Model
end TensorGraph
