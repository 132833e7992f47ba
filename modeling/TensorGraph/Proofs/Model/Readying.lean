import TensorGraph.Proofs.Model.Layout
import TensorGraph.Proofs.Network.Orderly

/-!
# The layers of a model on a fresh engine

On which slots of a fresh engine the layers of a model are put does not depend on the engine. If the
model is compiled whatever streams without seeds are derived from, then each of its layers meets
every stream, so the layer can be compiled at every place, in another model as well.

## Main results

* `Model.available_of_compileEnds`: the layers of a model that is compiled on all fresh engines.
* `Model.exists_compileEnds`: a model with such layers.
-/

namespace TensorGraph

open Engine Network

variable {m : Model} {entropy : UInt64} {w w' : Workspace} {ids : List LayerId} {nodes : List Node}

/-- The layers that have been compiled once some layers have been asked for one after the other. -/
def Network.order (n : Network) (done ids : List LayerId) : List LayerId :=
  ids.foldl (fun done id => done ++ n.unseen done id) done

/-- A fresh engine. -/
theorem Network.orderly_create (n : Network) (id : Nat) (entropy : UInt64) :
    n.Orderly entropy ⟨.ofEngine (.create id entropy), .create id entropy⟩ where
  chronicled := ⟨sound_create id entropy, rfl, .nil, fun hne => absurd rfl hne⟩
  initialized := initialized_create id entropy
  derived := rfl
  size := rfl
  free _ _ := rfl
  placed hi := by simp [Workspace.compiled, CompileContext.ofEngine] at hi

/-- Layers that are found have been compiled. -/
theorem Chronicle.mem_compiled_of_finds
    (h : List.Forall₂ (Chronicle.Finds w.context.blueprints) ids nodes) :
    ∀ id ∈ ids, id ∈ w.compiled := by
  intro id hid
  obtain ⟨node, -, b, hb, -⟩ := exists_mem_of_forall₂ h hid
  exact List.mem_map_of_mem hb

namespace Model

variable (hfed : m.network.WellFed)
  (hplain : ∀ {id : LayerId} {named : NamedLayer}, m.network.layer? id = some named →
    Plain named.name)
include hfed hplain

/-- Compiling some layers. -/
theorem orderly_of_compileLayers (hw : m.network.Orderly entropy w)
    (h : m.compileLayers ids w = .ok nodes w') :
    m.network.Orderly entropy w' ∧ w'.compiled = m.network.order w.compiled ids := by
  unfold compileLayers at h
  induction ids generalizing w nodes with
  | nil =>
    cases h
    exact ⟨hw, rfl⟩
  | cons id ids ih =>
    obtain ⟨node, w₁, rest, hnode, hrest, rfl⟩ := mapM_cons_eq_ok_iff.1 h
    have hlt := Nat.lt_succ_self id.index
    obtain ⟨added, hadded, hunseen, -⟩ :=
      (adds_compileWithin (fun _ => hfed) rfl hlt hw.chronicled hnode).added
    obtain ⟨hw', hcompiled⟩ := ih (hw.compileWithin hfed hplain hlt hnode) hrest
    -- the order goes on from the layers that are compiled by now
    refine ⟨hw', hcompiled.trans ?_⟩
    rw [Workspace.compiled, hadded, List.map_append, hunseen]
    rfl

theorem exists_compileLayers (hw : m.network.Orderly entropy w)
    (hids : ∀ id ∈ ids, m.network.Available id) :
    ∃ nodes w', m.compileLayers ids w = .ok nodes w' := by
  unfold compileLayers
  induction ids generalizing w with
  | nil => exact ⟨_, _, rfl⟩
  | cons id ids ih =>
    obtain ⟨hid, hids⟩ := List.forall_mem_cons.1 hids
    have hlt := Nat.lt_succ_self id.index
    obtain ⟨node, w₁, hnode⟩ := hw.exists_compileWithin hfed hplain hlt hid
    obtain ⟨rest, w₂, hrest⟩ := ih (hw.compileWithin hfed hplain hlt hnode) hids
    exact ⟨_, _, mapM_cons_eq_ok_iff.2 ⟨_, _, _, hnode, hrest, rfl⟩⟩

/-- A model whose layers are available. -/
theorem exists_compileEnds (hids : ∀ id ∈ m.inputs ++ m.outputs, m.network.Available id)
    (hw : m.network.Orderly entropy w) :
    ∃ inputs outputs w', m.compileEnds w = .ok (inputs, outputs) w' ∧
      m.network.Orderly entropy w' := by
  obtain ⟨hinputs, houtputs⟩ := List.forall_mem_append.1 hids
  obtain ⟨inputs, w₁, h₁⟩ := exists_compileLayers hfed hplain hw hinputs
  have hw₁ := (orderly_of_compileLayers hfed hplain hw h₁).1
  obtain ⟨outputs, w₂, h₂⟩ := exists_compileLayers hfed hplain hw₁ houtputs
  exact ⟨inputs, outputs, w₂, (bind_of_ok h₁).trans (bind_of_ok h₂),
    (orderly_of_compileLayers hfed hplain hw₁ h₂).1⟩

/-- In a model that is compiled on all fresh engines with a number, the layers are available. -/
theorem available_of_compileEnds (number : Nat)
    (h : ∀ entropy, ∃ ends w, m.compileEnds ⟨.ofEngine (.create number entropy),
      .create number entropy⟩ = .ok ends w) :
    ∀ id ∈ m.inputs ++ m.outputs, m.network.Available id := by
  -- the same layers are compiled in the same order on all of these engines
  obtain ⟨done, hdone⟩ : ∃ done, done = m.network.order (m.network.order [] m.inputs) m.outputs :=
    ⟨_, rfl⟩
  have hall : ∀ entropy, ∃ w, m.network.Orderly entropy w ∧ w.compiled = done ∧
      ∀ id ∈ m.inputs ++ m.outputs, id ∈ w.compiled := by
    intro entropy
    obtain ⟨⟨inputs, outputs⟩, w, hends⟩ := h entropy
    obtain ⟨-, hfinds, hfinds'⟩ :=
      chronicled_of_compileEnds hfed (sound_create number entropy) hends
    obtain ⟨_, w₁, hinputs, hrest⟩ := bind_eq_ok_iff.1 hends
    obtain ⟨_, w₂, houtputs, hrest⟩ := bind_eq_ok_iff.1 hrest
    cases hrest
    obtain ⟨hw₁, hcompiled₁⟩ := orderly_of_compileLayers hfed hplain
      (m.network.orderly_create number entropy) hinputs
    obtain ⟨hw, hcompiled⟩ := orderly_of_compileLayers hfed hplain hw₁ houtputs
    rw [hcompiled₁] at hcompiled
    exact ⟨w, hw, hcompiled.trans hdone.symm, List.forall_mem_append.2
      ⟨Chronicle.mem_compiled_of_finds hfinds, Chronicle.mem_compiled_of_finds hfinds'⟩⟩
  obtain ⟨w, hw, rfl, hends⟩ := hall 0
  have hchronicle := hw.chronicled.chronicle
  intro id hid
  obtain ⟨⟨_, b⟩, hb, rfl⟩ := List.mem_map.1 (hends id hid)
  obtain ⟨named, hnamed, -⟩ := hchronicle.exists_layer hb
  refine ⟨contains_iff.2 ⟨named, hnamed⟩, fun ls hls up hup => ?_⟩
  -- a layer above it has been compiled at some place
  have hmem : up.1 ∈ w.compiled := hchronicle.mem_of_lineage (fun _ => hfed) hb hls up hup
  obtain ⟨i, hi⟩ := List.getElem?_of_mem hmem
  obtain ⟨⟨layer, b'⟩, hb', hlayer⟩ := List.mem_map.1 hmem
  obtain rfl : layer = up.1 := hlayer
  obtain ⟨named', hnamed', -⟩ := hchronicle.exists_layer hb'
  refine ⟨named', hnamed', fun key => ?_⟩
  -- on one of the engines, streams at this place are derived from the given number
  obtain ⟨w', hw', hcompiled', -⟩ := hall (key - .ofNat (m.network.nodeCount (w.compiled.take i)))
  have hadmits := hw'.placed (hcompiled' ▸ hi) hnamed'
  rwa [hcompiled', UInt64.sub_add_cancel] at hadmits

end Model
end TensorGraph
