import Mathlib.Logic.Function.Basic
import TensorGraph.Network.Basic
import TensorGraph.Proofs.Evaluation.Outcome

/-!
# Lineages

In a network that has been grown layer by layer, the layer that feeds another one was there before
it. So every layer has a lineage, which ends at an input; and since nothing that a network holds is
ever taken back, growing leaves lineages and shapes as they are.

## Main definitions

* `Network.Grown`: the networks that adding layers leads to.
* `Network.WellFed`: layers are fed by earlier ones, and do not share names.
* `Network.Extends`: a network with further layers.

## Main results

* `Network.Grown.wellFed`: a grown network is well fed.
* `Network.WellFed.induction`: what passes from a layer to those it feeds holds of all layers.
* `Network.WellFed.lineage_of_feeder`: the lineage of a layer is that of its feeder below it.
* `Network.Extends.lineage_eq`: lineages stay.
-/

namespace TensorGraph.Network

variable {n n' n'' : Network} {id feeder : LayerId} {named : NamedLayer} {l : Layer}
  {ls : List (LayerId × Layer)}

/-- The networks that adding layers to an empty one leads to. -/
inductive Grown : Network → Prop
  | empty (id : Nat) : Grown (.empty id)
  | add {n n' : Network} {l : Layer} {id : LayerId} (grown : Grown n)
      (added : n.add l = .ok (id, n')) : Grown n'

/-- Networks whose layers are fed by earlier layers and do not share names. -/
structure WellFed (n : Network) : Prop where
  /-- The layer that feeds another one is there, at an earlier position. -/
  earlier : ∀ {id feeder : LayerId} {named : NamedLayer}, n.layer? id = some named →
    named.layer.feeder? = some feeder → feeder.index < id.index ∧ n.contains feeder
  /-- A name is that of one layer. -/
  name : ∀ {id id' : LayerId} {named named' : NamedLayer}, n.layer? id = some named →
    n.layer? id' = some named' → named.name = named'.name → id = id'

/-- A network with the layers of another one, each under its handle, and perhaps further ones. -/
structure Extends (n n' : Network) : Prop where
  id : n'.id = n.id
  layer : ∀ {id : LayerId} {named : NamedLayer}, n.layer? id = some named →
    n'.layer? id = some named

theorem Extends.refl (n : Network) : n.Extends n := ⟨rfl, fun h => h⟩

/-- Networks grow step by step. -/
theorem Extends.trans (h : n.Extends n') (h' : n'.Extends n'') : n.Extends n'' :=
  ⟨h'.id.trans h.id, fun hl => h'.layer (h.layer hl)⟩

/-- Several networks are extended when one of them is. -/
theorem extends_update {networks : Nat → Network} {i : Nat} (h : (networks i).Extends n) (j : Nat) :
    (networks j).Extends (Function.update networks i n j) := by
  by_cases hj : j = i
  · subst hj
    rwa [Function.update_self]
  · rw [Function.update_of_ne hj]
    exact .refl _

/-- A layer is found in the place that its handle names, in its own network. -/
theorem layer?_eq_some_iff :
    n.layer? id = some named ↔ id.graph = n.id ∧ n.layers[id.index]? = some named := by
  unfold layer?
  split
  · next h => simp [h]
  · next h => simp [h]

/-- Asking for a layer succeeds exactly if it is found. -/
theorem layer_eq_ok_iff : n.layer id = .ok named ↔ n.layer? id = some named := by
  unfold layer
  split
  · next h => simp [h]
  · next h => simp [h]

/-- A network contains the layers that are found in it. -/
theorem contains_iff : n.contains id ↔ ∃ named, n.layer? id = some named :=
  Option.isSome_iff_exists

/-! ## Growing -/

/-- What adding a layer has checked, and what it makes. -/
theorem add_eq_ok_iff : n.add l = .ok (id, n') ↔ (∀ f, l.feeder? = some f → n.contains f) ∧
    ∃ name, n.hasName name = false ∧ name = l.requestedName?.getD (n.generateName l.kind) ∧
      id = ⟨n.id, n.size⟩ ∧ n' = { n with layers := n.layers.push ⟨name, l⟩ } := by
  unfold add
  dsimp only
  -- the two checks in turn: the feeder is of the network, and the name is free
  split
  · next h =>
    obtain ⟨f, hf, hout⟩ := (Option.any_eq_true _ _).1 h
    simp only [Bool.not_eq_eq_eq_not, Bool.not_true] at hout
    simp only [reduceCtorEq, false_iff, not_and]
    intro hin
    rw [hin f hf] at hout
    cases hout
  · next h =>
    have hin : ∀ f, l.feeder? = some f → n.contains f := by
      intro f hf
      rw [hf] at h
      simpa using h
    split
    · next hname =>
      simp only [reduceCtorEq, false_iff, not_and]
      rintro - ⟨name, hfresh, rfl, -⟩
      rw [hname] at hfresh
      cases hfresh
    · next hname =>
      simp only [Except.ok.injEq, Prod.mk.injEq]
      constructor
      · rintro ⟨rfl, rfl⟩
        exact ⟨hin, _, by simpa using hname, rfl, rfl, rfl⟩
      · rintro ⟨-, name, -, rfl, rfl, rfl⟩
        exact ⟨rfl, rfl⟩

/-- A layer of a network with one more layer is an old one or the new one. -/
theorem layer?_push {new : NamedLayer} :
    Network.layer? { n with layers := n.layers.push new } id = some named ↔
      n.layer? id = some named ∨ id = ⟨n.id, n.size⟩ ∧ named = new := by
  obtain ⟨graph, index⟩ := id
  simp only [layer?_eq_some_iff, Array.getElem?_push, LayerId.mk.injEq, size]
  split
  · next h =>
    subst h
    simp [eq_comm]
  · next h => simp [h]

/-- Adding a layer leaves the others in their places. -/
theorem extends_of_add (h : n.add l = .ok (id, n')) : n.Extends n' := by
  obtain ⟨-, name, -, -, -, rfl⟩ := add_eq_ok_iff.1 h
  exact ⟨rfl, fun h => layer?_push.2 (.inl h)⟩

/-- A name is new exactly if no layer bears it. -/
theorem hasName_eq_false_iff {name : String} :
    n.hasName name = false ↔ ∀ {id : LayerId} {named : NamedLayer}, n.layer? id = some named →
      named.name ≠ name := by
  simp only [hasName, Array.any_eq_false, beq_iff_eq, layer?_eq_some_iff]
  constructor
  · rintro h id named ⟨-, hnamed⟩
    obtain ⟨hlt, rfl⟩ := Array.getElem?_eq_some_iff.1 hnamed
    exact h _ hlt
  · intro h i hi
    exact @h ⟨n.id, i⟩ _ ⟨rfl, Array.getElem?_eq_getElem hi⟩

/-- The index of a layer is below the size of the network. -/
theorem lt_size_of_layer? (h : n.layer? id = some named) : id.index < n.size :=
  (Array.getElem?_eq_some_iff.1 (layer?_eq_some_iff.1 h).2).1

/-- A layer that is added is fed by an earlier one and has a name of its own. -/
theorem WellFed.add (h : n.WellFed) (hadd : n.add l = .ok (id, n')) : n'.WellFed := by
  have hext := extends_of_add hadd
  obtain ⟨hfeeder, name, hfresh, -, -, rfl⟩ := add_eq_ok_iff.1 hadd
  have hstay : ∀ {f : LayerId}, n.contains f →
      Network.contains { n with layers := n.layers.push ⟨name, l⟩ } f := by
    intro f hf
    obtain ⟨named, hnamed⟩ := contains_iff.1 hf
    exact contains_iff.2 ⟨named, hext.layer hnamed⟩
  constructor
  · intro id feeder named hid hf
    -- only the new layer could be fed from ahead, and its feeder was there before
    rcases layer?_push.1 hid with hold | ⟨rfl, rfl⟩
    · obtain ⟨hlt, hin⟩ := h.earlier hold hf
      exact ⟨hlt, hstay hin⟩
    · obtain ⟨named, hnamed⟩ := contains_iff.1 (hfeeder feeder hf)
      exact ⟨lt_size_of_layer? hnamed, hstay (hfeeder feeder hf)⟩
  · intro id id' named named' hid hid' hname
    have hclash : ∀ {id : LayerId} {old : NamedLayer}, n.layer? id = some old → old.name ≠ name :=
      hasName_eq_false_iff.1 hfresh
    -- two layers of one name are both old or both the new one
    rcases layer?_push.1 hid with hold | ⟨rfl, rfl⟩ <;>
      rcases layer?_push.1 hid' with hold' | ⟨rfl, rfl⟩
    · exact h.name hold hold' hname
    · exact absurd hname (hclash hold)
    · exact absurd hname.symm (hclash hold')
    · rfl

/-- Every network that has grown is well-fed. -/
theorem Grown.wellFed (h : n.Grown) : n.WellFed := by
  induction h with
  | empty id => constructor <;> simp [layer?, Network.empty]
  | add _ added ih => exact ih.add added

/-! ## Lineages -/

/-- A layer that nothing feeds is its whole ancestry. -/
theorem ancestry_of_input {depth : Nat} (h : n.layer? id = some named)
    (hf : named.layer.feeder? = none) : n.ancestry (depth + 1) id = .ok [(id, named.layer)] := by
  simp only [ancestry, layer_eq_ok_iff.2 h, bind, Except.bind, hf, pure, Except.pure]

/-- The ancestry of a layer is itself and that of its feeder. -/
theorem ancestry_of_feeder {depth : Nat} (h : n.layer? id = some named)
    (hf : named.layer.feeder? = some feeder) :
    n.ancestry (depth + 1) id = (n.ancestry depth feeder).map ((id, named.layer) :: ·) := by
  simp only [ancestry, layer_eq_ok_iff.2 h, bind, Except.bind, hf, pure, Except.pure]
  rfl

/-- A layer that nothing feeds is its whole lineage. -/
theorem lineage_of_input (h : n.layer? id = some named) (hf : named.layer.feeder? = none) :
    n.lineage id = .ok [(id, named.layer)] := ancestry_of_input h hf

/-- A layer that has a lineage is in the network. -/
theorem exists_layer_of_lineage (h : n.lineage id = .ok ls) :
    ∃ named, n.layer? id = some named := by
  obtain ⟨named, hnamed, -⟩ := except_bind_eq_ok_iff.1 h
  exact ⟨named, layer_eq_ok_iff.1 hnamed⟩

/-- So are the layers above it. -/
theorem exists_layer_of_mem_ancestry {depth : Nat} (h : n.ancestry depth id = .ok ls) :
    ∀ up ∈ ls, ∃ named, n.layer? up.1 = some named ∧ named.layer = up.2 := by
  induction depth generalizing id ls with
  | zero => cases h
  | succ depth ih =>
    obtain ⟨named, hnamed, -⟩ := except_bind_eq_ok_iff.1 h
    have hid := layer_eq_ok_iff.1 hnamed
    -- the ancestry is that of the feeder, with the layer in front
    cases hf : named.layer.feeder? with
    | none =>
      rw [ancestry_of_input hid hf] at h
      cases h
      exact List.forall_mem_singleton.2 ⟨named, hid, rfl⟩
    | some feeder =>
      rw [ancestry_of_feeder hid hf] at h
      obtain ⟨above, habove, rfl⟩ := except_map_eq_ok_iff.1 h
      exact List.forall_mem_cons.2 ⟨⟨named, hid, rfl⟩, ih habove⟩

namespace WellFed

/-- Handles of a layer and of its feeder are of the same network. -/
theorem graph_eq (h : n.WellFed) (hid : n.layer? id = some named)
    (hf : named.layer.feeder? = some feeder) : feeder.graph = id.graph := by
  obtain ⟨named', hnamed⟩ := contains_iff.1 (h.earlier hid hf).2
  exact (layer?_eq_some_iff.1 hnamed).1.trans (layer?_eq_some_iff.1 hid).1.symm

/-- Going up often enough gives the lineage. -/
theorem ancestry_eq (h : n.WellFed) {depth : Nat} (hdepth : id.index < depth) :
    n.ancestry depth id = n.lineage id := by
  -- any two depths beyond the layer give the same, since each feeder is earlier
  suffices hany : ∀ k k' id, id.index < k → id.index < k' → n.ancestry k id = n.ancestry k' id from
    hany _ _ _ hdepth (Nat.lt_succ_self _)
  intro k
  induction k with
  | zero => intro k' id hk; cases hk
  | succ k ih =>
    rintro (_ | k') id hk hk'
    · cases hk'
    cases hid : n.layer? id with
    | none => simp [ancestry, layer, hid, bind, Except.bind]
    | some named =>
      cases hf : named.layer.feeder? with
      | none => rw [ancestry_of_input hid hf, ancestry_of_input hid hf]
      | some feeder =>
        obtain ⟨hlt, -⟩ := h.earlier hid hf
        rw [ancestry_of_feeder hid hf, ancestry_of_feeder hid hf,
          ih k' feeder (by omega) (by omega)]

/-- The lineage of a layer is that of its feeder below it. -/
theorem lineage_of_feeder (h : n.WellFed) (hid : n.layer? id = some named)
    (hf : named.layer.feeder? = some feeder) :
    n.lineage id = (n.lineage feeder).map ((id, named.layer) :: ·) := by
  rw [lineage, ancestry_of_feeder hid hf, h.ancestry_eq (h.earlier hid hf).1]

/-- What holds of a layer whenever it holds of the layer that feeds it holds of all layers. -/
@[elab_as_elim]
theorem induction (h : n.WellFed) {motive : LayerId → Prop}
    (layer : ∀ id, (∀ {feeder : LayerId} {named : NamedLayer}, n.layer? id = some named →
      named.layer.feeder? = some feeder → motive feeder) → motive id) (id : LayerId) :
    motive id := by
  obtain ⟨index, hindex⟩ : ∃ index, index = id.index := ⟨_, rfl⟩
  -- the layer that feeds another one is an earlier one
  induction index using Nat.strongRecOn generalizing id with
  | ind index ih =>
    subst hindex
    exact layer id fun hid hf => ih _ (h.earlier hid hf).1 _ rfl

/-- Every layer has a lineage, which starts with it and goes on to earlier layers. -/
theorem exists_lineage (h : n.WellFed) (hid : n.layer? id = some named) :
    ∃ above, n.lineage id = .ok ((id, named.layer) :: above) ∧
      ∀ up ∈ above, up.1.index < id.index := by
  induction id using h.induction generalizing named with
  | layer id ih =>
    cases hf : named.layer.feeder? with
    | none => exact ⟨[], lineage_of_input hid hf, by simp⟩
    | some feeder =>
      obtain ⟨hlt, hin⟩ := h.earlier hid hf
      obtain ⟨named', hnamed⟩ := contains_iff.1 hin
      obtain ⟨above, habove, hall⟩ := ih hid hf hnamed
      refine ⟨_, by rw [h.lineage_of_feeder hid hf, habove]; rfl, ?_⟩
      exact List.forall_mem_cons.2 ⟨hlt, fun up hup => Nat.lt_trans (hall up hup) hlt⟩

end WellFed

namespace Extends

/-- An ancestry stays what it is as the network grows. -/
theorem ancestry_eq (hext : n.Extends n') {depth : Nat} (h : n.ancestry depth id = .ok ls) :
    n'.ancestry depth id = .ok ls := by
  induction depth generalizing id ls with
  | zero => cases h
  | succ depth ih =>
    obtain ⟨named, hnamed, -⟩ := except_bind_eq_ok_iff.1 h
    have hid := layer_eq_ok_iff.1 hnamed
    -- the layer and its feeder are still there, so the way up is the same
    cases hf : named.layer.feeder? with
    | none =>
      rw [ancestry_of_input hid hf] at h
      rw [ancestry_of_input (hext.layer hid) hf, h]
    | some feeder =>
      rw [ancestry_of_feeder hid hf] at h
      obtain ⟨above, habove, rfl⟩ := except_map_eq_ok_iff.1 h
      rw [ancestry_of_feeder (hext.layer hid) hf, ih habove]
      rfl

/-- Growing leaves lineages as they are. -/
theorem lineage_eq (hext : n.Extends n') (h : n.lineage id = .ok ls) : n'.lineage id = .ok ls :=
  hext.ancestry_eq h

/-- The shape of a layer stays what it is as the network grows. -/
theorem shape_eq (hext : n.Extends n') {s : DeclaredShape} (h : n.shape id = .ok s) :
    n'.shape id = .ok s := by
  obtain ⟨ls, hls, rfl⟩ := except_map_eq_ok_iff.1 h
  rw [shape, hext.lineage_eq hls]
  rfl

end Extends

/-! ## Shapes -/

/-- The shape of a layer, given that of its feeder if it has one. -/
def layerShape : Layer → Option DeclaredShape → DeclaredShape
  | .input i, _ => i.shape
  | .dense d _, fed => d.outputShape (fed.getD [])
  | .dropout _ _, fed => fed.getD []

/-- The shape of a layer that nothing feeds is its own. -/
theorem shape_of_input (h : n.layer? id = some named) (hf : named.layer.feeder? = none) :
    n.shape id = .ok (layerShape named.layer none) := by
  rw [shape, lineage_of_input h hf]
  cases hl : named.layer with
  | input i => rfl
  | dense d feeder => rw [hl] at hf; cases hf
  | dropout d feeder => rw [hl] at hf; cases hf

/-- The shape of a layer that is fed is computed from that of its feeder. -/
theorem WellFed.shape_of_feeder (h : n.WellFed) (hid : n.layer? id = some named)
    (hf : named.layer.feeder? = some feeder) {fed : DeclaredShape}
    (hfed : n.shape feeder = .ok fed) : n.shape id = .ok (layerShape named.layer (some fed)) := by
  obtain ⟨above, habove, rfl⟩ := except_map_eq_ok_iff.1 hfed
  rw [shape, h.lineage_of_feeder hid hf, habove]
  cases hl : named.layer with
  | input i => rw [hl] at hf; cases hf
  | dense d feeder => rfl
  | dropout d feeder => rfl

end TensorGraph.Network
