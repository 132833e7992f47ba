import Mathlib
import TensorGraph.Proofs.Network.Admitting
import TensorGraph.Proofs.Network.Workshop

/-!
# Compiling layers in order

Every layer appends a fixed number of nodes under names of its own, so the layers that have been
compiled determine the place of the next one, and no name of a layer is taken before the layer is
compiled. A layer that can be compiled at every place is compiled whichever layers come before it.

## Main definitions

* `Network.Ready`: a layer can be compiled at every place.
* `Network.Available`: a layer is ready, and so are the layers above it.
* `Network.Orderly`: a workspace in which layers of one network have been compiled and nothing else.

## Main results

* `Network.Orderly.compileWithin`: compiling a layer leaves the workspace orderly.
* `Network.Orderly.exists_compileWithin`: a layer that is available is compiled.
-/

namespace TensorGraph

open Engine

/-- The layers of a workspace, in the order in which they were compiled. -/
def Workspace.compiled (w : Workspace) : List LayerId := w.context.blueprints.map (·.1)

namespace Network

open Compiling

variable {n : Network} {entropy : UInt64} {w w' w₁ : Workspace} {id feeder : LayerId} {node : Node}
  {named : NamedLayer} {depth : Nat} {b : Blueprint} {e : Engine}

/-- The number of nodes that some layers become. -/
def nodeCount (n : Network) (ids : List LayerId) : Nat :=
  (ids.map fun id => ((n.layer? id).map (·.layer.nodeCount)).getD 0).sum

theorem nodeCount_append_singleton {ids : List LayerId} (hid : n.layer? id = some named) :
    n.nodeCount (ids ++ [id]) = n.nodeCount ids + named.layer.nodeCount := by
  simp [nodeCount, hid]

/-- A layer can be compiled at every place. -/
def Ready (n : Network) (id : LayerId) : Prop :=
  ∃ named, n.layer? id = some named ∧ ∀ key, n.Admits key named.layer

/-- A layer of a network that can be compiled at every place, like all the layers above it. -/
structure Available (n : Network) (id : LayerId) : Prop where
  contained : n.contains id
  ready : ∀ ls, n.lineage id = .ok ls → ∀ up ∈ ls, n.Ready up.1

/-- So can the layer that feeds it. -/
theorem Available.of_feeder (h : n.Available id) (hfed : n.WellFed) (hid : n.layer? id = some named)
    (hf : named.layer.feeder? = some feeder) : n.Available feeder := by
  refine ⟨(hfed.earlier hid hf).2, fun ls hls up hup => ?_⟩
  refine h.ready ((id, named.layer) :: ls) ?_ up (List.mem_cons_of_mem _ hup)
  rw [hfed.lineage_of_feeder hid hf, hls]
  rfl

theorem Available.admits (h : n.Available id) (hfed : n.WellFed) (hid : n.layer? id = some named)
    (key : UInt64) : n.Admits key named.layer := by
  obtain ⟨above, hlineage, -⟩ := hfed.exists_lineage hid
  obtain ⟨named', hnamed', hadmits⟩ := h.ready _ hlineage _ List.mem_cons_self
  obtain rfl := Option.some.inj (hid.symm.trans hnamed')
  exact hadmits key

/-- A workspace in which layers of one network have been compiled and nothing else has been done. -/
structure Orderly (n : Network) (entropy : UInt64) (w : Workspace) : Prop where
  chronicled : Chronicled (fun _ => n) w
  initialized : w.engine.Initialized
  derived : w.engine.session.map (·.entropy) = some entropy
  size : w.engine.graph.size = n.nodeCount w.compiled
  /-- Only the nodes of the compiled layers have names. -/
  free : ∀ s, (∀ id ∈ w.compiled, ∀ named, n.layer? id = some named → s ∉ named.labels) →
    w.engine.graph.find? s = none
  /-- Every layer can be compiled at its place. -/
  placed : ∀ {i id named}, w.compiled[i]? = some id → n.layer? id = some named →
    n.Admits (entropy + .ofNat (n.nodeCount (w.compiled.take i))) named.layer

/-! ## Making a layer -/

/-- Making a layer whose names are free. -/
theorem Makes.lays (h : n.Makes depth w named w₁ b e)
    (hfree : ∀ label ∈ named.labels, w₁.engine.graph.find? label = none) :
    Lays named.layer.nodeCount named.labels w₁.engine e := by
  -- a kind of layer lays its own nodes under its own labels
  cases h with
  | input made =>
    rw [NamedLayer.labels_input] at hfree ⊢
    exact Input.lays_compile (hfree _ List.mem_cons_self) made
  | dense ofFeeder shape made =>
    rw [NamedLayer.labels_dense]
    exact Dense.laying_compile.of_eq_ok made
  | dropout ofFeeder made =>
    rw [NamedLayer.labels_dropout]
    exact Dropout.laying_compile.of_eq_ok made

/-- A layer that has been made could be made at its place. -/
theorem Makes.admits {g : Graph} {made : List (LayerId × Blueprint)}
    {fed : Option (Node × DeclaredShape)} (h : n.Makes depth w named w₁ b e)
    (he : w₁.engine.Initialized) (hderived : w₁.engine.session.map (·.entropy) = some entropy)
    (hfeeds : n.Feeds made named.layer fed) (hrealizes : b.Realizes g named.name named.layer fed)
    (hg : g.Typed) : n.Admits (entropy + .ofNat w₁.engine.graph.size) named.layer := by
  -- each kind has shown, by being made, what it takes to be admitted
  cases h with
  | input =>
    cases hrealizes with
    | input dims holds => exact .input dims (hg.held holds.2)
  | dense _ shape compiled =>
    cases hrealizes with
    | dense positive =>
      cases hfeeds with
      | layer fedBy _ shape' =>
        cases fedBy
        cases shape.symm.trans shape'
        obtain ⟨hwidth, hweights, hbias⟩ := Dense.makes_of_compile he hderived positive compiled
        exact .dense shape positive hwidth hweights hbias
  | dropout => exact .dropout

/-- A layer that is not remembered is made and then remembered. -/
theorem compileWithin_of_makes (hcontext : w.context.engine = w.engine.graph.id)
    (hb : w.context.blueprint? id = none) (hid : n.layer? id = some named)
    (h : n.Makes depth w named w₁ b e) :
    ∃ w', n.compileWithin (depth + 1) id w = .ok b.output w' := by
  have hget : (get : Compiling Workspace) w = .ok w w := rfl
  have hcall : ∀ {call : Call Blueprint}, call w₁.engine = .ok b e →
      onEngine call w₁ = .ok b { w₁ with engine := e } :=
    fun hcall => onEngine_eq_ok_iff.2 ⟨e, hcall, rfl⟩
  have hlayer : lift (n.layer id) w = .ok named w := lift_eq_ok_iff.2 ⟨layer_eq_ok_iff.2 hid, rfl⟩
  -- the context belongs to the engine and does not remember the layer
  unfold compileWithin
  rw [bind_of_ok hget, bind_of_ok hget, if_neg (not_not.2 hcontext.symm)]
  beta_reduce
  rw [bind_of_ok hget, hb]
  cases h with
  | input made => exact ⟨_, (bind_of_ok hlayer).trans (bind_of_ok (hcall made))⟩
  | dense ofFeeder shape made =>
    have hshape : lift (n.shape _) w₁ = .ok _ w₁ := lift_eq_ok_iff.2 ⟨shape, rfl⟩
    exact ⟨_, (bind_of_ok hlayer).trans ((bind_of_ok ofFeeder).trans
      ((bind_of_ok hshape).trans (bind_of_ok (hcall made))))⟩
  | dropout ofFeeder made =>
    exact ⟨_, (bind_of_ok hlayer).trans ((bind_of_ok ofFeeder).trans (bind_of_ok (hcall made)))⟩

/-! ## Orderly workspaces -/

namespace Orderly

theorem active (hw : n.Orderly entropy w) : w.engine.session.isSome := by
  obtain ⟨s, hs, -⟩ := Option.map_eq_some_iff.1 hw.derived
  rw [hs]
  rfl

/-- A workspace with one more layer is orderly. -/
theorem remember (hw₁ : n.Orderly entropy w₁) (hchronicled : Chronicled (fun _ => n) w')
    (hinitialized : w'.engine.Initialized) (hcompiled : w'.compiled = w₁.compiled ++ [id])
    (hid : n.layer? id = some named)
    (hlays : Lays named.layer.nodeCount named.labels w₁.engine w'.engine)
    (hadmits : n.Admits (entropy + .ofNat w₁.engine.graph.size) named.layer) :
    n.Orderly entropy w' where
  chronicled := hchronicled
  initialized := hinitialized
  derived := hlays.entropy.trans hw₁.derived
  size := by rw [hlays.size, hw₁.size, hcompiled, nodeCount_append_singleton hid]
  free s hs := by
    rw [hcompiled] at hs
    refine hlays.free s (hs id (by simp) named hid) (hw₁.free s fun id' hid' => ?_)
    exact hs id' (List.mem_append_left _ hid')
  placed {i id' named'} hi hid' := by
    rw [hcompiled] at hi ⊢
    by_cases hlt : i < w₁.compiled.length
    · rw [List.getElem?_append_left hlt] at hi
      rw [List.take_append_of_le_length (Nat.le_of_lt hlt)]
      exact hw₁.placed hi hid'
    · -- the layer is the last one, and its place is the end of the graph
      obtain ⟨hlast, rfl⟩ : i - w₁.compiled.length = 0 ∧ id = id' := by
        rw [List.getElem?_append_right (Nat.le_of_not_lt hlt)] at hi
        simpa [List.getElem?_singleton] using hi
      obtain rfl : i = w₁.compiled.length := by omega
      obtain rfl := Option.some.inj (hid.symm.trans hid')
      rwa [List.take_left, ← hw₁.size]

section Names

variable (hfed : n.WellFed)
  (hplain : ∀ {id : LayerId} {named : NamedLayer}, n.layer? id = some named → Plain named.name)
include hfed hplain

/-- The names of a layer are free until the layer is compiled. -/
theorem free_label (hw : n.Orderly entropy w) (hid : n.layer? id = some named)
    (hfresh : id ∉ w.compiled) : ∀ label ∈ named.labels, w.engine.graph.find? label = none := by
  refine fun label hlabel => hw.free label fun id' hid' named' hnamed' hlabel' => hfresh ?_
  have hname := (hplain hid).name_eq_of_mem_labels (hplain hnamed') hlabel hlabel'
  exact hfed.name hid hnamed' hname ▸ hid'

/-- Compiling a layer leaves the workspace orderly. -/
theorem compileWithin (hw : n.Orderly entropy w) (hdepth : id.index < depth)
    (h : n.compileWithin depth id w = .ok node w') : n.Orderly entropy w' := by
  induction depth generalizing id w w' node with
  | zero => cases hdepth
  | succ depth ih =>
    have hchronicled := (adds_compileWithin (fun _ => hfed) rfl hdepth hw.chronicled h).chronicled
    have hinitialized : w'.engine.Initialized :=
      n.keeping_compileWithin buildable_initialized _ id w node w' hw.initialized h
    obtain ⟨-, ⟨b, hb, rfl, rfl⟩ | ⟨named, w₁, b, e, hb, hid, hmakes, rfl, rfl⟩⟩ :=
      compileWithin_eq_ok h
    · exact hw
    -- the feeder is compiled first, which leaves the workspace orderly by induction
    have hw₁ : n.Orderly entropy w₁ := by
      cases hmakes with
      | input => exact hw
      | dense ofFeeder | dropout ofFeeder =>
        exact ih hw (Nat.lt_of_lt_of_le (hfed.earlier hid rfl).1 (Nat.le_of_lt_succ hdepth))
          ofFeeder
    have hfresh : id ∉ w₁.compiled := by
      have hnodup := hchronicled.chronicle.nodup
      rw [List.map_append, List.nodup_append] at hnodup
      exact fun hmem => hnodup.2.2 id hmem id (by simp) rfl
    obtain ⟨named', hnamed', fed, hfeeds, hrealizes⟩ :=
      hchronicled.chronicle.exists_layer (List.mem_append_right _ (List.mem_singleton_self (id, b)))
    obtain rfl := Option.some.inj (hid.symm.trans hnamed')
    have hlays := hmakes.lays (hw₁.free_label hfed hplain hid hfresh)
    exact hw₁.remember hchronicled hinitialized (by simp [Workspace.compiled]) hid
      (hlays.report (reported_report _))
      (hmakes.admits hw₁.initialized hw₁.derived hfeeds hrealizes hinitialized.sound.typed)

/-- A layer that can be compiled at every place is made once its feeder has been compiled. -/
theorem exists_makes (hw : n.Orderly entropy w) (depth : Nat) (hid : n.layer? id = some named)
    (hfresh : id ∉ w.compiled) (hadmits : ∀ key, n.Admits key named.layer)
    (hfeeder : ∀ {feeder : LayerId}, named.layer.feeder? = some feeder → ∃ input w₁,
      n.compileWithin depth feeder w = .ok input w₁ ∧ n.Orderly entropy w₁ ∧ id ∉ w₁.compiled ∧
        ∃ shape op name, n.shape feeder = .ok shape ∧
          w₁.engine.graph.Holds input ⟨op, shape, .f32, name⟩) :
    ∃ w₁ b e, n.Makes depth w named w₁ b e := by
  obtain ⟨name, layer⟩ := named
  -- what admitting a layer asks for is what its compilation needs at the end of the graph
  cases layer with
  | input i =>
    cases hadmits 0 with
    | input dims held =>
      have hfree := hw.free_label hfed hplain hid hfresh
      rw [NamedLayer.labels_input] at hfree
      obtain ⟨b, e, h⟩ := Input.exists_compile hw.active dims held (hfree _ List.mem_cons_self)
      exact ⟨w, b, e, .input h⟩
  | dense d feeder =>
    obtain ⟨input, w₁, h, hw₁, hfresh₁, shape, op, nodeName, hshape, hholds⟩ := hfeeder rfl
    have hfree := hw₁.free_label hfed hplain hid hfresh₁
    rw [NamedLayer.labels_dense] at hfree
    cases hadmits (entropy + .ofNat w₁.engine.graph.size) with
    | dense fed positive width weights bias =>
      cases hshape.symm.trans fed
      obtain ⟨b, e, hmade⟩ := Dense.exists_compile hw₁.initialized hw₁.derived positive width
        hholds weights bias hfree
      exact ⟨w₁, b, e, .dense h fed hmade⟩
  | dropout d feeder =>
    obtain ⟨input, w₁, h, hw₁, hfresh₁, shape, op, nodeName, hshape, hholds⟩ := hfeeder rfl
    have hfree := hw₁.free_label hfed hplain hid hfresh₁
    rw [NamedLayer.labels_dropout] at hfree
    obtain ⟨b, e, hmade⟩ :=
      Dropout.exists_compile hw₁.active hholds rfl (hfree _ List.mem_cons_self)
    exact ⟨w₁, b, e, .dropout h hmade⟩

/-- A layer is compiled when it and the layers above it can be compiled at every place. -/
theorem exists_compileWithin (hw : n.Orderly entropy w) (hdepth : id.index < depth)
    (h : n.Available id) : ∃ node w', n.compileWithin depth id w = .ok node w' := by
  induction depth generalizing id w with
  | zero => cases hdepth
  | succ depth ih =>
    have hcontext := hw.chronicled.context
    cases hb : w.context.blueprint? id with
    | some b => exact ⟨_, _, Workshop.compileWithin_eq hcontext hb n depth⟩
    | none =>
      have hfresh : id ∉ w.compiled := by
        intro hmem
        obtain ⟨p, hp, rfl⟩ := List.mem_map.1 hmem
        simpa using List.lookup_eq_none_iff.1 hb p hp
      obtain ⟨named, hid⟩ := contains_iff.1 h.contained
      -- the feeder is an earlier layer, so it is compiled by induction
      obtain ⟨w₁, b, e, hmakes⟩ :=
        hw.exists_makes hfed hplain depth hid hfresh (h.admits hfed hid) fun hf => by
          obtain ⟨hlt, -⟩ := hfed.earlier hid hf
          have hlt' := Nat.lt_of_lt_of_le hlt (Nat.le_of_lt_succ hdepth)
          obtain ⟨input, w₁, h₁⟩ := ih hw hlt' (h.of_feeder hfed hid hf)
          have hadds := adds_compileWithin (fun _ => hfed) rfl hlt' hw.chronicled h₁
          obtain ⟨b', hb', rfl⟩ := hadds.made
          exact ⟨_, w₁, h₁, hw.compileWithin hfed hplain hlt' h₁, hadds.not_mem hfed hlt hfresh,
            hadds.chronicled.chronicle.exists_holds (fun _ => hfed) hb'⟩
      obtain ⟨w', h'⟩ := compileWithin_of_makes hcontext hb hid hmakes
      exact ⟨_, w', h'⟩

end Names
end Orderly

end Network
end TensorGraph
