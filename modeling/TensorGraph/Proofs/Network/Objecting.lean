import TensorGraph.Proofs.Engine.Objecting
import TensorGraph.Proofs.Network.Abandoning
import TensorGraph.Proofs.Network.Orderly

/-!
# What compiling layers objects to

Compiling a layer finds fault with the initializers of dense layers only. It binds the names of the
layers that the layer depends on and that have not been compiled before, from its input on. Which
layers these are can be told from the network.

## Main definitions

* `Layer.faults`: what is wrong with the parameters of a layer.
* `Network.pending`: the layers that are compiled when some layers are asked for.
* `Network.labels`: the names of the nodes that a layer of a network becomes.

## Main results

* `Network.binding_compileWithin`: compiling a layer finds fault with initializers only.
-/

namespace TensorGraph

open Engine

variable {K : ArgumentFault → Prop}

/-! ## Layers -/

/-- The initializers of the weights and of the bias of a dense layer. -/
def Dense.initializers (d : Dense) : List Initializer :=
  [d.weightsInitializer.getD .standard, d.biasInitializer.getD .standard]

/-- What is wrong with the parameters of a layer. -/
def Layer.faults : Layer → List ArgumentFault
  | .dense d _ => d.initializers.filterMap Initializer.fault?
  | .input _ | .dropout _ _ => []

/-- Compiling an input layer finds fault with no argument. -/
theorem Input.binds_compile (i : Input) (name : String) :
    Binds K (i.compile name) (NamedLayer.labels ⟨name, .input i⟩) := by
  rw [NamedLayer.labels_input]
  unfold Input.compile
  exact binds_unless rfl fun _ => (binds_placeholder _ _).last fun _ => .pure _

/-- The rate of a dropout layer is in range. -/
theorem Dropout.binds_compile (d : Dropout) (name : String) (feeder : LayerId) (input : Node) :
    Binds K (d.compile name input) (NamedLayer.labels ⟨name, .dropout d feeder⟩) := by
  rw [NamedLayer.labels_dropout]
  exact (binds_dropout d.rate_mem input d.seed (some name)).last fun _ => .pure _

/-- Compiling a dense layer finds fault with its initializers only. -/
theorem Dense.binds_compile {d : Dense} {feeder : LayerId}
    (h : ∀ cause ∈ (Layer.dense d feeder).faults, K cause) (name : String) (input : Node)
    (fed : DeclaredShape) :
    Binds K (d.compile name input fed) (NamedLayer.labels ⟨name, .dense d feeder⟩) := by
  have hinit : ∀ init ∈ d.initializers, ∀ cause, init.fault? = some cause → K cause :=
    fun init hinit cause hcause => h cause (List.mem_filterMap.2 ⟨init, hinit, hcause⟩)
  rw [NamedLayer.labels_dense]
  unfold Dense.compile
  extract_lets build
  -- the variables and the activation bind the three names; what is in between has none
  have hbuild : ∀ size, Binds K (build size) [name ++ "/weights", name ++ "/bias", name] :=
    fun size =>
      (binds_createVariable (hinit _ List.mem_cons_self) _ _ true).bind fun weights =>
        (binds_createVariable (hinit _ (by simp [initializers])) _ _ true).bind fun bias =>
        (binds_dot _ _ none).skip fun _ => (binds_biasAdd _ _ none).skip fun _ =>
          (binds_unary d.resolvedActivation.op _ (some name)).last fun _ =>
            (binds_initializer weights).skip fun _ => (binds_initializer bias).skip fun _ =>
              .pure _
  split
  · exact .ite (fun _ => (Binds.pure _).skip hbuild) fun _ => (binds_decline rfl).skip hbuild
  · exact (binds_decline rfl).skip hbuild

/-! ## Networks -/

/-- The names that are bound in a workspace. -/
def Workspace.names (w : Workspace) : List String := w.engine.graph.names

/-- What a step of compiling comes to, without the context. -/
def Compiling.outcome {α : Type} :
    EStateM.Result Failure Workspace α → EStateM.Result Failure Engine α
  | .ok a w => .ok a w.engine
  | .error failure w => .error failure w.engine

namespace Network

open Compiling

variable {n : Network} {w w' : Workspace} {id : LayerId} {named : NamedLayer}
  {done ids : List LayerId} {names : List String}

/-- The names of the nodes that a layer of a network becomes. -/
def labels (n : Network) (id : LayerId) : List String :=
  ((n.layer? id).map (·.labels)).getD []

theorem labels_eq (hid : n.layer? id = some named) : n.labels id = named.labels := by
  simp [labels, hid]

/-- The layers that are compiled when some layers are asked for one after the other. -/
def pending (n : Network) : List LayerId → List LayerId → List LayerId
  | _, [] => []
  | done, id :: ids => n.unseen done id ++ n.pending (done ++ n.unseen done id) ids

theorem pending_append (done ids ids' : List LayerId) :
    n.pending done (ids ++ ids') =
      n.pending done ids ++ n.pending (done ++ n.pending done ids) ids' := by
  induction ids generalizing done with
  | nil => simp [pending]
  | cons id ids ih => simp [pending, ih, List.append_assoc]

/-- A layer that is not yet done is one of the network. -/
theorem of_mem_unseen {up : LayerId} (h : up ∈ n.unseen done id) :
    up ∉ done ∧ ∃ named, n.layer? up = some named := by
  unfold unseen at h
  split at h
  · next ls hls =>
    obtain ⟨hup, hfresh⟩ := List.mem_filter.1 h
    obtain ⟨l, hl, rfl⟩ := List.mem_map.1 hup
    obtain ⟨named, hnamed, -⟩ := exists_layer_of_mem_ancestry hls l (List.mem_reverse.1 hl)
    exact ⟨by simpa using hfresh, named, hnamed⟩
  · cases h

theorem exists_layer_of_mem_pending {up : LayerId} (h : up ∈ n.pending done ids) :
    ∃ named, n.layer? up = some named := by
  induction ids generalizing done with
  | nil => cases h
  | cons id ids ih =>
    rcases List.mem_append.1 h with h | h
    · exact (of_mem_unseen h).2
    · exact ih h

/-- No layer depends on a layer twice. -/
theorem nodup_lineage (hn : n.WellFed) {ls : List (LayerId × Layer)} (hls : n.lineage id = .ok ls) :
    (ls.map (·.1)).Nodup := by
  induction id using hn.induction generalizing ls with
  | layer id ih =>
    obtain ⟨named, hid⟩ := exists_layer_of_lineage hls
    obtain ⟨above, habove, hearlier⟩ := hn.exists_lineage hid
    cases hls.symm.trans habove
    refine List.nodup_cons.2 ⟨fun hmem => ?_, ?_⟩
    -- the layers above are at earlier positions
    · obtain ⟨up, hup, hsame⟩ := List.mem_map.1 hmem
      exact Nat.lt_irrefl _ (hsame ▸ hearlier up hup)
    · cases hf : named.layer.feeder? with
      | none =>
        rw [lineage_of_input hid hf] at habove
        cases habove
        exact List.nodup_nil
      | some feeder =>
        rw [hn.lineage_of_feeder hid hf] at habove
        obtain ⟨rest, hrest, hcons⟩ := except_map_eq_ok_iff.1 habove
        obtain rfl := List.cons_injective hcons
        exact ih hid hf hrest

theorem nodup_unseen (hn : n.WellFed) (done : List LayerId) (id : LayerId) :
    (n.unseen done id).Nodup := by
  unfold unseen
  split
  · next ls hls =>
    rw [List.map_reverse]
    exact (List.nodup_reverse.2 (nodup_lineage hn hls)).filter _
  · exact List.nodup_nil

/-- No layer is compiled twice. -/
theorem nodup_append_pending (hn : n.WellFed) (hdone : done.Nodup) (ids : List LayerId) :
    (done ++ n.pending done ids).Nodup := by
  induction ids generalizing done with
  | nil => rwa [pending, List.append_nil]
  | cons id ids ih =>
    rw [pending, ← List.append_assoc]
    refine ih (List.nodup_append.2 ⟨hdone, nodup_unseen hn done id, ?_⟩)
    rintro up hup _ hup' rfl
    exact (of_mem_unseen hup').1 hup

/-- A call on the engine of a workspace objects to what a step of compiling does that comes to the
same. -/
theorem binding_engine_iff {α : Type} {call : Call α} {c : Compiling α}
    (h : call w.engine = outcome (c w)) :
    Binding K (fun e => e.graph.names) call w.engine names ↔
      Binding K Workspace.names c w names := by
  rw [binding_iff, binding_iff, h]
  cases c w <;> rfl

theorem binding_onEngine {α : Type} {call : Call α}
    (h : Binding K (fun e => e.graph.names) call w.engine names) :
    Binding K Workspace.names (onEngine call) w names := by
  refine (binding_engine_iff ?_).1 h
  rw [onEngine]
  cases call w.engine <;> rfl

theorem binding_lift_of_ok {α : Type} {r : Except Error α} {a : α} (h : r = .ok a) :
    Binding K Workspace.names (Compiling.lift r) w [] := by
  subst h
  exact .pure a

/-- Compiling a layer finds fault only with the initializers of the dense layers that it depends
on. It binds the names of the layers that have not been compiled. -/
theorem binding_compileWithin (hn : n.WellFed) (hid : n.layer? id = some named) {depth : Nat}
    (hdepth : id.index < depth) (hw : Chronicled (fun _ => n) w)
    (h : ∀ ls, n.lineage id = .ok ls → ∀ up ∈ ls, ∀ cause ∈ up.2.faults, K cause) :
    Binding K Workspace.names (n.compileWithin depth id) w
      ((n.unseen w.compiled id).flatMap n.labels) := by
  induction depth generalizing id named with
  | zero => cases hdepth
  | succ depth ih =>
    obtain ⟨above, hls, -⟩ := hn.exists_lineage hid
    -- the feeder is compiled first, and depends on nothing else
    have hfeeder : ∀ {feeder}, named.layer.feeder? = some feeder →
        Binding K Workspace.names (n.compileWithin depth feeder) w
          ((n.unseen w.compiled feeder).flatMap n.labels) := by
      intro feeder hf
      obtain ⟨hlt, hin⟩ := hn.earlier hid hf
      obtain ⟨namedFeeder, hnamed⟩ := contains_iff.1 hin
      refine ih hnamed (by omega) fun ls hls' up hup => ?_
      have hlineage := hn.lineage_of_feeder hid hf
      rw [hls'] at hlineage
      exact h _ hlineage up (List.mem_cons_of_mem _ hup)
    -- making a record and remembering the layer binds nothing
    have hend : ∀ {b : Blueprint} {w : Workspace}, Binding K Workspace.names (do
        onEngine (report (.compiledLayer named.name b.parameters.length))
        modify fun w => { w with context.blueprints := w.context.blueprints ++ [(id, b)] }
        return b.output : Compiling Node) w [] := fun {b w} =>
      (binding_onEngine (binds_report _ w.engine)).skip fun _ _ _ =>
        (Binding.modify (List.append_nil _).symm).skip fun _ _ _ => .pure _
    unfold compileWithin
    refine .get_bind (.get_bind
      (.ite (fun hforeign => absurd hw.context.symm hforeign) fun _ => .get_bind ?_))
    split
    · next b hb =>
      have hmem := Chronicle.mem_of_lookup hb
      have hdone : n.unseen w.compiled id = [] :=
        unseen_eq_nil hls (hw.chronicle.mem_of_lineage (fun _ => hn) hmem hls)
      rw [hdone]
      exact .pure _
    next hb =>
    have hfresh : id ∉ w.compiled := by
      intro hin
      obtain ⟨p, hp, rfl⟩ := List.mem_map.1 hin
      simpa using List.lookup_eq_none_iff.1 hb p hp
    refine (binding_lift_of_ok (layer_eq_ok_iff.2 hid)).skip fun named' w₁ hnamed => ?_
    obtain ⟨hlayer, rfl⟩ := lift_eq_ok_iff.1 hnamed
    cases hlayer.symm.trans (layer_eq_ok_iff.2 hid)
    obtain ⟨name, l⟩ := named
    cases l with
    | input i =>
      rw [unseen_of_input hid rfl hfresh, List.flatMap_singleton, labels_eq hid]
      exact (binding_onEngine (i.binds_compile name _)).last fun _ _ _ => hend
    | dense d feeder =>
      obtain ⟨fed, hfed⟩ := hn.exists_shape hid rfl
      rw [unseen_of_feeder hn hid rfl hfresh, List.flatMap_append, List.flatMap_singleton,
        labels_eq hid]
      exact (hfeeder rfl).bind fun input w₂ _ => (binding_lift_of_ok hfed).skip fun fed w₃ _ =>
        (binding_onEngine (d.binds_compile (h _ hls _ List.mem_cons_self) name input fed _)).last
          fun _ _ _ => hend
    | dropout d feeder =>
      rw [unseen_of_feeder hn hid rfl hfresh, List.flatMap_append, List.flatMap_singleton,
        labels_eq hid]
      exact (hfeeder rfl).bind fun input w₂ _ =>
        (binding_onEngine (d.binds_compile name feeder input _)).last fun _ _ _ => hend

end Network
end TensorGraph
