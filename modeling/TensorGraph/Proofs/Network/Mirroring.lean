import TensorGraph.Network.Compile
import TensorGraph.Proofs.Engine.Mirroring
import TensorGraph.Proofs.Network.Lineage

/-!
# Compiling layers side by side

Layers may be compiled on two engines, when the nodes of the one are found again on the other one
and no slot has been renamed yet. They become the same nodes, and their parameters get the same
first values, if all that is sampled has a seed.

## Main definitions

* `Network.Repeatable`: networks whose layers sample with seeds.
* `Renaming.Workspaces`: engines that hold the same in renamed slots, with contexts that remember
  the same layers.

## Main results

* `Network.concur_compileWithin`: compiling a layer in two workspaces.
-/

namespace TensorGraph

open Engine

/-- Layers that do not sample, or sample with seeds. -/
def Layer.Repeatable : Layer → Prop
  | input _ => True
  | dense d _ => (d.weightsInitializer.getD .standard).Repeatable ∧
      (d.biasInitializer.getD .standard).Repeatable
  | dropout d _ => d.seed.isSome ∨ ¬0 < d.rate

/-- Networks whose layers do not sample, or sample with seeds. -/
def Network.Repeatable (n : Network) : Prop := ∀ l ∈ n.layers, l.layer.Repeatable

/-- The layers of a repeatable network are repeatable. -/
theorem Network.Repeatable.layer {n : Network} (h : n.Repeatable) {id : LayerId} {l : NamedLayer}
    (hl : n.layer id = .ok l) : l.layer.Repeatable := by
  have hnamed := (layer?_eq_some_iff.1 (layer_eq_ok_iff.1 hl)).2
  exact h l (Array.mem_of_getElem? hnamed)

namespace Renaming

variable {r : Renaming}

/-- The nodes that a layer became, when they are renamed. -/
def blueprint (r : Renaming) (b : Blueprint) : Blueprint :=
  ⟨r.node b.output, b.parameters.map r.node, b.initializers.map r.node⟩

/-- Workspaces with engines that hold the same in renamed slots and with the same layers. -/
structure Workspaces (r : Renaming) (w w' : Workspace) : Prop where
  engine : r.Engines w.engine w'.engine
  number : w'.context.engine = r.number w.context.engine
  blueprints : w'.context.blueprints = w.context.blueprints.map (Prod.map id r.blueprint)

namespace Workspaces

variable {w w' : Workspace}

/-- A layer is remembered in both workspaces or in neither. -/
theorem blueprint? (h : r.Workspaces w w') (layer : LayerId) :
    w'.context.blueprint? layer = (w.context.blueprint? layer).map r.blueprint := by
  rw [CompileContext.blueprint?, h.blueprints, CompileContext.blueprint?]
  generalize w.context.blueprints = made
  induction made with
  | nil => rfl
  | cons b made ih =>
    obtain ⟨k, b⟩ := b
    simp only [List.map_cons, Prod.map, id, List.lookup_cons]
    cases layer == k
    · exact ih
    · rfl

/-- Mirrored calls of the engines keep workspaces together. -/
theorem concur_onEngine {α α' : Type} {k : α → α'} {c : Call α} {c' : Call α'}
    (h : r.Workspaces w w') (hc : Mirrors r.Engines k c c') :
    Concur Failure.NameTaken r.Workspaces (fun a a' => a' = k a) (Compiling.onEngine c w)
      (Compiling.onEngine c' w') := by
  have hconcur := hc _ _ h.engine
  unfold Compiling.onEngine
  revert hconcur
  generalize c w.engine = res
  generalize c' w'.engine = res'
  -- the context takes no part, and the engines stay together or the difference is excused
  rintro (⟨rfl, hengine⟩ | hengine | hexcuse)
  · exact .ok rfl ⟨hengine, h.number, h.blueprints⟩
  · exact .error ⟨hengine, h.number, h.blueprints⟩
  · exact .excuse hexcuse

end Workspaces
end Renaming

open Renaming

variable {r : Renaming}

/-- Input layers compile alike. -/
theorem Input.mirrors_compile (hid : ∀ s, r.slot s = s) (i : Input) (name : String) :
    Mirrors r.Engines r.blueprint (i.compile name) (i.compile name) := by
  unfold Input.compile
  exact .refuse_unless ((mirroring_engines.placeholder hid name i.shape).bind fun output =>
    .pure (⟨output, [], []⟩ : Blueprint))

/-- Dropout layers compile alike if they have seeds or never drop anything. -/
theorem Dropout.mirrors_compile (d : Dropout) (hd : d.seed.isSome ∨ ¬0 < d.rate) (name : String)
    (input : Node) :
    Mirrors r.Engines r.blueprint (d.compile name input) (d.compile name (r.node input)) :=
  (mirroring_engines.dropout input d.rate hd).bind fun output =>
    .pure (⟨output, [], []⟩ : Blueprint)

/-- Dense layers compile alike if their initializers are repeatable. -/
theorem Dense.mirrors_compile (d : Dense)
    (hweights : (d.weightsInitializer.getD .standard).Repeatable)
    (hbias : (d.biasInitializer.getD .standard).Repeatable) (name : String) (input : Node)
    (fed : DeclaredShape) :
    Mirrors r.Engines r.blueprint (d.compile name input fed)
      (d.compile name (r.node input) fed) := by
  have hrel := @mirroring_engines r
  have hmade : ∀ output weights bias (ofWeights ofBias : Option Node),
      r.blueprint ⟨output, [weights, bias], ofWeights.toList ++ ofBias.toList⟩ =
        ⟨r.node output, [r.node weights, r.node bias],
          (ofWeights.map r.node).toList ++ (ofBias.map r.node).toList⟩ := by
    intro output weights bias ofWeights ofBias
    simp [blueprint, Option.toList_map]
  unfold Dense.compile
  extract_lets build build'
  have hbuild : ∀ size, Mirrors r.Engines r.blueprint (build size) (build' size) := by
    intro size
    refine (Engines.createVariable _ hweights _ true).bind fun weights =>
      (Engines.createVariable _ hbias _ true).bind fun bias =>
        (hrel.dot input weights).bind fun projected => (hrel.biasAdd projected bias).bind
          fun shifted => (hrel.unary d.resolvedActivation.op shifted).bind fun output =>
            (hrel.initializer weights).bind fun ofWeights =>
              (hrel.initializer bias).bind fun ofBias => ?_
    rw [← hmade]
    exact .pure _
  -- without a known input size both engines refuse
  split
  · split
    · exact (Mirrors.pure (k := id) _).bind hbuild
    · exact (Mirrors.refuse (k := id) _ _).bind hbuild
  · exact (Mirrors.refuse (k := id) _ _).bind hbuild

namespace Network

/-- What follows once the nodes of a layer have been made. -/
private theorem concur_remember {w w' : Workspace} (h : r.Workspaces w w') (layer : LayerId)
    (name : String) (b : Blueprint) :
    Concur Failure.NameTaken r.Workspaces (fun a a' => a' = r.node a)
      ((do
        Compiling.onEngine (report (.compiledLayer name b.parameters.length))
        modify fun w => { w with context.blueprints := w.context.blueprints ++ [(layer, b)] }
        return b.output : Compiling Node) w)
      ((do
        Compiling.onEngine (report (.compiledLayer name (r.blueprint b).parameters.length))
        modify fun w => { w with
          context.blueprints := w.context.blueprints ++ [(layer, r.blueprint b)] }
        return (r.blueprint b).output : Compiling Node) w') := by
  refine (h.concur_onEngine (mirroring_engines.reporting _ _)).bind fun _ _ w₁ w₁' _ _ h => ?_
  -- the blueprint that is remembered is the renamed one
  refine .ok rfl ⟨h.engine, h.number, ?_⟩
  dsimp only
  rw [h.blueprints, List.map_append]
  rfl

/-- A layer becomes the same nodes in both workspaces. -/
theorem concur_compileWithin (hid : ∀ s, r.slot s = s) {n : Network} (hn : n.Repeatable)
    (depth : Nat) (layer : LayerId) {w w' : Workspace} (h : r.Workspaces w w') :
    Concur Failure.NameTaken r.Workspaces (fun a a' => a' = r.node a)
      (n.compileWithin depth layer w) (n.compileWithin depth layer w') := by
  induction depth generalizing layer w w' with
  | zero => exact .error h
  | succ depth ih =>
    have hforeign : w'.engine.graph.id ≠ w'.context.engine ↔
        w.engine.graph.id ≠ w.context.engine := by
      rw [h.engine.graph.source, h.engine.graph.target, h.number, ← r.number_source]
      exact not_congr r.number_inj
    unfold compileWithin
    refine .get_bind (.get_bind ?_)
    simp only [hforeign]
    split
    · exact .error h
    · refine .get_bind ?_
      rw [h.blueprint?]
      cases w.context.blueprint? layer with
      | some b => exact .ok rfl h
      | none =>
        cases hnamed : n.layer layer with
        | error err => exact .error h
        | ok named =>
          have hrepeat := hn.layer hnamed
          obtain ⟨name, l⟩ := named
          -- a layer is compiled after the layer that feeds it
          cases l with
          | input i =>
            refine (h.concur_onEngine (i.mirrors_compile hid name)).bind ?_
            rintro b _ w₁ w₁' - rfl h
            exact concur_remember h layer name b
          | dense d feeder =>
            refine (ih feeder h).bind ?_
            rintro input _ w₁ w₁' - rfl h
            cases n.shape feeder with
            | error err => exact .error h
            | ok fed =>
              have hdense := d.mirrors_compile hrepeat.1 hrepeat.2 name input fed (r := r)
              refine (h.concur_onEngine hdense).bind ?_
              rintro b _ w₂ w₂' - rfl h
              exact concur_remember h layer name b
          | dropout d feeder =>
            refine (ih feeder h).bind ?_
            rintro input _ w₁ w₁' - rfl h
            refine (h.concur_onEngine (d.mirrors_compile hrepeat name input)).bind ?_
            rintro b _ w₂ w₂' - rfl h
            exact concur_remember h layer name b

end Network

end TensorGraph
