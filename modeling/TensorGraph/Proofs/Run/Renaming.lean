import TensorGraph.Proofs.Engine.Renaming
import TensorGraph.Proofs.Run.Overrides

/-!
# Running renamed functions

A function over the nodes of one engine becomes one over the nodes of another engine when its
handles are renamed. On engines that hold the same in renamed slots, both give the same values from
the same feeds, or both fail, and they leave engines behind that still hold the same.

## Main definitions

* `Renaming.function`: a function over renamed nodes.

## Main results

* `Renaming.toOption_resolve`: renaming does not change how overrides and defaults are merged.
* `Renaming.Engines.execute`: executing a function and the renamed one.
-/

namespace TensorGraph

open Engine

namespace Renaming

variable {r : Renaming} {e e' : Engine} {f : Function}

/-- Values for renamed nodes. -/
def bindings (r : Renaming) : List (Node × Value) → List (Node × Value) :=
  List.map (Prod.map r.node id)

/-- The function over renamed nodes. -/
def function (r : Renaming) (f : Function) : Function where
  graph := r.number f.graph
  inputs := f.inputs.map r.node
  outputs := f.outputs.map r.node
  updates := f.updates.map r.node
  defaults := r.bindings f.defaults
  phase := f.phase

/-! ## Overrides -/

/-- A renamed node has the last binding of the node. -/
theorem lastBinding?_bindings (bs : List (Node × Value)) (n : Node) :
    Function.lastBinding? (r.bindings bs) (r.node n) = Function.lastBinding? bs n := by
  induction bs with
  | nil => rfl
  | cons b bs ih =>
    rw [bindings, List.map_cons, Function.lastBinding?_cons, Function.lastBinding?_cons, ← ih]
    simp only [Prod.map_fst, Prod.map_snd, node_inj, id]
    rfl

/-- Bindings of other nodes are renamed to bindings of other nodes. -/
theorem filter_bindings (bs : List (Node × Value)) (n : Node) :
    (r.bindings bs).filter (·.1 ≠ r.node n) = r.bindings (bs.filter (·.1 ≠ n)) := by
  rw [bindings, List.filter_map]
  simp [Function.comp_def]

/-- The inputs of a renamed function are resolved alike. -/
theorem toOption_resolveInputs (inputs : List Node) (overrides : List (Node × Value)) :
    ((r.function f).resolveInputs (inputs.map r.node) (r.bindings overrides)).toOption =
      (f.resolveInputs inputs overrides).toOption.map r.bindings := by
  induction inputs generalizing overrides with
  | nil => rfl
  | cons input inputs ih =>
    have hdefault : Function.lastBinding? (r.function f).defaults (r.node input) =
        Function.lastBinding? f.defaults input := lastBinding?_bindings f.defaults input
    -- bindings are found under renamed nodes, as the renaming keeps nodes apart
    rw [List.map_cons, Function.resolveInputs, Function.resolveInputs, lastBinding?_bindings,
      hdefault, filter_bindings]
    cases (Function.lastBinding? overrides input).or (Function.lastBinding? f.defaults input) with
    | none => rfl
    | some v =>
      simp only [toOption_bind, ih]
      cases (f.resolveInputs inputs _).toOption <;> rfl

/-- Renaming does not change how overrides and defaults are merged. -/
theorem toOption_resolve (overrides : List (Node × Value)) :
    ((r.function f).resolve (r.bindings overrides)).toOption =
      (f.resolve overrides).toOption.map r.bindings := by
  -- an override is stray on both sides or on neither
  have hstray : (r.bindings overrides).find? (fun b => b.1 ∉ (r.function f).inputs) =
      (overrides.find? fun b => b.1 ∉ f.inputs).map (Prod.map r.node id) := by
    rw [bindings, List.find?_map]
    refine congrArg _ (congrArg (List.find? · overrides) (funext fun b => ?_))
    have hmem : r.node b.1 ∈ f.inputs.map r.node ↔ b.1 ∈ f.inputs :=
      List.mem_map_of_injective fun _ _ => r.node_inj.1
    exact decide_eq_decide.2 (not_congr hmem)
  unfold Function.resolve
  rw [hstray]
  cases overrides.find? fun b => b.1 ∉ f.inputs with
  | none => exact toOption_resolveInputs f.inputs overrides
  | some b => rfl

/-! ## Runs -/

namespace Engines

variable {excused : Failure → Prop}

/-- A value is checked alike against a renamed node. -/
theorem checkFeed (h : r.Engines e e') (slot slot' : Nat) (n : GraphNode) (value : Value) :
    Concur excused r.Engines (fun _ _ => True) (Engine.checkFeed slot n value e)
      (Engine.checkFeed slot' (n.rename r.slot) value e') := by
  unfold Engine.checkFeed
  dsimp only [GraphNode.rename]
  refine concur_unless h (concur_unless h (concur_unless h ?_))
  split
  · exact .ok trivial (mirroring_engines.report _ _ h)
  · exact .ok trivial h

/-- Renamed feeds are collected into renamed slots. -/
theorem collectFeeds (h : r.Engines e e') (feeds : List (Node × Value))
    {table table' : SlotMap (Tensor Float32)} (htable : r.Carries table table') :
    Concur excused r.Engines r.Carries (Engine.collectFeeds feeds table e)
      (Engine.collectFeeds (r.bindings feeds) table' e') := by
  induction feeds generalizing e e' table table' with
  | nil => exact .ok htable h
  | cons feed feeds ih =>
    refine mirroring_engines.locate h feed.1 fun found _ => ?_
    refine (h.checkFeed _ _ found.2 feed.2).bind fun _ _ _ _ _ _ h => ?_
    exact ih h (htable.insert found.1 _)

/-- Renamed handles are located in renamed slots. -/
theorem mapM_locate (h : r.Engines e e') (handles : List Node) :
    Concur excused r.Engines
      (fun found found' => found' = found.map (Prod.map r.slot (·.rename r.slot)))
      (handles.mapM Engine.locate e) ((handles.map r.node).mapM Engine.locate e') := by
  refine Concur.mapM (fun handle _ _ h => ?_) handles h
  have hlocate : Concur excused r.Engines
      (fun found found' => found' = Prod.map r.slot (·.rename r.slot) found)
      ((Engine.locate handle >>= pure) _) ((Engine.locate (r.node handle) >>= pure) _) :=
    mirroring_engines.locate h handle fun found _ => .ok rfl h
  rwa [bind_pure, bind_pure] at hlocate

/-- A run gives the same values on both engines. -/
theorem run (h : r.Engines e e') (f : Function) (feeds : List (Node × Value)) :
    Concur excused r.Engines (fun values values' => values' = values) (Engine.run f feeds e)
      (Engine.run (r.function f) (r.bindings feeds) e') := by
  have hgraph : (r.function f).graph ≠ e'.graph.id ↔ f.graph ≠ e.graph.id := by
    rw [h.graph.source, h.graph.target]
    exact not_congr r.number_eq_target_iff
  refine mirroring_engines.checkActive h (concur_currentGraph ?_)
  simp only [hgraph]
  refine concur_unless h ((h.collectFeeds feeds carries_empty).bind ?_)
  intro table table' e₁ e₁' _ htable h
  refine (h.mapM_locate f.outputs).bind ?_
  rintro outputs _ e₂ e₂' - rfl h
  refine (h.mapM_locate f.updates).bind ?_
  rintro updates _ e₃ e₃' - rfl h
  have hreport : ∀ record record' : Record, Concur excused r.Engines (fun _ _ => True)
      (Engine.report record e₃) (Engine.report record' e₃') := fun record record' =>
    .ok trivial (mirroring_engines.report _ _ h)
  -- the located nodes are the renamed ones, and so are the slots that are evaluated
  have htargets : ((outputs.map (Prod.map r.slot (·.rename r.slot)) ++
      updates.map (Prod.map r.slot (·.rename r.slot))).map (·.1)) =
      ((outputs ++ updates).map (·.1)).map r.slot := by
    simp [Function.comp_def]
  refine (hreport _ _).bind fun _ _ e₄ e₄' _ _ h => ?_
  rw [htargets]
  refine h.evaluate _ htable fun {s s' ev ev'} hev h => ?_
  rw [hev.assignments]
  refine (h.commit _).bind fun _ _ e₅ e₅' _ _ h => .ok ?_ h
  rw [List.map_map]
  refine List.map_congr_left fun found _ => ?_
  simp only [Function.comp_apply, Prod.map, hev.knows.value]
  rfl

/-- Executing a function gives the same values on both engines. -/
theorem execute (h : r.Engines e e') (f : Function) (overrides : List (Node × Value)) :
    Concur excused r.Engines (fun values values' => values' = values)
      (Engine.execute f overrides e)
      (Engine.execute (r.function f) (r.bindings overrides) e') :=
  concur_lift_bind h (toOption_resolve overrides) fun feeds _ => h.run f feeds

end Engines

end Renaming
end TensorGraph
