import TensorGraph.Proofs.Learning.Mirroring
import TensorGraph.Proofs.Model.Assembling
import TensorGraph.Proofs.Model.Renaming
import TensorGraph.Proofs.Network.Mirroring

/-!
# Compiling models side by side

The layers, the targets and the losses of a model can be compiled on two engines, as long as nothing
has been appended to only one of them. Once metrics have been appended to the second engine, the
updates can still be, and the functions are bound over nodes that belong together.

## Main definitions

* `Renaming.goal`: the targets and losses of a model, when they are renamed.

## Main results

* `Model.concur_compileEnds`: compiling the inputs and outputs of a model in two workspaces.
* `Model.mirrors_compileGoal`: compiling targets and losses.
* `Model.exists_conclude`: appending the updates and binding the functions.
-/

namespace TensorGraph

open Engine

namespace Renaming

variable {r : Renaming} {e e' : Engine}

/-! ## Functions -/

section Functions

variable {rel : Engine → Engine → Prop} (hrel : r.Mirroring rel)
include hrel

/-- The check of an input is mirrored. -/
private theorem mirrors_checkInput (handle : Node) :
    Mirrors rel id (checkInput handle) (checkInput (r.node handle)) := by
  refine fun e e' h => hrel.locate h handle fun found _ => ?_
  dsimp only [GraphNode.rename]
  rw [Op.isPlaceholder_rename]
  split
  · exact .error h
  · exact .ok rfl h

/-- The check of an update is mirrored. -/
private theorem mirrors_checkUpdate (handle : Node) :
    Mirrors rel id (checkUpdate handle) (checkUpdate (r.node handle)) := by
  refine fun e e' h => hrel.locate h handle fun found _ => ?_
  dsimp only [GraphNode.rename]
  rw [Op.isUpdate_rename]
  split
  · exact .error h
  · exact .ok rfl h

private theorem mirrors_checkOutput (handle : Node) :
    Mirrors rel id (discard (locate handle)) (discard (locate (r.node handle))) := by
  rw [discard_eq_bind, discard_eq_bind]
  exact fun e e' h => hrel.locate h handle fun found _ => .ok rfl h

/-- Binding a function over renamed nodes gives the renamed function. -/
theorem Mirroring.function (inputs outputs updates : List Node) :
    Mirrors rel r.function (Engine.function inputs outputs updates)
      (Engine.function (inputs.map r.node) (outputs.map r.node) (updates.map r.node)) := by
  refine fun e e' h => hrel.checkActive h ?_
  refine (Mirrors.forM (mirrors_checkInput hrel) inputs _ _ h).bind fun _ _ e₁ e₁' _ _ h => ?_
  refine (Mirrors.forM (mirrors_checkOutput hrel) outputs _ _ h).bind fun _ _ e₂ e₂' _ _ h => ?_
  refine (Mirrors.forM (mirrors_checkUpdate hrel) updates _ _ h).bind fun _ _ e₃ e₃' _ _ h => ?_
  refine .ok ?_ h
  have hgraph := hrel.graph h
  rw [hgraph.source, hgraph.target, ← r.number_source]
  rfl

end Functions

/-! ## Goals -/

/-- An output with its target, when they are renamed. -/
def pairing (r : Renaming) (p : Model.Pairing) : Model.Pairing :=
  ⟨p.name, r.node p.output, r.node p.target⟩

/-- The targets and losses of a model, when they are renamed. -/
def goal (r : Renaming) (goal : Model.Goal) : Model.Goal :=
  ⟨goal.targets.map r.node, goal.pairs.map r.pairing, goal.losses.map r.node,
    r.node goal.objective⟩

end Renaming

namespace Model

open Renaming

variable {r : Renaming} {rel : Engine → Engine → Prop} {m : Model} {e e' : Engine}

/-- Renamed outputs and targets are paired like the others. -/
theorem pairings_map (m : Model) (rows : List (LayerId × Node × Node)) :
    m.pairings (rows.map (Prod.map id (Prod.map r.node r.node))) =
      (m.pairings rows).map (List.map r.pairing) := by
  induction rows with
  | nil => rfl
  | cons row rows ih =>
    obtain ⟨layer, output, target⟩ := row
    simp only [List.map_cons, Prod.map, id, pairings] at ih ⊢
    rw [ih]
    cases m.network.name layer with
    | error err => rfl
    | ok name => cases m.pairings rows <;> rfl

section Goal

variable (hrel : r.Mirroring rel)
include hrel

/-- The losses of a model are mirrored. -/
theorem mirrors_compileLosses (m : Model) (pairs : List Pairing) :
    Mirrors rel (List.map r.node) (m.compileLosses pairs)
      (m.compileLosses (pairs.map r.pairing)) := by
  unfold compileLosses
  rw [List.zip_map_right]
  exact .mapM (fun row => row.1.mirrors_compile hrel _ _ _) _

variable (hid : ∀ s, r.slot s = s)
include hid

/-- The target of an output is mirrored. -/
theorem mirrors_compileTarget (m : Model) (layer : LayerId) (output : Node) :
    Mirrors rel r.node (m.compileTarget layer output) (m.compileTarget layer (r.node output)) := by
  have hname : Mirrors rel id (lift (m.network.name layer)) (lift (m.network.name layer)) :=
    .lift (by rw [Option.map_id, id])
  exact (hrel.shape output).bind fun shape => hname.bind fun name =>
    hrel.placeholder hid (name ++ "_Target") shape

/-- The same targets and losses, when nothing has been appended to only one of the graphs. -/
theorem mirrors_compileGoal (m : Model) (outputs : List Node) :
    Mirrors rel r.goal (m.compileGoal outputs) (m.compileGoal (outputs.map r.node)) := by
  unfold compileGoal
  rw [List.zip_map_right]
  refine (Mirrors.mapM (fun row : LayerId × Node =>
    mirrors_compileTarget hrel hid m row.1 row.2) _).bind fun targets => ?_
  -- renaming the outputs and the targets renames the rows
  have hrows : m.outputs.zip ((outputs.map r.node).zip (targets.map r.node)) =
      (m.outputs.zip (outputs.zip targets)).map (Prod.map id (Prod.map r.node r.node)) := by
    rw [List.zip_map, List.zip_map_right]
  have hpairs : Mirrors rel (List.map r.pairing)
      (lift (m.pairings (m.outputs.zip (outputs.zip targets))))
      (lift (m.pairings (m.outputs.zip ((outputs.map r.node).zip (targets.map r.node))))) := by
    refine .lift ?_
    rw [hrows, pairings_map]
    cases m.pairings (m.outputs.zip (outputs.zip targets)) <;> rfl
  refine hpairs.bind fun pairs => (mirrors_compileLosses hrel m pairs).bind fun losses =>
    (mirrors_aggregate hrel losses).bind fun objective => ?_
  exact (hrel.reporting _ _).bind fun _ =>
    .pure (⟨targets, pairs, losses, objective⟩ : Goal)

end Goal

/-! ## Layers -/

variable {w w' : Workspace}

/-- Layers compile alike in workspaces that belong together. -/
theorem concur_compileLayers (hid : ∀ s, r.slot s = s) (hn : m.network.Repeatable)
    (ids : List LayerId) (h : r.Workspaces w w') :
    Concur Failure.NameTaken r.Workspaces (fun ns ns' => ns' = ns.map r.node)
      (m.compileLayers ids w) (m.compileLayers ids w') := by
  have hlayer : ∀ (layer : LayerId) (w w' : Workspace), r.Workspaces w w' →
      Concur Failure.NameTaken r.Workspaces (fun a a' => a' = r.node a)
        (m.network.compileLayer layer w) (m.network.compileLayer (id layer) w') :=
    fun layer _ _ h => Network.concur_compileWithin hid hn _ layer h
  have hlayers := Concur.mapM hlayer ids h
  rwa [List.map_id] at hlayers

/-- The inputs and the outputs of a model compile alike. -/
theorem concur_compileEnds (hid : ∀ s, r.slot s = s) (hn : m.network.Repeatable)
    (h : r.Workspaces w w') :
    Concur Failure.NameTaken r.Workspaces
      (fun ends ends' => ends' = Prod.map (List.map r.node) (List.map r.node) ends)
      (m.compileEnds w) (m.compileEnds w') := by
  refine (concur_compileLayers hid hn m.inputs h).bind ?_
  rintro inputs _ w₁ w₁' - rfl h
  refine (concur_compileLayers hid hn m.outputs h).bind ?_
  rintro outputs _ w₂ w₂' - rfl h
  exact .ok rfl h

/-! ## Programs -/

/-- Where a function over more outputs is bound, one over fewer of them is, too. -/
theorem exists_function_of_append {inputs outputs more updates : List Node} {f : Function}
    {e₁ : Engine} (h : function inputs (outputs ++ more) updates e = .ok f e₁) :
    ∃ f, function inputs outputs updates e = .ok f e := by
  obtain ⟨_, e₂, hactive, h⟩ := bind_eq_ok_iff.1 h
  obtain rfl := (keeps_checkActive e).of_eq_ok hactive
  obtain ⟨_, e₃, hinputs, h⟩ := bind_eq_ok_iff.1 h
  obtain rfl := (Keeps.forM keeps_checkInput inputs e).of_eq_ok hinputs
  obtain ⟨_, e₄, hboth, h⟩ := bind_eq_ok_iff.1 h
  have hlocate : ∀ n, Keeps Eq (discard (locate n)) := fun n => (keeps_locate n).discard
  -- looking up all outputs is looking up the first ones and then the rest
  have hsplit : (outputs ++ more).forM (fun n => discard (locate n)) =
      outputs.forM (fun n => discard (locate n)) >>= fun _ =>
        more.forM fun n => discard (locate n) := List.forM_append
  rw [hsplit] at hboth
  obtain ⟨_, e₅, houtputs, hmore⟩ := bind_eq_ok_iff.1 hboth
  obtain rfl := (Keeps.forM hlocate outputs e).of_eq_ok houtputs
  obtain rfl := (Keeps.forM hlocate more e).of_eq_ok hmore
  obtain ⟨_, e₅, hupdates, -⟩ := bind_eq_ok_iff.1 h
  obtain rfl := (Keeps.forM keeps_checkUpdate updates e).of_eq_ok hupdates
  refine ⟨.ofNodes e.graph.id inputs outputs updates, ?_⟩
  exact bind_eq_ok_iff.2 ⟨_, _, hactive, bind_eq_ok_iff.2 ⟨_, _, hinputs, bind_eq_ok_iff.2
    ⟨_, _, houtputs, bind_eq_ok_iff.2 ⟨_, _, hupdates, rfl⟩⟩⟩⟩

/-- What follows the metrics is done when the updates can be appended and the functions bound. -/
theorem conclude_eq_ok_iff {inputs outputs metrics : List Node} {goal : Goal} {p : Program}
    {e₁ : Engine} : m.conclude inputs outputs goal metrics e = .ok p e₁ ↔
      ∃ updates trained f g k,
        m.descent.compile goal.objective e.trainableWeights e = .ok updates trained ∧
        function (inputs ++ goal.targets) (outputs ++ goal.losses) updates trained =
          .ok f trained ∧
        function inputs outputs [] trained = .ok g trained ∧
        function (inputs ++ goal.targets) (goal.losses ++ metrics) [] trained = .ok k trained ∧
        report (.compiledModel inputs.length outputs.length e.trainableWeights.length) trained =
          .ok () e₁ ∧
        p = ⟨inputs, outputs, goal.targets, goal.losses, metrics, goal.objective,
          f.withPhase .train, g, k⟩ := by
  constructor
  · intro h
    unfold conclude at h
    simp only [bind_eq_ok_iff] at h
    obtain ⟨_, _, hget, updates, trained, hupdates, f, _, hf, g, _, hg, k, _, hk, _, _, hreport,
      hp⟩ := h
    cases hget
    -- binding a function leaves the engine as it is
    obtain ⟨rfl, -⟩ := (leads_function _ _ _).of_eq_ok hf
    obtain ⟨rfl, -⟩ := (leads_function _ _ _).of_eq_ok hg
    obtain ⟨rfl, -⟩ := (leads_function _ _ _).of_eq_ok hk
    cases hp
    exact ⟨updates, _, f, g, k, hupdates, hf, hg, hk, hreport, rfl⟩
  · rintro ⟨updates, trained, f, g, k, hupdates, hf, hg, hk, hreport, rfl⟩
    unfold conclude
    simp only [bind_eq_ok_iff]
    exact ⟨e, e, rfl, updates, trained, hupdates, f, _, hf, g, _, hg, k, _, hk, _, _, hreport,
      rfl⟩

/-- What follows the metrics can be done without the metrics, on an engine that holds the same in
slots that have not been renamed. -/
theorem exists_conclude {inputs outputs metrics : List Node} {goal : Goal} {p' : Program}
    {e₁' : Engine} (h : r.Engines e e')
    (hweights : e'.trainableWeights = e.trainableWeights.map r.node)
    (hconclude : m.conclude (inputs.map r.node) (outputs.map r.node) (r.goal goal) metrics e' =
      .ok p' e₁') :
    ∃ p e₁, m.conclude inputs outputs goal [] e = .ok p e₁ ∧ r.Programs p p' ∧
      r.Engines e₁ e₁' := by
  have hrel := @mirroring_engines r
  obtain ⟨_, trained', f', g', k', hupdates', hf', hg', hk', hreport', rfl⟩ :=
    conclude_eq_ok_iff.1 hconclude
  simp only [hweights, Renaming.goal, ← List.map_append] at hupdates' hf' hk'
  obtain ⟨updates, trained, hupdates, rfl, h⟩ :=
    (m.descent.mirrors_compile goal.objective e.trainableWeights).exists_left h hupdates'
  have hbind : ∀ (inputs outputs updates : List Node) {f' : Function},
      function (inputs.map r.node) (outputs.map r.node) (updates.map r.node) trained' =
        .ok f' trained' →
      ∃ f, function inputs outputs updates trained = .ok f trained ∧ f' = r.function f := by
    intro inputs outputs updates f' hf'
    obtain ⟨f, _, hf, hfunction, -⟩ := (hrel.function inputs outputs updates).exists_left h hf'
    obtain ⟨rfl, -⟩ := (leads_function _ _ _).of_eq_ok hf
    exact ⟨f, hf, hfunction⟩
  obtain ⟨f, hf, rfl⟩ := hbind _ _ _ hf'
  obtain ⟨g, hg, rfl⟩ := hbind _ _ [] hg'
  -- where the losses and the metrics can be read, the losses can be read alone
  obtain ⟨_, hlosses⟩ := exists_function_of_append hk'
  obtain ⟨k, hk, -⟩ := hbind _ _ [] hlosses
  cases hreport'
  refine ⟨_, _, conclude_eq_ok_iff.2 ⟨updates, trained, f, g, k, hupdates, hf, hg, ?_, rfl, rfl⟩,
    ⟨rfl, rfl, rfl, rfl, rfl, rfl⟩, hrel.report _ _ h⟩
  rwa [List.append_nil]

end Model
end TensorGraph
