import TensorGraph.Proofs.Model.Assembling
import TensorGraph.Proofs.Model.Predicting
import TensorGraph.Proofs.Model.Training

/-!
# The targets of a compiled model

The target of an output is the placeholder under the name of the output with a suffix. Losses are
named in the same way, and their names must be free, so no two outputs share a name: the targets of
a compiled model differ. An input layer may well have the name of a target, though. Asking for the
target then gives the input back, and the model, which compiles, can neither be trained nor scored.

## Main definitions

* `Model.Targeted`: the targets of some outputs in a graph, by the names of the outputs.

## Main results

* `Model.exists_targeted`: the targets of a compiled model.
* `Model.targets_own_unless_input_named_alike`: a target is an input exactly when the two have the
  same name.
-/

namespace TensorGraph

open Engine

variable {n : Network} {m : Model} {p : Program} {e e' e₀ e₁ : Engine} {g g' : Graph}
  {ids : List LayerId} {names : List String} {outputs targets : List Node}

/-- Nodes that have names are the same when their names are. -/
theorem Graph.Holds.eq_iff_name_eq (hg : g.Named) {a b : Node} {k k' : GraphNode}
    (ha : g.Holds a k) (hb : g.Holds b k') (hname : k.name.isSome) : a = b ↔ k.name = k'.name := by
  constructor
  · rintro rfl
    rw [Option.some.inj (ha.2.symm.trans hb.2)]
  · intro heq
    have hindex := hg.slot_eq ha.2 hb.2 hname heq
    obtain ⟨graph, index⟩ := a
    obtain ⟨graph', index'⟩ := b
    exact congrArg₂ Node.mk (ha.1.trans hb.1.symm) hindex

theorem Network.name_eq_ok_iff {id : LayerId} {name : String} :
    n.name id = .ok name ↔ ∃ named, n.layer? id = some named ∧ named.name = name := by
  rw [Network.name, except_map_eq_ok_iff]
  simp only [layer_eq_ok_iff]

namespace Model

/-- What the counts of an accepted model are. -/
structure Counts (m : Model) : Prop where
  inputs : m.inputs ≠ []
  outputs : m.outputs ≠ []
  losses : m.losses.length = m.outputs.length
  metrics : m.metrics = [] ∨ m.metrics.length = m.outputs.length

/-- A model that is accepted has an input and an output, a loss for every output, and a metric for
every output if it has metrics. -/
theorem counts_of_create {inputs outputs : List LayerId} {losses : List Loss} {descent : Descent}
    {metrics : List Metric}
    (h : Model.create n inputs outputs losses descent metrics = .ok m) : m.Counts := by
  obtain ⟨rfl, -⟩ := create_eq_ok h
  unfold create at h
  simp only [unless_throw_eq_ok_iff] at h
  obtain ⟨hinputs, houtputs, hlosses, hmetrics, -⟩ := h
  refine ⟨by simpa using hinputs, by simpa using houtputs, not_not.1 hlosses, ?_⟩
  by_cases hnone : metrics = []
  · exact .inl hnone
  · exact .inr (by simpa [hnone] using hmetrics)

/-! ## Asking for the targets -/

/-- The targets of some outputs: placeholders under the names of the outputs with a suffix. -/
def Targeted (g : Graph) (names : List String) (targets : List Node) : Prop :=
  List.Forall₂ (fun name target => ∃ shape,
    g.Holds target ⟨.placeholder, shape, .f32, some (name ++ "_Target")⟩) names targets

theorem Targeted.extend (h : Targeted g names targets) (hg : g.Extends g') :
    Targeted g' names targets :=
  h.imp fun _ _ ⟨shape, hholds⟩ => ⟨shape, hholds.extend hg⟩

/-- The target of an output is a placeholder of the shape of its node. -/
theorem leads_compileTarget (hsound : e.Sound) (m : Model) (id : LayerId) (output : Node) :
    Leads (m.compileTarget id output) e (fun _ => True) fun target e' => Changes e e' ∧
      ∃ name found, m.network.name id = .ok name ∧ Located e.graph output found ∧
        e'.graph.Holds target ⟨.placeholder, found.2.shape, .f32, some (name ++ "_Target")⟩ := by
  refine leads_bind_iff.2 (leads_checkActive trivial fun _ => leads_located trivial
    fun found hfound => leads_pure (leads_lift trivial fun name hname => ?_))
  refine (leads_placeholder_holds hsound _ _).mono ?_
  rintro target e' ⟨hadvances, hholds⟩
  exact ⟨hadvances.changes, name, found, hname, hfound, hholds⟩

/-- The targets of outputs, asked for one after the other. -/
theorem leads_compileTargets (hsound : e.Sound) (m : Model) (rows : List (LayerId × Node)) :
    Leads (rows.mapM fun (id, output) => m.compileTarget id output) e (fun _ => True)
      fun targets e' => Changes e e' ∧ ∃ names,
        List.Forall₂ (fun row name => m.network.name row.1 = .ok name) rows names ∧
          Targeted e'.graph names targets := by
  induction rows generalizing e with
  | nil => exact leads_pure ⟨.refl, [], .nil, .nil⟩
  | cons row rows ih =>
    rw [List.mapM_cons]
    refine leads_bind_iff.2 ((leads_compileTarget hsound m row.1 row.2).mono ?_)
    rintro target e₁ ⟨hfirst, name, found, hname, -, hholds⟩
    refine leads_bind_iff.2 ((ih (hfirst.sound hsound)).mono ?_)
    rintro targets e' ⟨hrest, names, hnames, htargets⟩
    -- later targets only extend the graph that holds the first one
    exact leads_pure ⟨hfirst.trans hrest, name :: names, .cons hname hnames,
      .cons ⟨_, hholds.extend hrest.extends⟩ htargets⟩

/-- The outputs are paired with their targets under their names. -/
theorem forall₂_of_pairings {rows : List (LayerId × Node × Node)} {pairs : List Pairing}
    (h : m.pairings rows = .ok pairs) : List.Forall₂ (fun row pair =>
      m.network.name row.1 = .ok pair.name ∧ row.2 = (pair.output, pair.target)) rows pairs := by
  induction rows generalizing pairs with
  | nil =>
    cases h
    exact .nil
  | cons row rows ih =>
    obtain ⟨name, hname, h⟩ := except_bind_eq_ok_iff.1 h
    obtain ⟨rest, hrest, h⟩ := except_bind_eq_ok_iff.1 h
    cases h
    exact .cons ⟨hname, rfl⟩ (ih hrest)

/-- Every output has a target, with which it is paired. -/
theorem Assembly.lengths {pairs : List Pairing} {updates : List Node}
    {targeted lost summed scored trained : Engine}
    (h : m.Assembly e p pairs updates targeted lost summed scored trained e') (hsound : e.Sound)
    (hnodes : m.outputs.length = p.outputs.length) :
    p.targets.length = m.outputs.length ∧ pairs.length = m.outputs.length := by
  obtain ⟨-, names, hnames, htargets⟩ := (leads_compileTargets hsound m _).of_eq_ok h.targets
  have hcount : p.targets.length = m.outputs.length := by
    rw [← htargets.length_eq, ← hnames.length_eq, List.length_zip, ← hnodes, Nat.min_self]
  refine ⟨hcount, ?_⟩
  rw [← (forall₂_of_pairings h.paired).length_eq, List.length_zip, List.length_zip, ← hnodes,
    hcount, Nat.min_self, Nat.min_self]

/-- The targets of a compiled model are named after the outputs, whose names differ. -/
theorem exists_targeted (hfed : m.network.WellFed) (hcounts : m.Counts) (hsound : e.Sound)
    (h : m.compile e = .ok p e') : ∃ names,
      List.Forall₂ (fun id name => m.network.name id = .ok name) m.outputs names ∧ names.Nodup ∧
        Targeted e'.graph names p.targets := by
  obtain ⟨_, -, -, houtputs⟩ := exists_chronicle hfed hsound h
  obtain ⟨inputs, outputs, w, hends, hassemble, -⟩ := exists_assembled h
  obtain ⟨rfl, rfl, pairs, updates, targeted, lost, summed, scored, trained, hassembly⟩ :=
    exists_assembly hassemble
  have hsound₁ := keeping_compileEnds buildable_sound m _ _ _ hsound hends
  obtain ⟨-, names, hnames, htargets⟩ :=
    (leads_compileTargets hsound₁ m _).of_eq_ok hassembly.targets
  have hpairs := forall₂_of_pairings hassembly.paired
  -- every output has a node, a target and a loss
  have hnodes : m.outputs.length = p.outputs.length := houtputs.length_eq
  obtain ⟨htargetCount, hpairCount⟩ := hassembly.lengths hsound₁ hnodes
  have htargetRows : (p.outputs.zip p.targets).length = m.outputs.length := by
    rw [List.length_zip, ← hnodes, htargetCount, Nat.min_self]
  have hnames' : List.Forall₂ (fun id name => m.network.name id = .ok name) m.outputs names := by
    rw [← List.map_fst_zip (Nat.le_of_eq hnodes), List.forall₂_map_left_iff]
    exact hnames
  have hpairNames : List.Forall₂ (fun id name => m.network.name id = .ok name) m.outputs
      (pairs.map (·.name)) := by
    rw [← List.map_fst_zip (Nat.le_of_eq htargetRows.symm), List.forall₂_map_left_iff,
      List.forall₂_map_right_iff]
    exact hpairs.imp fun _ _ h => h.1
  -- the names of the losses have been free one after the other
  have hunique : Relator.RightUnique fun id name => m.network.name id = .ok name :=
    fun _ _ _ h h' => Except.ok.inj (h.symm.trans h')
  obtain rfl : names = pairs.map (·.name) :=
    List.right_unique_forall₂' hunique hnames' hpairNames
  refine ⟨_, hnames', ?_, htargets.extend ?_⟩
  · have hlosses := (padded_compileLosses hassembly.losses).2
    have hsplit : (m.losses.zip pairs).map (fun row => row.2.name ++ "_Loss") =
        (pairs.map (·.name)).map (· ++ "_Loss") := by
      have hlosses : pairs.length = m.losses.length := hpairCount.trans hcounts.losses.symm
      conv_rhs => rw [← List.map_snd_zip (Nat.le_of_eq hlosses), List.map_map, List.map_map]
      rfl
    rw [hsplit] at hlosses
    exact hlosses.of_map _
  · have hscored := hassembly.changes_scored hsound₁
    exact hassembly.padded_scored.changes.extends.trans
      (hassembly.changes_of_scored (hscored.sound hsound₁)).extends

/-- Every name has one target, which is that of no other name. -/
theorem biUnique_targeted (hg : g.Named) : Relator.BiUnique fun (name : String) (target : Node) =>
    ∃ shape, g.Holds target ⟨.placeholder, shape, .f32, some (name ++ "_Target")⟩ := by
  constructor
  · rintro name name' target ⟨shape, hholds⟩ ⟨shape', hholds'⟩
    simpa using (hholds.eq_iff_name_eq hg hholds' rfl).1 rfl
  · rintro name target target' ⟨shape, hholds⟩ ⟨shape', hholds'⟩
    exact (hholds.eq_iff_name_eq hg hholds' rfl).2 rfl

/-- A program on which a batch has been scored has no input or target twice. -/
theorem nodup_of_evaluate {features values : List Value} {scores : Scores} (hreads : p.Reads g)
    (h : p.evaluate features values e = .ok scores e') : (p.inputs ++ p.targets).Nodup := by
  obtain ⟨feeds, e₁, -, h⟩ := bind_eq_ok_iff.1 h
  obtain ⟨results, e₂, hexecute, -⟩ := bind_eq_ok_iff.1 h
  obtain ⟨bound, s, ev, hresolve, -⟩ := (leads_execute _ _).of_eq_ok hexecute
  rw [hreads.evaluateFunction] at hresolve
  exact Function.nodup_of_resolve rfl hresolve

theorem nodup_of_trainBatch {features values losses : List Value} (hreads : p.Reads g)
    (h : p.trainBatch features values e = .ok losses e') : (p.inputs ++ p.targets).Nodup := by
  obtain ⟨updates, -, htrain⟩ := hreads.trainFunction
  obtain ⟨-, hnodup, -⟩ :=
    Program.exists_ran_of_trainBatch (by rw [htrain]; rfl) (by rw [htrain]; rfl) h
  rwa [htrain] at hnodup

/-- The targets of a compiled model are its own unless an input layer is named like one. They differ
from each other, and a target is the node of an input exactly when the input layer has the name of
the target. A batch can be trained on or scored only when that is not so. -/
theorem targets_own_unless_input_named_alike {inputs outputs : List LayerId} {losses : List Loss}
    {descent : Descent} {metrics : List Metric} (hgrown : n.Grown)
    (hcreate : Model.create n inputs outputs losses descent metrics = .ok m)
    (hreachable : e₀.Reachable) (hcompile : m.compile e₀ = .ok p e₁) :
    p.targets.Nodup ∧
    List.Forall₂ (fun id input => List.Forall₂ (fun output target => input = target ↔
        ∃ name, n.name output = .ok name ∧ n.name id = .ok (name ++ "_Target"))
      outputs p.targets) inputs p.inputs ∧
    ∀ e features values, gives (p.trainBatch features values) e ∨
      gives (p.evaluate features values) e → (p.inputs ++ p.targets).Nodup := by
  have hcounts := counts_of_create hcreate
  obtain ⟨rfl, -⟩ := create_eq_ok hcreate
  have hfed := hgrown.wellFed
  have hnamed₁ := (sound_of_compile hreachable.sound hcompile).indexed.toNamed
  have hreads := reads_of_compile hreachable.sound hcompile
  obtain ⟨names, hnames, hnodup, htargets⟩ :=
    exists_targeted hfed hcounts hreachable.sound hcompile
  obtain ⟨made, hchronicle, hfinds, -⟩ := exists_chronicle hfed hreachable.sound hcompile
  refine ⟨(List.rel_nodup (biUnique_targeted hnamed₁) htargets).1 hnodup, ?_, ?_⟩
  · refine forall₂_of_finds hfinds fun id _ b hb => ?_
    obtain ⟨named, hnamed, _, -, hrealizes⟩ := hchronicle.exists_layer hb
    obtain ⟨op, hholds⟩ := hrealizes.exists_holds
    refine forall₂_compose hnames htargets ?_
    rintro output name target - hname ⟨shape, htarget⟩
    -- nodes of a graph without repeated names are the same when their names are
    rw [hholds.eq_iff_name_eq hnamed₁ htarget rfl]
    constructor
    · intro hsame
      exact ⟨name, hname, Network.name_eq_ok_iff.2 ⟨named, hnamed, Option.some.inj hsame⟩⟩
    · rintro ⟨name', hname', hid⟩
      obtain ⟨named', hnamed', hsame⟩ := Network.name_eq_ok_iff.1 hid
      obtain rfl := Except.ok.inj (hname.symm.trans hname')
      obtain rfl := Option.some.inj (hnamed.symm.trans hnamed')
      exact congrArg some hsame
  · rintro e features values (hgives | hgives)
    · obtain ⟨losses, e', htrain⟩ := exists_of_gives hgives
      exact nodup_of_trainBatch hreads htrain
    · obtain ⟨scores, e', hevaluate⟩ := exists_of_gives hgives
      exact nodup_of_evaluate hreads hevaluate

/-- The targets of a model whose input has another name are none of its inputs. -/
theorem chained_targets_own : ∃ p e, createChained [⟨0, 0⟩] = .ok (chainedModel [⟨0, 0⟩]) ∧
    (chainedModel [⟨0, 0⟩]).compile (.create 0 0) = .ok p e ∧ p.targets.Nodup ∧
    ∀ input ∈ p.inputs, input ∉ p.targets := by
  have hcreate : createChained [⟨0, 0⟩] = .ok (chainedModel [⟨0, 0⟩]) := rfl
  obtain ⟨p, e, hcompile⟩ := exists_of_gives (c := (chainedModel [⟨0, 0⟩]).compile)
    (e := .create 0 0) (by decide +kernel)
  obtain ⟨hnodup, hsame, -⟩ :=
    targets_own_unless_input_named_alike grown_chained hcreate (.create 0 0) hcompile
  refine ⟨p, e, hcreate, hcompile, hnodup, fun input hinput htarget => ?_⟩
  obtain ⟨i, hi⟩ := List.getElem?_of_mem hinput
  obtain ⟨id, hid, hrow⟩ := exists_of_forall₂ (List.Forall₂.flip hsame) hi
  obtain ⟨j, hj⟩ := List.getElem?_of_mem htarget
  obtain ⟨output, houtput, hiff⟩ := exists_of_forall₂ (List.Forall₂.flip hrow) hj
  obtain ⟨name, -, hname⟩ := hiff.1 rfl
  -- the input layer is named by a single letter
  obtain rfl : id = ⟨0, 0⟩ := by simpa using List.mem_of_getElem? hid
  have hx : (Workshop.chained 3).name ⟨0, 0⟩ = .ok "x" := rfl
  have hlength := congrArg String.length (Except.ok.inj (hx.symm.trans hname))
  have hshort : "x".length < "_Target".length := by decide +kernel
  rw [String.length_append] at hlength
  omega

/-- An input layer with the name of the target of the dense layer on it. -/
def clashingLayers : List Layer :=
  [.input (.singles (some "y_Target")),
    .dense (.ones 1 (some .linear) (some "y") Nat.one_pos) ⟨0, 0⟩]

/-- A model over these two layers. -/
def clashingModel : Model where
  network := ⟨0, (List.zipWith NamedLayer.mk ["y_Target", "y"] clashingLayers).toArray⟩
  inputs := [⟨0, 0⟩]
  outputs := [⟨0, 1⟩]
  losses := [.meanSquaredError]
  descent := .halfRate
  metrics := []

/-- The model is accepted and compiles on a fresh engine, and its target is its input. -/
theorem clashing_target_is_input : ∃ p e,
    create clashingModel.network [⟨0, 0⟩] [⟨0, 1⟩] [.meanSquaredError] clashingModel.descent [] =
      .ok clashingModel ∧
    clashingModel.compile (.create 0 0) = .ok p e ∧ p.targets = p.inputs := by
  obtain ⟨p, e, hcompile, hsame⟩ := exists_of_answer (c := clashingModel.compile)
    (e := .create 0 0) (f := fun p => decide (p.targets = p.inputs)) (b := true) (by decide +kernel)
  exact ⟨p, e, rfl, hcompile, of_decide_eq_true hsame⟩

end Model
end TensorGraph
