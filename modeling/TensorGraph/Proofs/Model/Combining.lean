import TensorGraph.Proofs.Model.Concluding

/-!
# Combining the outputs of several models

A network may be trained for one output, or for several at once. When every output can be trained
alone, training them together is refused in one case only: two of them have cross entropies of
probabilities, which are declared with one number for every entry, and have different widths,
neither of which is one. Then no declared shape holds the sum of the losses.

## Main definitions

* `Model.IsPart`: a model of one of several outputs.

## Main results

* `Model.IsPart.accepted`: what compiling a model of one output shows about its loss.
* `Model.combines_iff`: when models of one output can be combined.
-/

namespace TensorGraph

open Engine Network

namespace Model

variable {n : Network} {m s : Model} {e e' : Engine} {p : Program} {row : LayerId × Loss}

/-- A model over a network with one output and its loss. -/
structure IsPart (n : Network) (row : LayerId × Loss) (s : Model) : Prop where
  network : s.network = n
  outputs : s.outputs = [row.1]
  losses : s.losses = [row.2]

namespace IsPart

/-- A model of one output is compiled only if its loss is accepted. -/
theorem accepted (hpart : IsPart n row s) (h : s.compile e = .ok p e') : row.2.Accepted := by
  obtain ⟨_, outputs, w, goal, aimed, _, _, hends, hgoal, -, -⟩ := compile_eq_ok_iff.1 h
  obtain ⟨_, _, -, hends⟩ := bind_eq_ok_iff.1 hends
  obtain ⟨_, _, houtputs, hends⟩ := bind_eq_ok_iff.1 hends
  cases hends
  -- each stage has a list of one output to go through, so the one loss is compiled with it
  rw [compileLayers, hpart.outputs] at houtputs
  obtain ⟨output, -, rfl⟩ := mapM_singleton_eq_ok_iff.1 houtputs
  rw [compileGoal, hpart.outputs] at hgoal
  obtain ⟨targets, _, htargets, hgoal⟩ := bind_eq_ok_iff.1 hgoal
  obtain ⟨target, -, rfl⟩ := mapM_singleton_eq_ok_iff.1 htargets
  obtain ⟨pairs, hpairs, hgoal⟩ := lift_bind_eq_ok_iff.1 hgoal
  obtain ⟨name, -, hpairs⟩ := except_bind_eq_ok_iff.1 hpairs
  cases hpairs
  obtain ⟨losses, _, hlosses, -⟩ := bind_eq_ok_iff.1 hgoal
  rw [compileLosses, hpart.losses] at hlosses
  obtain ⟨loss, hloss, -⟩ := mapM_singleton_eq_ok_iff.1 hlosses
  exact Loss.accepted_of_compile hloss

/-- A model that is compiled on all fresh engines has layers that can be compiled at every place. -/
theorem available (hpart : IsPart n row s) (hfed : n.WellFed)
    (hplain : ∀ {id : LayerId} {named : NamedLayer}, n.layer? id = some named → Plain named.name)
    (h : ∀ entropy, ∃ p e', s.compile (.create 0 entropy) = .ok p e') :
    ∀ id ∈ s.inputs ++ s.outputs, n.Available id := by
  obtain ⟨rfl, -, -⟩ := hpart
  refine available_of_compileEnds hfed hplain 0 fun entropy => ?_
  obtain ⟨p, e', hcompile⟩ := h entropy
  obtain ⟨inputs, outputs, w, _, _, _, _, hends, -⟩ := compile_eq_ok_iff.1 hcompile
  exact ⟨_, _, hends⟩

end IsPart

/-- When every output of a model over generated names can be trained alone on every fresh engine,
the model is compiled on a fresh engine in all cases but one: two outputs have cross entropies of
probabilities and different widths, neither of which is one. -/
theorem combines_iff {inputs outputs : List LayerId} {losses : List Loss} {descent : Descent}
    {parts : List Model} (hgrown : n.Grown)
    (hnames : ∀ {id : LayerId} {named : NamedLayer}, n.layer? id = some named →
      named.layer.requestedName? = none)
    (hcreate : create n inputs outputs losses descent [] = .ok m) (hdistinct : outputs.Nodup)
    (hparts : List.Forall₂ (IsPart n) (outputs.zip losses) parts)
    (hinputs : ∀ id ∈ inputs, ∃ s ∈ parts, id ∈ s.inputs)
    (hcompile : ∀ s ∈ parts, ∀ number entropy,
      ∃ p e', s.compile (.create number entropy) = .ok p e')
    (number : Nat) (entropy : UInt64) :
    (∃ p e', m.compile (.create number entropy) = .ok p e') ↔ m.Agrees := by
  have hcounts := counts_of_create hcreate
  obtain ⟨rfl, hsources, -⟩ := create_eq_ok hcreate
  have hfed := hgrown.wellFed
  have hplain : ∀ {id : LayerId} {named : NamedLayer}, n.layer? id = some named →
      Plain named.name := fun hid => hgrown.plain hnames hid
  -- every row has its part, and every part has its row
  have hrows : ∀ row ∈ outputs.zip losses, ∃ s ∈ parts, IsPart n row s := fun _ hrow =>
    exists_mem_of_forall₂ hparts hrow
  have hmodels : ∀ s ∈ parts, ∀ id ∈ s.inputs ++ s.outputs, n.Available id := fun s hs => by
    obtain ⟨row, -, hpart⟩ := exists_mem_of_forall₂ hparts.flip hs
    exact hpart.available hfed hplain (hcompile s hs 0)
  refine exists_compile_iff hfed hplain hcounts hsources hdistinct rfl
    (List.forall_mem_append.2 ⟨fun id hid => ?_, fun id hid => ?_⟩) (fun loss hloss => ?_) number
    entropy
  · obtain ⟨s, hs, hmem⟩ := hinputs id hid
    exact hmodels s hs id (List.mem_append_left _ hmem)
  · rw [← List.map_fst_zip (Nat.le_of_eq hcounts.losses.symm)] at hid
    obtain ⟨row, hrow, rfl⟩ := List.mem_map.1 hid
    obtain ⟨s, hs, hpart⟩ := hrows row hrow
    exact hmodels s hs row.1 (List.mem_append_right _ (by simp [hpart.outputs]))
  · rw [← List.map_snd_zip (Nat.le_of_eq hcounts.losses)] at hloss
    obtain ⟨row, hrow, rfl⟩ := List.mem_map.1 hloss
    obtain ⟨s, hs, hpart⟩ := hrows row hrow
    obtain ⟨p, e', hmade⟩ := hcompile s hs 0 0
    exact hpart.accepted hmade

/-! ## Two outputs -/

/-- An input, and two dense layers on it. -/
def branchingLayers : List Layer :=
  [.input (.singles none),
    .dense (.ones 2 none none Nat.two_pos) ⟨0, 0⟩,
    .dense (.ones 3 none none Dense.units_pos_three) ⟨0, 0⟩]

/-- A network with as many of these layers as given, under generated names. -/
def branching (size : Nat) : Network :=
  ⟨0, ((List.zipWith NamedLayer.mk ["input_1", "dense_1", "dense_2"] branchingLayers).take
    size).toArray⟩

theorem generateName_branching : (branching 0).generateName "input" = "input_1" ∧
    (branching 1).generateName "dense" = "dense_1" ∧
    (branching 2).generateName "dense" = "dense_2" := by decide +kernel

theorem add_branching : ∀ k (h : k < branchingLayers.length),
    (branching k).add branchingLayers[k] = .ok (⟨0, k⟩, branching (k + 1))
  | 0, _ => add_eq_ok_iff.2
    ⟨nofun, "input_1", by decide +kernel, generateName_branching.1.symm, rfl, rfl⟩
  | 1, _ => add_eq_ok_iff.2 ⟨by rintro _ ⟨⟩; rfl, "dense_1", by decide +kernel,
    generateName_branching.2.1.symm, rfl, rfl⟩
  | 2, _ => add_eq_ok_iff.2 ⟨by rintro _ ⟨⟩; rfl, "dense_2", by decide +kernel,
    generateName_branching.2.2.symm, rfl, rfl⟩

theorem grown_branching : (branching 3).Grown :=
  .add (.add (.add (.empty 0) (add_branching 0 (by decide))) (add_branching 1 (by decide)))
    (add_branching 2 (by decide))

theorem requestedName?_branching {id : LayerId} {named : NamedLayer}
    (h : (branching 3).layer? id = some named) : named.layer.requestedName? = none := by
  have hall : ∀ l ∈ (branching 3).layers, l.layer.requestedName? = none := by
    simp [branching, branchingLayers, Layer.requestedName?, Input.singles]
  exact hall named (Array.mem_of_getElem? (layer?_eq_some_iff.1 h).2)

/-- Ones and zeros can be made everywhere. -/
theorem ready_branching : ∀ id ∈ [(⟨0, 0⟩ : LayerId), ⟨0, 1⟩, ⟨0, 2⟩], (branching 3).Ready id := by
  have hinput : DeclaredShape.Held [openAxis, 1] := ⟨by decide, by decide⟩
  simp only [List.forall_mem_cons, List.not_mem_nil, false_imp_iff, implies_true, and_true]
  refine ⟨⟨_, rfl, fun key => .input (List.cons_ne_nil _ _) hinput⟩, ⟨_, rfl, fun key => ?_⟩,
    ⟨_, rfl, fun key => ?_⟩⟩
  · exact .dense rfl Int.one_pos (by decide) ⟨trivial, trivial⟩ ⟨trivial, trivial⟩
  · exact .dense rfl Int.one_pos (by decide) ⟨trivial, trivial⟩ ⟨trivial, trivial⟩

theorem available_branching : ∀ id ∈ [(⟨0, 0⟩ : LayerId), ⟨0, 1⟩, ⟨0, 2⟩],
    (branching 3).Available id := by
  have hready := ready_branching
  simp only [List.forall_mem_cons, List.not_mem_nil, false_imp_iff, implies_true,
    and_true] at hready ⊢
  obtain ⟨hinput, htwo, hthree⟩ := hready
  refine ⟨⟨rfl, ?_⟩, ⟨rfl, ?_⟩, ⟨rfl, ?_⟩⟩
  · rintro _ ⟨⟩
    exact List.forall_mem_singleton.2 hinput
  · rintro _ ⟨⟩
    exact List.forall_mem_cons.2 ⟨htwo, List.forall_mem_singleton.2 hinput⟩
  · rintro _ ⟨⟩
    exact List.forall_mem_cons.2 ⟨hthree, List.forall_mem_singleton.2 hinput⟩

/-- A model over the two layers. -/
def branchingModel (outputs : List LayerId) (losses : List Loss) : Model where
  network := branching 3
  inputs := [⟨0, 0⟩]
  outputs := outputs
  losses := losses
  descent := .halfRate
  metrics := []

/-- Whether the model is accepted. -/
def createBranching (outputs : List LayerId) (losses : List Loss) : Except Error Model :=
  create (branching 3) [⟨0, 0⟩] outputs losses (branchingModel outputs losses).descent []

theorem exists_compile_branching_iff {outputs : List LayerId} {losses : List Loss}
    (hcreate : createBranching outputs losses = .ok (branchingModel outputs losses))
    (houtputs : ∀ id ∈ outputs, id ∈ [(⟨0, 1⟩ : LayerId), ⟨0, 2⟩]) (hdistinct : outputs.Nodup)
    (haccepted : ∀ loss ∈ losses, loss.Accepted) (number : Nat) (entropy : UInt64) :
    (∃ p e', (branchingModel outputs losses).compile (.create number entropy) = .ok p e') ↔
      (branchingModel outputs losses).Agrees := by
  have hplain : ∀ {id : LayerId} {named : NamedLayer}, (branching 3).layer? id = some named →
      Plain named.name := fun hid => grown_branching.plain requestedName?_branching hid
  refine exists_compile_iff grown_branching.wellFed hplain (counts_of_create hcreate)
    (create_eq_ok hcreate).2.1 hdistinct rfl (List.forall_mem_append.2 ⟨?_, fun id hid => ?_⟩)
    haccepted number entropy
  · exact List.forall_mem_singleton.2 (available_branching _ List.mem_cons_self)
  · exact available_branching id (List.mem_cons_of_mem _ (houtputs id hid))

/-- A model of one of the layers. -/
theorem exists_compile_branch {id : LayerId} {loss : Loss} (hid : id ∈ [(⟨0, 1⟩ : LayerId), ⟨0, 2⟩])
    (hcreate : createBranching [id] [loss] = .ok (branchingModel [id] [loss]))
    (haccepted : loss.Accepted) (number : Nat) (entropy : UInt64) :
    ∃ p e', (branchingModel [id] [loss]).compile (.create number entropy) = .ok p e' := by
  refine (exists_compile_branching_iff hcreate (List.forall_mem_singleton.2 hid)
    (List.nodup_singleton id) (List.forall_mem_singleton.2 haccepted) number entropy).2 ?_
  rintro _ (_ | ⟨_, ⟨⟩⟩) _ (_ | ⟨_, ⟨⟩⟩) - - width width' hwidth hwidth' - -
  cases hwidth.symm.trans hwidth'
  rfl

/-- The layers of two and of three chances, each with a loss. -/
def branchingParts (loss loss' : Loss) : List Model :=
  [branchingModel [⟨0, 1⟩] [loss], branchingModel [⟨0, 2⟩] [loss']]

/-- Squared errors of two numbers can be trained together with cross entropies of three chances. -/
theorem branching_combines :
    createBranching [⟨0, 1⟩, ⟨0, 2⟩] [.meanSquaredError, .binaryCrossEntropy] =
      .ok (branchingModel [⟨0, 1⟩, ⟨0, 2⟩] [.meanSquaredError, .binaryCrossEntropy]) ∧
    ∃ p e', (branchingModel [⟨0, 1⟩, ⟨0, 2⟩] [.meanSquaredError, .binaryCrossEntropy]).compile
      (.create 0 0) = .ok p e' := by
  have hcreate : createBranching [⟨0, 1⟩, ⟨0, 2⟩] [.meanSquaredError, .binaryCrossEntropy] =
    .ok (branchingModel [⟨0, 1⟩, ⟨0, 2⟩] [.meanSquaredError, .binaryCrossEntropy]) := rfl
  have hparts : List.Forall₂ (IsPart (branching 3))
      [(⟨0, 1⟩, .meanSquaredError), (⟨0, 2⟩, .binaryCrossEntropy)]
      (branchingParts .meanSquaredError .binaryCrossEntropy) :=
    .cons ⟨rfl, rfl, rfl⟩ (.cons ⟨rfl, rfl, rfl⟩ .nil)
  have hinputs : ∀ id ∈ [(⟨0, 0⟩ : LayerId)],
      ∃ s ∈ branchingParts .meanSquaredError .binaryCrossEntropy, id ∈ s.inputs :=
    fun _ hid => ⟨_, List.mem_cons_self, hid⟩
  have hcompile : ∀ s ∈ branchingParts .meanSquaredError .binaryCrossEntropy, ∀ number entropy,
      ∃ p e', s.compile (.create number entropy) = .ok p e' :=
    List.forall_mem_cons.2 ⟨exists_compile_branch (by decide) rfl trivial,
      List.forall_mem_singleton.2 (exists_compile_branch (by decide) rfl trivial)⟩
  refine ⟨hcreate, (combines_iff grown_branching requestedName?_branching hcreate (by decide) hparts
    hinputs hcompile 0 0).2 ?_⟩
  -- only the second loss is declared for every entry
  rintro _ (_ | ⟨_, _ | ⟨_, ⟨⟩⟩⟩) _ (_ | ⟨_, _ | ⟨_, ⟨⟩⟩⟩) ⟨⟩ ⟨⟩ width width' hwidth hwidth' - -
  cases hwidth.symm.trans hwidth'
  rfl

/-- Cross entropies of two and of three chances can each be trained alone, but not together: the
declared shapes `[-1, 2]` and `[-1, 3]` have no common one. -/
theorem branching_does_not_combine :
    createBranching [⟨0, 1⟩, ⟨0, 2⟩] [.binaryCrossEntropy, .binaryCrossEntropy] =
      .ok (branchingModel [⟨0, 1⟩, ⟨0, 2⟩] [.binaryCrossEntropy, .binaryCrossEntropy]) ∧
    (∀ s ∈ branchingParts .binaryCrossEntropy .binaryCrossEntropy, ∀ number entropy,
      ∃ p e', s.compile (.create number entropy) = .ok p e') ∧
    ∀ number entropy, ¬∃ p e',
      (branchingModel [⟨0, 1⟩, ⟨0, 2⟩] [.binaryCrossEntropy, .binaryCrossEntropy]).compile
        (.create number entropy) = .ok p e' := by
  have hcreate : createBranching [⟨0, 1⟩, ⟨0, 2⟩] [.binaryCrossEntropy, .binaryCrossEntropy] =
    .ok (branchingModel [⟨0, 1⟩, ⟨0, 2⟩] [.binaryCrossEntropy, .binaryCrossEntropy]) := rfl
  refine ⟨hcreate, List.forall_mem_cons.2 ⟨exists_compile_branch (by decide) rfl trivial,
    List.forall_mem_singleton.2 (exists_compile_branch (by decide) rfl trivial)⟩,
    fun number entropy => ?_⟩
  rw [exists_compile_branching_iff hcreate (by decide) (by decide) (by simp [Loss.Accepted])]
  intro hagrees
  -- both losses have the width of their output in their shape, so agreement would make them equal
  have hwidths : (2 : Int) = 3 := hagrees (⟨0, 1⟩, .binaryCrossEntropy) List.mem_cons_self
    (⟨0, 2⟩, .binaryCrossEntropy) (List.mem_cons_of_mem _ List.mem_cons_self) rfl rfl rfl rfl
    (by decide) (by decide)
  exact absurd hwidths (by decide)

end Model
end TensorGraph
