import TensorGraph.Learning.Descent
import TensorGraph.Proofs.Engine.Creating
import TensorGraph.Proofs.Engine.Growing
import TensorGraph.Proofs.Engine.Laying
import TensorGraph.Proofs.Network.Chronicle
import TensorGraph.Proofs.Network.Naming
import TensorGraph.Proofs.Shape.Semilattice

/-!
# Gradient descent that is compiled

Gradient descent declares its own counter, constants and accumulators, and everything that it
computes for a weight has the shape of the weight. So it can be compiled for the trained variables
of an engine against every quantity, as long as the names that it asks for are free. All of these
start with the same letter.

## Main definitions

* `Graph.Computes`: a node of numbers of some shape.
* `Graph.Stores`: a variable of numbers of some shape.
* `Descent.Declares`: what gradient descent declares for itself.

## Main results

* `Descent.exists_step`: the updates of one weight.
* `Descent.exists_compile`: gradient descent is compiled.
-/

namespace TensorGraph

namespace Graph

variable {g g' : Graph} {handle : Node} {shape : DeclaredShape}

/-- A node of numbers of some shape. -/
def Computes (g : Graph) (handle : Node) (shape : DeclaredShape) : Prop :=
  ∃ op name, g.Holds handle ⟨op, shape, .f32, name⟩

/-- A variable of numbers of some shape. -/
def Stores (g : Graph) (handle : Node) (shape : DeclaredShape) : Prop :=
  ∃ op name, op.isVariable ∧ g.Holds handle ⟨op, shape, .f32, name⟩

theorem Computes.extend (h : g.Computes handle shape) (hg : g.Extends g') :
    g'.Computes handle shape := by
  obtain ⟨op, name, hholds⟩ := h
  exact ⟨op, name, hholds.extend hg⟩

theorem Stores.extend (h : g.Stores handle shape) (hg : g.Extends g') : g'.Stores handle shape := by
  obtain ⟨op, name, hvar, hholds⟩ := h
  exact ⟨op, name, hvar, hholds.extend hg⟩

end Graph

namespace Descent

open Engine

variable {e : Engine} {d : Descent} {rate momentum weight gradient accumulator : Node}
  {shape : DeclaredShape}

/-! ## Steps -/

/-- The updates of one weight. -/
theorem exists_step (hactive : e.session.isSome) (hrate : e.graph.Computes rate [])
    (hmomentum : e.graph.Computes momentum []) (hweight : e.graph.Stores weight shape)
    (hgradient : e.graph.Computes gradient shape)
    (haccumulator : e.graph.Stores accumulator shape) :
    ∃ updates e', step rate momentum weight gradient accumulator e = .ok updates e' ∧
      Unnamed e e' ∧ ∀ u ∈ updates, ∃ n, e'.graph.Holds u n ∧ n.op.isUpdate := by
  obtain ⟨_, _, hrate⟩ := hrate
  obtain ⟨_, _, hmomentum⟩ := hmomentum
  obtain ⟨_, _, hvar, hweight⟩ := hweight
  obtain ⟨_, _, hgradient⟩ := hgradient
  obtain ⟨_, _, hvar', haccumulator⟩ := haccumulator
  -- every operand has the shape of the weight or no axes
  have hscaled := binary_eq hactive e.free_none .multiply hrate hgradient rfl nofun
    shape.broadcast_nil
  let e₁ := e.push ⟨.binary .multiply rate.index gradient.index, shape, .f32, none⟩
  have h₁ : e.Unnamed e₁ := unnamed_push rfl
  have hdecayed := binary_eq (e := e₁) hactive e₁.free_none .multiply
    (hmomentum.extend h₁.grown) (haccumulator.extend h₁.grown) rfl nofun shape.broadcast_nil
  let e₂ := e₁.push ⟨.binary .multiply momentum.index accumulator.index, shape, .f32, none⟩
  have h₂ : e.Unnamed e₂ := h₁.push rfl
  have hvelocity := binary_eq (e := e₂) hactive e₂.free_none .subtract
    (e₁.graph.holds_push _) ((e.graph.holds_push _).extend (Graph.extends_push _ _)) rfl nofun
    shape.broadcast_self
  let e₃ := e₂.push ⟨.binary .subtract e₁.graph.size e.graph.size, shape, .f32, none⟩
  have h₃ : e.Unnamed e₃ := h₂.push rfl
  have hheld : e₃.graph.Holds (e₂.graph.handle e₂.graph.size) _ := e₂.graph.holds_push _
  have hofAccumulator := update_eq (e := e₃) hactive (haccumulator.extend h₃.grown) hheld hvar' rfl
    shape.broadcast_self
  let n₄ : GraphNode := ⟨.assign accumulator.index e₂.graph.size, shape, .f32, none⟩
  let e₄ := e₃.push n₄
  have h₄ : e.Unnamed e₄ := h₃.push rfl
  have hmoved := binary_eq (e := e₄) hactive e₄.free_none .add (hweight.extend h₄.grown)
    (hheld.extend (Graph.extends_push _ _)) rfl nofun shape.broadcast_self
  let e₅ := e₄.push ⟨.binary .add weight.index e₂.graph.size, shape, .f32, none⟩
  have h₅ : e.Unnamed e₅ := h₄.push rfl
  have hofWeight := update_eq (e := e₅) hactive (hweight.extend h₅.grown) (e₄.graph.holds_push _)
    hvar rfl shape.broadcast_self
  let n₆ : GraphNode := ⟨.assign weight.index e₄.graph.size, shape, .f32, none⟩
  refine ⟨_, _, (bind_of_ok hscaled).trans ((bind_of_ok hdecayed).trans
    ((bind_of_ok hvelocity).trans ((bind_of_ok hofAccumulator).trans
      ((bind_of_ok hmoved).trans (bind_of_ok hofWeight))))),
    h₅.push rfl, List.forall_mem_cons.2 ⟨⟨n₄, ?_, rfl⟩, List.forall_mem_singleton.2
      ⟨n₆, e₅.graph.holds_push _, rfl⟩⟩⟩
  exact (e₃.graph.holds_push n₄).extend ((Graph.extends_push _ _).trans (Graph.extends_push _ _))

/-- The updates of several weights. -/
theorem exists_steps (parts : List (Node × Node × Node)) (hactive : e.session.isSome)
    (hrate : e.graph.Computes rate []) (hmomentum : e.graph.Computes momentum [])
    (hparts : ∀ part ∈ parts, ∃ shape, e.graph.Stores part.1 shape ∧
      e.graph.Computes part.2.1 shape ∧ e.graph.Stores part.2.2 shape) :
    ∃ updates e', steps rate momentum parts e = .ok updates e' ∧ Unnamed e e' ∧
      ∀ u ∈ updates, ∃ n, e'.graph.Holds u n ∧ n.op.isUpdate := by
  induction parts generalizing e with
  | nil => exact ⟨[], e, rfl, unnamed_refl e, by simp⟩
  | cons part parts ih =>
    obtain ⟨⟨shape, hweight, hgradient, haccumulator⟩, hparts⟩ := List.forall_mem_cons.1 hparts
    obtain ⟨updates, e₁, hstep, h₁, hupdates⟩ :=
      exists_step hactive hrate hmomentum hweight hgradient haccumulator
    -- the nodes of the first step leave the other parts where they are
    obtain ⟨rest, e₂, hsteps, h₂, hrest⟩ := ih (e := e₁) (h₁.session ▸ hactive)
      (hrate.extend h₁.grown) (hmomentum.extend h₁.grown) fun part hpart => by
        obtain ⟨shape, hweight, hgradient, haccumulator⟩ := hparts part hpart
        exact ⟨shape, hweight.extend h₁.grown, hgradient.extend h₁.grown,
          haccumulator.extend h₁.grown⟩
    refine ⟨updates ++ rest, e₂, (bind_of_ok hstep).trans (bind_of_ok hsteps), h₁.trans h₂, ?_⟩
    refine List.forall_mem_append.2 ⟨fun u hu => ?_, hrest⟩
    obtain ⟨n, hn, hop⟩ := hupdates u hu
    exact ⟨n, hn.extend h₂.grown, hop⟩

/-- The derivatives by several variables. -/
theorem exists_gradients {objective : Node} {n : GraphNode} {weights : List Node}
    {shapes : List DeclaredShape} (hactive : e.session.isSome)
    (hobjective : e.graph.Holds objective n) (htype : n.type = .f32)
    (hweights : List.Forall₂ e.graph.Stores weights shapes) :
    ∃ handles e', gradients objective weights e = .ok handles e' ∧ Unnamed e e' ∧
      List.Forall₂ e'.graph.Computes handles shapes := by
  suffices h : ∀ {e : Engine} {shapes : List DeclaredShape}, e.session.isSome →
      List.Forall₂ e.graph.Stores weights shapes →
      ∃ handles e', weights.mapM (Engine.gradient objective.index) e = .ok handles e' ∧
        Unnamed e e' ∧ List.Forall₂ e'.graph.Computes handles shapes by
    obtain ⟨handles, e', hmap, hrest⟩ := h hactive hweights
    exact ⟨handles, e', (bind_of_ok hobjective.locate_eq).trans ((expectFloat_apply htype).trans
      hmap), hrest⟩
  -- the loss stays where it is while derivatives are appended, so only the variables are followed
  clear hactive hobjective htype hweights
  induction weights with
  | nil =>
    intro e shapes hactive hweights
    cases hweights
    exact ⟨[], e, rfl, unnamed_refl e, .nil⟩
  | cons weight weights ih =>
    intro e shapes hactive hweights
    cases hweights with | @cons _ shape _ shapes hweight hweights =>
    obtain ⟨op, name, hvar, hholds⟩ := hweight
    have hcall := gradient_eq hactive objective.index hholds hvar rfl
    let n₁ : GraphNode := ⟨.gradient objective.index weight.index, shape, .f32, none⟩
    have h₁ : e.Unnamed (e.push n₁) := unnamed_push rfl
    obtain ⟨handles, e', hcalls, h', hhandles⟩ := ih (e := e.push n₁) hactive
      (hweights.imp fun _ _ h => h.extend h₁.grown)
    refine ⟨e.graph.handle e.graph.size :: handles, e', ?_, h₁.trans h', .cons ?_ hhandles⟩
    · exact mapM_cons_eq_ok_iff.2 ⟨_, _, _, hcall, hcalls, rfl⟩
    · exact ⟨_, _, (e.graph.holds_push n₁).extend h'.grown⟩

/-! ## Accumulators -/

/-- A variable of zeros. -/
theorem exists_stateVariable {name : String} (he : e.Initialized) (hactive : e.session.isSome)
    (hclosed : shape.Closed) (hfree : e.graph.find? name = none) :
    ∃ node e', stateVariable shape .zeros name e = .ok node e' ∧ e'.Initialized ∧
      Lays 2 [name] e e' ∧ e.graph.Extends e'.graph ∧ e'.graph.Stores node shape := by
  obtain ⟨s, hs⟩ := Option.isSome_iff_exists.1 hactive
  obtain ⟨node, e', hcreate⟩ := exists_createVariable false he
    (congrArg (Option.map (·.entropy)) hs) hclosed hfree (Initializer.makes_zeros shape _)
  obtain ⟨made, init, _, _, _, -, hcreated⟩ := (leads_createVariable _ _ _ _).of_eq_ok hcreate
  exact ⟨node, e', hcreate, buildable_initialized.createVariable _ _ _ false _ _ _ he hcreate,
    (laying_createVariable _ _ _ _).of_eq_ok hcreate, (hcreated.changes he.sound).extends,
    .variable false (some init.index), some name, rfl, hcreated.holds⟩

/-- The name of an accumulator. -/
def accumulatorName (k : Nat) : String := "SGD_Momentum_" ++ NumberText.natural k

theorem accumulatorName_inj {j k : Nat} (h : accumulatorName j = accumulatorName k) : j = k :=
  NumberText.natural_inj (by simpa [accumulatorName] using h)

/-- The names of the counter and of the constants. -/
def ownNames : List String := ["SGD_Iterations", "SGD_LearningRate", "SGD_Momentum"]

theorem accumulatorName_not_mem (k : Nat) : accumulatorName k ∉ ownNames := by
  have hprefix : ∀ name ∈ ownNames, ¬"SGD_Momentum_".toList <+: name.toList := by decide
  refine fun hmem => hprefix _ hmem ⟨(NumberText.natural k).toList, ?_⟩
  rw [accumulatorName, String.toList_append]

/-- The names that are kept for training start with a letter of their own. -/
theorem head?_of_mem_ownNames {name : String} (h : name ∈ ownNames) :
    name.toList.head? = some 'S' := by
  have hall : ∀ name ∈ ownNames, name.toList.head? = some 'S' := by decide
  exact hall name h

theorem head?_accumulatorName (k : Nat) : (accumulatorName k).toList.head? = some 'S' := by
  have hhead : "SGD_Momentum_".toList.head? = some 'S' := by decide
  rw [accumulatorName, String.toList_append, List.head?_append, hhead]
  rfl

/-- The accumulators of several weights. -/
theorem exists_accumulators {k : Nat} {weights : List Node} {shapes : List DeclaredShape}
    (he : e.Initialized) (hactive : e.session.isSome)
    (hweights : List.Forall₂ e.graph.Stores weights shapes)
    (hclosed : ∀ shape ∈ shapes, shape.Closed)
    (hfree : ∀ j, k ≤ j → e.graph.find? (accumulatorName j) = none) :
    ∃ handles e', accumulators k weights e = .ok handles e' ∧ e'.session.isSome ∧
      e.graph.Extends e'.graph ∧ List.Forall₂ e'.graph.Stores handles shapes := by
  induction weights generalizing e k shapes with
  | nil =>
    cases hweights
    exact ⟨[], e, rfl, hactive, .refl _, .nil⟩
  | cons weight weights ih =>
    cases hweights with | @cons _ shape _ shapes hweight hweights =>
    obtain ⟨hshape, hclosed⟩ := List.forall_mem_cons.1 hclosed
    obtain ⟨op, name, hvar, hholds⟩ := hweight
    obtain ⟨node, e₁, hcreate, he₁, hlays, hg, hstores⟩ :=
      exists_stateVariable he hactive hshape (hfree k (Nat.le_refl k))
    obtain ⟨handles, e', hcalls, hactive', hg', hall⟩ := ih he₁ (hlays.active hactive)
      (hweights.imp fun _ _ h => h.extend hg) hclosed (k := k + 1) fun j hj => by
        -- the names count up, so the ones to come differ from the one just taken
        refine hlays.free _ ?_ (hfree j (Nat.le_of_succ_le hj))
        rw [List.mem_singleton]
        exact fun hname => Nat.ne_of_gt hj (accumulatorName_inj hname)
    exact ⟨node :: handles, e', (bind_of_ok (shape_eq hactive hholds)).trans
      ((bind_of_ok hcreate).trans (bind_of_ok hcalls)), hactive', hg.trans hg',
      .cons (hstores.extend hg') hall⟩

/-! ## The whole descent -/

/-- A named constant. -/
theorem exists_constant (value : Value) {name : Option String} (he : e.Initialized)
    (hactive : e.session.isSome) (hclosed : (Shape.declared value.shape).Closed)
    (hfree : e.Free name) :
    ∃ node e', constant value name e = .ok node e' ∧ e'.Initialized ∧ Lays 1 name.toList e e' ∧
      e.graph.Extends e'.graph ∧
        e'.graph.Holds node ⟨.constant value, Shape.declared value.shape, value.type, name⟩ := by
  have hcall := constant_eq hactive value hclosed hfree
  obtain ⟨n, ⟨-, hname⟩, happended⟩ := (appends_constant value).of_eq_ok hcall
  exact ⟨_, _, hcall, (happended.grown he.sound).initialized he, happended.lays hname,
    Graph.extends_push _ _, e.graph.holds_push _⟩

/-- A counter. -/
theorem exists_counter (initial : Int64) {name : String} (he : e.Initialized)
    (hactive : e.session.isSome) (hfree : e.graph.find? name = none) :
    ∃ node e', counter initial name e = .ok node e' ∧ e'.Initialized ∧ Lays 1 [name] e e' ∧
      e.graph.Extends e'.graph ∧
        e'.graph.Holds node ⟨.variable false none, [], .i64, some name⟩ := by
  have hcall : ∃ node e', counter initial name e = .ok node e' :=
    ⟨_, _, (bind_of_ok (register_eq hactive (free_some_iff.2 hfree))).trans rfl⟩
  obtain ⟨node, e', hcall⟩ := hcall
  -- that it is declared follows from the name being free; what it leaves is known from the call
  have hgrown := ((leads_counter he.sound initial name).of_eq_ok hcall).1
  obtain ⟨s, hs, -, rfl, rfl⟩ := (leads_declare initial name).of_eq_ok hcall
  let n : GraphNode := ⟨.variable false none, [], .i64, some name⟩
  exact ⟨_, _, hcall, hgrown.initialized he, lays_declare (n := n) rfl (by rw [hs]; rfl),
    Graph.extends_push _ n, e.graph.holds_push n⟩

/-- What gradient descent declares for itself: a counter, the number that it counts with, and two
factors. -/
structure Declares (g : Graph) (iterations rate momentum one : Node) : Prop where
  iterations : ∃ name, g.Holds iterations ⟨.variable false none, [], .i64, name⟩
  rate : g.Computes rate []
  momentum : g.Computes momentum []
  one : ∃ op, g.Holds one ⟨op, [], .i64, none⟩

theorem Declares.extend {g g' : Graph} {iterations rate momentum one : Node}
    (h : Declares g iterations rate momentum one) (hg : g.Extends g') :
    Declares g' iterations rate momentum one where
  iterations := h.iterations.imp fun _ hholds => hholds.extend hg
  rate := h.rate.extend hg
  momentum := h.momentum.extend hg
  one := h.one.imp fun _ hholds => hholds.extend hg

/-- The counter and the constants, whatever comes next. -/
theorem exists_declarations (he : e.Initialized) (hactive : e.session.isSome)
    (hfree : ∀ name ∈ ownNames, e.graph.find? name = none) :
    ∃ iterations rate momentum one e',
      (∀ {α : Type} (next : Node → Node → Node → Node → Call α),
        (do
          let iterations ← counter 0 "SGD_Iterations"
          let rate ← constant (.scalar d.learningRate) (some "SGD_LearningRate")
          let momentum ← constant (.scalar d.momentum) (some "SGD_Momentum")
          let one ← constant (.integer 1) none
          next iterations rate momentum one) e = next iterations rate momentum one e') ∧
      e'.Initialized ∧ Lays 4 ownNames e e' ∧ e.graph.Extends e'.graph ∧
        Declares e'.graph iterations rate momentum one := by
  obtain ⟨iterations, e₁, hcall₁, he₁, hlays₁, hg₁, hiterations⟩ :=
    exists_counter 0 he hactive (hfree "SGD_Iterations" (by decide))
  obtain ⟨rate, e₂, hcall₂, he₂, hlays₂, hg₂, hrate⟩ :=
    exists_constant (.scalar d.learningRate) he₁ (hlays₁.active hactive)
      DeclaredShape.closed_nil (free_some_iff.2 (hlays₁.free "SGD_LearningRate" (by decide)
        (hfree _ (by decide))))
  have hlays₂ := hlays₁.trans hlays₂
  obtain ⟨momentum, e₃, hcall₃, he₃, hlays₃, hg₃, hmomentum⟩ :=
    exists_constant (.scalar d.momentum) he₂ (hlays₂.active hactive)
      DeclaredShape.closed_nil (free_some_iff.2 (hlays₂.free "SGD_Momentum" (by decide)
        (hfree _ (by decide))))
  have hlays₃ := hlays₂.trans hlays₃
  obtain ⟨one, e₄, hcall₄, he₄, hlays₄, hg₄, hone⟩ :=
    exists_constant (.integer 1) he₃ (hlays₃.active hactive) DeclaredShape.closed_nil
      e₃.free_none
  have hg₂₄ := hg₂.trans (hg₃.trans hg₄)
  exact ⟨iterations, rate, momentum, one, e₄, fun next => (bind_of_ok hcall₁).trans
    ((bind_of_ok hcall₂).trans ((bind_of_ok hcall₃).trans (bind_of_ok hcall₄))), he₄,
    hlays₃.trans hlays₄, hg₁.trans hg₂₄, ⟨_, hiterations.extend hg₂₄⟩,
    ⟨_, _, hrate.extend (hg₃.trans hg₄)⟩, ⟨_, _, hmomentum.extend hg₄⟩, _, hone⟩

/-- Weights, derivatives and accumulators of the same shapes belong together. -/
theorem exists_shape_of_mem_zip {g : Graph} {weights gradients accumulators : List Node}
    {shapes : List DeclaredShape} (hweights : List.Forall₂ g.Stores weights shapes)
    (hgradients : List.Forall₂ g.Computes gradients shapes)
    (haccumulators : List.Forall₂ g.Stores accumulators shapes) {part : Node × Node × Node}
    (hpart : part ∈ weights.zip (gradients.zip accumulators)) :
    ∃ shape, g.Stores part.1 shape ∧ g.Computes part.2.1 shape ∧ g.Stores part.2.2 shape := by
  -- the three parts stand at one place of their lists, and so does their shape
  obtain ⟨i, hi⟩ := List.getElem?_of_mem hpart
  obtain ⟨hweight, hrest⟩ := List.getElem?_zip_eq_some.1 hi
  obtain ⟨hgradient, haccumulator⟩ := List.getElem?_zip_eq_some.1 hrest
  obtain ⟨shape, hshape, hstores⟩ := exists_of_forall₂ hweights hweight
  obtain ⟨_, hshape₁, hcomputes⟩ := exists_of_forall₂ hgradients hgradient
  obtain ⟨_, hshape₂, hkept⟩ := exists_of_forall₂ haccumulators haccumulator
  cases hshape.symm.trans hshape₁
  cases hshape.symm.trans hshape₂
  exact ⟨shape, hstores, hcomputes, hkept⟩

/-- The updates of several weights against an objective. -/
theorem exists_compile {objective : Node} {n : GraphNode} {weights : List Node}
    {shapes : List DeclaredShape} (he : e.Initialized) (hactive : e.session.isSome)
    (hobjective : e.graph.Holds objective n) (htype : n.type = .f32)
    (hweights : List.Forall₂ e.graph.Stores weights shapes)
    (hclosed : ∀ shape ∈ shapes, shape.Closed)
    (hfree : ∀ name : String, name.toList.head? = some 'S' → e.graph.find? name = none) :
    ∃ updates e', d.compile objective weights e = .ok updates e' ∧ e'.session.isSome ∧
      e.graph.Extends e'.graph ∧ ∀ u ∈ updates, ∃ n, e'.graph.Holds u n ∧ n.op.isUpdate := by
  obtain ⟨iterations, rate, momentum, one, e₁, hcall₁, he₁, hlays, hg₁, hdeclares⟩ :=
    exists_declarations (d := d) he hactive fun name hname =>
      hfree name (head?_of_mem_ownNames hname)
  -- accumulators have names of their own, which neither the counter nor the constants have taken
  obtain ⟨accumulators, e₂, hcall₂, hactive₂, hg₂, haccumulators⟩ :=
    exists_accumulators (k := 0) he₁ (hlays.active hactive)
      (hweights.imp fun _ _ h => h.extend hg₁) hclosed fun j _ =>
        hlays.free _ (accumulatorName_not_mem j) (hfree _ (head?_accumulatorName j))
  have hg := hg₁.trans hg₂
  obtain ⟨gradients, e₃, hcall₃, h₃, hgradients⟩ := exists_gradients hactive₂
    (hobjective.extend hg) htype (hweights.imp fun _ _ h => h.extend hg)
  have hactive₃ : e₃.session.isSome := h₃.session ▸ hactive₂
  have hdeclares := hdeclares.extend (hg₂.trans h₃.grown)
  obtain ⟨_, hiterations⟩ := hdeclares.iterations
  obtain ⟨_, hone⟩ := hdeclares.one
  have hcall₄ := updateAdd_eq hactive₃ hiterations hone rfl rfl (DeclaredShape.broadcast_self _)
  let n₄ : GraphNode := ⟨.assignAdd iterations.index one.index, [], .i64, none⟩
  have h₄ : e₃.Unnamed (e₃.push n₄) := unnamed_push rfl
  have hg₄ := h₃.grown.trans h₄.grown
  -- every part of a step is still there after the nodes in between
  obtain ⟨trained, e₅, hcall₅, h₅, htrained⟩ := exists_steps (e := e₃.push n₄)
    (weights.zip (gradients.zip accumulators)) hactive₃ (hdeclares.rate.extend h₄.grown)
    (hdeclares.momentum.extend h₄.grown) fun part hpart =>
      exists_shape_of_mem_zip (hweights.imp fun _ _ h => h.extend (hg.trans hg₄))
        (hgradients.imp fun _ _ h => h.extend h₄.grown)
        (haccumulators.imp fun _ _ h => h.extend hg₄) hpart
  refine ⟨_, _, (hcall₁ _).trans ((bind_of_ok hcall₂).trans ((bind_of_ok hcall₃).trans
    ((bind_of_ok hcall₄).trans ((bind_of_ok hcall₅).trans rfl)))), ?_,
    hg.trans (hg₄.trans h₅.grown), List.forall_mem_cons.2 ⟨⟨n₄, ?_, rfl⟩, htrained⟩⟩
  · exact (congrArg Option.isSome h₅.session).trans hactive₃
  · exact (e₃.graph.holds_push n₄).extend h₅.grown

end Descent
end TensorGraph
