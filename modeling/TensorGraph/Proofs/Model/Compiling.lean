import TensorGraph.Model.Program
import TensorGraph.Proofs.Learning.Objective
import TensorGraph.Proofs.Model.Staging

/-!
# What compiling builds

Compiling layers, targets, losses and metrics only appends nodes that are no updates and creates
variables, so it keeps every invariant that building keeps.

## Main results

* `Network.keeping_compileWithin`: compiling a layer with the layers that feed it.
* `Loss.preserves_compile` and `Metric.preserves_compile`: compiling a loss and a metric.
* `Model.exists_compiled`: the engine of a compiled model, as its steps make it.
-/

namespace TensorGraph

variable {α : Type} {I : Engine → Prop}

namespace Engine
namespace Buildable

/-- A unary operation is appended by building steps. -/
theorem unary (hI : Buildable I) (op : UnaryOp) (input : Node) (name : Option String) :
    Preserves I (Engine.unary op input name) :=
  hI.appends (fun _ => appends_unary op input) fun _ _ h => by rw [h.1]; rfl

theorem constant (hI : Buildable I) (value : Value) (name : Option String) :
    Preserves I (Engine.constant value name) :=
  hI.appends (fun _ => appends_constant value) fun _ _ h => by rw [h.1]; rfl

/-- Clipping checks its bounds and appends a node. -/
theorem clip (hI : Buildable I) (input : Node) (min max : Float32) (name : Option String) :
    Preserves I (Engine.clip input min max name) :=
  hI.appends (fun _ => appends_clip input min max) fun _ _ h => by rw [h.1]; rfl

theorem mean (hI : Buildable I) (input : Node) (name : Option String) :
    Preserves I (Engine.mean input name) :=
  hI.appends (fun _ => appends_mean input) fun _ _ h => by rw [h.1]; rfl

end Buildable
end Engine

open Engine (Buildable)

/-! ## Losses and metrics -/

/-- A loss is compiled by building steps. -/
theorem Loss.preserves_compile (hI : Buildable I) (predictions targets : Node)
    (name : Option String) (loss : Loss) :
    Preserves I (loss.compile predictions targets name) := by
  cases loss with
  | meanSquaredError =>
    exact (hI.binary .subtract _ _ _).bind fun _ => (hI.unary .square _ _).bind fun _ =>
      hI.mean _ _
  | binaryCrossEntropy =>
    exact (hI.clip _ _ _ _).bind fun _ => (hI.constant _ _).bind fun _ =>
      (hI.binary .subtract _ _ _).bind fun _ => (hI.binary .divide _ _ _).bind fun _ =>
        (hI.unary .log _ _).bind fun _ =>
          hI.appends (fun _ => Engine.appends_sigmoidCrossEntropy _ _) fun _ _ h => by rw [h.1]; rfl
  | categoricalCrossEntropy =>
    exact hI.appends (fun _ => Engine.appends_softmaxCrossEntropy _ _) fun _ _ h => by
      rw [h.1]; rfl
  | negativeLogLikelihood e =>
    have hrest : Preserves I (do
        let clipped ← Engine.clip predictions e (1 - e) none
        let log ← Engine.unary .log clipped none
        let weighted ← Engine.multiply targets log none
        let total ← Engine.reduceSum weighted none
        Engine.unary .negate total name) :=
      (hI.clip _ _ _ _).bind fun _ => (hI.unary .log _ _).bind fun _ =>
        (hI.binary .multiply _ _ _).bind fun _ =>
          (hI.appends (fun _ => Engine.appends_reduceSum _) fun _ _ h => by rw [h.1]; rfl).bind
            fun _ => hI.unary .negate _ _
    -- the check of the distance throws or does nothing
    exact .ite (fun _ => (Preserves.throw _).bind fun _ => hrest) fun _ => hrest

/-- A metric is compiled by building steps. -/
theorem Metric.preserves_compile (hI : Buildable I) (predictions targets : Node)
    (name : Option String) (metric : Metric) :
    Preserves I (metric.compile predictions targets name) := by
  cases metric with
  | meanSquaredError => exact Loss.preserves_compile hI _ _ _ .meanSquaredError
  | meanAbsoluteError =>
    exact (hI.binary .subtract _ _ _).bind fun _ => (hI.unary .abs _ _).bind fun _ =>
      hI.mean _ _
  | loss l => exact l.preserves_compile hI _ _ _

/-! ## Layers -/

/-- An input layer appends its placeholder. -/
theorem Input.preserves_compile (hI : Buildable I) (i : Input) (name : String) :
    Preserves I (i.compile name) := by
  have hrest : Preserves I (do
      let output ← Engine.placeholder name i.shape
      return ({ output := output, parameters := [], initializers := [] } : Blueprint)) :=
    (hI.placeholder name i.shape).bind fun _ => .pure _
  exact .ite (fun _ => (Preserves.throw _).bind fun _ => hrest) fun _ => hrest

/-- A dense layer appends its variables and its operations. -/
theorem Dense.preserves_compile (hI : Buildable I) (d : Dense) (name : String) (input : Node)
    (fed : DeclaredShape) : Preserves I (d.compile name input fed) := by
  unfold Dense.compile
  extract_lets build
  have hbuild : ∀ size, Preserves I (build size) := fun size =>
    (hI.createVariable _ _ _ true).bind fun weights =>
      (hI.createVariable _ _ _ true).bind fun bias =>
      (hI.appends (fun _ => Engine.appends_dot _ _) fun _ _ h => by rw [h.1]; rfl).bind fun _ =>
        (hI.appends (fun _ => Engine.appends_biasAdd _ _) fun _ _ h => by rw [h.1]; rfl).bind
          fun _ => (hI.unary d.resolvedActivation.op _ _).bind fun _ =>
            (Engine.keeps_initializer weights).preserves.bind fun _ =>
              (Engine.keeps_initializer bias).preserves.bind fun _ => .pure _
  -- without a known input size nothing is built
  split
  · exact .ite (fun _ => (Preserves.pure _).bind hbuild) fun _ => (Preserves.throw _).bind hbuild
  · exact (Preserves.throw _).bind hbuild

/-- A dropout layer appends one node. -/
theorem Dropout.preserves_compile (hI : Buildable I) (d : Dropout) (name : String) (input : Node) :
    Preserves I (d.compile name input) :=
  (hI.appends (fun _ => Engine.appends_dropout input d.rate d.seed) fun _ _ h => by
    rw [h.1]; rfl).bind fun _ => .pure _

namespace Compiling

variable {w w' : Workspace}

/-- Steps that keep an invariant of the engine that they work on. -/
abbrev Keeping (I : Engine → Prop) (c : Compiling α) : Prop :=
  Preserves (fun w : Workspace => I w.engine) c

/-- A call keeps what it preserves, also within a workspace. -/
theorem keeping_onEngine {call : Call α} (h : Preserves I call) : Keeping I (onEngine call) := by
  intro w a w' hw hcall
  unfold onEngine at hcall
  split at hcall
  · next hok =>
    cases hcall
    exact h _ _ _ hw hok
  · cases hcall

theorem keeping_lift (r : Except Error α) : Keeping I (lift r) := by
  cases r with
  | ok a => exact .pure a
  | error err => exact .throw _

end Compiling

namespace Network

open Compiling

/-- Compiling a layer and the layers that it needs takes building steps. -/
theorem keeping_compileWithin (hI : Buildable I) (n : Network) (depth : Nat) (id : LayerId) :
    Keeping I (n.compileWithin depth id) := by
  induction depth generalizing id with
  | zero => exact keeping_lift _
  | succ depth ih =>
    unfold compileWithin
    refine Preserves.get.bind fun w => Preserves.get.bind fun _ => ?_
    extract_lets compileNew
    have hnew : Keeping I (compileNew ()) := by
      refine Preserves.get.bind fun w => ?_
      split
      · exact .pure _
      · refine (keeping_lift _).bind fun named => ?_
        extract_lets remember
        have hremember : ∀ made, Keeping I (remember made) := fun made =>
          (keeping_onEngine (hI.reporting _)).bind fun _ =>
            Preserves.bind (.modify fun _ hw => hw) fun _ => .pure _
        -- a layer is compiled after the layer that feeds it
        split
        · next i _ => exact (keeping_onEngine (i.preserves_compile hI _)).bind hremember
        · next d feeder _ =>
          exact (ih feeder).bind fun input => (keeping_lift _).bind fun fed =>
            (keeping_onEngine (d.preserves_compile hI _ input fed)).bind hremember
        · next d feeder _ =>
          exact (ih feeder).bind fun input =>
            (keeping_onEngine (d.preserves_compile hI _ input)).bind hremember
    exact .ite (fun _ => (keeping_lift _).bind fun _ => hnew) fun _ => hnew

end Network

namespace Model

open Compiling

/-- Compiling the inputs and outputs of a model takes building steps. -/
theorem keeping_compileEnds (hI : Buildable I) (m : Model) : Keeping I m.compileEnds := by
  have hlayers : ∀ ids, Keeping I (m.compileLayers ids) := fun ids =>
    .mapM (fun id => m.network.keeping_compileWithin hI _ id) ids
  exact (hlayers _).bind fun inputs => (hlayers _).bind fun outputs => .pure _

/-- A target appends at most a placeholder. -/
theorem preserves_compileTarget (hI : Buildable I) (m : Model) (id : LayerId) (output : Node) :
    Preserves I (m.compileTarget id output) :=
  (Engine.keeps_shape output).preserves.bind fun _ => (Engine.preserves_lift _).bind fun _ =>
    hI.placeholder _ _

/-- Compiling targets and losses only builds. -/
theorem preserves_compileGoal (hI : Buildable I) (m : Model) (outputs : List Node) :
    Preserves I (m.compileGoal outputs) :=
  (Preserves.mapM (fun _ => m.preserves_compileTarget hI _ _) _).bind fun _ =>
    (Engine.preserves_lift _).bind fun _ =>
      (Preserves.mapM (fun _ => Loss.preserves_compile hI _ _ _ _) _).bind fun losses =>
        (hI.aggregate losses).bind fun _ => (hI.reporting _).bind fun _ => .pure _

/-- Compiling metrics only builds. -/
theorem preserves_compileMetrics (hI : Buildable I) (m : Model) (pairs : List Pairing) :
    Preserves I (m.compileMetrics pairs) :=
  .mapM (fun _ => Metric.preserves_compile hI _ _ _ _) _

/-- A compiled model: what its layers, targets, losses and metrics built, the updates that train
the variables there were by then, and the function that makes a step. -/
structure Compiled (m : Model) (e : Engine) (p : Program) (built : Engine) (updates : List Node)
    (trained e' : Engine) : Prop where
  compiles : m.compile e = .ok p e'
  builds : ∀ {I}, Buildable I → I e → I built
  objective : built.graph.AddsUp (p.losses.map (·.index)) p.objective.index
  trains : m.descent.compile p.objective built.trainableWeights built = .ok updates trained
  trainFunction : p.trainFunction = (Function.ofNodes trained.graph.id (p.inputs ++ p.targets)
    (p.outputs ++ p.losses) updates).withPhase .train
  reported : Engine.Reported trained e'

/-- A model that compiles goes through the stages of its layers, its targets and its training. -/
theorem exists_compiled {m : Model} {e e' : Engine} {p : Program} (h : m.compile e = .ok p e') :
    ∃ built updates trained, m.Compiled e p built updates trained e' := by
  have hcompiles := h
  unfold compile at h
  split at h
  · cases h
  · next inputs outputs w hends =>
    have hends' : ∀ {I : Engine → Prop}, Buildable I → I e → I w.engine := fun hI he =>
      keeping_compileEnds hI m _ _ _ he hends
    unfold assemble at h
    simp only [bind_eq_ok_iff] at h
    -- the calls of `assemble` in order, each with its value and the engine after it
    obtain ⟨targets, e₁, htargets, pairs, e₂, hpairs, losses, e₃, hlosses, objective, e₄,
      hobjective, _, e₅, hsummed, metrics, e₆, hmetrics, _, _, hget, updates, trained, hupdates,
      f, _, hf, g, _, hg, k, _, hk, _, _, hreport, hp⟩ := h
    cases hget
    obtain ⟨rfl, rfl⟩ := (Engine.leads_function _ _ _).of_eq_ok hf
    obtain ⟨rfl, rfl⟩ := (Engine.leads_function _ _ _).of_eq_ok hg
    obtain ⟨rfl, rfl⟩ := (Engine.leads_function _ _ _).of_eq_ok hk
    cases hreport
    cases hp
    have hlater : ∀ {I : Engine → Prop}, Buildable I → I e₄ → I e₆ := fun hI he =>
      Preserves.mapM (fun _ => Metric.preserves_compile hI _ _ _ _) _ _ _ _
        (hI.reporting _ _ _ _ he hsummed) hmetrics
    refine ⟨e₆, updates, trained, hcompiles, fun hI he => ?_, ?_, hupdates, rfl,
      Engine.reported_report _⟩
    · have h₁ := Preserves.mapM (fun _ => m.preserves_compileTarget hI _ _) _ _ _ _ (hends' hI he)
        htargets
      have h₂ := Engine.preserves_lift _ _ _ _ h₁ hpairs
      have h₃ := Preserves.mapM (fun _ => Loss.preserves_compile hI _ _ _ _) _ _ _ _ h₂ hlosses
      exact hlater hI (hI.aggregate _ _ _ _ h₃ hobjective)
    · exact hlater (Engine.buildable_addsUp _ _)
        ((Engine.leads_aggregate losses).of_eq_ok hobjective)

end Model

/-! ## Soundness -/

open Engine

theorem Engine.Changing.pure (a : α) : Changing (pure a) := fun _ _ => leads_pure .refl

/-- A call for every element of a list only makes changes if each of them does. -/
theorem Engine.Changing.mapM {β : Type} {f : β → Call α} (hf : ∀ b, Changing (f b)) (bs : List β) :
    Changing (bs.mapM f) := by
  induction bs with
  | nil => exact .pure []
  | cons b bs ih =>
    rw [List.mapM_cons]
    exact (hf b).bind fun _ => ih.bind fun _ => .pure _

theorem Engine.changing_report (r : Record) : Changing (report r) := fun _ _ => changes_report r

namespace Descent

/-- Accumulators are new variables. -/
theorem changing_accumulators (k : Nat) (weights : List Node) :
    Changing (accumulators k weights) := by
  induction weights generalizing k with
  | nil => exact .pure _
  | cons weight weights ih =>
    exact (keeps_shape weight).changing.bind fun shape =>
      (changing_createVariable shape .zeros _ false).bind fun _ =>
        (ih (k + 1)).bind fun _ => .pure _

/-- The steps of a descent are new nodes. -/
theorem changing_steps (rate momentum : Node) (parts : List (Node × Node × Node)) :
    Changing (steps rate momentum parts) := by
  have hbinary : ∀ op left right, Changing (binary op left right none) := fun op left right =>
    Appends.changing fun _ => appends_binary op left right
  have hupdate : ∀ target value, Changing (update target value) := fun target value =>
    Appends.changing fun _ => appends_update target value
  induction parts with
  | nil => exact .pure _
  | cons part parts ih =>
    have hstep : Changing (step rate momentum part.1 part.2.1 part.2.2) :=
      (hbinary .multiply _ _).bind fun _ => (hbinary .multiply _ _).bind fun _ =>
        (hbinary .subtract _ _).bind fun _ => (hupdate _ _).bind fun _ =>
          (hbinary .add _ _).bind fun _ => (hupdate _ _).bind fun _ => .pure _
    exact hstep.bind fun _ => ih.bind fun _ => .pure _

/-- Compiling gradient descent only makes changes. -/
theorem changing_compile (d : Descent) (loss : Node) (weights : List Node) :
    Changing (d.compile loss weights) := by
  have hconstant : ∀ value name, Changing (constant value name) := fun value name =>
    Appends.changing fun _ => appends_constant value
  have hadd : ∀ target delta, Changing (updateAdd target delta) := fun target delta =>
    Appends.changing fun _ => appends_updateAdd target delta
  exact (changing_counter _ _).bind fun _ => (hconstant _ _).bind fun _ =>
    (hconstant _ _).bind fun _ => (hconstant _ _).bind fun _ =>
      (changing_accumulators _ _).bind fun _ => (changing_gradients _ _).bind fun _ =>
        (hadd _ _).bind fun _ => (changing_steps _ _ _).bind fun _ =>
          (changing_report _).bind fun _ => .pure _

end Descent

/-- Compiling a model keeps an engine sound. -/
theorem Model.sound_of_compile {m : Model} {e e' : Engine} {p : Program} (hsound : e.Sound)
    (h : m.compile e = .ok p e') : e'.Sound := by
  obtain ⟨built, updates, trained, hcompiled⟩ := exists_compiled h
  have htrained := (m.descent.changing_compile _ _).preserves_sound _ _ _
    (hcompiled.builds buildable_sound hsound) hcompiled.trains
  exact hcompiled.reported.changes.sound htrained

/-- Compile a model, keeping the engine. -/
def Model.compileKeeping (m : Model) : Call (Program × Engine) := do
  let p ← m.compile
  return (p, ← get)

end TensorGraph
