import TensorGraph.Proofs.Engine.Twin
import TensorGraph.Proofs.Model.Reaching
import TensorGraph.Proofs.Network.Specimens
import TensorGraph.Proofs.Run.Idle

/-!
# Predicting and evaluating between steps of training

A compiled model can be asked for predictions and scores at any time. Such a question leaves behind
records and nothing else, whether it is answered or fails. So it does not matter to training how
often the model is asked, and when.

## Main definitions

* `Program.Use` and `Program.perform`: a use of a program, and the uses of a session one after the
  other.

## Main results

* `Program.reported_of_asking`: a question leaves only records.
* `Model.training_ignores_questions`: what training gives, and what it leaves behind, depends on the
  steps of training only.
-/

namespace TensorGraph

open Engine

namespace Program

/-- What can be done with a program. -/
inductive Use where
  | trainBatch (features targets : List Value)
  /-- Training by a plan; `Program.train` is one without messages. -/
  | trainWith (features targets : List Value) (plan : TrainingPlan)
  | predict (features : List Value)
  | evaluate (features targets : List Value)

/-- What a use gives. -/
inductive Answer where
  /-- The losses of a batch. -/
  | losses (values : List Value)
  /-- The mean losses of the epochs. -/
  | history (means : List Float32)
  | outputs (values : List Value)
  | scores (scores : Scores)

namespace Use

def trains : Use → Bool
  | trainBatch _ _ | trainWith _ _ _ => true
  | predict _ | evaluate _ _ => false

/-- The call that a use makes. -/
def call (p : Program) : Use → Call Answer
  | trainBatch features targets => return .losses (← p.trainBatch features targets)
  | trainWith features targets plan => return .history (← p.trainWith features targets plan)
  | predict features => return .outputs (← p.predict features)
  | evaluate features targets => return .scores (← p.evaluate features targets)

end Use

/-- Use a program several times, whatever comes of it. Kept are the values and failures of training,
and the engine at the end. -/
def perform (p : Program) : List Use → Engine → List (Except Failure Answer) × Engine
  | [], e => ([], e)
  | u :: us, e =>
    let rest := p.perform us (e.after (u.call p))
    if u.trains then (answer (u.call p) e :: rest.1, rest.2) else rest

variable {p : Program} {g : Graph} {e e' : Engine}

/-! ## Questions -/

/-- Executing a function that only reads leaves only records. -/
theorem reported_of_execute {f : Function} (hg : e.graph.Typed) (hphase : f.phase = .inference)
    (hpassive : ∀ n ∈ f.outputs ++ f.updates, e.graph.ReachesOnly Op.Passive n.index)
    (overrides : List (Node × Value)) :
    Leads (execute f overrides) e (Reported e) fun _ e' => Reported e e' :=
  leads_lift .refl fun feeds _ => leads_idle_run hg hphase hpassive feeds

/-- A question leaves only records, whether it is answered or fails. -/
theorem reported_of_asking (hg : e.graph.Typed) (h : p.Reads e.graph) {u : Use}
    (hu : u.trains = false) : Reported e (e.after (u.call p)) := by
  -- both functions of a question have no updates
  have hoff : ∀ ns : List Node, (∀ n ∈ ns, Reaching Op.Passive e.graph n) →
      ∀ n ∈ ns ++ [], e.graph.ReachesOnly Op.Passive n.index := by
    intro ns hns n hn
    exact hns n (by simpa using hn)
  refine Leads.after ?_
  cases u with
  | trainBatch | trainWith => cases hu
  | predict features =>
    refine leads_bind_iff.2 (leads_lift .refl fun _ _ => ?_)
    have hpredict := h.predictFunction
    refine (reported_of_execute hg ?_ ?_ _).mono fun _ _ h => leads_pure h
    · rw [hpredict]; rfl
    · rw [hpredict]; exact hoff _ h.outputs
  | evaluate features targets =>
    refine leads_bind_iff.2 (leads_lift .refl fun feeds _ => leads_bind_iff.2 ?_)
    have hevaluate := h.evaluateFunction
    refine (reported_of_execute hg ?_ ?_ _).mono fun _ _ h => leads_pure (leads_pure h)
    · rw [hevaluate]; rfl
    · rw [hevaluate]; exact hoff _ (List.forall_mem_append.2 ⟨h.losses, h.metrics⟩)

/-! ## Training -/

section Blind

variable {rel : Engine → Engine → Prop} (hreport : ∀ r, Blind rel (report r))

theorem blind_trainBatch (htrain : ∀ feeds, Blind rel (execute p.trainFunction feeds))
    (features targets : List Value) : Blind rel (p.trainBatch features targets) :=
  (blind_lift _).bind fun _ => (htrain _).bind fun _ => .pure _

theorem blind_trainWindows (htrain : ∀ feeds, Blind rel (execute p.trainFunction feeds))
    (features targets : List Value) (windows : List (Nat × Nat)) (total : Float32) :
    Blind rel (p.trainWindows features targets windows total) := by
  induction windows generalizing total with
  | nil => exact .pure _
  | cons window windows ih =>
    exact (blind_lift _).bind fun _ => (blind_lift _).bind fun _ =>
      (blind_trainBatch htrain _ _).bind fun _ => ih _

include hreport

theorem blind_trainEpochs (htrain : ∀ feeds, Blind rel (execute p.trainFunction feeds))
    (features targets : List Value) (plan : TrainingPlan) (windows : List (Nat × Nat))
    (more epoch : Nat) : Blind rel (p.trainEpochs features targets plan windows more epoch) := by
  induction more generalizing epoch with
  | zero => exact .pure _
  | succ more ih =>
    refine (blind_trainWindows htrain _ _ _ _).bind fun total => ?_
    have hrest : Blind rel (do
        return total / Single.ofInt windows.length ::
          (← p.trainEpochs features targets plan windows more (epoch + 1)) : Call (List Float32)) :=
      (ih (epoch + 1)).bind fun _ => .pure _
    exact .ite ((hreport _).bind fun _ => hrest) hrest

theorem blind_trainWith (htrain : ∀ feeds, Blind rel (execute p.trainFunction feeds))
    (features targets : List Value) (plan : TrainingPlan) :
    Blind rel (p.trainWith features targets plan) := by
  refine (blind_lift _).bind fun planned => ?_
  have hepochs := blind_trainEpochs hreport htrain features targets plan planned.2 plan.epochs 0
  exact .ite ((hreport _).bind fun _ => hepochs) hepochs

/-- A program cannot tell engines apart when its functions cannot. -/
theorem blind_call (hexecute : ∀ f ∈ [p.trainFunction, p.predictFunction, p.evaluateFunction],
    ∀ overrides, Blind rel (execute f overrides)) (u : Use) : Blind rel (u.call p) := by
  obtain ⟨htrain, hpredict, hevaluate⟩ : (∀ feeds, Blind rel (execute p.trainFunction feeds)) ∧
      (∀ feeds, Blind rel (execute p.predictFunction feeds)) ∧
      ∀ feeds, Blind rel (execute p.evaluateFunction feeds) := by simpa using hexecute
  cases u with
  | trainBatch features targets =>
    exact (blind_trainBatch htrain features targets).bind fun _ => .pure _
  | trainWith features targets plan =>
    exact (blind_trainWith hreport htrain features targets plan).bind fun _ => .pure _
  | predict features =>
    exact ((blind_lift _).bind fun _ => hpredict _).bind fun _ => .pure _
  | evaluate features targets =>
    exact ((blind_lift _).bind fun _ => (hevaluate _).bind fun _ => .pure _).bind fun _ => .pure _

end Blind

/-- Leaving out all questions changes neither what training gives nor, but for records, the engine
at the end. -/
theorem perform_filter (hg : g.Typed) (hreads : p.Reads g) (us : List Use) (h : Twin g e e') :
    (p.perform us e).1 = (p.perform (us.filter Use.trains) e').1 ∧
      Twin g (p.perform us e).2 (p.perform (us.filter Use.trains) e').2 := by
  induction us generalizing e e' with
  | nil => exact ⟨rfl, h⟩
  | cons u us ih =>
    cases hu : u.trains with
    | false =>
      -- the question is left out, and the engine that it leaves behind is a twin
      obtain rfl := h.graph
      have hasked := Twin.of_reported (reported_of_asking hg hreads hu)
      rw [List.filter_cons_of_neg (by simp [hu]), perform]
      simp only [hu]
      exact ih (hasked.symm.trans h)
    | true =>
      have hagree := blind_call (p := p) veiled_twin.report (fun f _ => blind_execute f) u e e' h
      obtain ⟨hrest, htwin⟩ := ih (after_of_agree hagree)
      rw [List.filter_cons_of_pos hu, perform, perform]
      simp only [hu, if_true]
      exact ⟨by rw [hrest, answer_eq_of_agree hagree], htwin⟩

end Program

namespace Model

/-- Predicting and evaluating never disturb training. On every engine that a compiled model can find
itself on, a prediction or an evaluation leaves nothing behind but records, whether it succeeds or
fails: all variables and all streams stay as they are. So two sessions with the same steps of
training give the same in these steps and leave engines with the same variables and streams,
wherever and how often they predict and evaluate in between. If all sampling nodes have seeds, the
two engines need not have the same entropy. -/
theorem training_ignores_questions {m : Model} {e₀ e₁ : Engine} {p : Program}
    (hreachable : e₀.Reachable) (hcompile : m.compile e₀ = .ok p e₁) :
    (∀ e, Changes e₁ e → ∀ u : Program.Use, u.trains = false →
      Reported e (e.after (u.call p))) ∧
    ∀ e e', Changes e₁ e → Twin e.graph e e' → ∀ us vs : List Program.Use,
      us.filter Program.Use.trains = vs.filter Program.Use.trains →
      (p.perform us e).1 = (p.perform vs e').1 ∧
        Twin e.graph (p.perform us e).2 (p.perform vs e').2 := by
  have hsound := sound_of_compile hreachable.sound hcompile
  have hreads : ∀ e, Changes e₁ e → p.Reads e.graph := fun e he =>
    (reads_of_compile hreachable.sound hcompile).extend he.extends
  have htyped : ∀ e, Changes e₁ e → e.graph.Typed := fun e he => (he.sound hsound).typed
  refine ⟨fun e he u hu => Program.reported_of_asking (htyped e he) (hreads e he) hu, ?_⟩
  intro e e' he htwin us vs hsame
  -- both sessions are compared with the one that only trains
  obtain ⟨hus, hleft⟩ := Program.perform_filter (htyped e he) (hreads e he) us (.refl e)
  obtain ⟨hvs, hright⟩ := Program.perform_filter (htyped e he) (hreads e he) vs htwin.symm
  rw [hsame] at hus hleft
  exact ⟨hus.trans hvs.symm, hleft.trans hright.symm⟩

/-- A line behind a dropout that drops half of its inputs while training. -/
def dropping : Model where
  network := ⟨0, #[⟨"x", .input (.singles none)⟩,
    ⟨"d", .dropout (.half (some 7) none) ⟨0, 0⟩⟩,
    ⟨"y", .dense (.ones 1 (some .linear) none Nat.one_pos) ⟨0, 1⟩⟩]⟩
  inputs := [⟨0, 0⟩]
  outputs := [⟨0, 2⟩]
  losses := [.meanSquaredError]
  descent := .halves
  metrics := []

/-- Two steps of training, on two rows each. -/
def twoSteps : List Program.Use :=
  [.trainBatch [.full [2, 1] 1] [.full [2, 1] 0], .trainBatch [.full [2, 1] 2] [.full [2, 1] 0]]

/-- The same with predictions and evaluations around them, some of which fail. -/
def questionedSteps : List Program.Use :=
  [.predict [.full [3, 1] 1], .evaluate [.full [1, 1] 1] [.full [1, 2] 1],
    .trainBatch [.full [2, 1] 1] [.full [2, 1] 0], .predict [],
    .evaluate [.full [1, 1] 1] [.full [1, 1] 1],
    .trainBatch [.full [2, 1] 2] [.full [2, 1] 0], .predict [.full [1, 1] 1]]

/-- The line behind a dropout draws the same factors and takes the same two steps, whether it is
asked for predictions in between or not. -/
theorem dropping_ignores_questions :
    ∃ p e, dropping.compile (.create 0 0) = .ok p e ∧
      (p.perform twoSteps e).1.map (·.toOption.isSome) = [true, true] ∧
      (p.perform questionedSteps e).1 = (p.perform twoSteps e).1 ∧
      Twin e.graph (p.perform questionedSteps e).2 (p.perform twoSteps e).2 := by
  obtain ⟨⟨p, e⟩, e', hrun, hgives⟩ := exists_of_answer (c := dropping.compileKeeping)
    (e := .create 0 0)
    (f := fun r => (r.1.perform twoSteps r.2).1.map (·.toOption.isSome))
    (b := [true, true]) (by decide +kernel)
  obtain ⟨_, _, hcompile, hrun⟩ := bind_eq_ok_iff.1 hrun
  cases hrun
  obtain ⟨-, hsessions⟩ := training_ignores_questions (.create 0 0) hcompile
  exact ⟨p, e, hcompile, hgives, hsessions e e .refl (.refl e) questionedSteps twoSteps rfl⟩

end Model

end TensorGraph
