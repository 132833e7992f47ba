import TensorGraph.Proofs.Model.Inference
import TensorGraph.Proofs.Run.Renaming

/-!
# Using renamed programs

A program becomes one on another engine when its nodes and functions are renamed. On engines that
hold the same in renamed slots, both programs can be trained and asked in the same way: step by
step they give the same answers, or both fail, and leave the same values under the same names.

## Main definitions

* `Engine.valueOf`: the value of a variable by its name.
* `Program.transcript`: what is seen while a program is used several times.
* `Renaming.Programs`: programs that are the same but for renaming.

## Main results

* `Renaming.Engines.valueOf_eq`: values by name are the same on both engines.
* `Renaming.Programs.transcript_eq`: renamed programs have the same transcripts.
-/

namespace TensorGraph

open Engine

/-! ## Transcripts -/

/-- The value of the variable that has a name. -/
def Engine.valueOf (e : Engine) (name : String) : Option (Tensor Float32) :=
  (e.graph.find? name).bind e.stored?

namespace Program

/-- What is seen while a program is used several times, whatever comes of it: after every use its
answer, if there is one, and the values of all variables by their names. -/
def transcript (p : Program) :
    List Use → Engine → List (Option Answer × (String → Option (Tensor Float32)))
  | [], _ => []
  | u :: us, e =>
    let e' := e.after (u.call p)
    ((answer (u.call p) e).toOption, e'.valueOf) :: p.transcript us e'

/-- Whether a use asks for scores, in which the metrics are. -/
def Use.scores : Use → Bool
  | .evaluate _ _ => true
  | .trainBatch _ _ | .trainWith _ _ _ | .predict _ => false

end Program

namespace Renaming

variable {r : Renaming} {p p' : Program} {e e' : Engine}

/-! ## Values by name -/

/-- A variable and its renamed copy have the same value. -/
theorem Engines.stored?_eq (h : r.Engines e e') (s : Nat) :
    e'.stored? (r.slot s) = e.stored? s := by
  have hsession := h.session
  unfold Engine.stored?
  revert hsession
  generalize e.session = σ
  generalize e'.session = σ'
  rintro (hsessions | _)
  · exact hsessions.store s
  · rfl

/-- Nothing is stored outside the renamed slots. -/
theorem Engines.stored?_eq_none (h : r.Engines e e') {t : Nat} (ht : ∀ s, r.slot s ≠ t) :
    e'.stored? t = none := by
  have hsession := h.session
  unfold Engine.stored?
  revert hsession
  generalize e.session = σ
  generalize e'.session = σ'
  rintro (hsessions | _)
  · exact hsessions.confined t ht
  · rfl

/-- The same values have the same names. A name that is only bound on the second engine is none of a
variable. -/
theorem Engines.valueOf_eq (h : r.Engines e e') : e'.valueOf = e.valueOf := by
  funext name
  unfold Engine.valueOf
  cases hfind : e.graph.find? name with
  | some s =>
    rw [h.graph.find?_iff.1 hfind, Option.bind_some, Option.bind_some, h.stored?_eq]
  | none =>
    cases hfind' : e'.graph.find? name with
    | none => rfl
    | some t =>
      refine h.stored?_eq_none fun s hs => ?_
      -- the name of a renamed node is bound on the first engine
      subst hs
      cases hfind.symm.trans (h.graph.find?_iff.2 hfind')

/-! ## Programs -/

/-- Programs that are the same but for renaming. Metrics may differ. -/
structure Programs (r : Renaming) (p p' : Program) : Prop where
  inputs : p'.inputs = p.inputs.map r.node
  targets : p'.targets = p.targets.map r.node
  outputs : p'.outputs = p.outputs.map r.node
  losses : p'.losses = p.losses.map r.node
  trainFunction : p'.trainFunction = r.function p.trainFunction
  predictFunction : p'.predictFunction = r.function p.predictFunction

theorem bindings_zip (ns : List Node) (vs : List Value) :
    r.bindings (ns.zip vs) = (ns.map r.node).zip vs := by
  rw [bindings, List.zip_map_left]

namespace Programs

/-- Outcomes with the same value, or two failures. -/
abbrev Alike {α : Type} (r : Renaming) (c c' : EStateM.Result Failure Engine α) : Prop :=
  Concur (fun _ => False) r.Engines (fun a a' => a' = a) c c'

/-- Features are judged by their number and their shapes alone. -/
theorem checkFeatures_eq (h : r.Programs p p') (features : List Value) :
    p'.checkFeatures features = p.checkFeatures features := by
  rw [Program.checkFeatures, h.inputs, List.length_map, Program.checkFeatures]

/-- Targets are judged by their number and their shapes alone. -/
theorem checkTargets_eq (h : r.Programs p p') (targets : List Value) :
    p'.checkTargets targets = p.checkTargets targets := by
  rw [Program.checkTargets, h.targets, List.length_map, Program.checkTargets]

/-- A batch is fed to the renamed placeholders. -/
theorem batchFeeds_eq (h : r.Programs p p') (features targets : List Value) :
    p'.batchFeeds features targets = (p.batchFeeds features targets).map r.bindings := by
  have hfeeds : p'.inputs.zip features ++ p'.targets.zip targets =
      r.bindings (p.inputs.zip features ++ p.targets.zip targets) := by
    rw [h.inputs, h.targets, ← bindings_zip, ← bindings_zip]
    exact List.map_append.symm
  unfold Program.batchFeeds
  rw [h.checkFeatures_eq, h.checkTargets_eq, hfeeds]
  cases p.checkFeatures features with
  | error err => rfl
  | ok _ =>
    cases p.checkTargets targets with
    | error err => rfl
    | ok _ => cases Program.rowCount (features ++ targets) <;> rfl

/-- A plan makes the same windows of the rows. -/
theorem planWindows_eq (h : r.Programs p p') (features targets : List Value)
    (plan : TrainingPlan) :
    p'.planWindows features targets plan = p.planWindows features targets plan := by
  unfold Program.planWindows
  rw [h.checkFeatures_eq, h.checkTargets_eq]

theorem alike_report (he : r.Engines e e') (record : Record) :
    Alike r (report record e) (report record e') :=
  .ok rfl (mirroring_engines.report _ _ he)

/-- A computation without an engine leaves two calls alike. -/
theorem alike_lift {α β : Type} {x : Except Error α} {f f' : α → Call β} (he : r.Engines e e')
    (hf : ∀ a, Alike r (f a e) (f' a e')) :
    Alike r ((Engine.lift x >>= f) e) ((Engine.lift x >>= f') e') :=
  concur_lift_bind he (k := id) (by rw [Option.map_id, id]) fun a _ => hf a

/-- Programs that are renamed copies train alike on a batch. -/
theorem trainBatch (h : r.Programs p p') (he : r.Engines e e') (features targets : List Value) :
    Alike r (p.trainBatch features targets e) (p'.trainBatch features targets e') := by
  have hfeeds : (p'.batchFeeds features targets).toOption =
      (p.batchFeeds features targets).toOption.map r.bindings := by
    rw [h.batchFeeds_eq]
    cases p.batchFeeds features targets <;> rfl
  refine concur_lift_bind he hfeeds fun feeds _ => ?_
  rw [h.trainFunction]
  refine (he.execute p.trainFunction feeds).bind ?_
  rintro results _ e₁ e₁' - rfl he
  refine .ok ?_ he
  rw [h.outputs, h.losses, List.length_map, List.length_map]

/-- They train alike on windows, one after the other. -/
theorem trainWindows (h : r.Programs p p') (he : r.Engines e e') (features targets : List Value)
    (windows : List (Nat × Nat)) (total : Float32) :
    Alike r (p.trainWindows features targets windows total e)
      (p'.trainWindows features targets windows total e') := by
  induction windows generalizing total e e' with
  | nil => exact .ok rfl he
  | cons window windows ih =>
    refine alike_lift he fun batchFeatures => alike_lift he fun batchTargets => ?_
    refine (h.trainBatch he batchFeatures batchTargets).bind ?_
    rintro losses _ e₁ e₁' - rfl he
    exact ih he _

/-- They train alike for epochs, one after the other. -/
theorem trainEpochs (h : r.Programs p p') (he : r.Engines e e') (features targets : List Value)
    (plan : TrainingPlan) (windows : List (Nat × Nat)) (more epoch : Nat) :
    Alike r (p.trainEpochs features targets plan windows more epoch e)
      (p'.trainEpochs features targets plan windows more epoch e') := by
  induction more generalizing epoch e e' with
  | zero => exact .ok rfl he
  | succ more ih =>
    refine (h.trainWindows he features targets windows 0).bind ?_
    rintro _ total e₁ e₁' - rfl he
    -- the same with and without a report in between
    have hrest : ∀ {e e' : Engine}, r.Engines e e' → Alike r
        ((do return (total / Single.ofInt windows.length) ::
          (← p.trainEpochs features targets plan windows more (epoch + 1)) : Call _) e)
        ((do return (total / Single.ofInt windows.length) ::
          (← p'.trainEpochs features targets plan windows more (epoch + 1)) : Call _) e') := by
      intro e e' he
      refine (ih he (epoch + 1)).bind ?_
      rintro rest _ e₂ e₂' - rfl he
      exact .ok rfl he
    dsimp only
    split
    · exact (alike_report he _).bind fun _ _ _ _ _ _ he => hrest he
    · exact hrest he

/-- They train alike by a plan. -/
theorem trainWith (h : r.Programs p p') (he : r.Engines e e') (features targets : List Value)
    (plan : TrainingPlan) :
    Alike r (p.trainWith features targets plan e)
      (p'.trainWith features targets plan e') := by
  unfold Program.trainWith
  rw [h.planWindows_eq]
  refine alike_lift he fun planned => ?_
  dsimp only
  split
  · exact (alike_report he _).bind fun _ _ _ _ _ _ he =>
      h.trainEpochs he _ _ _ _ _ _
  · exact h.trainEpochs he _ _ _ _ _ _

/-- They predict alike. -/
theorem predict (h : r.Programs p p') (he : r.Engines e e') (features : List Value) :
    Alike r (p.predict features e) (p'.predict features e') := by
  unfold Program.predict
  rw [h.checkFeatures_eq, h.inputs, ← bindings_zip, h.predictFunction]
  exact alike_lift he fun _ => he.execute _ _

/-- The same use of both programs. -/
theorem call (h : r.Programs p p') (he : r.Engines e e') {u : Program.Use} (hu : u.scores = false) :
    Alike r (u.call p e) (u.call p' e') := by
  cases u with
  | trainBatch features targets =>
    refine (h.trainBatch he features targets).bind ?_
    rintro losses _ e₁ e₁' - rfl he
    exact .ok rfl he
  | trainWith features targets plan =>
    refine (h.trainWith he features targets plan).bind ?_
    rintro means _ e₁ e₁' - rfl he
    exact .ok rfl he
  | predict features =>
    refine (h.predict he features).bind ?_
    rintro outputs _ e₁ e₁' - rfl he
    exact .ok rfl he
  | evaluate => cases hu

/-- Calls that are alike answer the same or both fail, and leave engines that belong together. -/
theorem answer_eq {α : Type} {c c' : Call α}
    (h : Alike r (c e) (c' e')) :
    (answer c' e').toOption = (answer c e).toOption ∧ r.Engines (e.after c) (e'.after c') := by
  unfold answer after
  revert h
  generalize c e = res
  generalize c' e' = res'
  rintro (⟨rfl, he⟩ | he | hexcuse)
  · exact ⟨rfl, he⟩
  · exact ⟨rfl, he⟩
  · exact hexcuse.elim

/-- Renamed programs that are used in the same way have the same transcripts. -/
theorem transcript_eq (h : r.Programs p p') (he : r.Engines e e') (us : List Program.Use)
    (hus : ∀ u ∈ us, u.scores = false) :
    p'.transcript us e' = p.transcript us e := by
  induction us generalizing e e' with
  | nil => rfl
  | cons u us ih =>
    obtain ⟨hu, hus⟩ := List.forall_mem_cons.1 hus
    obtain ⟨hanswer, he⟩ := answer_eq (h.call he hu)
    rw [Program.transcript, Program.transcript, hanswer, he.valueOf_eq, ih he hus]

end Programs

end Renaming
end TensorGraph
