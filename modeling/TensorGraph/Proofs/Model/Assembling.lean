import TensorGraph.Proofs.Model.Attaching
import TensorGraph.Proofs.Model.Layout

/-!
# Assembling a model

What follows the layers of a model is appended in stages: the targets, the losses, their sum, the
metrics, and the updates. An assembly names the engine after each of them.

## Main definitions

* `Model.Assembly`: the stages of assembling a model.

## Main results

* `Model.exists_assembly`: a model that is assembled goes through these stages.
* `Model.Assembly.padded_scored`: from the targets to the metrics no variable is appended.
-/

namespace TensorGraph

open Engine

variable {m : Model} {p : Program} {e e' targeted lost summed scored trained : Engine}
  {inputs outputs updates : List Node} {pairs : List Model.Pairing}

namespace Model

/-- The stages in which what follows the layers is appended, with the engine after each: with the
targets, with the losses, with their sum, with the metrics, and with the updates. -/
structure Assembly (m : Model) (e : Engine) (p : Program) (pairs : List Pairing)
    (updates : List Node) (targeted lost summed scored trained e' : Engine) : Prop where
  targets : ((m.outputs.zip p.outputs).mapM fun (id, output) => m.compileTarget id output) e =
    .ok p.targets targeted
  paired : m.pairings (m.outputs.zip (p.outputs.zip p.targets)) = .ok pairs
  losses : m.compileLosses pairs targeted = .ok p.losses lost
  objective : ∃ e₁, aggregate p.losses lost = .ok p.objective e₁ ∧ Reported e₁ summed
  metrics : m.compileMetrics pairs summed = .ok p.metrics scored
  trains : m.descent.compile p.objective scored.trainableWeights scored = .ok updates trained
  trainFunction : p.trainFunction = (Function.ofNodes trained.graph.id (p.inputs ++ p.targets)
    (p.outputs ++ p.losses) updates).withPhase .train
  predictFunction : p.predictFunction = .ofNodes trained.graph.id p.inputs p.outputs []
  evaluateFunction : p.evaluateFunction =
    .ofNodes trained.graph.id (p.inputs ++ p.targets) (p.losses ++ p.metrics) []
  reported : Reported trained e'
  active : e'.session.isSome

/-- A model that is assembled goes through all stages. -/
theorem exists_assembly (h : m.assemble inputs outputs e = .ok p e') :
    p.inputs = inputs ∧ p.outputs = outputs ∧ ∃ pairs updates targeted lost summed scored trained,
      m.Assembly e p pairs updates targeted lost summed scored trained e' := by
  have hactive := (ends_of_assemble h).2.2
  unfold assemble at h
  -- one engine for every stage; reading the weights and binding functions leaves it as it is
  simp only [bind_eq_ok_iff] at h
  obtain ⟨targets, e₁, htargets, pairs, e₂, hpairs, losses, e₃, hlosses, objective, e₄,
    hobjective, _, e₅, hreport, metrics, e₆, hmetrics, _, _, hget, updates, trained, hupdates,
    f, _, hf, g, _, hg, k, _, hk, _, _, hlast, hp⟩ := h
  cases hget
  obtain ⟨rfl, rfl⟩ := (leads_function _ _ _).of_eq_ok hf
  obtain ⟨rfl, rfl⟩ := (leads_function _ _ _).of_eq_ok hg
  obtain ⟨rfl, rfl⟩ := (leads_function _ _ _).of_eq_ok hk
  obtain ⟨hpaired, rfl⟩ := lift_eq_ok_iff.1 hpairs
  cases hreport
  cases hlast
  cases hp
  exact ⟨rfl, rfl, pairs, updates, _, _, _, _, _, ⟨htargets, hpaired, hlosses,
    ⟨_, hobjective, reported_report _⟩, hmetrics, hupdates, rfl, rfl, rfl, reported_report _,
    hactive⟩⟩

/-! ## What the stages change -/

/-- Compiling a target only makes changes. -/
theorem changing_compileTarget (m : Model) (id : LayerId) (output : Node) :
    Changing (m.compileTarget id output) := by
  refine (keeps_shape output).changing.bind fun shape => Changing.bind ?_ fun name =>
    changing_placeholder (name ++ "_Target") shape
  intro e _
  cases m.network.name id with
  | ok name => exact .refl
  | error err => exact .refl

/-- Compiling losses appends no variables, and gives each loss a name of its own. -/
theorem padded_compileLosses {losses : List Node}
    (h : m.compileLosses pairs e = .ok losses e') : Padded (fun _ => True) e e' ∧
      ((m.losses.zip pairs).map fun row => row.2.name ++ "_Loss").Nodup := by
  obtain ⟨hpadded, -, hnodup⟩ := (leads_mapM_attaches
    (fun row : Loss × Pairing => row.2.name ++ "_Loss")
    (fun row => row.1.attaches_compile row.2.output row.2.target) _ e).of_eq_ok h
  exact ⟨hpadded, hnodup⟩

/-- Compiling metrics appends no variables. -/
theorem padded_compileMetrics {metrics : List Node}
    (h : m.compileMetrics pairs e = .ok metrics e') : Padded (fun _ => True) e e' :=
  ((leads_mapM_attaches
    (fun row : Metric × Pairing => row.2.name ++ "_" ++ row.1.name)
    (fun row => row.1.attaches_compile row.2.output row.2.target) _ e).of_eq_ok h).1

namespace Assembly

variable (h : m.Assembly e p pairs updates targeted lost summed scored trained e')
include h

theorem changes_targeted (hsound : e.Sound) : Changes e targeted :=
  (Changing.mapM (fun row : LayerId × Node => m.changing_compileTarget row.1 row.2) _ e
    hsound).of_eq_ok h.targets

/-- Between the losses and the updates only nodes that are no variables are appended. -/
theorem padded_lost : Padded (fun _ => True) lost scored := by
  obtain ⟨e₁, haggregate, hreported⟩ := h.objective
  have hsum := (leads_padded_aggregate p.losses lost).of_eq_ok haggregate
  exact ((hsum.mono fun _ _ => trivial).trans hreported.padded).trans
    (padded_compileMetrics h.metrics)

/-- The losses are no variables either. -/
theorem padded_scored : Padded (fun _ => True) targeted scored :=
  (padded_compileLosses h.losses).1.trans h.padded_lost

theorem changes_scored (hsound : e.Sound) : Changes e scored :=
  (h.changes_targeted hsound).trans h.padded_scored.changes

/-- What follows the metrics only makes changes. -/
theorem changes_of_scored (hsound : scored.Sound) : Changes scored e' :=
  ((m.descent.changing_compile _ _ scored hsound).of_eq_ok h.trains).trans h.reported.changes

end Assembly

end Model
end TensorGraph
