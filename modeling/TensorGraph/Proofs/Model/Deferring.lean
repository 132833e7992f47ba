import TensorGraph.Proofs.Model.Combining
import TensorGraph.Proofs.Model.Objecting

/-!
# Errors of construction that come late

An error of construction says that an object was described wrongly, and most objects are checked
when they are made. Two kinds of parameters are looked at only when a model is compiled: the
distance from zero and one that a negative log likelihood keeps, and the distributions that the
weights and the bias of a dense layer are drawn from. A model with such a parameter out of range is
accepted and never compiles. Compiling an accepted model gives an error of construction for no other
reason.

## Main definitions

* `Network.Vetted`: workspaces whose layers have initializers without a fault.

## Main results

* `Model.fault?_of_compile` and `Model.faults_of_compile`: a model that is compiled has no such
  parameter.
* `Model.defers_overlooked_checks`: errors of construction when an accepted model is compiled.
-/

namespace TensorGraph

open Engine

variable {e e' : Engine} {name : String}

/-- Errors about arguments are the errors of construction. -/
theorem Error.kind_eq_construction_iff {err : Error} :
    err.kind = .construction ↔ ∃ cause, err = .invalidArgument cause := by
  cases err <;> simp [Error.kind]

/-! ## Losses and metrics -/

theorem Loss.fault?_eq_none {loss : Loss} (h : loss.Accepted) : loss.fault? = none := by
  cases loss with
  | negativeLogLikelihood ε => exact if_pos h.1
  | meanSquaredError | binaryCrossEntropy | categoricalCrossEntropy => rfl

/-- A metric that is compiled has passed the check of its parameter. -/
theorem Metric.fault?_of_compile {metric : Metric} {predictions targets node : Node}
    (h : metric.compile predictions targets (some name) e = .ok node e') :
    metric.fault? = none := by
  cases metric with
  | meanSquaredError | meanAbsoluteError => rfl
  | loss l => exact Loss.fault?_eq_none (Loss.accepted_of_compile h)

/-! ## Layers -/

/-- An initializer without a fault compiles to an operation in range. -/
theorem Initializer.fault?_eq_none_iff {initializer : Initializer} (shape : DeclaredShape) :
    initializer.fault? = none ↔ (initializer.op shape).InRange := by
  cases initializer <;> simp [fault?, op, Op.InRange, Sampler.Accepted]

namespace Dense

variable {d : Dense} {feeder : LayerId}

/-- A dense layer that is compiled has passed the checks of its initializers. -/
theorem faults_of_compile {input : Node} {fed : DeclaredShape} {b : Blueprint}
    (h : d.compile name input fed e = .ok b e') : (Layer.dense d feeder).faults = [] := by
  have hleads : Leads (d.compile name input fed) e (fun _ => True)
      fun _ _ => (Layer.dense d feeder).faults = [] := by
    unfold Dense.compile
    extract_lets build
    -- whatever comes first, weights and bias are made, each of which checks its initializer
    have hbuild : ∀ size, Leads (build size) e (fun _ => True)
        fun _ _ => (Layer.dense d feeder).faults = [] := by
      intro size
      refine leads_bind_iff.2
        ((leads_createVariable_inRange _ _ _ true).imp (fun _ _ => trivial) ?_)
      intro weights e₁ hweights
      refine leads_bind_iff.2
        ((leads_createVariable_inRange _ _ _ true).imp (fun _ _ => trivial) ?_)
      intro bias e₂ hbias
      rw [← Initializer.fault?_eq_none_iff] at hweights hbias
      have hfaults : (Layer.dense d feeder).faults = [] := by
        simp [Layer.faults, initializers, hweights, hbias]
      exact leads_of_ok fun _ _ _ => hfaults
    split
    · split
      · exact hbuild _
      · exact leads_refuse trivial
    · exact leads_refuse trivial
  exact hleads.of_eq_ok h

end Dense

namespace Network

open Compiling

variable {n : Network}

/-- The layers that have been compiled have initializers without a fault. -/
def Vetted (n : Network) (w : Workspace) : Prop :=
  ∀ p ∈ w.context.blueprints, ∀ named, n.layer? p.1 = some named → named.layer.faults = []

theorem preserves_vetted (n : Network) (depth : Nat) (id : LayerId) :
    Preserves n.Vetted (n.compileWithin depth id) := by
  induction depth generalizing id with
  | zero => exact fun _ _ _ _ h => nomatch h
  | succ depth ih =>
    intro w node w' hw h
    obtain ⟨-, ⟨_, -, -, rfl⟩ | ⟨named, w₁, b, e, -, hid, hmakes, -, rfl⟩⟩ := compileWithin_eq_ok h
    · exact hw
    -- the feeder keeps the property by induction, and only a dense layer has anything to check
    obtain ⟨hw₁, hfaults⟩ : n.Vetted w₁ ∧ named.layer.faults = [] := by
      cases hmakes with
      | input made => exact ⟨hw, rfl⟩
      | dense ofFeeder shape made => exact ⟨ih _ _ _ _ hw ofFeeder, Dense.faults_of_compile made⟩
      | dropout ofFeeder made => exact ⟨ih _ _ _ _ hw ofFeeder, rfl⟩
    refine List.forall_mem_append.2 ⟨hw₁, List.forall_mem_singleton.2 fun named' hnamed => ?_⟩
    obtain rfl := Option.some.inj (hid.symm.trans hnamed)
    exact hfaults

end Network

/-! ## Models -/

namespace Model

variable {n : Network} {m : Model} {p : Program}

/-- Compiling a model finds fault with parameters only that were not checked before. -/
theorem objects_compile (hfed : m.network.WellFed) (hsound : e.Sound)
    (hinputs : ∀ id ∈ m.inputs, ∃ named, m.network.layer? id = some named)
    (houtputs : ∀ id ∈ m.outputs, ∃ named, m.network.layer? id = some named) :
    FailsBy (Failure.Objects m.Overlooks) m.compile e :=
  (binding_compile hfed hsound hinputs houtputs).objects

/-- A model that is compiled has losses and metrics without a fault. -/
theorem fault?_of_compile (hfed : m.network.WellFed) (hcounts : m.Counts) (hsound : e.Sound)
    (h : m.compile e = .ok p e') :
    (∀ l ∈ m.losses, l.fault? = none) ∧ ∀ l ∈ m.metrics, l.fault? = none := by
  obtain ⟨_, -, -, houtputs⟩ := exists_chronicle hfed hsound h
  obtain ⟨_, _, w, hends, hassemble, -⟩ := exists_assembled h
  obtain ⟨rfl, rfl, pairs, updates, targeted, lost, summed, scored, trained, hassembly⟩ :=
    exists_assembly hassemble
  have hsound₁ := keeping_compileEnds buildable_sound m _ _ _ hsound hends
  obtain ⟨-, hpairs⟩ := hassembly.lengths hsound₁ houtputs.length_eq
  -- every loss has met a pairing, since there are as many of both
  have hlosses : m.losses.length ≤ pairs.length := by rw [hcounts.losses, hpairs]
  have hmetrics : m.metrics.length ≤ pairs.length := by
    rcases hcounts.metrics with hnone | hall
    · simp [hnone]
    · rw [hall, hpairs]
  refine ⟨fun l hl => ?_, fun l hl => ?_⟩
  · obtain ⟨pair, hrow⟩ := exists_mem_zip hlosses hl
    obtain ⟨_, _, _, hloss⟩ := exists_of_mapM_eq_ok hassembly.losses _ hrow
    exact Loss.fault?_eq_none (Loss.accepted_of_compile hloss)
  · obtain ⟨pair, hrow⟩ := exists_mem_zip hmetrics hl
    obtain ⟨_, _, _, hmetric⟩ := exists_of_mapM_eq_ok hassembly.metrics _ hrow
    exact Metric.fault?_of_compile hmetric

/-- A model that is compiled depends on layers without a fault. -/
theorem faults_of_compile (hfed : m.network.WellFed) (hsound : e.Sound)
    (h : m.compile e = .ok p e') {id : LayerId} (hid : id ∈ m.inputs ++ m.outputs)
    {ls : List (LayerId × Layer)} (hls : m.network.lineage id = .ok ls) :
    ∀ up ∈ ls, up.2.faults = [] := by
  obtain ⟨inputs, outputs, w, hends, -⟩ := exists_assembled h
  obtain ⟨hw, hinputs, houtputs⟩ := chronicled_of_compileEnds hfed hsound hends
  have hvetted : m.network.Vetted w := by
    have hlayers : ∀ ids, Preserves m.network.Vetted (m.compileLayers ids) := fun ids =>
      .mapM (fun id => m.network.preserves_vetted _ id) ids
    have hpreserves : Preserves m.network.Vetted m.compileEnds :=
      (hlayers _).bind fun _ => (hlayers _).bind fun _ => .pure _
    exact hpreserves _ _ _ (by simp [Network.Vetted, CompileContext.ofEngine]) hends
  obtain ⟨node, -, b, hb, -⟩ := exists_mem_of_forall₂ (List.rel_append hinputs houtputs) hid
  intro up hup
  obtain ⟨p, hp, hup'⟩ := List.mem_map.1 (hw.chronicle.mem_of_lineage (fun _ => hfed) hb hls up hup)
  obtain ⟨named, hnamed, hlayer⟩ := Network.exists_layer_of_mem_ancestry hls up hup
  exact hlayer ▸ hvetted p hp named (hup' ▸ hnamed)

/-- Compiling a model that was accepted gives an error of construction only for a parameter that is
not checked when a model is made, a distance of a loss or a metric or a distribution of an
initializer. With such a parameter out of range a model never compiles. -/
theorem defers_overlooked_checks {inputs outputs : List LayerId} {losses : List Loss}
    {descent : Descent} {metrics : List Metric} (hgrown : n.Grown)
    (hcreate : create n inputs outputs losses descent metrics = .ok m) (he : e.Reachable) :
    (∀ err e', m.compile e = .error (.error err) e' → err.kind = .construction →
      ∃ cause, err = .invalidArgument cause ∧ m.Overlooks cause) ∧
    ∀ cause, m.Overlooks cause → ∀ p e', m.compile e ≠ .ok p e' := by
  have hcounts := counts_of_create hcreate
  obtain ⟨rfl, hinputs, houtputs⟩ := create_eq_ok hcreate
  have hfed := hgrown.wellFed
  constructor
  · intro err e' hfail hkind
    obtain ⟨cause, rfl⟩ := Error.kind_eq_construction_iff.1 hkind
    refine ⟨cause, rfl, ?_⟩
    refine objects_compile hfed he.sound (fun id hid => ?_) (fun id hid => ?_) _ _ hfail _ rfl
    · obtain ⟨named, hnamed, -⟩ := hinputs id hid
      exact ⟨named, hnamed⟩
    · obtain ⟨ls, hls, -⟩ := houtputs id hid
      exact Network.exists_layer_of_lineage hls
  · -- in each of the three cases compiling would have run the check
    rintro cause (⟨hl, hcause⟩ | ⟨hl, hcause⟩ | ⟨hid, hls, hup, hcause⟩) p e' hcompile
    · rw [(fault?_of_compile hfed hcounts he.sound hcompile).1 _ hl] at hcause
      cases hcause
    · rw [(fault?_of_compile hfed hcounts he.sound hcompile).2 _ hl] at hcause
      cases hcause
    · rw [faults_of_compile hfed he.sound hcompile hid hls _ hup] at hcause
      cases hcause

/-! ## A negative distance -/

/-- Training for a likelihood with a negative distance. -/
def unlikely : Model := branchingModel [⟨0, 1⟩] [.negativeLogLikelihood (-1)]

theorem create_unlikely :
    createBranching [⟨0, 1⟩] [.negativeLogLikelihood (-1)] = .ok unlikely := rfl

/-- The model has been accepted, and compiling it gives an error of construction. -/
theorem exists_unlikely_compile : ∃ err e',
    unlikely.compile (.create 0 0) = .error (.error err) e' ∧ err.kind = .construction := by
  have hfails : (match unlikely.compile (.create 0 0) with
      | .ok _ _ => false
      | .error (.fault _) _ => false
      | .error (.error err) _ => err.kind == .construction) = true := by decide +kernel
  split at hfails
  · cases hfails
  · cases hfails
  · next err e' hfailed => exact ⟨err, e', hfailed, beq_iff_eq.1 hfails⟩

/-- Compiling a model that was accepted can give an error of construction. -/
theorem not_never_deferred : ¬∀ (n : Network) (inputs outputs : List LayerId) (losses : List Loss)
    (descent : Descent) (metrics : List Metric) (m : Model) (number : Nat) (entropy : UInt64)
    (err : Error) (e' : Engine), n.Grown →
    create n inputs outputs losses descent metrics = .ok m →
    m.compile (.create number entropy) = .error (.error err) e' → err.kind ≠ .construction := by
  intro h
  obtain ⟨err, e', hfailed, hkind⟩ := exists_unlikely_compile
  exact h _ _ _ _ _ _ _ 0 0 err e' grown_branching create_unlikely hfailed hkind

/-- The distance is what is wrong, and the model compiles nowhere. -/
theorem unlikely_defers : (branching 3).Grown ∧
    createBranching [⟨0, 1⟩] [.negativeLogLikelihood (-1)] = .ok unlikely ∧
    (∃ err e' cause, unlikely.compile (.create 0 0) = .error (.error err) e' ∧
      err = .invalidArgument cause ∧ unlikely.Overlooks cause) ∧
    ∀ number entropy p e', unlikely.compile (.create number entropy) ≠ .ok p e' := by
  refine ⟨grown_branching, create_unlikely, ?_, fun number entropy => ?_⟩
  · obtain ⟨err, e', hfailed, hkind⟩ := exists_unlikely_compile
    obtain ⟨hobjects, -⟩ := defers_overlooked_checks grown_branching create_unlikely (.create 0 0)
    obtain ⟨cause, hcause, hoverlooks⟩ := hobjects err e' hfailed hkind
    exact ⟨err, e', cause, hfailed, hcause, hoverlooks⟩
  · -- the distance is negative, so it is outside of its range
    have hrange : ¬((0 : Float32) < -1 ∧ (-1 : Float32) < 0.5) := by decide +kernel
    have hfault : (Loss.negativeLogLikelihood (-1)).fault? = some (.badEpsilon (-1)) := by
      rw [Loss.fault?, if_neg hrange]
    exact (defers_overlooked_checks grown_branching create_unlikely (.create number entropy)).2 _
      (.loss List.mem_cons_self hfault)

end Model
end TensorGraph
