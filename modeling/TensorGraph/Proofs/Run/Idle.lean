import TensorGraph.Proofs.Engine.Reachable
import TensorGraph.Proofs.Evaluation.Drawing
import TensorGraph.Proofs.Graph.Reaching

/-!
# Runs that change nothing

Outside of training a run whose targets reach neither random nodes nor updates only makes records.
It draws from no stream and assigns to no variable, also when it fails on the way.

## Main results

* `Setting.still_evaluate`: such an evaluation keeps the streams and makes no assignments.
* `Engine.leads_idle_run`: such a run leaves the engine as it was but for records.
-/

namespace TensorGraph

namespace Setting

variable {S : Type} [Scalar S] {env : Setting S} {slot : Nat} {op : Op} {streams : SlotMap Stream}

/-- A working state with certain streams and no assignments. -/
def Still (streams : SlotMap Stream) (ev : Evaluation S) : Prop :=
  ev.streams = streams ∧ ev.assignments = #[]

omit [Scalar S] in
theorem still_recordAssignment (h : op.isUpdate = false) (t : Tensor S) :
    Maintains (Still streams) (recordAssignment t op) := by
  cases op
  case assign | assignAdd => cases h
  all_goals exact .pure ()

omit [Scalar S] in
/-- Outside of training only random nodes draw samples. -/
theorem samples_of_inference (hphase : env.phase = .inference) (h : op.isRandom = false) :
    env.samples op = false := by
  cases op
  case random => cases h
  case dropout => simp [samples, dropsAt, hphase]
  all_goals rfl

/-- Outside of training a passive node draws nothing and assigns nothing. -/
theorem still_evaluateSlot (hphase : env.phase = .inference)
    (h : ∀ n, env.graph.nodes[slot]? = some n → n.op.Passive) :
    Maintains (Still streams) (env.evaluateSlot slot) := by
  unfold evaluateSlot
  split
  · exact .pure ()
  · next n hn =>
    obtain ⟨hrandom, hupdate⟩ := h n hn
    rw [drawNoise_eq_pure (samples_of_inference hphase hrandom), pure_bind]
    refine (maintains_differentiate fun _ _ _ h => h).bind fun _ => Maintains.get.bind fun _ =>
      (maintains_lift _).bind fun t => ?_
    exact (still_recordAssignment hupdate t).bind fun _ => .modify fun _ hstill => hstill

theorem still_evaluateAll (hphase : env.phase = .inference) {slots : List Nat}
    (h : ∀ slot ∈ slots, ∀ n, env.graph.nodes[slot]? = some n → n.op.Passive) :
    Maintains (Still streams) (env.evaluateAll slots) := by
  induction slots with
  | nil => exact .pure ()
  | cons slot slots ih =>
    obtain ⟨hslot, hslots⟩ := List.forall_mem_cons.1 h
    exact (still_evaluateSlot hphase hslot).bind fun _ => ih hslots

/-- Outside of training an evaluation that reaches only passive nodes draws nothing and assigns
nothing. -/
theorem still_evaluate (hg : env.graph.Typed) (hphase : env.phase = .inference)
    {targets : List Nat} (h : ∀ t ∈ targets, env.graph.ReachesOnly Op.Passive t) :
    Maintains (Still streams) (env.evaluate targets) :=
  still_evaluateAll hphase fun slot hslot _ hn =>
    (Graph.ReachesOnly.of_mem_schedule hg h slot hslot).op hn

end Setting

namespace Engine

variable {e e' : Engine} {f : Function}

/-- An evaluation that leaves the streams where they were only makes records. -/
theorem reported_absorb {s : Session} {ev : Evaluation Float32} (hs : e.session = some s)
    (hstill : Setting.Still s.streams ev) : Reported e (e.absorb s ev) := by
  obtain ⟨hstreams, -⟩ := hstill
  refine ⟨ev.journal, ?_⟩
  rw [absorb, hstreams, ← hs]

/-- Without assignments the end of a run changes nothing. -/
theorem leads_finishRun {s : Session} {ev : Evaluation Float32} (hs : e.session = some s)
    (hstill : Setting.Still s.streams ev) (outputs : List (Nat × GraphNode)) :
    Leads (finishRun outputs ev) (e.absorb s ev) (Reported e) fun _ e' => Reported e e' := by
  have hreported := reported_absorb hs hstill
  rw [finishRun, hstill.2]
  exact hreported

/-- A run outside of training that reaches only passive nodes leaves the engine as it was but for
records, whether it gives values or fails. -/
theorem leads_idle_run (hg : e.graph.Typed) (hphase : f.phase = .inference)
    (hpassive : ∀ n ∈ f.outputs ++ f.updates, e.graph.ReachesOnly Op.Passive n.index)
    (feeds : List (Node × Value)) :
    Leads (run f feeds) e (Reported e) fun _ e' => Reported e e' := by
  refine leads_run_of (fun _ h => h) fun e₁ outputs hreported _ _ _ => ?_
  have hrest := hreported
  obtain ⟨records, rfl⟩ := hreported
  -- passive nodes outside of training draw nothing and assign nothing
  have hstill : ∀ s : Session, Maintains (Setting.Still s.streams)
      ((e.setting s f.phase (feedTable feeds .empty)).evaluate
        ((f.outputs ++ f.updates).map (·.index))) := fun s =>
    Setting.still_evaluate hg hphase (List.forall_mem_map.2 hpassive)
  refine leads_evaluate hrest ?_ ?_
  · intro s failure ev hs hev
    exact hrest.trans (reported_absorb hs ((hstill s).of_eq_error ⟨rfl, rfl⟩ hev))
  · intro s ev hs hev
    exact (leads_finishRun hs ((hstill s).of_eq_ok ⟨rfl, rfl⟩ hev) outputs).imp
      (fun _ h => hrest.trans h) fun _ _ h => hrest.trans h

end Engine
end TensorGraph
