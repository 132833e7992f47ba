import TensorGraph.Proofs.Graph.Feeding
import TensorGraph.Proofs.Run.Refusing

/-!
# Runs that are fed all they need

A run fails for want of a value at one place only, when it computes a placeholder that is not fed.
So a run of a function whose outputs and updates are fed by its inputs never fails in this way when
all of its inputs are fed. It may still fail in other ways, say when the shapes of two feeds do not
go together.

## Main definitions

* `Failure.Supplied`: the failures other than a placeholder without a value.

## Main results

* `Engine.failsBy_run`: running a function with a value for each of its inputs.
-/

namespace TensorGraph

/-- A failure that is not for want of the value of a placeholder. -/
def Failure.Supplied : Failure → Prop
  | .error (.unresolvedInput _) => False
  | _ => True

/-- Only a placeholder that is not fed fails for want of a value. -/
theorem Setting.Obstacle.supplied {S : Type} {env : Setting S} {slot : Nat} {op : Op}
    {failure : Failure} (h : env.Obstacle slot op failure)
    (hfed : op.isPlaceholder → (env.feeds.get? slot).isSome) : failure.Supplied := by
  cases h with
  | unfed absent =>
    have hsome := hfed rfl
    rw [absent] at hsome
    cases hsome
  | mismatched | unstretched => trivial
  | @unsampled _ _ _ _ defect => cases defect <;> trivial

namespace Engine

variable {e : Engine} {f : Function} {feeds : List (Node × Value)}

theorem FeedRefusal.supplied {g : Graph} {feed : Node × Value} {failure : Failure}
    (h : FeedRefusal g feed failure) : failure.Supplied := by
  cases h <;> trivial

/-- Running a function whose outputs and updates are fed by its inputs, with a value for each of
them, fails, if at all, for another reason. -/
theorem failsBy_run (hsound : e.Sound)
    (hclosed : ∀ n ∈ f.outputs ++ f.updates,
      e.graph.FedBy (fun s => ∃ input ∈ f.inputs, input.index = s) n.index)
    (hfeeds : ∀ input ∈ f.inputs, ∃ v, (input, v) ∈ feeds) :
    FailsBy Failure.Supplied (run f feeds) e := by
  intro failure e' hfail
  cases refusal_of_run hsound _ _ hfail with
  | disposed | foreign | unknown => trivial
  | feed _ refused => exact refused.supplied
  | evaluation _ mem reached node obstacle =>
    -- a placeholder that the run reaches is an input, so it has been fed
    refine obstacle.supplied fun hplaceholder => ?_
    obtain ⟨input, hinput, hslot⟩ :=
      ((hclosed _ mem).of_reaches reached).fed_of_isPlaceholder node hplaceholder
    obtain ⟨v, hv⟩ := hfeeds input hinput
    exact isSome_get?_feedTable (.inr ⟨_, hv, hslot⟩)

end Engine
end TensorGraph
