import TensorGraph.Proofs.Engine.Disposal
import TensorGraph.Proofs.Engine.Lasting

/-!
# The end of a session

Ending the session is final. Whatever is asked of the engine afterwards leaves it as it was when the
session ended: its graph is frozen, names and trained variables are looked up in it as before, and
nothing that needs a session is granted again.

## Main definitions

* `Engine.Frozen`: a disposed engine that reads like another one.

## Main results

* `Engine.afterAll_disposed`: a disposed engine stays as it is over any run of requests.
* `Engine.frozen_of_dispose`: what is left once the session has been ended.
-/

namespace TensorGraph.Engine

variable {e d : Engine}

/-- `d` is disposed, its graph reads like that of `e`, and it grants nothing that needs a
session. -/
structure Frozen (e d : Engine) : Prop where
  disposed : d.isDisposed
  nodes : d.graph.nodes = e.graph.nodes
  id : d.graph.id = e.graph.id
  name (name : String) : d.find? name = e.find? name
  weights : d.trainableWeights = e.trainableWeights
  refused (r : Request) : r.needsSession → gives r.call d = false

theorem frozen_of_graph_eq (h : d.isDisposed) (hgraph : d.graph = e.graph) : Frozen e d where
  disposed := h
  nodes := by rw [hgraph]
  id := by rw [hgraph]
  name name := by rw [find?, find?, hgraph]
  weights := by rw [trainableWeights, trainableWeights, hgraph]
  refused _ hr := (refuses_of_needsSession hr h).not_gives

/-- Ending the session leaves the graph as it is. -/
theorem leads_dispose :
    Leads dispose e (fun _ => False) fun _ d => d.isDisposed ∧ d.graph = e.graph := by
  refine leads_get ?_
  cases h : e.isDisposed with
  | true => exact leads_pure ⟨h, rfl⟩
  | false => exact ⟨rfl, rfl⟩

/-- By induction on the requests: each of them leaves a disposed engine as it is, so the next one
meets the same engine. -/
theorem afterAll_disposed (h : e.isDisposed) (rs : List Request) : e.afterAll rs = e := by
  induction rs with
  | nil => rfl
  | cons r rs ih =>
    change (e.after r.call).afterAll rs = e
    rw [after_disposed r h]
    exact ih

/-- Once the session has been ended, whatever is asked of the engine and whether it is granted or
not, the engine stays disposed and as it is, nodes, names and trained variables read as they did
before, and no request that needs a session is granted. -/
theorem frozen_of_dispose (e : Engine) (rs : List Request) :
    Frozen e (e.after Request.dispose.call) ∧
    (e.after Request.dispose.call).afterAll rs = e.after Request.dispose.call ∧
    Frozen e ((e.after Request.dispose.call).afterAll rs) := by
  obtain ⟨hdisposed, hgraph⟩ : (e.after dispose).isDisposed ∧ (e.after dispose).graph = e.graph :=
    Leads.after (leads_dispose.imp (fun _ => False.elim) fun _ _ h => h)
  have hfrozen : Frozen e (e.after Request.dispose.call) := frozen_of_graph_eq hdisposed hgraph
  refine ⟨hfrozen, afterAll_disposed hfrozen.disposed rs, ?_⟩
  rw [afterAll_disposed hfrozen.disposed rs]
  exact hfrozen

/-- The placeholder of `squaring` is still looked up after its session has ended and further
requests have been made, while asking for the placeholder itself is refused. -/
theorem squaring_frozen :
    ((squaring.after Request.dispose.call).afterAll furtherRequests).find? "x" = some ⟨0, 0⟩ ∧
    gives (Request.placeholder "x" [openAxis]).call
      ((squaring.after Request.dispose.call).afterAll furtherRequests) = false := by
  obtain ⟨-, -, hfrozen⟩ := frozen_of_dispose squaring furtherRequests
  exact ⟨(hfrozen.name "x").trans (by decide +kernel), hfrozen.refused _ rfl⟩

end TensorGraph.Engine
