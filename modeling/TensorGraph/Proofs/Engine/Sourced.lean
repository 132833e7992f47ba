import TensorGraph.Proofs.Engine.Ranging
import TensorGraph.Proofs.Graph.Feeding

/-!
# Where first values come from

The first value of a variable comes from the node that its initializer has appended for it. Calls
that create no variable leave the connections of the variables alone, so every variable of a
reachable engine is connected to a source, or to nothing if it is a counter.

## Main results

* `Engine.growable_sourced`: whatever requests append leaves the variables connected to sources.
* `Engine.Reachable.sourced`: the variables of a reachable engine are connected to sources.
-/

namespace TensorGraph

namespace Engine

variable {e e' : Engine}

/-- Engines of which the second one has its variables connected to sources when the first one
has. -/
def Sourcing (e e' : Engine) : Prop := e.graph.Sourced → e'.graph.Sourced

theorem Sourcing.refl (e : Engine) : Sourcing e e := fun h => h

/-- A node that is no variable changes no connection of a variable. -/
theorem Appended.sourcing {n : GraphNode} {handle : Node} (h : Appended e n handle e') :
    Sourcing e e' := by
  have hstateless := h.stateless
  obtain rfl := h.engine
  exact fun he => he.push fun hvar => absurd hvar (by simp [hstateless])

/-- Draws and records leave variables connected to their sources. -/
theorem Drained.sourcing (h : Drained e e') : Sourcing e e' := by
  obtain ⟨streams, records, rfl⟩ := h
  exact .refl _

/-- A new variable is connected to the source of its first value. -/
theorem Created.sourcing {n made : GraphNode} {init : Node} {e₁ : Engine} {s : Session}
    {ev : Evaluation Float32} {handle : Node} (h : Created e n made init e₁ s ev handle e')
    (hsource : made.op.isSource) : Sourcing e e' := by
  intro he
  obtain ⟨trainable, hop⟩ := h.op
  rw [h.graph]
  refine (h.appended.sourcing he).declare fun _ s hs => ?_
  rw [hop] at hs
  obtain rfl := List.mem_singleton.1 hs
  exact ⟨made, h.appended.getElem?, hsource⟩

/-- Building keeps variables connected to their sources. -/
theorem buildable_sourced : Buildable fun e => e.graph.Sourced where
  append h happended _ := happended.sourcing h
  create h hcreated hsource := hcreated.sourcing hsource h
  report h hreported := hreported.drained.sourcing h

/-- What requests append keeps variables connected to their sources. -/
theorem growable_sourced : Growable Graph.Sourced where
  append happended _ h := happended.sourcing h
  create hcreated hsource _ h := hcreated.sourcing hsource h
  declare _ h := h.push fun _ s hs => by cases hs

/-- The variables of a reachable engine are connected to sources. -/
theorem Reachable.sourced (h : e.Reachable) : e.graph.Sourced :=
  h.of_growable growable_sourced Graph.sourced_empty

end Engine
end TensorGraph
