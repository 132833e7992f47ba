import TensorGraph.Proofs.Engine.Reachable

/-!
# Shapes and types of what is evaluated

Whatever is evaluated on a reachable engine has the shape that its node declares, and is held by as
many elements as the two dimensions of its shape ask for. So a fetched value has the type and the
shape that the engine reports for its node.

## Main results

* `Engine.evaluated_as_declared`: the shapes of evaluated tensors and the types and shapes of
  fetched values.
-/

namespace TensorGraph.Engine

variable {e e' : Engine} {s : Session} {handle : Node} {found : Nat × GraphNode}

/-- The element type and the declared shape that an engine with a session reports. -/
theorem reported_of_located (hactive : e.session.isSome) (h : Located e.graph handle found) :
    type handle e = .ok found.2.type e ∧ shape handle e = .ok found.2.shape e := by
  constructor <;>
    exact bind_eq_ok_iff.2 ⟨(), e, checkActive_eq hactive,
      bind_eq_ok_iff.2 ⟨found, e, h.locate_eq, rfl⟩⟩

/-- What is evaluated on a reachable engine from checked feeds has the declared shape of its node.
The values of a run have the types and the shapes that the engine reports. -/
theorem evaluated_as_declared (h : e.Reachable) :
    (∀ phase table targets ev e', Checked e.graph table → (∀ t ∈ targets, t < e.graph.size) →
      evaluate phase table targets e = .ok ev e' →
      (∀ slot ∈ targets, (ev.values.get? slot).isSome) ∧
      ∀ slot t, ev.values.get? slot = some t → ∃ n : GraphNode, e.graph.nodes[slot]? = some n ∧
        n.shape.Describes t.shape ∧ t.data.size = t.shape.rows * t.shape.cols) ∧
    ∀ f feeds values e', run f feeds e = .ok values e' → ∀ (i : Nat) (n : Node),
      f.outputs[i]? = some n → ∃ (v : Value) (declared : DeclaredShape), values[i]? = some v ∧
        type n e = .ok v.type e ∧ shape n e = .ok declared e ∧ declared.Describes v.shape ∧
        v.elements.size = v.shape.size := by
  constructor
  · intro phase table targets ev e' htable htargets hev
    -- the slots with a value are those that the targets reach
    obtain ⟨s, hs, hev⟩ := exists_of_evaluate hev
    have hsettled := settled_of_evaluate h.sound.typed htargets hev
    have hfinished := h.sound.typed.finished_schedule htargets
    constructor
    · intro slot hslot
      rw [hsettled.isSome_iff, List.mem_reverse]
      exact (h.sound.typed.mem_schedule_iff htargets).2 ⟨slot, hslot, .refl⟩
    · intro slot t ht
      have hmem := (hsettled.isSome_iff slot).1 (by rw [ht]; rfl)
      obtain ⟨n, hn⟩ := Graph.exists_node_of_lt (hfinished.lt_size hmem)
      have hcovers := hsettled.covers h.sound.typed (h.sound.fits hs htable) hfinished hmem hn
      rw [Evaluation.known_value_eq ht] at hcovers
      exact ⟨n, hn, hcovers.describes, t.size_eq⟩
  · intro f feeds values e' hrun i n hn
    obtain ⟨s, ev, hran⟩ := (leads_run f feeds).of_eq_ok hrun
    obtain ⟨node, hnode, hvalue⟩ := hran.exists_value hn
    have hcovers := (hran.settled h.sound).covers h.sound.typed
      (h.sound.fits hran.active hran.checked) (hran.finished h.sound)
      (hran.mem_listed_of_output h.sound hn) hnode
    -- the engine reports the node that the handle is found at
    obtain ⟨found, hfound⟩ := hran.located n (List.mem_append_left _ (List.mem_of_getElem? hn))
    obtain rfl : node = found.2 := Option.some.inj (hnode.symm.trans hfound.node)
    obtain ⟨htype, hshape⟩ := reported_of_located (by rw [hran.active]; rfl) hfound
    refine ⟨_, found.2.shape, hvalue, ?_, hshape, ?_, Value.size_eq _⟩
    · rwa [Tensor.type_toValue]
    · rw [Tensor.shape_toValue]
      exact hcovers.describes

/-- The sum of the counter and the constant is evaluated without axes, and fetched as an integer. -/
theorem counting_as_declared :
    (∃ ev e', evaluate .train .empty [2] counting = .ok ev e' ∧
      ∃ t, ev.values.get? 2 = some t ∧ t.shape = [] ∧ t.data.size = 1) ∧
    ∃ values e' v, run countSteps [] counting = .ok values e' ∧ values[0]? = some v ∧
      type ⟨0, 2⟩ counting = .ok v.type counting ∧ v.shape = [] := by
  obtain ⟨hevaluated, hfetched⟩ := evaluated_as_declared reachable_counting
  have hshape : counting.graph.nodes[2]?.map (·.shape) = some [] := by decide +kernel
  constructor
  · obtain ⟨ev, e', hev⟩ := exists_of_gives (c := evaluate .train .empty [2]) (e := counting)
      (by decide +kernel)
    obtain ⟨hsome, hdeclared⟩ := hevaluated _ _ _ ev e' (checked_empty _) (by decide +kernel) hev
    obtain ⟨t, ht⟩ := Option.isSome_iff_exists.1 (hsome 2 (by simp))
    obtain ⟨n, hn, hdescribes, hsize⟩ := hdeclared 2 t ht
    have hrank := hdescribes.rank
    rw [hn, Option.map_some, Option.some.injEq] at hshape
    rw [hshape, List.length_nil, List.length_eq_zero_iff] at hrank
    have hnil := hrank
    exact ⟨ev, e', hev, t, ht, hnil, by rw [hsize, hnil]; rfl⟩
  · obtain ⟨values, e', hrun⟩ := exists_of_gives counting_gives
    obtain ⟨v, declared, hv, htype, hdeclared, hdescribes, -⟩ :=
      hfetched _ _ values e' hrun 0 ⟨0, 2⟩ rfl
    -- the call can only have given the declared shape of the sum
    have hempty : (match shape ⟨0, 2⟩ counting with
        | .ok d _ => d.isEmpty
        | .error _ _ => false) = true := by decide +kernel
    rw [hdeclared, List.isEmpty_iff] at hempty
    have hrank := hdescribes.rank
    rw [hempty, List.length_nil, List.length_eq_zero_iff] at hrank
    exact ⟨values, e', v, hrun, hv, htype, hrank⟩

end TensorGraph.Engine
