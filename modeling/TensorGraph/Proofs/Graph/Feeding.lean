import TensorGraph.Proofs.Engine.Coherent
import TensorGraph.Proofs.Engine.Initial
import TensorGraph.Proofs.Graph.Reaching

/-!
# Which placeholders a slot is fed by

A slot is fed by a set of placeholders when no other one is reached from it along the slots that the
operations are connected to. A variable is connected to the node that made its first value, so
this looks further than an evaluation does.

## Main definitions

* `Graph.FedBy`: a slot is fed by a set of placeholders.
* `Graph.Inherits`: properties of slots that an operation takes over from its inputs.
* `Graph.Sourced`: every variable has got its first value from a source.

## Main results

* `Graph.FedBy.of_connected`: a placeholder that is reached is in the set.
* `Graph.inherits_reachesOnly` and `Graph.inherits_fedBy`: properties that are inherited.
-/

namespace TensorGraph.Graph

variable {P : Op → Prop} {fed fed' : Nat → Prop} {g g' : Graph} {slot : Nat} {n : GraphNode}

/-- No placeholders but those of a set are reached along the slots that operations are connected
to. -/
inductive FedBy (fed : Nat → Prop) (g : Graph) : Nat → Prop
  | intro {slot : Nat} {n : GraphNode} (node : g.nodes[slot]? = some n)
      (placeholder : n.op.isPlaceholder → fed slot) (inputs : ∀ s ∈ n.op.inputs, FedBy fed g s) :
      FedBy fed g slot

namespace FedBy

theorem mono (h : g.FedBy fed slot) (hfed : ∀ s, fed s → fed' s) (hg : g.Extends g') :
    g'.FedBy fed' slot := by
  induction h with
  | intro node placeholder _ ih =>
    exact .intro (hg.node node) (fun hplaceholder => hfed _ (placeholder hplaceholder)) ih

theorem extend (h : g.FedBy fed slot) (hg : g.Extends g') : g'.FedBy fed slot :=
  h.mono (fun _ hs => hs) hg

/-- Whatever a slot reaches is fed by the same placeholders. -/
theorem of_connected (h : g.FedBy fed slot) {s : Nat}
    (hs : Relation.ReflTransGen g.Connected slot s) : g.FedBy fed s := by
  induction hs with
  | refl => exact h
  | tail _ hstep ih =>
    obtain ⟨n, hn, hmem⟩ := hstep
    obtain ⟨node, -, inputs⟩ := ih
    obtain rfl := Option.some.inj (node.symm.trans hn)
    exact inputs _ hmem

theorem fed_of_isPlaceholder (h : g.FedBy fed slot) (hn : g.nodes[slot]? = some n)
    (hplaceholder : n.op.isPlaceholder) : fed slot := by
  obtain ⟨node, placeholder, -⟩ := h
  obtain rfl := Option.some.inj (node.symm.trans hn)
  exact placeholder hplaceholder

/-- Evaluating a slot needs nothing that it is not connected to. -/
theorem of_reaches (h : g.FedBy fed slot) {s : Nat} (hs : g.Reaches slot s) : g.FedBy fed s := by
  induction hs with
  | refl => exact h
  | tail _ hstep ih =>
    obtain ⟨node, -, inputs⟩ := ih
    rw [operands_eq node] at hstep
    exact inputs _ (Op.operands_subset_inputs _ hstep)

end FedBy

/-! ## Inheriting from inputs -/

/-- A property of slots that an operation of a kind takes over from its inputs. It holds of a
variable whatever source its first value came from, and it stays when the graph grows. -/
structure Inherits (P : Op → Prop) (good : Graph → Nat → Prop) : Prop where
  deterministic : ∀ op : Op, op.Deterministic → P op
  extend : ∀ {g g' : Graph} {slot : Nat}, good g slot → g.Extends g' → good g' slot
  node : ∀ {g : Graph} {slot : Nat} {n : GraphNode}, g.nodes[slot]? = some n → P n.op →
    n.op.isPlaceholder = false → (∀ s ∈ n.op.inputs, good g s) → good g slot
  stored : ∀ {g : Graph} {slot : Nat} {n : GraphNode}, g.nodes[slot]? = some n → n.op.isVariable →
    (∀ s ∈ n.op.inputs, ∃ made, g.nodes[s]? = some made ∧ made.op.isSource) → good g slot

/-- Evaluating an operation needs what evaluating its inputs needs, and reading a variable needs
nothing. -/
theorem inherits_reachesOnly (hP : ∀ op : Op, op.Deterministic → P op) :
    Inherits P fun g => g.ReachesOnly P where
  deterministic := hP
  extend h hg := h.extend hg
  node hn hop _ hinputs := .intro hn hop fun o ho => hinputs o (Op.operands_subset_inputs _ ho)
  stored hn hvar _ :=
    .leaf hn (hP _ (Op.deterministic_of_isVariable hvar)) (Op.operands_of_isVariable hvar)

/-- A source is connected to nothing. -/
theorem fedBy_of_isSource (hn : g.nodes[slot]? = some n) (hop : n.op.isSource) :
    g.FedBy fed slot := by
  obtain ⟨hplaceholder, hinputs⟩ : n.op.isPlaceholder = false ∧ n.op.inputs = [] := by
    generalize n.op = op at hop
    cases op
    case constant | random | fill => exact ⟨rfl, rfl⟩
    all_goals cases hop
  exact .intro hn (by simp [hplaceholder]) (by simp [hinputs])

/-- An operation is fed by what its inputs are fed by, and a variable by nothing. -/
theorem inherits_fedBy (hP : ∀ op : Op, op.Deterministic → P op) (fed : Nat → Prop) :
    Inherits P fun g => g.FedBy fed where
  deterministic := hP
  extend h hg := h.extend hg
  node hn _ hplaceholder hinputs := .intro hn (by simp [hplaceholder]) hinputs
  stored {g slot n} hn hvar hmade := by
    have hplaceholder : n.op.isPlaceholder = false := by
      generalize n.op = op at hvar
      cases op with
      | «variable» => rfl
      | _ => cases hvar
    refine .intro hn (by simp [hplaceholder]) fun s hs => ?_
    -- the initial value was made of a constant, of samples or of a fill, which nothing feeds
    obtain ⟨made, hmade, hsource⟩ := hmade s hs
    exact fedBy_of_isSource hmade hsource

/-- Every variable has got its first value from a source, or without a node. -/
def Sourced (g : Graph) : Prop :=
  ∀ (slot : Nat) (n : GraphNode), g.nodes[slot]? = some n → n.op.isVariable →
    ∀ s ∈ n.op.inputs, ∃ made, g.nodes[s]? = some made ∧ made.op.isSource

theorem sourced_empty (id : Nat) : Sourced (empty id) := by
  intro slot n hn
  simp [empty] at hn

/-- A new node leaves the old variables alone. -/
theorem Sourced.push (h : g.Sourced) (hn : n.op.isVariable →
    ∀ s ∈ n.op.inputs, ∃ made, g.nodes[s]? = some made ∧ made.op.isSource) :
    (g.push n).Sourced := by
  have hstays : ∀ {s : Nat}, (∃ made, g.nodes[s]? = some made ∧ made.op.isSource) →
      ∃ made, (g.push n).nodes[s]? = some made ∧ made.op.isSource := by
    rintro s ⟨made, hmade, hsource⟩
    exact ⟨made, getElem?_push_eq_some_iff.2 (.inl hmade), hsource⟩
  intro slot m hm hvar s hs
  rcases getElem?_push_eq_some_iff.1 hm with hold | ⟨-, rfl⟩
  · exact hstays (h _ _ hold hvar s hs)
  · exact hstays (hn hvar s hs)

theorem Sourced.declare (h : g.Sourced) (hn : n.op.isVariable →
    ∀ s ∈ n.op.inputs, ∃ made, g.nodes[s]? = some made ∧ made.op.isSource) :
    (g.declare n).Sourced := by
  simpa only [Sourced, nodes_declare] using h.push hn

end TensorGraph.Graph
