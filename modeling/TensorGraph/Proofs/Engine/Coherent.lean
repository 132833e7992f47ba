import TensorGraph.Proofs.Engine.Reachable

/-!
# The representation invariant

What holds of an engine between calls, whatever the calls have been and whether they have failed:
the graph is acyclic, names and trained variables are those of its nodes, declared shapes and
element types are as the operations ask for, and a live session holds one tensor of the declared
shape for every variable.

## Main definitions

* `Graph.Connected`: the operation in a slot is connected to another slot.
* `Engine.Coherent`: the representation invariant.

## Main results

* `Engine.reachable_coherent`: every reachable engine is coherent.
-/

namespace TensorGraph

namespace Op

/-- The operands that must hold numbers, and not integers. -/
def numeric : Op → List Nat
  | binary op a b => if op = .divide then [a, b] else []
  | unary op input => if op.acceptsIntegers then [] else [input]
  | clip input _ _ | dropout input _ _ | mean input => [input]
  | dot left right => [left, right]
  | biasAdd input bias => [input, bias]
  | sigmoidCrossEntropy targets logits => [targets, logits]
  | softmaxCrossEntropy logits labels => [logits, labels]
  | gradient loss target => [loss, target]
  | _ => []

/-- The two operands that must have the same element type. -/
def paired? : Op → Option (Nat × Nat)
  | binary _ a b => some (a, b)
  | assign target value => some (target, value)
  | assignAdd target delta => some (target, delta)
  | _ => none

variable {look : Nat → Option GraphNode} {op : Op} {shape : DeclaredShape} {type : ElementType}

/-- Operations on numbers are typed over nodes of numbers. -/
theorem Typed.type_of_mem_numeric (h : op.Typed look shape type) {s : Nat} {n : GraphNode}
    (hs : s ∈ op.numeric) (hn : look s = some n) : n.type = .f32 := by
  -- an operand is found once, so it has the type that the rule asks for
  have htype : ∀ {k : GraphNode}, look s = some k → k.type = .f32 → n.type = .f32 := by
    intro k hk htype
    rwa [Option.some.inj (hn.symm.trans hk)]
  cases h with
  | binary left right sameType float _ =>
    simp only [numeric] at hs
    split at hs
    · next hop =>
      rcases List.mem_pair.1 hs with rfl | rfl
      · exact htype left (float hop)
      · exact htype right (sameType ▸ float hop)
    · cases hs
  | @unary op _ _ input float =>
    simp only [numeric] at hs
    split at hs
    · cases hs
    · next hop => exact htype (List.mem_singleton.1 hs ▸ input) (float (by simpa using hop))
  | clip input float | dropout input float | mean input float =>
    exact htype (List.mem_singleton.1 hs ▸ input) float
  | dot left right leftType rightType | biasAdd left right leftType rightType
  | sigmoidCrossEntropy left right leftType rightType
  | softmaxCrossEntropy left right leftType rightType =>
    rcases List.mem_pair.1 hs with rfl | rfl
    · exact htype left leftType
    · exact htype right rightType
  | gradient loss target lossType _ targetType =>
    rcases List.mem_pair.1 hs with rfl | rfl
    · exact htype loss lossType
    · exact htype target targetType
  | _ => cases hs

/-- Operations on two operands of one element type are typed over such. -/
theorem Typed.type_eq_of_paired? (h : op.Typed look shape type) {a b : Nat} {n m : GraphNode}
    (hp : op.paired? = some (a, b)) (hn : look a = some n) (hm : look b = some m) :
    n.type = m.type := by
  cases h with
  | binary left right sameType =>
    cases hp
    rwa [Option.some.inj (hn.symm.trans left), Option.some.inj (hm.symm.trans right)]
  | assign target value _ sameType =>
    cases hp
    rwa [Option.some.inj (hn.symm.trans target), Option.some.inj (hm.symm.trans value)]
  | assignAdd target delta _ sameType =>
    cases hp
    rwa [Option.some.inj (hn.symm.trans target), Option.some.inj (hm.symm.trans delta)]
  | _ => cases hp

/-- The operands of an operation on numbers are among the slots that it is connected to. -/
theorem numeric_subset_inputs (op : Op) : op.numeric ⊆ op.inputs := by
  cases op <;> simp only [numeric, inputs, List.Subset.refl, List.nil_subset]
  case binary | unary => split <;> simp

theorem mem_inputs_of_paired? {op : Op} {a b : Nat} (h : op.paired? = some (a, b)) :
    a ∈ op.inputs ∧ b ∈ op.inputs := by
  cases op <;> cases h <;> simp [inputs]

end Op

namespace Graph

/-- The operation in the first slot is connected to the second slot. -/
def Connected (g : Graph) (slot s : Nat) : Prop :=
  ∃ n, g.nodes[slot]? = some n ∧ s ∈ n.op.inputs

/-- A handle of a graph is the one that the graph gives for its slot. -/
theorem handle_index {g : Graph} {handle : Node} (h : handle.graph = g.id) :
    g.handle handle.index = handle := by
  rw [Graph.handle, ← h]

end Graph

namespace Engine

/-- The representation invariant of engines. -/
structure Coherent (e : Engine) : Prop where
  /-- An operation is connected to earlier slots. -/
  lt : ∀ {slot s : Nat}, e.graph.Connected slot s → s < slot
  /-- So connections cannot be followed for ever. -/
  acyclic : WellFounded fun s slot => e.graph.Connected slot s
  /-- The schedule of a slot is complete: it lists once whatever the slot needs. -/
  schedule : ∀ {slot : Nat}, slot < e.graph.size → (e.graph.schedule [slot]).Nodup ∧
    ∀ s, s ∈ e.graph.schedule [slot] ↔ e.graph.Reaches slot s
  /-- A name is bound to the node that has it. -/
  find? : ∀ {name : String} {handle : Node}, e.find? name = some handle ↔
    handle.graph = e.graph.id ∧ ∃ n, e.graph.nodes[handle.index]? = some n ∧ n.name = some name
  /-- No two nodes share a name. -/
  name : ∀ {slot slot' : Nat} {n n' : GraphNode}, e.graph.nodes[slot]? = some n →
    e.graph.nodes[slot']? = some n' → n.name.isSome → n.name = n'.name → slot = slot'
  /-- The trained variables are listed in increasing order, each of them once. -/
  trainable : (e.trainableWeights.map (·.index)).Pairwise (· < ·) ∧
    ∀ handle, handle ∈ e.trainableWeights ↔ handle.graph = e.graph.id ∧
      ∃ n, e.graph.nodes[handle.index]? = some n ∧ n.op.isTrainable
  /-- A declared shape has at most two axes, each of them positive or open. -/
  held : ∀ {slot : Nat} {n : GraphNode}, e.graph.nodes[slot]? = some n → n.shape.Held
  /-- A variable has no open axis. -/
  closed : ∀ {slot : Nat} {n : GraphNode}, e.graph.nodes[slot]? = some n → n.op.isVariable →
    n.shape.Closed
  /-- The operands of operations on numbers hold numbers. -/
  numeric : ∀ {slot s : Nat} {n m : GraphNode}, e.graph.nodes[slot]? = some n →
    s ∈ n.op.numeric → e.graph.nodes[s]? = some m → m.type = .f32
  /-- The two operands of an operation share their element type. -/
  paired : ∀ {slot a b : Nat} {n m m' : GraphNode}, e.graph.nodes[slot]? = some n →
    n.op.paired? = some (a, b) → e.graph.nodes[a]? = some m → e.graph.nodes[b]? = some m' →
    m.type = m'.type
  /-- A live session has values for the variables and for nothing else. -/
  stored : ∀ {s : Session} {slot : Nat}, e.session = some s →
    ((s.store.get? slot).isSome ↔ ∃ n, e.graph.nodes[slot]? = some n ∧ n.op.isVariable)
  /-- A value has the declared shape of its variable, held as a matrix of that shape. -/
  dimensions : ∀ {s : Session} {slot : Nat} {t : Tensor Float32} {n : GraphNode},
    e.session = some s → s.store.get? slot = some t → e.graph.nodes[slot]? = some n →
    n.shape.concrete? = some t.shape ∧ t.data.size = t.shape.rows * t.shape.cols

/-- A sound engine is coherent. -/
theorem Sound.coherent {e : Engine} (h : e.Sound) : e.Coherent := by
  have hlt : ∀ {slot s}, e.graph.Connected slot s → s < slot := by
    rintro slot s ⟨n, hn, hs⟩
    exact h.typed.lt_of_mem_inputs hn hs
  constructor
  case lt => exact hlt
  -- inputs have smaller numbers, so edges cannot go round
  case acyclic => exact Subrelation.wf hlt Nat.lt_wfRel.wf
  case schedule =>
    intro slot hslot
    have htargets : ∀ t ∈ [slot], t < e.graph.size := by simpa using hslot
    refine ⟨?_, fun s => ?_⟩
    · rw [← List.nodup_reverse]
      exact (h.typed.finished_schedule htargets).nodup
    · rw [h.typed.mem_schedule_iff htargets]
      simp
  -- a name is looked up to the one slot that carries it, and its handle is the one of this graph
  case find? =>
    intro name handle
    rw [Engine.find?, Option.map_eq_some_iff]
    constructor
    · rintro ⟨slot, hslot, rfl⟩
      exact ⟨rfl, h.indexed.find?_eq_some_iff.1 hslot⟩
    · rintro ⟨hgraph, hnode⟩
      exact ⟨handle.index, h.indexed.find?_eq_some_iff.2 hnode, Graph.handle_index hgraph⟩
  case name => exact h.indexed.slot_eq
  case trainable =>
    constructor
    · rw [trainableWeights, List.map_map]
      exact (List.map_id _).symm ▸ h.indexed.pairwise_trainable
    · intro handle
      simp only [trainableWeights, List.mem_map, h.indexed.mem_trainable_iff]
      constructor
      · rintro ⟨slot, hslot, rfl⟩
        exact ⟨rfl, hslot⟩
      · rintro ⟨hgraph, hnode⟩
        exact ⟨handle.index, hnode, Graph.handle_index hgraph⟩
  case held => exact h.typed.held
  case closed => exact h.typed.closed_of_isVariable
  case numeric =>
    intro slot s n m hn hs hm
    have hbefore := hlt ⟨n, hn, n.op.numeric_subset_inputs hs⟩
    exact (h.typed.node hn).type_of_mem_numeric hs (Graph.before_eq_some_iff.2 ⟨hbefore, hm⟩)
  case paired =>
    intro slot a b n m m' hn hp hm hm'
    obtain ⟨ha, hb⟩ := Op.mem_inputs_of_paired? hp
    exact (h.typed.node hn).type_eq_of_paired? hp
      (Graph.before_eq_some_iff.2 ⟨hlt ⟨n, hn, ha⟩, hm⟩)
      (Graph.before_eq_some_iff.2 ⟨hlt ⟨n, hn, hb⟩, hm'⟩)
  case stored =>
    intro s slot hs
    refine ⟨fun hsome => ?_, fun ⟨n, hn, hvar⟩ => (h.holds hs).isSome hn hvar⟩
    obtain ⟨t, ht⟩ := Option.isSome_iff_exists.1 hsome
    obtain ⟨n, hn, hvar, -⟩ := (h.holds hs).shape ht
    exact ⟨n, hn, hvar⟩
  case dimensions =>
    intro s slot t n hs ht hn
    obtain ⟨m, hm, -, hshape⟩ := (h.holds hs).shape ht
    obtain rfl : m = n := Option.some.inj (hm.symm.trans hn)
    exact ⟨hshape, t.size_eq⟩

/-- Every reachable engine is coherent. -/
theorem reachable_coherent {e : Engine} (h : e.Reachable) : e.Coherent := h.sound.coherent

/-- An engine with weights and a state variable of the same shape, their product, and a counter
whose name was refused at first. -/
def registering : Engine :=
  built [.weights [2] .ones "w", .stateVariable [2] .zeros "m", .counter 1 "w",
    .binary .multiply ⟨0, 1⟩ ⟨0, 3⟩ none, .counter 1 "steps"]

/-- The weights stand behind the node of their initializer and are the only trained variable. -/
theorem registering_coherent :
    registering.Coherent ∧ registering.find? "w" = some ⟨0, 1⟩ ∧
      registering.trainableWeights = [⟨0, 1⟩] ∧ registering.find? "steps" = some ⟨0, 5⟩ :=
  ⟨reachable_coherent (reachable_built _), by decide +kernel, by decide +kernel,
    by decide +kernel⟩

end Engine
end TensorGraph
