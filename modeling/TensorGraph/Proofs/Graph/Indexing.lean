import TensorGraph.Proofs.Graph.Typing

/-!
# The table of names and the list of trained variables

A graph keeps a table of the names in use and a list of the trained variables beside its nodes. A
name is entered when its node is appended, and a variable that is trained is listed once it has been
appended; neither is ever read off the nodes. This module says what the table and the list have to
do with the nodes, and that registering nodes keeps it so.

## Main definitions

* `Graph.declare`: a graph with one more node, which is listed if it is trained.
* `Graph.Named`: the table binds the names of the nodes to their slots.
* `Graph.Indexed`: moreover, the list has the trained variables in order.

## Main results

* `Graph.Named.declare` and `Graph.Indexed.declare`: a node under a fresh name keeps the table and
  the list in step.
* `Graph.Named.slot_eq`: no two nodes share a name.
-/

namespace TensorGraph.Graph

variable {g : Graph} {n : GraphNode} {slot : Nat}

/-! ## Appending and listing -/

/-- A new node is looked up by its name, and other names are looked up as before. -/
theorem find?_push (g : Graph) (n : GraphNode) (name : String) :
    (g.push n).find? name = if n.name = some name then some g.size else g.find? name := by
  cases hn : n.name with
  | none => simp [find?, push, hn]
  | some other =>
    by_cases heq : name = other
    · simp [find?, push, hn, heq]
    · have hne : (name == other) = false := by simpa using heq
      simp [find?, push, hn, List.lookup_cons, hne, Ne.symm heq]

/-- A name that is free stays free when a node is appended, unless it is the name of the node. -/
theorem find?_push_eq_none_iff {name : String} :
    (g.push n).find? name = none ↔ g.find? name = none ∧ n.name ≠ some name := by
  rw [find?_push]
  split <;> simp_all

@[simp] theorem trainable_push (g : Graph) (n : GraphNode) : (g.push n).trainable = g.trainable :=
  rfl

/-- The graph with one more node, which is listed if it is trained. -/
def declare (g : Graph) (n : GraphNode) : Graph :=
  if n.op.isTrainable then (g.push n).train g.size else g.push n

/-- Declaring a variable that is not trained appends its node. -/
theorem declare_of_not_isTrainable (h : n.op.isTrainable = false) : g.declare n = g.push n := by
  rw [declare, h]
  rfl

@[simp] theorem id_declare (g : Graph) (n : GraphNode) : (g.declare n).id = g.id := by
  unfold declare
  split <;> rfl

/-- Declaring a variable appends its node. -/
@[simp] theorem nodes_declare (g : Graph) (n : GraphNode) :
    (g.declare n).nodes = (g.push n).nodes := by
  unfold declare
  split <;> rfl

/-- Declaring a variable binds the name of its node. -/
@[simp] theorem find?_declare (g : Graph) (n : GraphNode) (name : String) :
    (g.declare n).find? name = (g.push n).find? name := by
  unfold declare
  split <;> rfl

/-- Declaring a trained variable appends it to those that are trained. -/
theorem trainable_declare (g : Graph) (n : GraphNode) :
    (g.declare n).trainable =
      if n.op.isTrainable then g.trainable ++ [g.size] else g.trainable := by
  unfold declare
  split <;> rfl

/-- A node of a graph with one more node is an old one or the new one. -/
theorem getElem?_declare_eq_some_iff {m : GraphNode} :
    (g.declare n).nodes[slot]? = some m ↔ g.nodes[slot]? = some m ∨ slot = g.size ∧ m = n := by
  rw [nodes_declare, getElem?_push_eq_some_iff]

theorem size_declare (g : Graph) (n : GraphNode) : (g.declare n).size = (g.push n).size := by
  rw [size, nodes_declare, size]

theorem lt_size_declare (g : Graph) (n : GraphNode) : g.size < (g.declare n).size :=
  size_declare g n ▸ lt_size_push g n

/-- What was found before the new node is found in the longer graph. -/
theorem Typed.declare (h : g.Typed) (hn : n.op.Typed (g.before g.size) n.shape n.type) :
    (g.declare n).Typed := by
  have hbefore : ∀ slot, (g.declare n).before slot = (g.push n).before slot := fun slot => by
    funext s
    rw [before, before, nodes_declare]
  refine ⟨fun {slot m} hm => ?_⟩
  rw [nodes_declare] at hm
  rw [hbefore]
  exact (h.push hn).node hm

/-! ## Graphs with their table and list in step -/

/-- A graph whose table binds the names of its nodes to their slots, and nothing else. -/
structure Named (g : Graph) : Prop where
  find?_eq_some_iff : ∀ {name : String} {slot : Nat},
    g.find? name = some slot ↔ ∃ n, g.nodes[slot]? = some n ∧ n.name = some name

/-- A graph with such a table, and with a list of its trained variables in increasing order, each
of them once, and of nothing else. -/
structure Indexed (g : Graph) : Prop extends g.Named where
  pairwise_trainable : g.trainable.Pairwise (· < ·)
  mem_trainable_iff : ∀ {slot : Nat},
    slot ∈ g.trainable ↔ ∃ n, g.nodes[slot]? = some n ∧ n.op.isTrainable

/-- The tables of an empty graph are empty. -/
theorem indexed_empty (id : Nat) : (empty id).Indexed where
  find?_eq_some_iff := by simp [empty, find?]
  pairwise_trainable := .nil
  mem_trainable_iff := by simp [empty]

namespace Named

/-- A name is not bound when no node has it. -/
theorem find?_eq_none_iff (h : g.Named) {name : String} :
    g.find? name = none ↔
      ∀ {s : Nat} {n : GraphNode}, g.nodes[s]? = some n → n.name ≠ some name := by
  constructor
  · intro hfree s n hn hname
    cases hfree.symm.trans (h.find?_eq_some_iff.2 ⟨n, hn, hname⟩)
  · intro hnone
    cases hfind : g.find? name with
    | none => rfl
    | some slot =>
      obtain ⟨n, hn, hname⟩ := h.find?_eq_some_iff.1 hfind
      exact absurd hname (hnone hn)

/-- No two nodes share a name. -/
theorem slot_eq (h : g.Named) {slot slot' : Nat} {n n' : GraphNode}
    (hn : g.nodes[slot]? = some n) (hn' : g.nodes[slot']? = some n') (hsome : n.name.isSome)
    (heq : n.name = n'.name) : slot = slot' := by
  obtain ⟨name, hname⟩ := Option.isSome_iff_exists.1 hsome
  have hslot := h.find?_eq_some_iff.2 ⟨n, hn, hname⟩
  have hslot' := h.find?_eq_some_iff.2 ⟨n', hn', heq ▸ hname⟩
  exact Option.some.inj (hslot.symm.trans hslot')

/-- Registering a node under a fresh name keeps the table in step with the nodes. -/
theorem declare (h : g.Named) (hfresh : ∀ name, n.name = some name → g.find? name = none) :
    (g.declare n).Named where
  find?_eq_some_iff {name slot} := by
    simp only [find?_declare, find?_push, getElem?_declare_eq_some_iff]
    split
    · next hname =>
      -- no old node has the name of the new one
      have hold : ∀ {s : Nat} {m : GraphNode}, g.nodes[s]? = some m → m.name ≠ some name :=
        h.find?_eq_none_iff.1 (hfresh name hname)
      constructor
      · rintro ⟨⟩
        exact ⟨n, .inr ⟨rfl, rfl⟩, hname⟩
      · rintro ⟨m, hm | ⟨rfl, -⟩, hmname⟩
        · exact absurd hmname (hold hm)
        · rfl
    · next hname =>
      rw [h.find?_eq_some_iff]
      constructor
      · rintro ⟨m, hm, hmname⟩
        exact ⟨m, .inl hm, hmname⟩
      · rintro ⟨m, hm | ⟨-, rfl⟩, hmname⟩
        · exact ⟨m, hm, hmname⟩
        · exact absurd hmname hname

end Named

namespace Indexed

/-- Whatever is trained is a variable. -/
theorem exists_variable_of_mem_trainable (h : g.Indexed) (hslot : slot ∈ g.trainable) :
    ∃ n, g.nodes[slot]? = some n ∧ n.op.isVariable := by
  obtain ⟨n, hn, htrainable⟩ := h.mem_trainable_iff.1 hslot
  exact ⟨n, hn, Op.isVariable_of_isTrainable htrainable⟩

/-- Trained variables are within the graph. -/
theorem lt_size_of_mem_trainable (h : g.Indexed) (hslot : slot ∈ g.trainable) : slot < g.size := by
  obtain ⟨n, hn, -⟩ := h.mem_trainable_iff.1 hslot
  exact lt_size_of_getElem? hn

/-- Registering a node under a fresh name, and listing it if it is trained, keeps the list in step
with the nodes as well. -/
theorem declare (h : g.Indexed) (hfresh : ∀ name, n.name = some name → g.find? name = none) :
    (g.declare n).Indexed where
  toNamed := h.toNamed.declare hfresh
  pairwise_trainable := by
    rw [trainable_declare]
    split
    · -- the new slot is greater than all that are in use
      refine List.pairwise_append.2 ⟨h.pairwise_trainable, List.pairwise_singleton _ _, ?_⟩
      intro s hs t ht
      rw [List.mem_singleton.1 ht]
      exact h.lt_size_of_mem_trainable hs
    · exact h.pairwise_trainable
  mem_trainable_iff {slot} := by
    simp only [trainable_declare, getElem?_declare_eq_some_iff]
    split
    · next htrained =>
      rw [List.mem_append, h.mem_trainable_iff, List.mem_singleton]
      constructor
      · rintro (⟨m, hm, hmtrained⟩ | rfl)
        · exact ⟨m, .inl hm, hmtrained⟩
        · exact ⟨n, .inr ⟨rfl, rfl⟩, htrained⟩
      · rintro ⟨m, hm | ⟨hself, -⟩, hmtrained⟩
        · exact .inl ⟨m, hm, hmtrained⟩
        · exact .inr hself
    · next huntrained =>
      rw [h.mem_trainable_iff]
      constructor
      · rintro ⟨m, hm, hmtrained⟩
        exact ⟨m, .inl hm, hmtrained⟩
      · rintro ⟨m, hm | ⟨-, rfl⟩, hmtrained⟩
        · exact ⟨m, hm, hmtrained⟩
        · exact absurd hmtrained huntrained

/-- A node that is not trained need not be listed. -/
theorem push (h : g.Indexed) (hfresh : ∀ name, n.name = some name → g.find? name = none)
    (hn : n.op.isTrainable = false) : (g.push n).Indexed :=
  declare_of_not_isTrainable hn ▸ h.declare hfresh

end Indexed
end TensorGraph.Graph
