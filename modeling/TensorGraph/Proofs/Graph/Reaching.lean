import TensorGraph.Proofs.Evaluation.Locality
import TensorGraph.Proofs.Graph.Indexing

/-!
# What evaluating a slot reaches

A slot that reaches only operations of a kind goes on doing so when nodes are appended, since a node
needs earlier ones.

## Main definitions

* `Graph.Extends`: a graph with further nodes.
* `Graph.ReachesOnly`: a slot reaches only operations of a kind.
* `Op.Steady` and `Op.Passive`: operations that do not draw samples in every phase, and those among
  them that change no variable.
* `Op.Deterministic`: passive operations that do not draw samples while training either.
-/

namespace TensorGraph

/-- Whether an operation draws samples whenever it is evaluated. -/
def Op.isRandom : Op → Bool
  | random _ _ => true
  | _ => false

/-- Operations that change no variable, and draw samples only while training if at all. -/
def Op.Passive (op : Op) : Prop := op.isRandom = false ∧ op.isUpdate = false

/-- Operations that do not draw samples whenever they are evaluated. -/
def Op.Steady (op : Op) : Prop := op.isRandom = false

/-- Operations that change no variable and draw no samples in any phase: a dropout among them drops
nothing. -/
structure Op.Deterministic (op : Op) : Prop where
  passive : op.Passive
  not_pos : ∀ rate, op.rate? = some rate → ¬0 < rate

theorem Op.Passive.steady {op : Op} (h : op.Passive) : op.Steady := h.1

/-- Reading a variable draws nothing. -/
theorem Op.deterministic_of_isVariable {op : Op} (h : op.isVariable) : op.Deterministic := by
  cases op with
  | «variable» => exact ⟨⟨rfl, rfl⟩, nofun⟩
  | _ => cases h

/-- Reading a variable is passive. -/
theorem Op.passive_of_isVariable {op : Op} (h : op.isVariable) : op.Passive :=
  (deterministic_of_isVariable h).passive

/-- A variable needs no other node. -/
theorem Op.operands_of_isVariable {op : Op} (h : op.isVariable) : op.operands = [] := by
  cases op with
  | «variable» => rfl
  | _ => cases h

namespace Graph

variable {P Q : Op → Prop} {g g' g'' : Graph} {slot : Nat}

/-- A graph with the nodes of another one, each in its slot, and perhaps further ones. -/
structure Extends (g g' : Graph) : Prop where
  id : g'.id = g.id
  node : ∀ {slot : Nat} {n : GraphNode}, g.nodes[slot]? = some n → g'.nodes[slot]? = some n

theorem Extends.refl (g : Graph) : g.Extends g := ⟨rfl, fun hn => hn⟩

/-- Graphs grow step by step. -/
theorem Extends.trans (h : g.Extends g') (h' : g'.Extends g'') : g.Extends g'' :=
  ⟨h'.id.trans h.id, fun hn => h'.node (h.node hn)⟩

/-- A graph is extended by one more node. -/
theorem extends_push (g : Graph) (n : GraphNode) : g.Extends (g.push n) :=
  ⟨rfl, fun hn => getElem?_push_eq_some_iff.2 (.inl hn)⟩

/-- A graph is extended by one more variable. -/
theorem extends_declare (g : Graph) (n : GraphNode) : g.Extends (g.declare n) :=
  ⟨id_declare g n, fun hn => getElem?_declare_eq_some_iff.2 (.inl hn)⟩

/-- Graphs do not shrink as they grow. -/
theorem Extends.size_le (h : g.Extends g') : g.size ≤ g'.size := by
  by_contra hlt
  obtain ⟨n, hn⟩ := exists_node_of_lt (Nat.lt_of_not_le hlt)
  exact Nat.lt_irrefl _ (lt_size_of_getElem? (h.node hn))

/-- Evaluating a slot needs only operations of a kind. -/
inductive ReachesOnly (P : Op → Prop) (g : Graph) : Nat → Prop
  | intro {slot : Nat} {n : GraphNode} (node : g.nodes[slot]? = some n) (op : P n.op)
      (operands : ∀ o ∈ n.op.operands, ReachesOnly P g o) : ReachesOnly P g slot

namespace ReachesOnly

/-- A slot reaches operations of every wider kind, also in a larger graph. -/
theorem mono (h : g.ReachesOnly P slot) (hP : ∀ op, P op → Q op) (hg : g.Extends g') :
    g'.ReachesOnly Q slot := by
  induction h with
  | intro node op _ ih => exact .intro (hg.node node) (hP _ op) ih

/-- What a slot reaches stays what it is as the graph grows. -/
theorem extend (h : g.ReachesOnly P slot) (hg : g.Extends g') : g'.ReachesOnly P slot :=
  h.mono (fun _ hop => hop) hg

/-- Whatever is reached reaches only such operations, too. -/
theorem of_reaches (h : g.ReachesOnly P slot) {s : Nat} (hs : g.Reaches slot s) :
    g.ReachesOnly P s := by
  induction hs with
  | refl => exact h
  | tail _ hstep ih =>
    obtain ⟨node, -, operands⟩ := ih
    rw [operands_eq node] at hstep
    exact operands _ hstep

/-- A slot reaches its own operation. -/
theorem op (h : g.ReachesOnly P slot) {n : GraphNode} (hn : g.nodes[slot]? = some n) : P n.op := by
  obtain ⟨node, op, -⟩ := h
  obtain rfl := Option.some.inj (node.symm.trans hn)
  exact op

/-- Slots that are reached are within the graph. -/
theorem lt_size (h : g.ReachesOnly P slot) : slot < g.size := by
  obtain ⟨node, -, -⟩ := h
  exact lt_size_of_getElem? node

/-- A node without operands reaches only itself. -/
theorem leaf {n : GraphNode} (hn : g.nodes[slot]? = some n) (hop : P n.op)
    (hleaf : n.op.operands = []) : g.ReachesOnly P slot :=
  .intro hn hop (by simp [hleaf])

/-- The slots that are scheduled for targets reach only what the targets reach. -/
theorem of_mem_schedule {targets : List Nat} (hg : g.Typed)
    (htargets : ∀ t ∈ targets, g.ReachesOnly P t) :
    ∀ slot ∈ g.schedule targets, g.ReachesOnly P slot := by
  intro slot hslot
  obtain ⟨t, ht, hreached⟩ := (hg.mem_schedule_iff fun t ht => (htargets t ht).lt_size).1 hslot
  exact (htargets t ht).of_reaches hreached

end ReachesOnly
end Graph

end TensorGraph
