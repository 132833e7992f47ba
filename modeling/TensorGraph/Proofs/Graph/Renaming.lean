import Mathlib.Logic.Equiv.Basic
import Mathlib.Order.Monotone.Basic
import TensorGraph.Proofs.Graph.Indexing

/-!
# Renaming slots

The nodes of a graph may be found again in another graph: in the same order, but with other nodes
among them, so that most of them stand in other slots. A renaming says where every slot went. It
covers slots that are not yet in use, which go on side by side, and handles: those of the one graph
become handles of the other one.

## Main definitions

* `Op.rename`: an operation on the slots that its own slots went to.
* `Renaming` and `Renaming.node`: where slots and handles went.
* `Renaming.Embeds`: a graph that has the nodes of another one in the slots that they went to.

## Main results

* `Renaming.Embeds.schedule`: the renamed targets are evaluated in the renamed order.
* `Renaming.Embeds.push`: a node and its renamed copy may be appended side by side.
* `Renaming.embeds_shift`: a graph in a longer one.
-/

namespace TensorGraph

namespace Op

/-- The operation on renamed slots. -/
def rename (ρ : Nat → Nat) : Op → Op
  | placeholder => placeholder
  | constant value => constant value
  | .variable trainable initializer => .variable trainable (initializer.map ρ)
  | random sampler seed => random sampler seed
  | fill value => fill value
  | dot left right => dot (ρ left) (ρ right)
  | biasAdd input bias => biasAdd (ρ input) (ρ bias)
  | binary op a b => binary op (ρ a) (ρ b)
  | unary op input => unary op (ρ input)
  | clip input min max => clip (ρ input) min max
  | cast input => cast (ρ input)
  | dropout input rate seed => dropout (ρ input) rate seed
  | mean input => mean (ρ input)
  | reduceSum input => reduceSum (ρ input)
  | sigmoidCrossEntropy targets logits => sigmoidCrossEntropy (ρ targets) (ρ logits)
  | softmaxCrossEntropy logits labels => softmaxCrossEntropy (ρ logits) (ρ labels)
  | gradient loss target => gradient (ρ loss) (ρ target)
  | assign target value => assign (ρ target) (ρ value)
  | assignAdd target delta => assignAdd (ρ target) (ρ delta)

variable (ρ σ : Nat → Nat) (op : Op)

/-- A renamed operation has the renamed operands. -/
theorem operands_rename : (op.rename ρ).operands = op.operands.map ρ := by
  cases op <;> rfl

@[simp] theorem isVariable_rename : (op.rename ρ).isVariable = op.isVariable := by
  cases op <;> rfl

@[simp] theorem isUpdate_rename : (op.rename ρ).isUpdate = op.isUpdate := by
  cases op <;> rfl

@[simp] theorem isPlaceholder_rename : (op.rename ρ).isPlaceholder = op.isPlaceholder := by
  cases op <;> rfl

variable {ρ σ op}

/-- Renamings that do the same to the slots of an operation do the same to the operation. -/
theorem rename_congr (h : ∀ s ∈ op.inputs, ρ s = σ s) : op.rename ρ = op.rename σ := by
  cases op
  case «variable» trainable init =>
    cases init with
    | none => rfl
    | some s => simp [rename, h s (by simp [inputs])]
  all_goals
    simp only [inputs, List.forall_mem_cons, List.not_mem_nil, false_imp_iff, implies_true,
      and_true] at h
    simp only [rename, h]

/-- Nothing changes if every slot keeps its number. -/
theorem rename_id : op.rename id = op := by
  cases op
  case «variable» trainable init => simp [rename]
  all_goals rfl

end Op

/-- The node with its operation on renamed slots. -/
def GraphNode.rename (ρ : Nat → Nat) (n : GraphNode) : GraphNode := { n with op := n.op.rename ρ }

/-- Where the slots of one graph are found in another one. -/
structure Renaming where
  /-- The numbers of the two graphs. -/
  source : Nat
  target : Nat
  slot : Nat → Nat
  increasing : StrictMono slot

namespace Renaming

variable {r : Renaming} {g g' : Graph} {n : GraphNode} {s : Nat}

theorem slot_inj (r : Renaming) {s t : Nat} : r.slot s = r.slot t ↔ s = t :=
  r.increasing.injective.eq_iff

/-- The numbers of graphs, when the two graphs change places. -/
def number (r : Renaming) : Nat → Nat := Equiv.swap r.source r.target

/-- Where a handle went. Handles of other graphs than the two stay as they are. -/
def node (r : Renaming) (handle : Node) : Node :=
  ⟨r.number handle.graph,
    if handle.graph = r.source then r.slot handle.index else handle.index⟩

@[simp] theorem number_source (r : Renaming) : r.number r.source = r.target :=
  Equiv.swap_apply_left _ _

@[simp] theorem number_inj (r : Renaming) {k l : Nat} : r.number k = r.number l ↔ k = l :=
  (Equiv.injective _).eq_iff

/-- Only the renamed graph gets the number of the other one. -/
theorem number_eq_target_iff (r : Renaming) {k : Nat} : r.number k = r.target ↔ k = r.source := by
  rw [← r.number_source, number_inj]

/-- A node of the renamed graph becomes a node of the other one. -/
@[simp] theorem node_source (r : Renaming) (s : Nat) :
    r.node ⟨r.source, s⟩ = ⟨r.target, r.slot s⟩ := by
  simp [node]

/-- Different handles go to different handles. -/
@[simp] theorem node_inj (r : Renaming) {h k : Node} : r.node h = r.node k ↔ h = k := by
  refine ⟨fun heq => ?_, fun heq => heq ▸ rfl⟩
  obtain ⟨hgraph, hindex⟩ := Node.mk.inj heq
  obtain ⟨graph, i⟩ := h
  obtain ⟨graph', j⟩ := k
  obtain rfl : graph = graph' := r.number_inj.1 hgraph
  dsimp only at hindex
  split at hindex
  · rw [r.slot_inj.1 hindex]
  · rw [hindex]

/-! ## Graphs in graphs -/

/-- A graph that has the nodes of another one in the slots that they went to. What is appended to
both goes into slots that belong together. -/
structure Embeds (r : Renaming) (g g' : Graph) : Prop where
  source : g.id = r.source
  target : g'.id = r.target
  node : ∀ {s : Nat} {n : GraphNode}, g.nodes[s]? = some n →
    g'.nodes[r.slot s]? = some (n.rename r.slot)
  next : ∀ i, r.slot (g.size + i) = g'.size + i
  /-- The names of the smaller graph are bound where their slots went, and no others there. -/
  find?_iff : ∀ {name : String} {s : Nat},
    g.find? name = some s ↔ g'.find? name = some (r.slot s)
  /-- An operation is connected to earlier slots. -/
  earlier : ∀ {s : Nat} {n : GraphNode}, g.nodes[s]? = some n → ∀ o ∈ n.op.inputs, o < s

namespace Embeds

/-- The next nodes of both graphs belong together. -/
theorem slot_size (h : r.Embeds g g') : r.slot g.size = g'.size := h.next 0

/-- Exactly the slots in use go to slots in use. -/
theorem lt_size_iff (h : r.Embeds g g') : r.slot s < g'.size ↔ s < g.size := by
  rw [← h.slot_size, r.increasing.lt_iff_lt]

/-- A slot and its renamed copy hold the same node, but for renaming. -/
theorem getElem? (h : r.Embeds g g') (s : Nat) :
    g'.nodes[r.slot s]? = (g.nodes[s]?).map (·.rename r.slot) := by
  cases hn : g.nodes[s]? with
  | some n => exact h.node hn
  | none =>
    -- a slot that is not in use goes to one that is not in use
    refine Array.getElem?_eq_none_iff.2 (Nat.not_lt.1 fun hlt => ?_)
    exact absurd (h.lt_size_iff.1 hlt) (Nat.not_lt.2 (Array.getElem?_eq_none_iff.1 hn))

/-- A handle is accepted exactly if its renamed copy is. -/
theorem slot? (h : r.Embeds g g') (handle : Node) :
    g'.slot? (r.node handle) = (g.slot? handle).map r.slot := by
  have hiff : ((r.node handle).graph = g'.id ∧ (r.node handle).index < g'.size) ↔
      handle.graph = g.id ∧ handle.index < g.size := by
    rw [h.target, h.source, Renaming.node, number_eq_target_iff]
    refine and_congr_right fun hgraph => ?_
    rw [if_pos hgraph, h.lt_size_iff]
  unfold Graph.slot?
  by_cases hin : handle.graph = g.id ∧ handle.index < g.size
  · rw [if_pos hin, if_pos (hiff.2 hin), Option.map_some, Renaming.node, if_pos (h.source ▸ hin.1)]
  · rw [if_neg hin, if_neg (mt hiff.1 hin), Option.map_none]

/-- The handle of a slot goes to the handle of the slot that it went to. -/
theorem handle (h : r.Embeds g g') (s : Nat) : g'.handle (r.slot s) = r.node (g.handle s) := by
  rw [Graph.handle, Graph.handle, h.source, node_source, h.target]

/-- A slot and its renamed copy depend on the same slots, but for renaming. -/
theorem operands (h : r.Embeds g g') (s : Nat) :
    g'.operands (r.slot s) = (g.operands s).map r.slot := by
  rw [Graph.operands, h.getElem?, Graph.operands]
  cases g.nodes[s]? with
  | none => rfl
  | some n => exact Op.operands_rename r.slot n.op

/-- Operands come before the node that needs them, as the other graph is well-ordered. -/
theorem lt_of_mem_operands (h : r.Embeds g g') {o : Nat} (ho : o ∈ g.operands s) : o < s := by
  unfold Graph.operands at ho
  cases hn : g.nodes[s]? with
  | none => simp [hn] at ho
  | some n =>
    rw [hn] at ho
    exact h.earlier hn o (n.op.operands_subset_inputs ho)

/-- Walking through the operands of a slot is the same in both graphs, as far as the two walks may
descend all the way. -/
theorem visit (h : r.Embeds g g') {depth depth' : Nat} (listed : List Nat) (hs : s < depth)
    (hs' : r.slot s < depth') :
    g'.visit depth' (listed.map r.slot) (r.slot s) = (g.visit depth listed s).map r.slot := by
  induction depth generalizing depth' s listed with
  | zero => exact absurd hs (Nat.not_lt_zero s)
  | succ depth ih =>
    obtain _ | depth' := depth'
    · exact absurd hs' (Nat.not_lt_zero _)
    have hmem : r.slot s ∈ listed.map r.slot ↔ s ∈ listed :=
      List.mem_map_of_injective r.increasing.injective
    by_cases hlisted : s ∈ listed
    · rw [Graph.visit, Graph.visit, if_pos hlisted, if_pos (hmem.2 hlisted)]
    · rw [Graph.visit, Graph.visit, if_neg hlisted, if_neg (mt hmem.1 hlisted), h.operands,
        List.map_cons]
      -- the operands are visited one after the other, and every walk starts from a renamed list
      have hbelow : ∀ o ∈ g.operands s, o < depth ∧ r.slot o < depth' := fun o ho => by
        have hlt := h.lt_of_mem_operands ho
        exact ⟨Nat.lt_of_lt_of_le hlt (Nat.le_of_lt_succ hs),
          Nat.lt_of_lt_of_le (r.increasing hlt) (Nat.le_of_lt_succ hs')⟩
      generalize g.operands s = os at hbelow
      congr 1
      clear hmem hlisted
      induction os generalizing listed with
      | nil => rfl
      | cons o os ihs =>
        obtain ⟨ho, hbelow⟩ := List.forall_mem_cons.1 hbelow
        rw [List.map_cons, List.foldl_cons, List.foldl_cons, ih listed ho.1 ho.2]
        exact ihs _ hbelow

/-- Renamed targets need the renamed slots, in the renamed order. -/
theorem schedule (h : r.Embeds g g') (targets : List Nat) :
    g'.schedule (targets.map r.slot) = (g.schedule targets).map r.slot := by
  -- the slots that earlier targets have listed are the starting point of the induction
  suffices hfold : ∀ listed : List Nat,
      (targets.map r.slot).foldl (fun listed slot => g'.visit (slot + 1) listed slot)
        (listed.map r.slot) =
        (targets.foldl (fun listed slot => g.visit (slot + 1) listed slot) listed).map r.slot by
    rw [Graph.schedule, Graph.schedule, List.map_reverse, ← hfold []]
    rfl
  induction targets with
  | nil => exact fun _ => rfl
  | cons t targets ih =>
    intro listed
    rw [List.map_cons, List.foldl_cons, List.foldl_cons,
      h.visit listed (Nat.lt_succ_self t) (Nat.lt_succ_self _), ih]

/-- A node over slots in use and its renamed copy, appended to the two graphs. -/
theorem push (h : r.Embeds g g') (hn : ∀ o ∈ n.op.inputs, o < g.size) :
    r.Embeds (g.push n) (g'.push (n.rename r.slot)) where
  source := h.source
  target := h.target
  node {s m} hm := by
    -- the appended node is the only one that is new to either graph
    rw [Graph.getElem?_push_eq_some_iff] at hm ⊢
    rcases hm with hm | ⟨rfl, rfl⟩
    · exact .inl (h.node hm)
    · exact .inr ⟨h.slot_size, rfl⟩
  next i := by
    have hsize : ∀ (k : Graph) (m : GraphNode), (k.push m).size + i = k.size + (1 + i) := by
      intro k m
      rw [Graph.push, Graph.size, Array.size_push, Nat.add_assoc, Graph.size]
    rw [hsize, hsize, h.next]
  find?_iff {name s} := by
    rw [Graph.find?_push, Graph.find?_push]
    change _ ↔ (if n.name = some name then some g'.size else g'.find? name) = some (r.slot s)
    split
    · rw [Option.some.injEq, Option.some.injEq, ← h.slot_size, r.slot_inj]
    · exact h.find?_iff
  earlier {s m} hm := by
    rcases Graph.getElem?_push_eq_some_iff.1 hm with hm | ⟨rfl, rfl⟩
    · exact h.earlier hm
    · exact hn

/-- A name that is free in the larger graph is free in the smaller one. -/
theorem find?_eq_none (h : r.Embeds g g') {name : String} (hfree : g'.find? name = none) :
    g.find? name = none := by
  cases hfind : g.find? name with
  | none => rfl
  | some s => cases hfree.symm.trans (h.find?_iff.1 hfind)

/-- Where renaming leaves the slots alone, the same names are bound to the same slots. -/
theorem find?_eq (h : r.Embeds g g') (hid : ∀ s, r.slot s = s) (name : String) :
    g'.find? name = g.find? name := by
  refine Option.ext fun s => ?_
  have hfind : g.find? name = some s ↔ g'.find? name = some (r.slot s) := h.find?_iff
  rw [hid] at hfind
  exact hfind.symm

end Embeds

/-! ## A graph in a longer one -/

/-- The renaming that leaves the slots below a bound where they are and moves all others on by the
same distance. -/
def shift (source target bound distance : Nat) : Renaming where
  source := source
  target := target
  slot s := if s < bound then s else s + distance
  increasing s t hst := by
    dsimp only
    split <;> split <;> omega

variable {source target bound distance : Nat}

@[simp] theorem shift_source : (shift source target bound distance).source = source := rfl

@[simp] theorem shift_target : (shift source target bound distance).target = target := rfl

/-- Slots before the bound stay where they are. -/
theorem shift_slot_of_lt (h : s < bound) : (shift source target bound distance).slot s = s :=
  if_pos h

/-- Slots from the bound on are moved on. -/
theorem shift_slot_of_le (h : bound ≤ s) :
    (shift source target bound distance).slot s = s + distance :=
  if_neg (Nat.not_lt.2 h)

/-- An early handle stays what it is in the same graph. -/
theorem node_shift_self {handle : Node} (h : handle.index < bound) :
    (shift source source bound distance).node handle = handle := by
  rw [node, shift_slot_of_lt h, ite_self, number, shift_source, shift_target, Equiv.swap_self]
  rfl

/-- Nothing moves by a distance of zero. -/
theorem shift_slot_zero : (shift source target bound 0).slot s = s := ite_self s

/-- A graph in a graph that begins with the same nodes. What is appended to both goes behind the
nodes that the longer graph has besides. -/
theorem embeds_shift (hsource : g.id = source) (htarget : g'.id = target)
    (hnamed : g.Named) (hnamed' : g'.Named)
    (hsize : g'.size = g.size + distance)
    (hearlier : ∀ {s : Nat} {n : GraphNode}, g.nodes[s]? = some n → ∀ o ∈ n.op.inputs, o < s)
    (hnodes : ∀ {s : Nat} {n : GraphNode}, g.nodes[s]? = some n → g'.nodes[s]? = some n) :
    (shift source target g.size distance).Embeds g g' where
  source := hsource
  target := htarget
  node {s n} hn := by
    have hslot := Graph.lt_size_of_getElem? hn
    -- operands come earlier, so a node that both graphs share mentions no slot that moves
    have hsame : n.rename (shift source target g.size distance).slot = n := by
      have hop : n.op.rename (shift source target g.size distance).slot = n.op.rename id :=
        Op.rename_congr fun o ho => shift_slot_of_lt (Nat.lt_trans (hearlier hn o ho) hslot)
      rw [GraphNode.rename, hop, Op.rename_id]
    rw [shift_slot_of_lt hslot, hsame]
    exact hnodes hn
  next i := by
    rw [shift_slot_of_le (Nat.le_add_right _ i), hsize, Nat.add_right_comm]
  find?_iff {name s} := by
    constructor
    · intro hfind
      obtain ⟨n, hn, hname⟩ := hnamed.find?_eq_some_iff.1 hfind
      rw [shift_slot_of_lt (Graph.lt_size_of_getElem? hn)]
      exact hnamed'.find?_eq_some_iff.2 ⟨n, hnodes hn, hname⟩
    · intro hfind
      obtain ⟨n, hn, hname⟩ := hnamed'.find?_eq_some_iff.1 hfind
      by_cases hlt : s < g.size
      · obtain ⟨m, hm⟩ := Graph.exists_node_of_lt hlt
        rw [shift_slot_of_lt hlt] at hn
        obtain rfl := Option.some.inj ((hnodes hm).symm.trans hn)
        exact hnamed.find?_eq_some_iff.2 ⟨m, hm, hname⟩
      · -- the slot has been moved behind the end of the longer graph
        rw [shift_slot_of_le (Nat.not_lt.1 hlt)] at hn
        have hslot := Graph.lt_size_of_getElem? hn
        omega
  earlier := hearlier

end Renaming
end TensorGraph
