import TensorGraph.Proofs.Engine.Accepting
import TensorGraph.Proofs.Learning.Objective
import TensorGraph.Proofs.Shape.Semilattice

/-!
# Whether losses add up

Losses are added from left to right, and every addition checks the sum so far against the next loss.
Still the order does not matter: losses add up when they all have one element type and there is a
declared shape that they all stretch to, and the sum has that type and that shape.

## Main definitions

* `Matching`: nodes of one element type that stretch to a declared shape.

## Main results

* `Engine.exists_aggregate_iff`: when losses add up.
* `Engine.leads_aggregate_matching`: the declaration of their sum.
-/

namespace TensorGraph

/-- One or more nodes of one element type that stretch to a declared shape. -/
structure Matching (ns : List GraphNode) (type : ElementType) (shape : DeclaredShape) : Prop where
  nonempty : ns ≠ []
  type : ∀ n ∈ ns, n.type = type
  shape : DeclaredShape.broadcastAll (ns.map (·.shape)) = some shape

namespace Matching

variable {ns ns' : List GraphNode} {type type' : ElementType} {shape shape' : DeclaredShape}

/-- Whether nodes match does not depend on their order. -/
theorem perm (h : Matching ns type shape) (hperm : ns.Perm ns') : Matching ns' type shape where
  nonempty hnil := h.nonempty (by rw [hnil] at hperm; exact hperm.eq_nil)
  type n hn := h.type n (hperm.mem_iff.2 hn)
  shape := by
    rw [← h.shape]
    exact (DeclaredShape.joins_broadcast.foldlM_perm (hperm.map _) []).symm

theorem unique (h : Matching ns type shape) (h' : Matching ns type' shape') :
    type' = type ∧ shape' = shape := by
  obtain ⟨n, hn⟩ := List.exists_mem_of_ne_nil ns h.nonempty
  exact ⟨(h'.type n hn).symm.trans (h.type n hn), Option.some.inj (h'.shape.symm.trans h.shape)⟩

end Matching

/-- The first node may be taken on its own. -/
theorem matching_cons_iff {n : GraphNode} {ns : List GraphNode} {type : ElementType}
    {shape : DeclaredShape} : Matching (n :: ns) type shape ↔ n.type = type ∧
      (∀ m ∈ ns, m.type = n.type) ∧
        (ns.map (·.shape)).foldlM DeclaredShape.broadcast n.shape = some shape := by
  have hshape : DeclaredShape.broadcastAll ((n :: ns).map (·.shape)) =
      (ns.map (·.shape)).foldlM DeclaredShape.broadcast n.shape := by
    rw [DeclaredShape.broadcastAll, List.map_cons, List.foldlM_cons, DeclaredShape.broadcast_nil]
    rfl
  constructor
  · rintro ⟨-, htype, hall⟩
    obtain ⟨rfl, htypes⟩ := List.forall_mem_cons.1 htype
    exact ⟨rfl, htypes, hshape ▸ hall⟩
  · rintro ⟨rfl, htypes, hall⟩
    exact ⟨List.cons_ne_nil _ _, List.forall_mem_cons.2 ⟨rfl, htypes⟩, hshape ▸ hall⟩

namespace Engine

variable {e : Engine} {losses : List Node} {ns : List GraphNode}

/-- Adding further losses to a sum, when they match it. -/
theorem exists_addAll {sum : Node} {n : GraphNode} {shape : DeclaredShape}
    (hactive : e.session.isSome) (hsum : e.graph.Holds sum n)
    (hlosses : List.Forall₂ e.graph.Holds losses ns) (htype : ∀ m ∈ ns, m.type = n.type)
    (hshape : (ns.map (·.shape)).foldlM DeclaredShape.broadcast n.shape = some shape) :
    ∃ total e', losses.foldlM (fun total loss => add total loss none) sum e = .ok total e' := by
  induction losses generalizing sum n e ns with
  | nil => exact ⟨sum, e, rfl⟩
  | cons loss losses ih =>
    cases hlosses with | @cons _ m _ ns hloss hrest =>
    obtain ⟨hm, htype⟩ := List.forall_mem_cons.1 htype
    -- the sum so far and the next loss have a common shape, from which the rest goes on
    obtain ⟨common, hcommon, hshape⟩ := Option.bind_eq_some_iff.1 hshape
    have hadd := binary_eq hactive e.free_none .add hsum hloss hm.symm nofun hcommon
    have hrest := hrest.imp fun _ _ hl => hl.extend (Graph.extends_push _
      ⟨.binary .add sum.index loss.index, common, n.type, none⟩)
    obtain ⟨total, e', h⟩ := ih (e := e.push _) hactive (e.graph.holds_push _) hrest htype hshape
    exact ⟨total, e', (bind_of_ok hadd).trans h⟩

/-- What adding further losses to a sum leads to. -/
theorem leads_addAll_matching {sum : Node} {n : GraphNode} (hsum : e.graph.Holds sum n)
    (hlosses : List.Forall₂ e.graph.Holds losses ns) :
    Leads (losses.foldlM (fun total loss => add total loss none) sum) e (fun _ => True)
      fun total e' => e.graph.Extends e'.graph ∧ ∃ m, e'.graph.Holds total m ∧
        m.type = n.type ∧ (∀ k ∈ ns, k.type = n.type) ∧
          (ns.map (·.shape)).foldlM DeclaredShape.broadcast n.shape = some m.shape := by
  induction losses generalizing sum n e ns with
  | nil =>
    cases hlosses
    exact leads_pure ⟨.refl _, n, hsum, rfl, by simp, rfl⟩
  | cons loss losses ih =>
    cases hlosses with | @cons _ m _ ns hloss hrest =>
    refine leads_bind_iff.2 ((leads_binary hsum hloss).mono ?_)
    -- the node that was appended is the sum for the remaining losses
    rintro _ _ ⟨common, htype, hcommon, rfl, rfl⟩
    refine (ih (e.graph.holds_push _)
      (hrest.imp fun _ _ hl => hl.extend (Graph.extends_push _ _))).mono ?_
    rintro total e' ⟨hextends, k, hk, hktype, htypes, hshape⟩
    refine ⟨(Graph.extends_push _ _).trans hextends, k, hk, hktype,
      List.forall_mem_cons.2 ⟨htype.symm, htypes⟩, ?_⟩
    exact Option.bind_eq_some_iff.2 ⟨common, hcommon, hshape⟩

/-- The nodes of losses that add up match, and so does the node of their sum. -/
theorem leads_aggregate_matching (hlosses : List.Forall₂ e.graph.Holds losses ns) :
    Leads (aggregate losses) e (fun _ => True) fun total e' =>
      e.graph.Extends e'.graph ∧ ∃ m, e'.graph.Holds total m ∧ Matching ns m.type m.shape := by
  cases hlosses with
  | nil => exact leads_refuse trivial
  | cons hfirst hrest =>
    refine (leads_addAll_matching hfirst hrest).mono ?_
    rintro total e' ⟨hextends, m, hm, htype, htypes, hshape⟩
    exact ⟨hextends, m, hm, matching_cons_iff.2 ⟨htype.symm, htypes, hshape⟩⟩

/-- Losses add up when they match. -/
theorem exists_aggregate_iff (hactive : e.session.isSome)
    (hlosses : List.Forall₂ e.graph.Holds losses ns) :
    (∃ total e', aggregate losses e = .ok total e') ↔ ∃ type shape, Matching ns type shape := by
  constructor
  · rintro ⟨total, e', h⟩
    obtain ⟨-, m, -, hmatching⟩ := (leads_aggregate_matching hlosses).of_eq_ok h
    exact ⟨_, _, hmatching⟩
  · -- the first loss is the sum to begin with
    rintro ⟨type, shape, hmatching⟩
    cases hlosses with
    | nil => exact absurd rfl hmatching.nonempty
    | cons hfirst hrest =>
      obtain ⟨-, htypes, hshape⟩ := matching_cons_iff.1 hmatching
      exact exists_addAll hactive hfirst hrest htypes hshape

end Engine
end TensorGraph
