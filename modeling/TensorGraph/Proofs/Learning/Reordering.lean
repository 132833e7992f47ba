import Mathlib
import TensorGraph.Proofs.Engine.Reachable
import TensorGraph.Proofs.Evaluation.Ordering
import TensorGraph.Proofs.Evaluation.Widening
import TensorGraph.Proofs.Learning.Aggregating
import TensorGraph.Proofs.Learning.Weighting

/-!
# Losses in another order

Losses may be added up in any order. The sum is declared in the same way, it evaluates when the
losses do and their values stretch to a common shape, and its value has that shape. Additions round,
so the entries of the sum are the same in exact arithmetic only.

## Main definitions

* `Setting.Mismatched`: an evaluation that fails since shapes do not fit.
* `Engine.SumsAlike`: two sums of the same losses that are declared alike and evaluate alike.

## Main results

* `Graph.AddsUp.exists_gives_iff`: whether a sum evaluates, and the shape of its value.
* `Graph.AddsUp.gives_or_mismatched`: how a sum fails.
* `Graph.AddsUp.entry_eq`: the entries of a sum in exact arithmetic.
* `Engine.aggregate_any_order`: losses added up in two orders.
-/

namespace TensorGraph

variable {S : Type} [Scalar S]

namespace Setting

variable {env : Setting S} {streams : SlotMap Stream} {slot : Nat} {t : Tensor S}

/-- A slot evaluates to the same in a longer graph. -/
theorem gives_widen {g' : Graph} (h : env.graph.Extends g') (hg : env.graph.Typed)
    (hslot : slot < env.graph.size) :
    ({ env with graph := g' } : Setting S).Gives streams slot t ↔ env.Gives streams slot t := by
  rw [Gives, Gives, evaluate_widen h hg (List.forall_mem_singleton.2 hslot)]

/-- What a slot evaluates to has at most two axes. -/
theorem Gives.length_shape_le (h : env.Gives streams slot t) (hg : env.graph.Typed)
    (hfits : env.Fits) (hslot : slot < env.graph.size) : t.shape.length ≤ 2 := by
  obtain ⟨listed, e, hlisted, hsourced, hmem, rfl⟩ := (gives_iff_sourced hg hslot).1 h
  exact hsourced.length_shape_le hg hfits hlisted hmem

/-- The value that a slot evaluates to on its own, if it does. -/
def result (env : Setting S) (streams : SlotMap Stream) (slot : Nat) : Tensor S :=
  match env.evaluate [slot] (.start streams) with
  | .ok _ e => e.known.value slot
  | .error _ _ => .full [] 0

theorem Gives.result_eq (h : env.Gives streams slot t) : env.result streams slot = t := by
  obtain ⟨e, he, ht⟩ := h
  rw [result, he]
  exact Evaluation.known_value_eq ht

theorem Gives.result (h : env.Gives streams slot t) :
    env.Gives streams slot (env.result streams slot) := by
  rwa [h.result_eq]

/-- A slot has the same value in a longer graph. -/
theorem result_widen {g' : Graph} (h : env.graph.Extends g') (hg : env.graph.Typed)
    (hslot : slot < env.graph.size) :
    ({ env with graph := g' } : Setting S).result streams slot = env.result streams slot := by
  rw [Setting.result, Setting.result, evaluate_widen h hg (List.forall_mem_singleton.2 hslot)]

omit [Scalar S] in
/-- Feeds and variables fit a longer graph. -/
theorem Fits.widen {g' : Graph} (h : env.Fits) (hg : env.graph.Extends g') :
    ({ env with graph := g' } : Setting S).Fits where
  fed ht := (h.fed ht).imp fun _ => And.imp_left hg.node
  stored ht := (h.stored ht).imp fun _ => And.imp_left hg.node

end Setting

/-! ## Shapes of sums -/

theorem Shape.broadcastAll_append_singleton (shapes : List Shape) (shape : Shape) :
    broadcastAll (shapes ++ [shape]) = (broadcastAll shapes).bind (broadcast · shape) := by
  rw [broadcastAll, broadcastAll, List.foldlM_append]
  simp

theorem Shape.broadcastAll_singleton (shape : Shape) : broadcastAll [shape] = some shape := by
  simp [broadcastAll, broadcast_nil]

namespace Graph.AddsUp

variable {env : Setting S} {streams : SlotMap Stream} {losses : List Nat} {total : Nat}
  {t : Tensor S} {shape : Shape}

/-- When a sum evaluates, the losses do, and their values stretch to its shape. -/
theorem of_gives (hsum : env.graph.AddsUp losses total) (hg : env.graph.Typed)
    (h : env.Gives streams total t) :
    (∀ loss ∈ losses, env.Gives streams loss (env.result streams loss)) ∧
      Shape.broadcastAll (losses.map fun loss => (env.result streams loss).shape) =
        some t.shape := by
  induction hsum generalizing t with
  | single loss =>
    refine ⟨List.forall_mem_singleton.2 h.result, ?_⟩
    rw [List.map_singleton, h.result_eq, Shape.broadcastAll_singleton]
  | add _ hop ih =>
    obtain ⟨n, hn, hop⟩ := Option.map_eq_some_iff.1 hop
    -- a sum that evaluates has operands that do, and their shapes stretch to its own
    obtain ⟨u, v, shape, hu, hv, hshape, rfl⟩ := (Setting.gives_binary_iff hg hn hop).1 h
    obtain ⟨hlosses, hall⟩ := ih hu
    refine ⟨List.forall_mem_append.2 ⟨hlosses, List.forall_mem_singleton.2 hv.result⟩, ?_⟩
    rw [List.map_append, List.map_singleton, Shape.broadcastAll_append_singleton, hall,
      hv.result_eq]
    exact hshape

/-- A sum evaluates when the losses do and their values stretch to a common shape. -/
theorem exists_gives (hsum : env.graph.AddsUp losses total) (hg : env.graph.Typed)
    (hlosses : ∀ loss ∈ losses, env.Gives streams loss (env.result streams loss))
    (hshape : Shape.broadcastAll (losses.map fun loss => (env.result streams loss).shape) =
      some shape) : ∃ t, env.Gives streams total t ∧ t.shape = shape := by
  induction hsum generalizing shape with
  | single loss =>
    rw [List.map_singleton, Shape.broadcastAll_singleton] at hshape
    exact ⟨_, hlosses loss List.mem_cons_self, Option.some.inj hshape⟩
  | add _ hop ih =>
    obtain ⟨n, hn, hop⟩ := Option.map_eq_some_iff.1 hop
    obtain ⟨hlosses, hloss⟩ := List.forall_mem_append.1 hlosses
    rw [List.map_append, List.map_singleton, Shape.broadcastAll_append_singleton] at hshape
    obtain ⟨common, hcommon, hshape⟩ := Option.bind_eq_some_iff.1 hshape
    -- the sum so far evaluates, and the next loss stretches with it
    obtain ⟨u, hu, rfl⟩ := ih hlosses hcommon
    have hv := hloss _ List.mem_cons_self
    exact ⟨_, (Setting.gives_binary_iff hg hn hop).2 ⟨_, _, _, hu, hv, hshape, rfl⟩, rfl⟩

/-- A sum in a longer graph evaluates when the losses do and their values stretch to a common
shape, which is then the shape of its value. -/
theorem exists_gives_iff {g' : Graph} (hsum : g'.AddsUp losses total)
    (hextends : env.graph.Extends g') (hg : env.graph.Typed) (hg' : g'.Typed)
    (hsize : ∀ loss ∈ losses, loss < env.graph.size) :
    (∃ t, ({ env with graph := g' } : Setting S).Gives streams total t ∧ t.shape = shape) ↔
      (∀ loss ∈ losses, env.Gives streams loss (env.result streams loss)) ∧
        Shape.broadcastAll (losses.map fun loss => (env.result streams loss).shape) =
          some shape := by
  let env' : Setting S := { env with graph := g' }
  -- appending nodes does not change what the losses come to
  have hresults : ∀ loss ∈ losses, env'.result streams loss = env.result streams loss :=
    fun loss hloss => Setting.result_widen hextends hg (hsize loss hloss)
  have hgives : (∀ loss ∈ losses, env'.Gives streams loss (env'.result streams loss)) ↔
      ∀ loss ∈ losses, env.Gives streams loss (env.result streams loss) :=
    forall₂_congr fun loss hloss => by
      rw [hresults loss hloss, Setting.gives_widen hextends hg (hsize loss hloss)]
  have hshapes : (losses.map fun loss => (env'.result streams loss).shape) =
      losses.map fun loss => (env.result streams loss).shape :=
    List.map_congr_left fun loss hloss => congrArg _ (hresults loss hloss)
  rw [← hgives, ← hshapes]
  constructor
  · rintro ⟨t, ht, rfl⟩
    exact of_gives hsum hg' ht
  · rintro ⟨hlosses, hshape⟩
    exact exists_gives hsum hg' hlosses hshape

end Graph.AddsUp

/-! ## Entries of sums -/

/-- What a tensor that has been stretched is stretched to, when it is stretched again. -/
theorem Tensor.spread_of_stretches {t : Tensor S} {shape : Shape}
    (h : t.shape.Stretches shape) (i j : Nat) :
    t.spread (if shape.rows = 1 then 0 else i) (if shape.cols = 1 then 0 else j) =
      t.spread i j := by
  have haxis : ∀ {m n k : Nat}, (m = 1 ∨ m = n) →
      (if m = 1 then 0 else if n = 1 then 0 else k) = if m = 1 then 0 else k := by
    intro m n k h
    split
    · rfl
    · next hm => rw [if_neg (h.resolve_left hm ▸ hm)]
  rw [Tensor.spread, Tensor.spread, Tensor.rows, Tensor.cols, haxis h.rows, haxis h.cols]

namespace Graph.AddsUp

variable {env : Setting S} {streams : SlotMap Stream} {losses : List Nat} {total : Nat}
  {t : Tensor S} {K : Type} [Field K] {φ : S → K}

/-- In exact arithmetic the entries of a sum are the sums of the entries of the losses, each loss
stretched to the shape of the sum. -/
theorem entry_eq (hsum : env.graph.AddsUp losses total) (hg : env.graph.Typed)
    (hfits : env.Fits) (hφ : Scalar.Additive φ) (htotal : total < env.graph.size)
    (h : env.Gives streams total t) :
    (∀ loss ∈ losses, (env.result streams loss).shape.Stretches t.shape) ∧
      ∀ i j, i < t.rows → j < t.cols → φ (t.entry i j) =
        (losses.map fun loss => φ ((env.result streams loss).spread i j)).sum := by
  induction hsum generalizing t with
  | single loss =>
    obtain rfl := h.result_eq
    refine ⟨List.forall_mem_singleton.2 (.refl _), fun i j hi hj => ?_⟩
    rw [List.map_singleton, List.sum_singleton, Tensor.spread_eq_entry hi hj]
  | @add losses sum loss total _ hop ih =>
    obtain ⟨n, hn, hop⟩ := Option.map_eq_some_iff.1 hop
    obtain ⟨u, v, shape, hu, hv, hshape, rfl⟩ := (Setting.gives_binary_iff hg hn hop).1 h
    have hoperand : ∀ o ∈ [sum, loss], o < env.graph.size := fun o ho =>
      Nat.lt_trans (hg.lt_of_mem_operands (by rwa [operands_eq hn, hop])) htotal
    obtain ⟨hlosses, hentries⟩ := ih (hoperand sum (by simp)) hu
    obtain ⟨hleft, hright⟩ := Shape.stretches_of_broadcast
      (hu.length_shape_le hg hfits (hoperand sum (by simp)))
      (hv.length_shape_le hg hfits (hoperand loss (by simp))) hshape
    obtain rfl := hv.result_eq
    refine ⟨List.forall_mem_append.2 ⟨fun l hl => (hlosses l hl).trans hleft,
      List.forall_mem_singleton.2 hright⟩,
      fun i j (hi : i < shape.rows) (hj : j < shape.cols) => ?_⟩
    -- the sum of the others is read where stretching reads it
    have hinside : ∀ {m n k : Nat}, (m = 1 ∨ m = n) → k < n →
        (if m = 1 then 0 else k) < m := by grind
    have hothers : φ (u.spread i j) =
        (losses.map fun loss => φ ((env.result streams loss).spread i j)).sum := by
      rw [Tensor.spread, hentries _ _ (hinside hleft.rows hi) (hinside hleft.cols hj)]
      refine congrArg List.sum (List.map_congr_left fun l hl => ?_)
      exact congrArg φ (Tensor.spread_of_stretches (hlosses l hl) i j)
    rw [Tensor.entry_combine hi hj, List.map_append, List.sum_append, List.map_singleton,
      List.sum_singleton, ← hothers]
    exact hφ.add _ _

end Graph.AddsUp

/-! ## Failing sums -/

namespace Setting

variable {env : Setting S} {streams : SlotMap Stream}

/-- A failure since the run-time shapes of two operands do not fit. -/
def Mismatched {α : Type} : EStateM.Result Failure (Evaluation S) α → Prop
  | .ok _ _ => False
  | .error f _ => ∃ label declared shape, f = .error (.shapeMismatch label declared shape)

/-- Evaluating an operation on two operands fails only when their shapes do not fit. -/
theorem evaluateSlot_binary {slot a b : Nat} {op : BinaryOp} {n : GraphNode}
    (hn : env.graph.nodes[slot]? = some n) (hop : n.op = .binary op a b) (e : Evaluation S) :
    (∃ e', env.evaluateSlot slot e = .ok () e') ∨ Mismatched (env.evaluateSlot slot e) := by
  -- nothing is drawn, differentiated or assigned for such an operation
  have hslot : env.evaluateSlot slot e =
      (do
        let t ← lift (env.compute e.known slot (.binary op a b))
        modify fun e => { e with values := e.values.insert slot t } : Evaluating S Unit) e := by
    unfold evaluateSlot
    rw [hn]
    dsimp only
    rw [hop]
    rfl
  rw [hslot]
  simp only [compute, commonShape]
  cases Shape.broadcast (e.known.value a).shape (e.known.value b).shape with
  | some shape => exact .inl ⟨_, rfl⟩
  | none => exact .inr ⟨_, _, _, rfl⟩

/-- Evaluating slots, each of which evaluates on its own or is an operation on two operands, fails
only when shapes do not fit. -/
theorem mismatched_of_evaluateAll (streams : SlotMap Stream) (hg : env.graph.Typed)
    {listed : List Nat} (hlisted : env.graph.Finished listed)
    (h : ∀ s ∈ listed, (∃ t, env.Gives streams s t) ∨
      ∃ op a b, env.graph.op? s = some (.binary op a b)) :
    (∃ e, env.evaluateAll listed.reverse (.start streams) = .ok () e) ∨
      Mismatched (env.evaluateAll listed.reverse (.start streams)) := by
  induction hlisted with
  | nil => exact .inl ⟨_, rfl⟩
  | @cons slot listed rest inside fresh operands ih =>
    obtain ⟨hslot, hrest⟩ := List.forall_mem_cons.1 h
    rw [List.reverse_cons, evaluateAll_append, evaluateAll_singleton]
    rcases ih hrest with ⟨e, he⟩ | hfail
    · rw [bind_of_ok he]
      -- a slot that evaluates on its own also does after the others, and an operation only needs
      -- shapes that fit
      rcases hslot with ⟨t, ht⟩ | ⟨op, a, b, hop⟩
      · obtain ⟨others, e', hothers, hsourced, hmem, -⟩ := (gives_iff_sourced hg inside).1 ht
        exact .inl (exists_evaluateSlot_of_sourced (sourced_of_evaluateAll rest he) hsourced hg
          (.cons rest inside fresh operands) hothers hmem)
      · obtain ⟨n, hn, hop⟩ := Option.map_eq_some_iff.1 hop
        exact evaluateSlot_binary hn hop e
    · revert hfail
      cases he : env.evaluateAll listed.reverse (.start streams) with
      | ok _ e => exact False.elim
      | error f e =>
        intro hfail
        rw [bind_of_error he]
        exact .inr hfail

end Setting

namespace Graph.AddsUp

variable {losses : List Nat} {total : Nat}

/-- What a sum reaches is reached by one of the losses, or adds some of them up. -/
theorem reaches {g : Graph} (hsum : g.AddsUp losses total) {s : Nat} (h : g.Reaches total s) :
    (∃ loss ∈ losses, g.Reaches loss s) ∨ ∃ op a b, g.op? s = some (.binary op a b) := by
  induction hsum with
  | single loss => exact .inl ⟨loss, List.mem_cons_self, h⟩
  | @add losses sum loss total _ hop ih =>
    rcases h.cases_head with rfl | ⟨o, ho, hos⟩
    · exact .inr ⟨_, _, _, hop⟩
    · obtain ⟨n, hn, hop⟩ := Option.map_eq_some_iff.1 hop
      rw [operands_eq hn, hop] at ho
      simp only [Op.operands, Op.inputs, List.mem_cons, List.not_mem_nil, or_false] at ho
      -- one operand is the sum so far, the other one a loss
      rcases ho with rfl | rfl
      · refine (ih hos).imp_left ?_
        rintro ⟨l, hl, hs⟩
        exact ⟨l, List.mem_append_left _ hl, hs⟩
      · exact .inl ⟨o, by simp, hos⟩

/-- When the losses evaluate, evaluating their sum fails only when shapes do not fit. -/
theorem gives_or_mismatched {env : Setting S} {streams : SlotMap Stream}
    (hsum : env.graph.AddsUp losses total) (hg : env.graph.Typed)
    (hsize : ∀ loss ∈ losses, loss < env.graph.size) (htotal : total < env.graph.size)
    (hlosses : ∀ loss ∈ losses, ∃ t, env.Gives streams loss t) :
    (∃ t, env.Gives streams total t) ∨
      Setting.Mismatched (env.evaluate [total] (.start streams)) := by
  have hslots : ∀ s ∈ [total], s < env.graph.size := List.forall_mem_singleton.2 htotal
  have hall := Setting.mismatched_of_evaluateAll streams hg
    (hg.finished_schedule hslots) fun s hs => by
      rw [List.mem_reverse, hg.mem_schedule_singleton_iff htotal] at hs
      refine (hsum.reaches hs).imp_left fun ⟨loss, hmem, hreached⟩ => ?_
      obtain ⟨t, ht⟩ := hlosses loss hmem
      obtain ⟨listed, e, hlisted, hsourced, hmem', -⟩ :=
        (Setting.gives_iff_sourced hg (hsize loss hmem)).1 ht
      -- what a loss reaches evaluates along with it
      have hs := hlisted.mem_of_reaches hmem' hreached
      exact ⟨_, (Setting.gives_iff_sourced hg (hlisted.lt_size hs)).2
        ⟨listed, e, hlisted, hsourced, hs, rfl⟩⟩
  rw [List.reverse_reverse] at hall
  refine hall.imp_left fun ⟨e, he⟩ => ⟨_, Setting.gives_of_evaluate hg hslots ?_ he⟩
  exact List.mem_cons_self

end Graph.AddsUp

/-! ## Two orders -/

namespace Engine

/-- Two sums of losses, in graphs that extend the one of the losses, that are declared alike and
evaluate alike, whatever is fed and whatever the variables hold. -/
structure SumsAlike (g g₁ g₂ : Graph) (losses : List Nat) (total total' : Nat) : Prop where
  declared : ∃ n n', g₁.nodes[total]? = some n ∧ g₂.nodes[total']? = some n' ∧
    n'.shape = n.shape ∧ n'.type = n.type
  /-- One sum evaluates to a value of some shape when the other one does. -/
  shape : ∀ {S : Type} [Scalar S] (env : Setting S) (streams : SlotMap Stream) (shape : Shape),
    env.graph = g →
      ((∃ t, ({ env with graph := g₁ } : Setting S).Gives streams total t ∧ t.shape = shape) ↔
        ∃ t, ({ env with graph := g₂ } : Setting S).Gives streams total' t ∧ t.shape = shape)
  /-- When the losses evaluate, both sums do, or both fail since shapes do not fit. -/
  fails : ∀ {S : Type} [Scalar S] (env : Setting S) (streams : SlotMap Stream), env.graph = g →
    (∀ loss ∈ losses, ∃ t, env.Gives streams loss t) →
      (∃ t t', ({ env with graph := g₁ } : Setting S).Gives streams total t ∧
        ({ env with graph := g₂ } : Setting S).Gives streams total' t') ∨
      Setting.Mismatched (({ env with graph := g₁ } : Setting S).evaluate [total]
        (.start streams)) ∧
      Setting.Mismatched (({ env with graph := g₂ } : Setting S).evaluate [total']
        (.start streams))
  /-- In exact arithmetic their values are the same. -/
  value : ∀ {K : Type} [Field K] [LinearOrder K] [Elementary K] (env : Setting K)
    (streams : SlotMap Stream) {t t' : Tensor K}, env.graph = g → env.Fits →
      ({ env with graph := g₁ } : Setting K).Gives streams total t →
        ({ env with graph := g₂ } : Setting K).Gives streams total' t' → t' = t

/-- A sum of losses of a graph, in a graph that extends it. -/
structure Summed (g g' : Graph) (losses : List Nat) (ns : List GraphNode) (total : Nat) : Prop where
  grown : g.Extends g'
  typed : g'.Typed
  sum : g'.AddsUp losses total
  node : ∃ n, g'.nodes[total]? = some n ∧ Matching ns n.type n.shape

namespace Summed

variable {g g' g₁ g₂ : Graph} {losses losses' : List Nat} {ns ns' : List GraphNode}
  {total total' : Nat}

theorem lt_size (h : Summed g g' losses ns total) : total < g'.size := by
  obtain ⟨n, hn, -⟩ := h.node
  exact Graph.lt_size_of_getElem? hn

/-- When the losses evaluate, their sum does, or it fails since shapes do not fit. -/
theorem gives_or_mismatched {S : Type} [Scalar S] {env : Setting S} {streams : SlotMap Stream}
    (h : Summed env.graph g' losses ns total) (hg : env.graph.Typed)
    (hsize : ∀ loss ∈ losses, loss < env.graph.size)
    (hlosses : ∀ loss ∈ losses, ∃ t, env.Gives streams loss t) :
    (∃ t, ({ env with graph := g' } : Setting S).Gives streams total t) ∨
      Setting.Mismatched (({ env with graph := g' } : Setting S).evaluate [total]
        (.start streams)) :=
  Graph.AddsUp.gives_or_mismatched h.sum h.typed
    (fun loss hloss => Nat.lt_of_lt_of_le (hsize loss hloss) h.grown.size_le) h.lt_size
    fun loss hloss => (hlosses loss hloss).imp fun _ =>
      (Setting.gives_widen h.grown hg (hsize loss hloss)).2

/-- In exact arithmetic the entries of the sum are the sums of the entries of the losses. -/
theorem entry_eq {K : Type} [Field K] [LinearOrder K] [Elementary K] {env : Setting K}
    {streams : SlotMap Stream} {t : Tensor K} (h : Summed env.graph g' losses ns total)
    (hg : env.graph.Typed) (hsize : ∀ loss ∈ losses, loss < env.graph.size) (hfits : env.Fits)
    (ht : ({ env with graph := g' } : Setting K).Gives streams total t) {i j : Nat}
    (hi : i < t.rows) (hj : j < t.cols) :
    t.entry i j = (losses.map fun loss => (env.result streams loss).spread i j).sum := by
  obtain ⟨-, hentries⟩ := Graph.AddsUp.entry_eq h.sum h.typed (hfits.widen h.grown)
    Scalar.additive_id h.lt_size ht
  refine (hentries i j hi hj).trans (congrArg List.sum (List.map_congr_left fun loss hloss => ?_))
  rw [Setting.result_widen h.grown hg (hsize loss hloss)]
  rfl

/-- Sums of the same losses in two orders. -/
theorem alike (h : Summed g g₁ losses ns total) (h' : Summed g g₂ losses' ns' total')
    (hg : g.Typed) (hsize : ∀ loss ∈ losses, loss < g.size) (hperm : losses.Perm losses')
    (hns : ns.Perm ns') : SumsAlike g g₁ g₂ losses total total' := by
  have hmem : ∀ {loss}, loss ∈ losses' ↔ loss ∈ losses := hperm.mem_iff.symm
  have hsize' : ∀ loss ∈ losses', loss < g.size := fun loss hloss => hsize loss (hmem.1 hloss)
  -- neither evaluating nor the common shape depends on the order of the losses
  have hshape : ∀ {S : Type} [Scalar S] (env : Setting S) (streams : SlotMap Stream)
      (shape : Shape), env.graph = g →
        ((∃ t, ({ env with graph := g₁ } : Setting S).Gives streams total t ∧ t.shape = shape) ↔
          ∃ t, ({ env with graph := g₂ } : Setting S).Gives streams total' t ∧
            t.shape = shape) := by
    rintro S _ env streams shape rfl
    rw [h.sum.exists_gives_iff h.grown hg h.typed hsize,
      h'.sum.exists_gives_iff h'.grown hg h'.typed hsize']
    simp only [hmem, Shape.broadcastAll, Shape.joins_broadcast.foldlM_perm (hperm.map _)]
  constructor
  case declared =>
    obtain ⟨n, hn, hmatching⟩ := h.node
    obtain ⟨n', hn', hmatching'⟩ := h'.node
    obtain ⟨htype, hshape⟩ := (hmatching.perm hns).unique hmatching'
    exact ⟨n, n', hn, hn', hshape, htype⟩
  case shape => exact hshape
  -- a sum that evaluates carries the other one with it, so they fail together
  case fails =>
    rintro S _ env streams rfl hlosses
    rcases h.gives_or_mismatched hg hsize hlosses with ⟨t, ht⟩ | hfails
    · obtain ⟨t', ht', -⟩ := (hshape env streams t.shape rfl).1 ⟨t, ht, rfl⟩
      exact .inl ⟨t, t', ht, ht'⟩
    · rcases h'.gives_or_mismatched hg hsize' fun loss hloss => hlosses loss (hmem.1 hloss) with
        ⟨t', ht'⟩ | hfails'
      · obtain ⟨t, ht, -⟩ := (hshape env streams t'.shape rfl).2 ⟨t', ht', rfl⟩
        exact .inl ⟨t, t', ht, ht'⟩
      · exact .inr ⟨hfails, hfails'⟩
  case value =>
    rintro K _ _ _ env streams t t' rfl hfits ht ht'
    have hshapes : t.shape = t'.shape := by
      obtain ⟨u, hu, hushape⟩ := (hshape env streams t.shape rfl).1 ⟨t, ht, rfl⟩
      rw [← hushape, hu.unique ht']
    refine (Tensor.eq_of_entries hshapes fun i j hi hj => ?_).symm
    rw [h.entry_eq hg hsize hfits ht hi hj, h'.entry_eq hg hsize' hfits ht'
      (by rwa [Tensor.rows, ← hshapes]) (by rwa [Tensor.cols, ← hshapes])]
    exact (hperm.map _).sum_eq

end Summed

variable {e : Engine} {losses losses' : List Node}

/-- What has been built when losses have been added up. -/
theorem Sound.summed_of_aggregate {ns : List GraphNode} {total : Node} {e' : Engine}
    (he : e.Sound) (hlosses : List.Forall₂ e.graph.Holds losses ns)
    (h : aggregate losses e = .ok total e') :
    Summed e.graph e'.graph (losses.map (·.index)) ns total.index := by
  obtain ⟨hgrown, n, hn, hmatching⟩ := (leads_aggregate_matching hlosses).of_eq_ok h
  exact ⟨hgrown, (buildable_sound.aggregate losses e total e' he h).typed,
    (leads_aggregate losses).of_eq_ok h, n, hn.2, hmatching⟩

/-- The handles of a graph find nodes. -/
theorem exists_holds_all {g : Graph} (h : ∀ loss ∈ losses, g.slot? loss = some loss.index) :
    ∃ ns, List.Forall₂ g.Holds losses ns := by
  induction losses with
  | nil => exact ⟨[], .nil⟩
  | cons loss losses ih =>
    obtain ⟨hloss, hrest⟩ := List.forall_mem_cons.1 h
    obtain ⟨ns, hns⟩ := ih hrest
    obtain ⟨⟨hgraph, hsize⟩, -⟩ := Option.ite_none_right_eq_some.1 hloss
    obtain ⟨n, hn⟩ := Graph.exists_node_of_lt hsize
    exact ⟨n :: ns, .cons ⟨hgraph, hn⟩ hns⟩

/-- Losses may be added up in any order. In one order they add up when they do in the other one;
then the sums are declared alike, evaluate alike in every setting of the graph, and come to the same
value in exact arithmetic. -/
theorem aggregate_any_order (he : e.Reachable) (hactive : e.session.isSome)
    (hlosses : ∀ loss ∈ losses, e.graph.slot? loss = some loss.index)
    (hperm : losses.Perm losses') :
    ((∃ total e₁, aggregate losses e = .ok total e₁) ↔
      ∃ total e₂, aggregate losses' e = .ok total e₂) ∧
    ∀ {total total' : Node} {e₁ e₂ : Engine}, aggregate losses e = .ok total e₁ →
      aggregate losses' e = .ok total' e₂ →
        SumsAlike e.graph e₁.graph e₂.graph (losses.map (·.index)) total.index total'.index := by
  obtain ⟨ns, hns⟩ := exists_holds_all hlosses
  obtain ⟨ns', hns', hperm'⟩ := List.perm_comp_forall₂ hperm.symm hns
  have hlosses' : ∀ loss ∈ losses.map (·.index), loss < e.graph.size := fun _ hloss => by
    obtain ⟨loss, hmem, rfl⟩ := List.mem_map.1 hloss
    exact (Option.ite_none_right_eq_some.1 (hlosses loss hmem)).1.2
  constructor
  · -- matching does not depend on the order
    rw [exists_aggregate_iff hactive hns, exists_aggregate_iff hactive hns']
    exact exists₂_congr fun type shape => ⟨(·.perm hperm'.symm), (·.perm hperm')⟩
  · intro total total' e₁ e₂ h h'
    exact (he.sound.summed_of_aggregate hns h).alike (he.sound.summed_of_aggregate hns' h')
      he.sound.typed hlosses' (hperm.map _) hperm'.symm

/-- An engine with a loss for every row, a loss of two entries for every row, and a loss for the
whole batch. -/
def ragged : Engine :=
  built [.placeholder "rows" [openAxis], .placeholder "entries" [openAxis, 2],
    .placeholder "batch" []]

/-- The losses add up from first to last and from last to first. -/
theorem ragged_any_order :
    ragged.Reachable ∧ ragged.session.isSome ∧
      (∀ loss ∈ [Node.mk 0 0, ⟨0, 1⟩, ⟨0, 2⟩], ragged.graph.slot? loss = some loss.index) ∧
      ∃ total total' e₁ e₂, aggregate [⟨0, 0⟩, ⟨0, 1⟩, ⟨0, 2⟩] ragged = .ok total e₁ ∧
        aggregate [⟨0, 2⟩, ⟨0, 1⟩, ⟨0, 0⟩] ragged = .ok total' e₂ ∧
        SumsAlike ragged.graph e₁.graph e₂.graph [0, 1, 2] total.index total'.index := by
  have hreachable : ragged.Reachable := reachable_built _
  have hactive : ragged.session.isSome := by decide +kernel
  have hslots : ∀ loss ∈ [Node.mk 0 0, ⟨0, 1⟩, ⟨0, 2⟩],
      ragged.graph.slot? loss = some loss.index := by decide +kernel
  have hperm : [Node.mk 0 0, ⟨0, 1⟩, ⟨0, 2⟩].Perm [⟨0, 2⟩, ⟨0, 1⟩, ⟨0, 0⟩] := by decide
  obtain ⟨hiff, halike⟩ := aggregate_any_order hreachable hactive hslots hperm
  obtain ⟨total, e₁, hfirst, -⟩ := exists_of_answer
    (c := aggregate [⟨0, 0⟩, ⟨0, 1⟩, ⟨0, 2⟩]) (f := Node.index) (e := ragged) (b := 4)
    (by decide +kernel)
  obtain ⟨total', e₂, hlast⟩ := hiff.1 ⟨total, e₁, hfirst⟩
  exact ⟨hreachable, hactive, hslots, total, total', e₁, e₂, hfirst, hlast, halike hfirst hlast⟩

end Engine

end TensorGraph
