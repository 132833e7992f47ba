import TensorGraph.Proofs.Derivative.Operations
import TensorGraph.Proofs.Derivative.Sweep
import TensorGraph.Proofs.Evaluation.Recomputation

/-!
# Runs on dual numbers

A run that reaches only polynomial operations can be made on dual numbers, with one variable moving
in a direction and everything else as it is. It gives a result whenever the run on the numbers
themselves does. The real parts of its values are the values of that run, and its slopes are what a
sweep is adjoint to.

## Main definitions

* `Setting.move`: what a run reads when a variable moves in a direction.

## Main results

* `Setting.exists_evaluate_under`: a run on dual numbers gives a result.
* `Setting.moving_of_settled`: its slopes, and what a sweep on its real parts hands on.
-/

open DualNumber TrivSqZeroExt

namespace TensorGraph

/-- The values of a map, each one under a function that may depend on the slot. -/
def SlotMap.mapSlots {α β : Type} (f : Nat → α → β) (m : SlotMap α) : SlotMap β :=
  ⟨m.cells.mapIdx fun slot cell => cell.map (f slot)⟩

@[simp] theorem SlotMap.get?_mapSlots {α β : Type} (f : Nat → α → β) (m : SlotMap α) (s : Nat) :
    (m.mapSlots f).get? s = (m.get? s).map (f s) := by
  simp only [mapSlots, get?, Array.getElem?_mapIdx]
  cases m.cells[s]? <;> rfl

namespace Setting

/-! ## Polynomial slots -/

section Polynomial

variable {S T : Type} [Scalar S] [Scalar T] {env : Setting S} {env' : Setting T} {φ : S → T}

/-- A polynomial draws nothing, is no gradient and makes no assignment. -/
theorem steps_of_isPolynomial (env : Setting S) (slot : Nat) (t : Tensor S) {op : Op}
    (hop : op.isPolynomial) :
    env.drawNoise slot op = pure () ∧ env.differentiate op = pure () ∧
      recordAssignment t op = pure () := by
  cases op with
  | placeholder | constant | «variable» | fill | dot | biasAdd | binary | unary | mean
  | reduceSum => exact ⟨rfl, rfl, rfl⟩
  | _ => cases hop

/-- Evaluating a polynomial node keeps its value and does nothing else. -/
theorem evaluateSlot_of_isPolynomial {slot : Nat} {n : GraphNode} {e : Evaluation S} {t : Tensor S}
    (hn : env.graph.nodes[slot]? = some n) (hop : n.op.isPolynomial)
    (ht : env.compute e.known slot n.op = .ok t) :
    env.evaluateSlot slot e = .ok () { e with values := e.values.insert slot t } := by
  obtain ⟨hdraw, hdiff, hrecord⟩ := env.steps_of_isPolynomial slot t hop
  simp only [evaluateSlot, hn, hdraw, hdiff, bind_eq_ok_iff, lift_eq_ok_iff]
  exact ⟨(), e, rfl, (), e, rfl, e, e, rfl, t, e, ⟨ht, rfl⟩, (), e, by rw [hrecord]; rfl, rfl⟩

/-- Polynomial slots can be evaluated over the values that a map of numbers takes to known ones. -/
theorem exists_evaluateAll_under (h : Scalar.Hom φ) (henv : Under φ env env') {known' : Known T}
    {listed : List Nat} (hfinished : env.graph.Finished listed)
    (hop : ∀ s ∈ listed, ∀ n : GraphNode, env.graph.nodes[s]? = some n → n.op.isPolynomial)
    (hknown : ∀ s ∈ listed, ∀ n : GraphNode, env.graph.nodes[s]? = some n →
      env'.compute known' s n.op = .ok (known'.value s)) (streams : SlotMap Stream) :
    ∃ e, env.evaluateAll listed.reverse (.start streams) = .ok () e ∧
      ∀ s ∈ listed, (e.known.value s).under φ = known'.value s := by
  induction hfinished with
  | nil => exact ⟨_, rfl, by simp⟩
  | @cons slot listed rest inside fresh operands ih =>
    rw [List.forall_mem_cons] at hop hknown
    obtain ⟨e, he, hvalues⟩ := ih hop.2 hknown.2
    obtain ⟨n, hn⟩ := Graph.exists_node_of_lt inside
    rw [Graph.operands_eq hn] at operands
    obtain ⟨u, hu, hover⟩ := exists_compute_under h henv (hop.1 n hn)
      (fun o ho => hvalues o (operands ho)) (hknown.1 n hn)
    -- the slot in front is evaluated last, on the values of its operands
    have hslot := evaluateSlot_of_isPolynomial hn (hop.1 n hn) hu
    let e' : Evaluation S := { e with values := e.values.insert slot u }
    have hself : e'.values.get? slot = some u := SlotMap.get?_insert_self _ _ _
    refine ⟨e', evaluateAll_cons_reverse he hslot, ?_⟩
    rw [List.forall_mem_cons]
    constructor
    · rw [Evaluation.known_value_eq hself, hover]
    · intro s hs
      have hne : s ≠ slot := fun heq => fresh (heq ▸ hs)
      have hother : e'.values.get? s = e.values.get? s := SlotMap.get?_insert_of_ne _ _ hne
      rw [← hvalues s hs]
      simp only [Evaluation.known, hother]

/-- Where a slot reaches only polynomials, a map that keeps arithmetic takes the evaluation of the
slot to the values that it has in another evaluation. -/
theorem exists_evaluate_under (h : Scalar.Hom φ) (henv : Under φ env env') (hg : env'.graph.Typed)
    {listed : List Nat} {e' : Evaluation T} (hsettled : Settled env' listed e')
    (hlisted : env'.graph.Finished listed) {slot : Nat} (hslot : slot ∈ listed)
    (hop : ∀ s n, env'.graph.Reaches slot s → env'.graph.nodes[s]? = some n → n.op.isPolynomial)
    (streams : SlotMap Stream) :
    ∃ e, env.evaluate [slot] (.start streams) = .ok () e ∧
      ∀ s, env'.graph.Reaches slot s → (e.known.value s).under φ = e'.known.value s := by
  have hinside := hlisted.lt_size hslot
  have hmem : ∀ s, s ∈ (env'.graph.schedule [slot]).reverse ↔ env'.graph.Reaches slot s := by
    intro s
    rw [List.mem_reverse, hg.mem_schedule_singleton_iff hinside]
  have hgraph := henv.graph
  -- only the slots that the slot reaches are evaluated, and they are a part of the listed ones
  obtain ⟨e, he, hvalues⟩ := exists_evaluateAll_under h henv
    (hgraph ▸ hg.finished_schedule (List.forall_mem_singleton.2 hinside))
    (fun s hs n hn => hop s n ((hmem s).1 hs) (hgraph ▸ hn))
    (fun s hs n hn =>
      hsettled.computed (hlisted.mem_of_reaches hslot ((hmem s).1 hs)) (hgraph ▸ hn))
    streams
  rw [List.reverse_reverse] at he
  refine ⟨e, ?_, fun s hs => hvalues s ((hmem s).2 hs)⟩
  rw [evaluate, hgraph]
  exact he

end Polynomial

/-! ## Moving a variable -/

variable {K : Type} [Field K] [LinearOrder K] [Elementary K]

/-- What a run reads when a variable moves in a direction. -/
def move (env : Setting K) (target : Nat) (d : Tensor K) : Setting K[ε] where
  graph := env.graph
  store := env.store.mapSlots fun slot t => if slot = target then t.move d else t.embed
  feeds := env.feeds.mapSlots fun _ t => t.embed
  phase := env.phase
  entropy := env.entropy

variable {env : Setting K} {target : Nat} {d : Tensor K}

theorem under_move (env : Setting K) (target : Nat) (d : Tensor K) :
    Under fst (env.move target d) env where
  graph := rfl
  feeds s := by
    rw [move, SlotMap.get?_mapSlots]
    cases env.feeds.get? s with
    | none => rfl
    | some t => exact congrArg some t.real_embed
  store s := by
    rw [move, SlotMap.get?_mapSlots]
    cases env.store.get? s with
    | none => rfl
    | some t =>
      -- a move changes only its target, and there only in the infinitesimal part
      by_cases hs : s = target
      · simp only [hs, if_true, Option.map_some]
        exact congrArg some (t.real_move d)
      · simp only [hs, if_false, Option.map_some]
        exact congrArg some t.real_embed

/-- Nothing but the variable that moves has a slope of its own. -/
theorem slope_of_leaf {known : Known K[ε]} {slot : Nat} {op : Op} {t : Tensor K[ε]}
    (hop : op.isPolynomial) (hleaf : op.operands = []) (hslot : slot ≠ target)
    (h : (env.move target d).compute known slot op = .ok t) (i j : Nat) :
    t.slope.entry i j = 0 := by
  -- a leaf has the value of a tensor of numbers
  suffices hembed : ∃ u : Tensor K, t = u.embed by
    obtain ⟨u, rfl⟩ := hembed
    exact u.entry_slope_embed i j
  cases op with
  | placeholder =>
    simp only [compute, move, SlotMap.get?_mapSlots] at h
    cases hfed : env.feeds.get? slot with
    | none => rw [hfed] at h; cases h
    | some u =>
      rw [hfed] at h
      cases h
      exact ⟨u, rfl⟩
  | constant v =>
    cases h
    exact ⟨.ofValue v, (Tensor.under_ofValue Scalar.hom_inl v).symm⟩
  | «variable» trainable init =>
    simp only [compute, move, SlotMap.get?_mapSlots, if_neg hslot] at h
    cases hstored : env.store.get? slot with
    | none => rw [hstored] at h; cases h
    | some u =>
      rw [hstored] at h
      obtain ⟨_, _, rfl⟩ := except_map_eq_ok_iff.1 h
      exact ⟨u, rfl⟩
  | fill x =>
    obtain ⟨shape, _, rfl⟩ := except_map_eq_ok_iff.1 h
    refine ⟨.full shape (Scalar.ofSingle x), ?_⟩
    rw [Tensor.embed, Tensor.under_full, Scalar.hom_inl.ofSingle]
  | biasAdd | dot | binary | unary | mean | reduceSum => cases hleaf
  | _ => cases hop

/-- The slopes of a run in which a variable moves are what a sweep on the real parts is adjoint to.
-/
theorem moving_of_settled {listed listed' : List Nat} {e : Evaluation K} {e' : Evaluation K[ε]}
    {loss : Nat} {w : GraphNode} (hg : env.graph.Typed) (hfits : env.Fits)
    (h : Settled env listed e) (hlisted : env.graph.Finished listed) (hloss : loss ∈ listed)
    (hop : ∀ s n, env.graph.Reaches loss s → env.graph.nodes[s]? = some n → n.op.isPolynomial)
    (hw : env.graph.nodes[target]? = some w) (hvar : w.op.isVariable)
    (h' : Settled (env.move target d) listed' e')
    (hreached : ∀ s, env.graph.Reaches loss s → s ∈ listed')
    (hreal : ∀ s ∈ listed', (e'.known.value s).real = e.known.value s) :
    env.graph.Moving e.known (fun s => (e'.known.value s).slope) loss target := by
  have hmem : ∀ {s}, env.graph.Reaches loss s → s ∈ listed := fun hs =>
    hlisted.mem_of_reaches hloss hs
  have hcovers : ∀ {s n}, env.graph.Reaches loss s → env.graph.nodes[s]? = some n →
      ∀ o ∈ n.op.operands, ∀ k : GraphNode, env.graph.nodes[o]? = some k →
        k.shape.Covers (e.known.value o).shape := by
    intro s n hs hn o ho k hk
    exact h.covers hg hfits hlisted (hmem (hs.operand hn ho)) hk
  constructor
  case node => exact fun hs => Graph.exists_node_of_lt (hlisted.lt_size (hmem hs))
  case shape =>
    intro s n t hs hn ht
    exact shape_of_pullback (hg.node hn) (hcovers hs hn) (h.computed (hmem hs) hn) ht
  case adjoint =>
    intro s n t hs hn hne ht
    have hcomputed := h'.computed (hreached s hs) hn
    have hoperand : ∀ o ∈ n.op.operands, (e'.known.value o).real = e.known.value o := fun o ho =>
      hreal o (hreached o (hs.operand hn ho))
    have hshape : ∀ o ∈ n.op.operands, (e'.known.value o).shape = (e.known.value o).shape :=
      fun o ho => congrArg Tensor.shape (hoperand o ho)
    refine Op.sum_pair_pullback (hop s n hs hn) (hg.node hn) hoperand (fun o ho k hk => ?_)
      (fun o ho => ?_) (fun hleaf => slope_of_leaf (hop s n hs hn) hleaf hne hcomputed) hcomputed ?_
    · rw [hshape o ho]
      exact hcovers hs hn o ho k hk
    · obtain ⟨k, hk⟩ := Graph.exists_node_of_lt (hlisted.lt_size (hmem (hs.operand hn ho)))
      rw [hshape o ho, (hcovers hs hn o ho k hk).length_eq]
      exact (hg.held hk).length_le
    · rw [ht]
      exact (congrArg Tensor.shape (hreal s (hreached s hs))).symm
  case target =>
    -- the target is a variable
    intro n t hn
    obtain rfl : w = n := Option.some.inj (hw.symm.trans hn)
    cases hcase : w.op with
    | «variable» trainable init => rfl
    | _ => rw [hcase] at hvar; cases hvar

end Setting
end TensorGraph
