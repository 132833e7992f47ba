import TensorGraph.Proofs.Derivative.Pairing
import TensorGraph.Proofs.Evaluation.Shapes

/-!
# Operations on dual numbers

The operations that are polynomials in their operands are kept by every map of numbers that keeps
arithmetic, so evaluating them on dual numbers gives their values as the real parts. What reaches
such an operation is handed on adjointly to the way in which its slope depends on those of its
operands.

## Main definitions

* `Op.isPolynomial`: the operations that are polynomials in their operands.
* `Setting.Under`: what a run reads, under a map of numbers.

## Main results

* `Setting.exists_compute_under`: maps that keep arithmetic keep the values of polynomial
  operations.
* `Op.sum_pair_pullback`: handing on is adjoint to moving forward.
-/

open DualNumber TrivSqZeroExt

namespace TensorGraph

/-- Whether an operation is a polynomial in its operands. -/
def Op.isPolynomial : Op → Bool
  | placeholder | constant _ | .variable _ _ | fill _ => true
  | binary .add _ _ | binary .subtract _ _ | binary .multiply _ _ => true
  | unary .identity _ | unary .negate _ | unary .square _ => true
  | dot _ _ | biasAdd _ _ | mean _ | reduceSum _ => true
  | _ => false

/-- What one run reads is what another one reads, under a map of numbers. -/
structure Setting.Under {S T : Type} (φ : S → T) (env : Setting S) (env' : Setting T) : Prop where
  graph : env.graph = env'.graph
  feeds : ∀ s, (env.feeds.get? s).map (·.under φ) = env'.feeds.get? s
  store : ∀ s, (env.store.get? s).map (·.under φ) = env'.store.get? s

namespace Setting

variable {S T : Type} [Scalar S] [Scalar T] {φ : S → T} {env : Setting S} {env' : Setting T}

/-- Maps that keep arithmetic keep the values of polynomial operations. -/
theorem exists_compute_under (h : Scalar.Hom φ) (henv : Under φ env env') {known : Known S}
    {known' : Known T} {slot : Nat} {op : Op} {t : Tensor T} (hop : op.isPolynomial)
    (hoperands : ∀ o ∈ op.operands, (known.value o).under φ = known'.value o)
    (ht : env'.compute known' slot op = .ok t) :
    ∃ u, env.compute known slot op = .ok u ∧ u.under φ = t := by
  have hstatic : ∀ s, env.staticShape s = env'.staticShape s := fun s => by
    simp only [staticShape, henv.graph]
  -- one case for every polynomial operation; the shapes that it checks are kept by the map
  cases op with
  | placeholder =>
    simp only [compute] at ht
    split at ht <;> cases ht
    next ht =>
    rw [← henv.feeds, Option.map_eq_some_iff] at ht
    obtain ⟨u, hu, rfl⟩ := ht
    exact ⟨u, by simp only [compute, hu], rfl⟩
  | constant v =>
    cases ht
    exact ⟨.ofValue v, rfl, Tensor.under_ofValue h v⟩
  | «variable» trainable init =>
    simp only [compute] at ht
    split at ht
    · next hstored =>
      obtain ⟨shape, hshape, rfl⟩ := except_map_eq_ok_iff.1 ht
      rw [← henv.store, Option.map_eq_some_iff] at hstored
      obtain ⟨u, hu, rfl⟩ := hstored
      exact ⟨u, by simp only [compute, hu, hstatic, hshape, Except.map], rfl⟩
    · cases ht
  | fill x =>
    obtain ⟨shape, hshape, rfl⟩ := except_map_eq_ok_iff.1 ht
    refine ⟨.full shape (Scalar.ofSingle x), ?_, ?_⟩
    · simp only [compute, hstatic, hshape, Except.map]
    · rw [Tensor.under_full, h.ofSingle]
  | dot left right =>
    obtain ⟨hinner, rfl⟩ := product_eq_ok_iff.1 ht
    have hl := hoperands left (by simp [Op.operands, Op.inputs])
    have hr := hoperands right (by simp [Op.operands, Op.inputs])
    rw [← hl, ← hr] at hinner
    refine ⟨_, product_eq_ok_iff.2 ⟨hinner, rfl⟩, ?_⟩
    rw [Tensor.under_matmul h, hl, hr]
  | biasAdd input bias =>
    obtain ⟨haxis, rfl⟩ := biased_eq_ok_iff.1 ht
    have hx := hoperands input (by simp [Op.operands, Op.inputs])
    have hb := hoperands bias (by simp [Op.operands, Op.inputs])
    rw [← hx, ← hb] at haxis
    refine ⟨_, biased_eq_ok_iff.2 ⟨haxis, rfl⟩, ?_⟩
    rw [Tensor.under_combine h.zero h.add, hx, hb, ← hx, Tensor.shape_under]
  | binary op a b =>
    obtain ⟨shape, hshape, ht⟩ := except_bind_eq_ok_iff.1 ht
    cases ht
    have ha := hoperands a (by simp [Op.operands, Op.inputs])
    have hb := hoperands b (by simp [Op.operands, Op.inputs])
    rw [commonShape_eq_ok_iff, ← ha, ← hb] at hshape
    refine ⟨_, except_bind_eq_ok_iff.2 ⟨shape, commonShape_eq_ok_iff.2 hshape, rfl⟩, ?_⟩
    have happly : ∀ x y, φ (op.apply x y) = op.apply (φ x) (φ y) := by
      cases op with
      | add => exact h.add
      | subtract => exact h.sub
      | multiply => exact h.mul
      | divide => exact h.div
    rw [Tensor.under_combine h.zero happly, ha, hb]
  | unary op input =>
    cases ht
    have hx := hoperands input (by simp [Op.operands, Op.inputs])
    refine ⟨_, rfl, ?_⟩
    cases op with
    | identity => exact hx
    | negate =>
      rw [← hx]
      exact Tensor.under_map h.neg _
    | square =>
      rw [← hx]
      exact Tensor.under_map (fun x => h.mul x x) _
    | _ => cases hop
  | mean input =>
    cases ht
    have hx := hoperands input (by simp [Op.operands, Op.inputs])
    exact ⟨_, rfl, by rw [Tensor.under_meanLast h, hx]⟩
  | reduceSum input =>
    cases ht
    have hx := hoperands input (by simp [Op.operands, Op.inputs])
    exact ⟨_, rfl, by rw [Tensor.under_full, Tensor.under_total h, hx]⟩
  | _ => cases hop

end Setting

/-- What is handed on to the operands of a polynomial, paired with their slopes, is what has reached
it, paired with its slope. -/
theorem Op.sum_pair_pullback {K : Type} [Field K] [LinearOrder K] [Elementary K]
    {env : Setting K[ε]} {known : Known K[ε]} {known' : Known K} {slot : Nat} {op : Op}
    {declared : DeclaredShape} {type : ElementType} {t : Tensor K[ε]} (hop : op.isPolynomial)
    (htyped : op.Typed (env.graph.before slot) declared type)
    (hreal : ∀ o ∈ op.operands, (known.value o).real = known'.value o)
    (hcovers : ∀ o ∈ op.operands, ∀ k, env.graph.nodes[o]? = some k →
      k.shape.Covers (known.value o).shape)
    (hlength : ∀ o ∈ op.operands, (known.value o).shape.length ≤ 2)
    (hleaf : op.operands = [] → ∀ i j, t.slope.entry i j = 0)
    (h : env.compute known slot op = .ok t) {g : Tensor K} (hg : g.shape = t.shape) :
    ((op.pullback known' slot g).map fun c => c.2.pair (known.value c.1).slope).sum =
      g.pair t.slope := by
  cases op with
  | placeholder | constant _ | «variable» _ _ | fill _ =>
    -- a leaf hands nothing on and has no slope
    exact (Tensor.pair_eq_zero (hleaf rfl) g).symm
  | dot left right =>
    obtain ⟨hinner, rfl⟩ := Setting.product_eq_ok_iff.1 h
    have hl := hreal left (by simp [operands, inputs])
    have hr := hreal right (by simp [operands, inputs])
    rw [Tensor.shape_matmul] at hg
    have hrows : g.rows = (known.value left).rows := by rw [Tensor.rows, hg]; rfl
    have hcols : g.cols = (known.value right).cols := by rw [Tensor.cols, hg]; rfl
    simp only [pullback, ← hl, ← hr, List.map_cons, List.map_nil, List.sum_cons, List.sum_nil,
      add_zero]
    exact Tensor.pair_matmul hinner hrows hcols
  | biasAdd input bias =>
    obtain ⟨haxis, rfl⟩ := Setting.biased_eq_ok_iff.1 h
    have hb := hreal bias (by simp [operands, inputs])
    cases htyped with | biasAdd _ hbias _ _ _ biasShape _ =>
    have hcover := hcovers bias (by simp [operands, inputs]) _ (Graph.before_eq_some_iff.1 hbias).2
    -- a bias is declared with one axis, so its value is a vector
    have hvector : (known.value bias).shape.length = 1 := by rw [hcover.length_eq, biasShape]; rfl
    have hstretches := Shape.stretches_of_getLast? (hlength input (by simp [operands, inputs]))
      hvector haxis
    simp only [pullback, ← hb, List.map_cons, List.map_nil, List.sum_cons, List.sum_nil, add_zero]
    exact Tensor.pair_bias hg hstretches
  | binary op a b =>
    obtain ⟨shape, hshape, h⟩ := except_bind_eq_ok_iff.1 h
    cases h
    obtain rfl : g.shape = shape := hg
    have ha := hreal a (by simp [operands, inputs])
    have hb := hreal b (by simp [operands, inputs])
    obtain ⟨hsa, hsb⟩ := Shape.stretches_of_broadcast (hlength a (by simp [operands, inputs]))
      (hlength b (by simp [operands, inputs])) (Setting.commonShape_eq_ok_iff.1 hshape)
    -- a quotient is no polynomial
    have hne : op ≠ .divide := by
      rintro rfl
      cases hop
    simp only [pullback, ← ha, ← hb, List.map_cons, List.map_nil, List.sum_cons, List.sum_nil,
      add_zero]
    exact Tensor.pair_binary hne hsa hsb
  | unary op input =>
    cases h
    have hx := hreal input (by simp [operands, inputs])
    simp only [pullback, ← hx, List.map_cons, List.map_nil, List.sum_cons, List.sum_nil, add_zero]
    cases op with
    | identity => rfl
    | negate => exact Tensor.pair_negate hg
    | square => exact Tensor.pair_square hg
    | _ => cases hop
  | mean input =>
    cases h
    have hx := hreal input (by simp [operands, inputs])
    cases htyped with | mean hinput _ axis =>
    have hcover := hcovers input (by simp [operands, inputs]) _
      (Graph.before_eq_some_iff.1 hinput).2
    -- the typing rule of a mean asks for an axis
    have haxis : (known.value input).shape ≠ [] := by
      intro hnil
      have hlen := hcover.length_eq
      rw [hnil, List.length_nil, eq_comm, List.length_eq_zero_iff] at hlen
      exact axis hlen
    simp only [pullback, ← hx, List.map_cons, List.map_nil, List.sum_cons, List.sum_nil, add_zero]
    exact Tensor.pair_meanLast (hlength input (by simp [operands, inputs])) haxis hg
  | reduceSum input =>
    cases h
    have hx := hreal input (by simp [operands, inputs])
    simp only [pullback, ← hx, List.map_cons, List.map_nil, List.sum_cons, List.sum_nil, add_zero]
    exact Tensor.pair_reduceSum hg
  | _ => cases hop

end TensorGraph
