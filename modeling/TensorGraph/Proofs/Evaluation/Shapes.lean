import TensorGraph.Proofs.Evaluation.Settled
import TensorGraph.Proofs.Tensor.Entries

/-!
# Shapes of values

The value of a node has a shape that the declared shape of the node covers, whenever the fed values
and the variables have. The declared shapes were worked out when the nodes were registered and the
shapes when they were evaluated, by rules of their own; one covers the other operation by operation.

## Main definitions

* `Setting.Fits`: fed values and variables have the shapes that their nodes declare.

## Main results

* `Setting.covers_of_compute`: the rules of an operation keep to covered shapes.
* `Setting.shape_of_pullback`: a sensitivity has the shape of the value it belongs to.
* `Settled.covers`: the shape of a kept value is covered.
-/

namespace TensorGraph

variable {S : Type}

namespace Setting

variable {env : Setting S} {slot : Nat} {t : Tensor S} {shape : Shape}

/-! ## When a node has a value -/

theorem staticShape_eq_ok_iff {n : GraphNode} (hn : env.graph.nodes[slot]? = some n) :
    env.staticShape slot = .ok shape ↔ n.shape.concrete? = some shape := by
  simp only [staticShape, hn, Option.map_some, Option.getD_some]
  cases n.shape.concrete? <;> simp

variable [Scalar S] {a b : Tensor S}

theorem fitTo_eq_ok_iff : fitTo shape a = .ok t ↔ a.stretches shape ∧ t = a.stretch shape := by
  unfold fitTo
  split
  · next h => simp [h, eq_comm]
  · next h => simp [h]

omit [Scalar S] in
theorem commonShape_eq_ok_iff :
    env.commonShape slot a b = .ok shape ↔ Shape.broadcast a.shape b.shape = some shape := by
  unfold commonShape
  cases Shape.broadcast a.shape b.shape <;> simp

theorem product_eq_ok_iff : env.product slot a b = .ok t ↔ a.cols = b.rows ∧ t = a.matmul b := by
  unfold product
  split <;> simp_all [eq_comm]

theorem biased_eq_ok_iff :
    env.biased slot a b = .ok t ↔
      a.shape.getLast? = b.shape.head? ∧ t = .combine a.shape (· + ·) a b := by
  unfold biased
  split <;> simp_all [eq_comm]

end Setting

/-- An update is declared with the shape of the variable that it changes. -/
theorem Op.Typed.exists_updated {look : Nat → Option GraphNode} {op : Op} {shape : DeclaredShape}
    {type : ElementType} (h : op.Typed look shape type) {target : Nat}
    (hop : op.updated? = some target) :
    ∃ v, look target = some v ∧ v.op.isVariable ∧ shape = v.shape := by
  cases h with
  | assign found _ isVariable | assignAdd found _ isVariable =>
    cases hop
    exact ⟨_, found, isVariable, rfl⟩
  | _ => cases hop

/-! ## Shapes of computed values -/

/-- Fed values and variables have the shapes that their nodes declare. -/
structure Setting.Fits (env : Setting S) : Prop where
  /-- The shape of a fed value is covered. -/
  fed : ∀ {slot : Nat} {t : Tensor S}, env.feeds.get? slot = some t →
    ∃ n, env.graph.nodes[slot]? = some n ∧ n.shape.Covers t.shape
  /-- A variable has the shape that its declared shape stands for. -/
  stored : ∀ {slot : Nat} {t : Tensor S}, env.store.get? slot = some t →
    ∃ n, env.graph.nodes[slot]? = some n ∧ n.shape.concrete? = some t.shape

variable [Scalar S]

namespace Setting

variable {env : Setting S} {known : Known S} {slot : Nat} {t : Tensor S}

/-- The rules of an operation keep to covered shapes. -/
theorem covers_of_compute (hfits : env.Fits) {n : GraphNode}
    (hn : env.graph.nodes[slot]? = some n)
    (htyped : n.op.Typed (env.graph.before slot) n.shape n.type)
    (hoperands : ∀ o ∈ n.op.operands, ∀ k, env.graph.nodes[o]? = some k →
      k.shape.Covers (known.value o).shape)
    (hnoise : ∀ sampler seed u, n.op = .random sampler seed → known.noise slot = some u →
      env.staticShape slot = .ok u.shape)
    (hsensitivity : ∀ loss target u, n.op = .gradient loss target →
      known.sensitivity loss target = some u → u.shape = (known.value target).shape)
    (h : env.compute known slot n.op = .ok t) : n.shape.Covers t.shape := by
  -- a declared shape without open axes covers the shape it stands for
  have hstatic : ∀ {shape : Shape}, env.staticShape slot = .ok shape → n.shape.Covers shape := by
    intro shape hshape
    exact (DeclaredShape.covers_iff_of_concrete? ((staticShape_eq_ok_iff hn).1 hshape)).2 rfl
  have hfound : ∀ {s k}, env.graph.before slot s = some k → s ∈ n.op.operands →
      k.shape.Covers (known.value s).shape := by
    intro s k hk hs
    exact hoperands s hs k (Graph.before_eq_some_iff.1 hk).2
  generalize hop : n.op = op at *
  generalize hdeclared : n.shape = declared at *
  generalize n.type = type at htyped
  cases htyped with
  | placeholder held =>
    simp only [compute] at h
    split at h <;> cases h
    next ht =>
    obtain ⟨k, hk, hcovers⟩ := hfits.fed ht
    obtain rfl : n = k := Option.some.inj (hn.symm.trans hk)
    exact hdeclared ▸ hcovers
  | @constant v closed =>
    cases h
    have hpos : ∀ n ∈ v.shape, 0 < n := by
      intro n hmem
      have := closed.pos (n : Int) (List.mem_map_of_mem hmem)
      omega
    rw [Tensor.shape_ofValue]
    exact (DeclaredShape.covers_iff_of_concrete?
      (DeclaredShape.concrete?_eq_some_iff.2 ⟨rfl, hpos⟩)).2 rfl
  | stored | counter =>
    simp only [compute] at h
    split at h
    · next ht =>
      obtain ⟨_, _, rfl⟩ := except_map_eq_ok_iff.1 h
      obtain ⟨k, hk, hshape⟩ := hfits.stored ht
      obtain rfl : n = k := Option.some.inj (hn.symm.trans hk)
      exact hdeclared ▸ (DeclaredShape.covers_iff_of_concrete? hshape).2 rfl
    · cases h
  | random closed =>
    -- without samples the node has zeros of its shape
    obtain ⟨shape, hshape, h⟩ := except_bind_eq_ok_iff.1 h
    cases h
    cases hu : known.noise slot with
    | none => exact hstatic hshape
    | some u => exact hstatic (hnoise _ _ u rfl hu)
  | fill closed =>
    obtain ⟨shape, hshape, rfl⟩ := except_map_eq_ok_iff.1 h
    exact hstatic hshape
  | dot left right _ _ leftShape rightShape _ =>
    obtain ⟨_, rfl⟩ := product_eq_ok_iff.1 h
    have hl := hfound left (by simp [Op.operands, Op.inputs])
    have hr := hfound right (by simp [Op.operands, Op.inputs])
    obtain ⟨m, k, hlshape, hm, -⟩ := hl.exists_pair leftShape
    obtain ⟨k', n, hrshape, -, hn⟩ := hr.exists_pair rightShape
    simp only [Tensor.shape_matmul, Tensor.rows, Tensor.cols, hlshape, hrshape]
    exact .cons hm (.cons hn .nil)
  | biasAdd input =>
    obtain ⟨_, rfl⟩ := biased_eq_ok_iff.1 h
    exact hfound input (by simp [Op.operands, Op.inputs])
  | binary left right _ _ common =>
    obtain ⟨shape, hshape, h⟩ := except_bind_eq_ok_iff.1 h
    cases h
    exact (hfound left (by simp [Op.operands, Op.inputs])).broadcast
      (hfound right (by simp [Op.operands, Op.inputs])) common (commonShape_eq_ok_iff.1 hshape)
  | unary input =>
    cases h
    rw [UnaryOp.shape_apply]
    exact hfound input (by simp [Op.operands, Op.inputs])
  | clip input | cast input =>
    cases h
    exact hfound input (by simp [Op.operands, Op.inputs])
  | dropout input =>
    simp only [compute] at h
    split at h <;> cases h <;> exact hfound input (by simp [Op.operands, Op.inputs])
  | mean input =>
    cases h
    exact (hfound input (by simp [Op.operands, Op.inputs])).dropLast
  | reduceSum input =>
    cases h
    exact .nil
  | sigmoidCrossEntropy targets logits _ _ common =>
    obtain ⟨shape, hshape, h⟩ := except_bind_eq_ok_iff.1 h
    cases h
    exact (hfound targets (by simp [Op.operands, Op.inputs])).broadcast
      (hfound logits (by simp [Op.operands, Op.inputs])) common (commonShape_eq_ok_iff.1 hshape)
  | softmaxCrossEntropy logits =>
    simp only [compute] at h
    split at h <;> cases h
    exact (hfound logits (by simp [Op.operands, Op.inputs])).dropLast
  | gradient _ target =>
    cases h
    have htarget := hfound target (by simp [Op.operands, Op.inputs])
    cases hu : known.sensitivity _ _ with
    | none => exact htarget
    | some u =>
      have hshape := hsensitivity _ _ u rfl hu
      exact hshape ▸ htarget
  | assign target value =>
    obtain ⟨shape, hshape, h⟩ := except_bind_eq_ok_iff.1 h
    obtain ⟨_, rfl⟩ := fitTo_eq_ok_iff.1 h
    obtain ⟨_, htarget⟩ := Graph.before_eq_some_iff.1 target
    exact (DeclaredShape.covers_iff_of_concrete? ((staticShape_eq_ok_iff htarget).1 hshape)).2 rfl
  | assignAdd target delta =>
    obtain ⟨_, hfit, h⟩ := except_bind_eq_ok_iff.1 h
    cases h
    exact hfound target (by simp [Op.operands, Op.inputs])

/-- When what reaches a node has the shape of its value, what is handed on to an operand has the
shape of the value of the operand. -/
theorem shape_of_pullback {op : Op} {declared : DeclaredShape} {type : ElementType} {g : Tensor S}
    (htyped : op.Typed (env.graph.before slot) declared type)
    (hoperands : ∀ o ∈ op.operands, ∀ k, env.graph.nodes[o]? = some k →
      k.shape.Covers (known.value o).shape)
    (h : env.compute known slot op = .ok t) (hg : g.shape = t.shape) :
    ∀ c ∈ op.pullback known slot g, c.2.shape = (known.value c.1).shape := by
  cases op <;>
    simp only [Op.pullback, List.forall_mem_cons, List.not_mem_nil, false_imp_iff, implies_true,
      and_true]
  case dot left right =>
    obtain ⟨hinner, rfl⟩ := product_eq_ok_iff.1 h
    -- both operands are matrices
    cases htyped with | dot hleft hright _ _ leftShape rightShape _ =>
    have hl := hoperands left (by simp [Op.operands, Op.inputs]) _
      (Graph.before_eq_some_iff.1 hleft).2
    have hr := hoperands right (by simp [Op.operands, Op.inputs]) _
      (Graph.before_eq_some_iff.1 hright).2
    obtain ⟨m, k, hlshape, -, -⟩ := hl.exists_pair leftShape
    obtain ⟨k', n, hrshape, -, -⟩ := hr.exists_pair rightShape
    simp only [Tensor.shape_matmul, Tensor.shape_transpose, Tensor.rows, Tensor.cols, hlshape,
      hrshape, Shape.rows, Shape.cols, hg] at hinner ⊢
    simp [hinner]
  case biasAdd input bias =>
    obtain ⟨_, rfl⟩ := biased_eq_ok_iff.1 h
    exact ⟨hg, rfl⟩
  case binary op a b => cases op <;> exact ⟨rfl, rfl⟩
  case unary op input =>
    cases h
    rw [UnaryOp.shape_apply] at hg
    cases op
    case identity | negate => exact hg
    all_goals rfl
  case clip => rfl
  case cast input =>
    cases h
    exact hg
  case dropout input rate seed =>
    simp only [compute] at h
    cases hnoise : known.noise slot with
    | none =>
      simp only [hnoise, Except.ok.injEq] at h
      simp [hg, ← h]
    | some factors =>
      simp only [hnoise, Except.ok.injEq] at h
      simp [hg, ← h]
  case mean => rfl
  case reduceSum => rfl
  case sigmoidCrossEntropy => exact ⟨rfl, rfl⟩
  case softmaxCrossEntropy => exact ⟨rfl, rfl⟩

end Setting

/-! ## Whole runs -/

namespace Settled

variable {env : Setting S} {listed : List Nat} {e : Evaluation S}

/-- The derivative of a loss by a slot has the shape of the value of the slot. -/
theorem shape_of_sensitivity (h : Settled env listed e) (hg : env.graph.Typed)
    (hlisted : env.graph.Finished listed) {loss : Nat} (hloss : loss ∈ listed)
    (hcovers : ∀ s, env.graph.Reaches loss s → ∀ k, env.graph.nodes[s]? = some k →
      k.shape.Covers (e.known.value s).shape) {s : Nat} {t : Tensor S}
    (ht : (env.graph.sensitivities e.known loss).get? s = some t) :
    t.shape = (e.known.value s).shape := by
  refine (Graph.sensitivities_forall (Q := fun s t => t.shape = (e.known.value s).shape) rfl
    (fun ht _ => ht) (fun {s n t} hs hn ht => ?_) ht).2
  refine Setting.shape_of_pullback (hg.node hn) (fun o ho k hk => ?_)
    (h.computed (hlisted.mem_of_reaches hloss hs) hn) ht
  exact hcovers o (hs.operand hn ho) k hk

/-- The declared shape of a node covers the shape of its value. -/
theorem covers (h : Settled env listed e) (hg : env.graph.Typed) (hfits : env.Fits)
    (hlisted : env.graph.Finished listed) {s : Nat} {n : GraphNode} (hs : s ∈ listed)
    (hn : env.graph.nodes[s]? = some n) : n.shape.Covers (e.known.value s).shape := by
  -- the induction is on the slot: whatever the operands reach stands in earlier slots
  induction s using Nat.strongRecOn generalizing n with
  | ind s ih =>
    have hbelow : ∀ {o t}, o ∈ n.op.operands → env.graph.Reaches o t → t < s ∧ t ∈ listed := by
      intro o t ho ht
      rw [← Graph.operands_eq hn] at ho
      exact ⟨Nat.lt_of_le_of_lt (hg.le_of_reaches ht) (hg.lt_of_mem_operands ho),
        hlisted.mem_of_reaches (hlisted.operands_subset hs ho) ht⟩
    refine Setting.covers_of_compute hfits hn (hg.node hn) (fun o ho k hk => ?_)
      (fun sampler seed u hop hu => h.shape_of_random hs hn hop hu)
      (fun loss target u hop hu => ?_) (h.computed hs hn)
    · obtain ⟨hlt, hmem⟩ := hbelow ho .refl
      exact ih o hlt hmem hk
    · have hloss : loss ∈ n.op.operands := by simp [hop, Op.operands, Op.inputs]
      rw [h.known_sensitivity hs hn hop] at hu
      refine h.shape_of_sensitivity hg hlisted (hbelow hloss .refl).2 (fun t ht k hk => ?_) hu
      obtain ⟨hlt, hmem⟩ := hbelow hloss ht
      exact ih t hlt hmem hk

/-- The value of an evaluated update has the shape of the variable it changes. -/
theorem shape_of_updated (h : Settled env listed e) (hg : env.graph.Typed) (hfits : env.Fits)
    (hlisted : env.graph.Finished listed) {s target : Nat} (hs : s ∈ listed)
    (hupdated : env.graph.updated? s = some target) :
    ∃ v, env.graph.nodes[target]? = some v ∧ v.op.isVariable ∧
      v.shape.concrete? = some (e.known.value s).shape := by
  obtain ⟨n, hn, hop⟩ := Option.bind_eq_some_iff.1 hupdated
  obtain ⟨v, hv, hvar, hshape⟩ := (hg.node hn).exists_updated hop
  obtain ⟨-, hv⟩ := Graph.before_eq_some_iff.1 hv
  -- the declared shape of a variable is closed and covers one shape only
  obtain ⟨shape, hconcrete⟩ := (hg.closed_of_isVariable hv hvar).exists_concrete?
  have hcovers := h.covers hg hfits hlisted hs hn
  rw [hshape, DeclaredShape.covers_iff_of_concrete? hconcrete] at hcovers
  exact ⟨v, hv, hvar, hcovers ▸ hconcrete⟩

end Settled
end TensorGraph
