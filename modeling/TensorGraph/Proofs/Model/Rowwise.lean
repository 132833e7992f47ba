import TensorGraph.Proofs.Evaluation.Conforming
import TensorGraph.Proofs.Learning.Objective
import TensorGraph.Proofs.Tensor.Windows

/-!
# Nodes that are computed row by row

The nodes of a network's layers are computed row by row from fed matrices: the other operands on the
way are variables. When the fed matrices have a number of rows in common, all of these nodes have
matrices with as many rows; and a window of the fed matrices leads to the same window everywhere.

## Main definitions

* `Graph.Rowwise`: the nodes that are computed row by row from some fed nodes.
* `Setting.Supplies`: what such nodes need in order to have values.

## Main results

* `Settled.shape_of_rowwise`: the shape of a value.
* `Settled.window_of_rowwise`: the values over windows of what is fed.
* `Setting.Supplies.exists_evaluate`: an evaluation succeeds.
-/

namespace TensorGraph

/-- The nodes that are computed row by row from the fed ones, with the number of their columns. -/
inductive Graph.Rowwise (g : Graph) (fed : Nat → Prop) : Nat → Nat → Prop
  | fed {slot cols : Nat} {n : GraphNode} (node : g.nodes[slot]? = some n)
      (op : n.op = .placeholder) (shape : n.shape = [openAxis, (cols : Int)]) (isFed : fed slot) :
      Rowwise g fed slot cols
  | dot {slot left right inner cols : Nat} {w : GraphNode}
      (op : g.op? slot = some (.dot left right)) (rows : Rowwise g fed left inner)
      (weights : g.nodes[right]? = some w) (isVariable : w.op.isVariable)
      (shape : w.shape = Shape.declared [inner, cols]) : Rowwise g fed slot cols
  | biasAdd {slot input bias cols : Nat} {b : GraphNode}
      (op : g.op? slot = some (.biasAdd input bias)) (rows : Rowwise g fed input cols)
      (added : g.nodes[bias]? = some b) (isVariable : b.op.isVariable)
      (shape : b.shape = Shape.declared [cols]) : Rowwise g fed slot cols
  | unary {slot input cols : Nat} {activation : UnaryOp}
      (op : g.op? slot = some (.unary activation input)) (rows : Rowwise g fed input cols) :
      Rowwise g fed slot cols
  | dropout {slot input cols : Nat} {rate : Float32} {seed : Option UInt64}
      (op : g.op? slot = some (.dropout input rate seed)) (rows : Rowwise g fed input cols) :
      Rowwise g fed slot cols

namespace Graph.Rowwise

variable {g : Graph} {fed : Nat → Prop} {slot cols : Nat}

theorem lt_size (h : g.Rowwise fed slot cols) : slot < g.size := by
  have hlt : ∀ {op : Op}, g.op? slot = some op → slot < g.size := by
    intro op hop
    obtain ⟨n, hn, -⟩ := Option.map_eq_some_iff.1 hop
    exact lt_size_of_getElem? hn
  cases h with
  | fed node => exact lt_size_of_getElem? node
  | dot op | biasAdd op | unary op | dropout op => exact hlt op

/-- A slot that is computed row by row, or holds a variable. -/
def OrVariable (g : Graph) (fed : Nat → Prop) (slot : Nat) : Prop :=
  (∃ cols, g.Rowwise fed slot cols) ∨ ∃ n, g.nodes[slot]? = some n ∧ n.op.isVariable

/-- What is computed row by row is computed from such nodes and from variables. -/
theorem orVariable_of_operand (h : g.Rowwise fed slot cols) {op : Op} (hop : g.op? slot = some op) :
    op.Steady ∧ ∀ o ∈ op.operands, OrVariable g fed o := by
  cases h with
  | fed node nodeOp =>
    obtain rfl := Option.some.inj (hop.symm.trans (op?_of_getElem? node))
    rw [nodeOp]
    exact ⟨rfl, by simp [Op.operands, Op.inputs]⟩
  -- the left operand is computed row by row, the right one is a variable
  | dot op rows weights isVariable =>
    cases hop.symm.trans op
    refine ⟨rfl, ?_⟩
    simp only [Op.operands, Op.inputs, List.forall_mem_cons, List.not_mem_nil, false_imp_iff,
      implies_true, and_true]
    exact ⟨.inl ⟨_, rows⟩, .inr ⟨_, weights, isVariable⟩⟩
  | biasAdd op rows added isVariable =>
    cases hop.symm.trans op
    refine ⟨rfl, ?_⟩
    simp only [Op.operands, Op.inputs, List.forall_mem_cons, List.not_mem_nil, false_imp_iff,
      implies_true, and_true]
    exact ⟨.inl ⟨_, rows⟩, .inr ⟨_, added, isVariable⟩⟩
  | unary op rows | dropout op rows =>
    cases hop.symm.trans op
    exact ⟨rfl, List.forall_mem_singleton.2 (.inl ⟨_, rows⟩)⟩

/-- Whatever is needed of such nodes is such a node or a variable. -/
theorem orVariable_of_reaches (h : g.Rowwise fed slot cols) {s : Nat} (hs : g.Reaches slot s) :
    OrVariable g fed s := by
  -- on the path, whose last edge leads to an operand
  induction hs with
  | refl => exact .inl ⟨cols, h⟩
  | @tail a b _ hstep ih =>
    cases hn : g.nodes[a]? with
    | none => simp [operands, hn] at hstep
    | some n =>
      rw [operands_eq hn] at hstep
      rcases ih with ⟨_, hrows⟩ | ⟨v, hv, hvar⟩
      · exact (hrows.orVariable_of_operand (op?_of_getElem? hn)).2 b hstep
      · -- a variable is read, whatever made it
        obtain rfl := Option.some.inj (hn.symm.trans hv)
        rw [Op.operands_of_isVariable hvar] at hstep
        cases hstep

end Graph.Rowwise

variable {S : Type}

/-- What nodes that are computed row by row need in order to have values: fed matrices with a
number of rows in common, and variables. -/
structure Setting.Supplies (env : Setting S) (fed : Nat → Prop) (rows : Nat) : Prop where
  fits : env.Fits
  /-- Every variable has a value. -/
  stored : ∀ {slot : Nat} {n : GraphNode}, env.graph.nodes[slot]? = some n → n.op.isVariable →
    (env.store.get? slot).isSome
  isSome : ∀ {slot : Nat}, fed slot → (env.feeds.get? slot).isSome
  /-- Whatever is fed has the same number of rows. -/
  rows : ∀ {slot : Nat} {t : Tensor S}, env.feeds.get? slot = some t → t.shape.head? = some rows

theorem Setting.Fits.shape_of_stored {env : Setting S} (h : env.Fits) {slot : Nat} {n : GraphNode}
    {t : Tensor S} (hn : env.graph.nodes[slot]? = some n) {shape : Shape}
    (hshape : n.shape = Shape.declared shape) (ht : env.store.get? slot = some t) :
    t.shape = shape := by
  obtain ⟨m, hm, hconcrete⟩ := h.stored ht
  obtain rfl := Option.some.inj (hn.symm.trans hm)
  have hdeclared := (DeclaredShape.concrete?_eq_some_iff.1 hconcrete).1
  rw [hshape] at hdeclared
  exact (List.map_injective_iff.2 (fun _ _ => Int.ofNat.inj) hdeclared).symm

theorem Setting.Supplies.shape_of_fed {env : Setting S} {fed : Nat → Prop} {rows : Nat}
    (h : env.Supplies fed rows) {slot cols : Nat} {n : GraphNode}
    (hn : env.graph.nodes[slot]? = some n) (hshape : n.shape = [openAxis, (cols : Int)])
    {t : Tensor S} (ht : env.feeds.get? slot = some t) : t.shape = [rows, cols] := by
  obtain ⟨m, hm, hcovers⟩ := h.fits.fed ht
  obtain rfl := Option.some.inj (hn.symm.trans hm)
  obtain ⟨r, c, ht', -, -, hc⟩ := hcovers.exists_pair hshape
  have hrows := h.rows ht
  rw [ht', List.head?_cons, Option.some.injEq] at hrows
  rw [ht', hrows]
  simp only [openAxis] at hc
  have : c = cols := by omega
  rw [this]

variable [Scalar S]

namespace Settled

variable {env env' : Setting S} {fed : Nat → Prop} {rows start count : Nat} {listed : List Nat}
  {e e' : Evaluation S}

/-- The matrix of a node that is computed row by row has the rows of the fed ones. -/
theorem shape_of_rowwise (h : Settled env listed e) (hsupplies : env.Supplies fed rows)
    (hlisted : env.graph.Finished listed) {slot cols : Nat}
    (hrows : env.graph.Rowwise fed slot cols) (hslot : slot ∈ listed) :
    (e.known.value slot).shape = [rows, cols] := by
  -- on how the node is computed, along the operands
  induction hrows with
  | @fed slot cols n node op shape =>
    have hcomputed := h.computed hslot node
    rw [op] at hcomputed
    simp only [Setting.compute] at hcomputed
    split at hcomputed <;> cases hcomputed
    next ht => exact hsupplies.shape_of_fed node shape ht
  | dot op _ weights isVariable shape ih =>
    obtain ⟨-, hvalue⟩ := Setting.product_eq_ok_iff.1 (h.computed_op hslot op)
    have hleft := ih (hlisted.mem_of_op? hslot op (by simp [Op.operands, Op.inputs]))
    have hright := hsupplies.fits.shape_of_stored weights shape (h.store_eq
      (hlisted.mem_of_op? hslot op (by simp [Op.operands, Op.inputs])) weights isVariable)
    rw [hvalue, Tensor.shape_matmul, Tensor.rows, Tensor.cols, hleft, hright]
    rfl
  | biasAdd op _ _ _ _ ih =>
    obtain ⟨-, hvalue⟩ := Setting.biased_eq_ok_iff.1 (h.computed_op hslot op)
    rw [hvalue, Tensor.shape_combine]
    exact ih (hlisted.mem_of_op? hslot op (by simp [Op.operands, Op.inputs]))
  | unary op _ ih =>
    have hvalue := Except.ok.inj (h.computed_op hslot op)
    rw [← hvalue, UnaryOp.shape_apply]
    exact ih (hlisted.mem_of_op? hslot op (by simp [Op.operands, Op.inputs]))
  | @dropout _ input _ _ _ op _ ih =>
    have hinput := ih (hlisted.mem_of_op? hslot op (by simp [Op.operands, Op.inputs]))
    have hcomputed := h.computed_op hslot op
    simp only [Setting.compute] at hcomputed
    split at hcomputed
    · rw [← Except.ok.inj hcomputed, Tensor.shape_hadamard, hinput]
    · rw [← Except.ok.inj hcomputed, hinput]

/-- Outside of training a dropout draws no factors. -/
theorem noise_of_inference (h : Settled env listed e) (hphase : env.phase = .inference)
    {slot input : Nat} {rate : Float32} {seed : Option UInt64} (hslot : slot ∈ listed)
    (hop : env.graph.op? slot = some (.dropout input rate seed)) : e.known.noise slot = none := by
  obtain ⟨n, hn, hop⟩ := Option.map_eq_some_iff.1 hop
  have hnoise := h.noise_iff hslot hn
  have hsamples : env.samples n.op = false := by
    simp [hop, Setting.samples, Setting.dropsAt, hphase]
  rw [hsamples] at hnoise
  exact Option.not_isSome_iff_eq_none.1 fun hsome => Bool.noConfusion (hnoise.1 hsome)

end Settled

/-- A setting that is fed windows of what another one is fed, and reads the same otherwise. -/
structure Setting.Windowed (env env' : Setting S) (start count : Nat) : Prop where
  graph : env'.graph = env.graph
  store : env'.store = env.store
  phase : env.phase = .inference
  phase' : env'.phase = .inference
  feeds : ∀ {slot : Nat} {t : Tensor S}, env.feeds.get? slot = some t →
    env'.feeds.get? slot = some (t.window start count)

/-- Over windows of what is fed, a node that is computed row by row has the window of its value. -/
theorem Settled.window_of_rowwise {env env' : Setting S} {fed : Nat → Prop}
    {rows start count : Nat} {listed : List Nat} {e e' : Evaluation S} (h : Settled env listed e)
    (h' : Settled env' listed e') (hwindowed : env.Windowed env' start count)
    (hsupplies : env.Supplies fed rows) (hlisted : env.graph.Finished listed)
    (hrange : start + count ≤ rows) {slot cols : Nat} (hrows : env.graph.Rowwise fed slot cols)
    (hslot : slot ∈ listed) :
    e'.known.value slot = (e.known.value slot).window start count := by
  have hop' : ∀ {slot : Nat} {op : Op}, env.graph.op? slot = some op →
      env'.graph.op? slot = some op := fun hop => hwindowed.graph ▸ hop
  have hvariable : ∀ {slot : Nat} {n : GraphNode}, slot ∈ listed →
      env.graph.nodes[slot]? = some n → n.op.isVariable →
      e'.known.value slot = e.known.value slot := by
    intro slot n hslot hn hvar
    have hstore := h'.store_eq hslot (hwindowed.graph ▸ hn) hvar
    rw [hwindowed.store, h.store_eq hslot hn hvar] at hstore
    exact (Option.some.inj hstore).symm
  have hcovers : ∀ {slot cols : Nat}, env.graph.Rowwise fed slot cols → slot ∈ listed →
      start + count ≤ (e.known.value slot).rows := by
    intro slot cols hrows hslot
    rw [Tensor.rows, h.shape_of_rowwise hsupplies hlisted hrows hslot]
    exact hrange
  induction hrows with
  | @fed slot cols n node op shape =>
    have hcomputed := h.computed hslot node
    have hcomputed' := h'.computed hslot (hwindowed.graph ▸ node)
    rw [op] at hcomputed hcomputed'
    simp only [Setting.compute] at hcomputed hcomputed'
    split at hcomputed <;> cases hcomputed
    next ht =>
    rw [hwindowed.feeds ht] at hcomputed'
    exact (Except.ok.inj hcomputed').symm
  | dot op rows weights isVariable _ ih =>
    have hleft := hlisted.mem_of_op? hslot op List.mem_cons_self
    have hright := hlisted.mem_of_op? hslot op (List.mem_cons_of_mem _ List.mem_cons_self)
    obtain ⟨-, hvalue⟩ := Setting.product_eq_ok_iff.1 (h.computed_op hslot op)
    obtain ⟨-, hvalue'⟩ := Setting.product_eq_ok_iff.1 (h'.computed_op hslot (hop' op))
    rw [hvalue, hvalue', ih hleft, hvariable hright weights isVariable,
      Tensor.window_matmul (hcovers rows hleft)]
  | @biasAdd _ _ bias _ _ op rows added isVariable shape ih =>
    have hinput := hlisted.mem_of_op? hslot op List.mem_cons_self
    have hbias := hlisted.mem_of_op? hslot op (List.mem_cons_of_mem _ List.mem_cons_self)
    obtain ⟨-, hvalue⟩ := Setting.biased_eq_ok_iff.1 (h.computed_op hslot op)
    obtain ⟨-, hvalue'⟩ := Setting.biased_eq_ok_iff.1 (h'.computed_op hslot (hop' op))
    -- a bias is a single row
    have hrow : (e.known.value bias).rows = 1 := by
      rw [Tensor.rows,
        hsupplies.fits.shape_of_stored added shape (h.store_eq hbias added isVariable)]
      rfl
    rw [hvalue, hvalue', ih hinput, hvariable hbias added isVariable,
      Tensor.window_combine hrow (hcovers rows hinput)]
  | unary op rows ih =>
    have hinput := hlisted.mem_of_op? hslot op List.mem_cons_self
    rw [← Except.ok.inj (h.computed_op hslot op), ← Except.ok.inj (h'.computed_op hslot (hop' op)),
      ih hinput, UnaryOp.window_apply (hcovers rows hinput)]
  | dropout op rows ih =>
    have hinput := hlisted.mem_of_op? hslot op List.mem_cons_self
    have hcomputed := h.computed_op hslot op
    have hcomputed' := h'.computed_op hslot (hop' op)
    simp only [Setting.compute, h.noise_of_inference hwindowed.phase hslot op,
      h'.noise_of_inference hwindowed.phase' hslot (hop' op), Except.ok.injEq]
      at hcomputed hcomputed'
    rw [← hcomputed, ← hcomputed', ih hinput]

namespace Setting

variable {env : Setting S}

/-- Slots are evaluated one after the other when each of them has a value over what has been
evaluated before it. -/
theorem exists_evaluateAll {listed : List Nat} (hlisted : env.graph.Finished listed)
    (hready : ∀ {slot : Nat} {n : GraphNode} {earlier : List Nat} {e : Evaluation S}
      {known : Known S}, slot ∈ listed → env.graph.nodes[slot]? = some n →
      env.graph.Finished earlier → Settled env earlier e → n.op.operands ⊆ earlier →
      (∀ s, known.value s = e.known.value s) →
      n.op.Steady ∧ ∃ t, env.compute known slot n.op = .ok t)
    (streams : SlotMap Stream) :
    ∃ e, env.evaluateAll listed.reverse (.start streams) = .ok () e := by
  induction hlisted with
  | nil => exact ⟨_, rfl⟩
  | @cons slot listed rest inside fresh operands ih =>
    obtain ⟨e₁, he₁⟩ := ih fun hslot => hready (List.mem_cons_of_mem _ hslot)
    obtain ⟨n, hn⟩ := Graph.exists_node_of_lt inside
    rw [Graph.operands_eq hn] at operands
    -- samples may be drawn for the slot, which leaves the values as they were
    have hslot := fun known : Known S => @hready _ _ _ _ known List.mem_cons_self hn rest
      (settled_of_evaluateAll rest he₁) operands
    obtain ⟨e₂, he₂⟩ := exists_evaluateSlot (e := e₁) hn (hslot e₁.known fun _ => rfl).1
      fun e₃ hvalues => (hslot e₃.known fun s => by simp only [Evaluation.known, hvalues]).2
    exact ⟨e₂, evaluateAll_cons_reverse he₁ he₂⟩

variable {fed : Nat → Prop} {rows : Nat}

/-- A node that is computed row by row has a value over the values of its operands. -/
theorem Supplies.exists_compute (hsupplies : env.Supplies fed rows) {listed : List Nat}
    {e : Evaluation S} (h : Settled env listed e) (hlisted : env.graph.Finished listed)
    {slot cols : Nat} {n : GraphNode} (hn : env.graph.nodes[slot]? = some n)
    (hrows : env.graph.Rowwise fed slot cols) (hoperands : n.op.operands ⊆ listed)
    {known : Known S} (hknown : ∀ s, known.value s = e.known.value s) :
    ∃ t, env.compute known slot n.op = .ok t := by
  have hop := Graph.op?_of_getElem? hn
  cases hrows with
  | fed node op shape isFed =>
    obtain rfl := Option.some.inj (hn.symm.trans node)
    obtain ⟨t, ht⟩ := Option.isSome_iff_exists.1 (hsupplies.isSome isFed)
    exact ⟨t, by rw [op]; simp only [compute, ht]⟩
  | @dot _ left right inner _ w op rows weights isVariable shape =>
    have hop := hop.symm.trans op
    simp only [Option.some.injEq] at hop
    rw [hop] at hoperands ⊢
    have hleft := h.shape_of_rowwise hsupplies hlisted rows (hoperands List.mem_cons_self)
    have hright := hsupplies.fits.shape_of_stored weights shape (h.store_eq
      (hoperands (List.mem_cons_of_mem _ List.mem_cons_self)) weights isVariable)
    refine ⟨_, product_eq_ok_iff.2 ⟨?_, rfl⟩⟩
    rw [hknown, hknown, Tensor.cols, Tensor.rows, hleft, hright]
    rfl
  | @biasAdd _ input bias _ b op rows added isVariable shape =>
    have hop := hop.symm.trans op
    simp only [Option.some.injEq] at hop
    rw [hop] at hoperands ⊢
    have hinput := h.shape_of_rowwise hsupplies hlisted rows (hoperands List.mem_cons_self)
    have hbias := hsupplies.fits.shape_of_stored added shape (h.store_eq
      (hoperands (List.mem_cons_of_mem _ List.mem_cons_self)) added isVariable)
    refine ⟨_, biased_eq_ok_iff.2 ⟨?_, rfl⟩⟩
    rw [hknown, hknown, hinput, hbias]
    rfl
  | unary op rows =>
    have hop := hop.symm.trans op
    simp only [Option.some.injEq] at hop
    exact ⟨_, by rw [hop]; rfl⟩
  | dropout op rows =>
    have hop := hop.symm.trans op
    simp only [Option.some.injEq] at hop
    rw [hop]
    simp only [compute]
    split <;> exact ⟨_, rfl⟩

theorem Supplies.exists_compute_variable (hsupplies : env.Supplies fed rows) {slot : Nat}
    {n : GraphNode} (hn : env.graph.nodes[slot]? = some n) (hvar : n.op.isVariable)
    (known : Known S) : ∃ t, env.compute known slot n.op = .ok t := by
  obtain ⟨t, ht⟩ := Option.isSome_iff_exists.1 (hsupplies.stored hn hvar)
  obtain ⟨m, hm, hshape⟩ := hsupplies.fits.stored ht
  obtain rfl := Option.some.inj (hn.symm.trans hm)
  refine ⟨t, ?_⟩
  cases hop : n.op with
  | «variable» trainable init =>
    simp only [compute, ht]
    exact except_map_eq_ok_iff.2 ⟨_, (staticShape_eq_ok_iff hn).2 hshape, rfl⟩
  | _ => simp [hop, Op.isVariable] at hvar

/-- Evaluating nodes that are computed row by row succeeds. -/
theorem Supplies.exists_evaluate (hsupplies : env.Supplies fed rows) (hg : env.graph.Typed)
    {targets : List Nat} (htargets : ∀ t ∈ targets, ∃ cols, env.graph.Rowwise fed t cols)
    (streams : SlotMap Stream) : ∃ e, env.evaluate targets (.start streams) = .ok () e := by
  have hinside : ∀ t ∈ targets, t < env.graph.size := by
    intro t ht
    obtain ⟨cols, hrows⟩ := htargets t ht
    exact hrows.lt_size
  -- every slot of the schedule is needed for a target
  obtain ⟨e, he⟩ := exists_evaluateAll (hg.finished_schedule hinside) (by
    intro slot n earlier e known hslot hn hearlier hsettled hoperands hknown
    obtain ⟨t, ht, hreached⟩ := (hg.mem_schedule_iff hinside).1 (List.mem_reverse.1 hslot)
    obtain ⟨cols, hrows⟩ := htargets t ht
    rcases hrows.orVariable_of_reaches hreached with ⟨cols, hrows⟩ | ⟨m, hm, hvar⟩
    · exact ⟨(hrows.orVariable_of_operand (Graph.op?_of_getElem? hn)).1,
        hsupplies.exists_compute hsettled hearlier hn hrows hoperands hknown⟩
    · obtain rfl := Option.some.inj (hn.symm.trans hm)
      exact ⟨(Op.passive_of_isVariable hvar).steady,
        hsupplies.exists_compute_variable hn hvar known⟩)
    streams
  rw [List.reverse_reverse] at he
  exact ⟨e, he⟩

end Setting

end TensorGraph
