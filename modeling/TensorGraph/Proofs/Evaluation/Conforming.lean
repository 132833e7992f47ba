import TensorGraph.Proofs.Evaluation.Shapes
import TensorGraph.Proofs.Graph.Reaching

/-!
# Whether an evaluation succeeds

An evaluation that draws no samples for random nodes can fail in two ways only: a value that it
needs is missing, or shapes do not fit. Neither depends on the entries of the tensors, nor on the
numbers that they are made of. So when one evaluation gives a result, every other one does that
reads tensors of the same shapes, and its values have the same shapes.

## Main definitions

* `Setting.Conforms`: settings that read tensors of the same shapes.

## Main results

* `Settled.exists_conforming`: an evaluation in a conforming setting.
-/

namespace TensorGraph

variable {S T : Type} {env : Setting S} {env' : Setting T}

/-- Settings over one graph that read tensors of the same shapes, perhaps of different numbers. -/
structure Setting.Conforms (env : Setting S) (env' : Setting T) : Prop where
  graph : env'.graph = env.graph
  feeds : ∀ slot, (env'.feeds.get? slot).map (·.shape) = (env.feeds.get? slot).map (·.shape)
  store : ∀ slot, (env'.store.get? slot).map (·.shape) = (env.store.get? slot).map (·.shape)

/-- Tensors of the same shape are there in both maps, or in neither. -/
theorem SlotMap.exists_of_map_eq {m : SlotMap (Tensor S)} {m' : SlotMap (Tensor T)} {slot : Nat}
    (h : (m'.get? slot).map (·.shape) = (m.get? slot).map (·.shape)) {t : Tensor S}
    (ht : m.get? slot = some t) : ∃ t', m'.get? slot = some t' ∧ t'.shape = t.shape := by
  rw [ht, Option.map_some] at h
  obtain ⟨t', ht', hshape⟩ := Option.map_eq_some_iff.1 h
  exact ⟨t', ht', hshape⟩

namespace Setting.Conforms

theorem trans {U : Type} {env'' : Setting U} (h : env.Conforms env') (h' : env'.Conforms env'') :
    env.Conforms env'' where
  graph := h'.graph.trans h.graph
  feeds slot := (h'.feeds slot).trans (h.feeds slot)
  store slot := (h'.store slot).trans (h.store slot)

theorem symm (h : env.Conforms env') : env'.Conforms env where
  graph := h.graph.symm
  feeds slot := (h.feeds slot).symm
  store slot := (h.store slot).symm

theorem fits (h : env.Conforms env') (hfits : env.Fits) : env'.Fits where
  fed {slot t} ht := by
    obtain ⟨u, hu, hshape⟩ := SlotMap.exists_of_map_eq (h.symm.feeds slot) ht
    rw [← hshape, h.graph]
    exact hfits.fed hu
  stored {slot t} ht := by
    obtain ⟨u, hu, hshape⟩ := SlotMap.exists_of_map_eq (h.symm.store slot) ht
    rw [← hshape, h.graph]
    exact hfits.stored hu

theorem staticShape_eq (h : env.Conforms env') (slot : Nat) :
    env'.staticShape slot = env.staticShape slot := by
  unfold staticShape
  rw [h.graph]

variable [Scalar S] [Scalar T] {known : Known S} {known' : Known T} {slot : Nat} {op : Op}
  {t : Tensor S}

/-- A node has a value when it has one in a conforming setting on operands of the same shapes, and
unless it is a derivative the value has the same shape. -/
theorem exists_compute (h : env.Conforms env') (hsteady : op.Steady)
    (hoperands : ∀ o ∈ op.operands, (known'.value o).shape = (known.value o).shape)
    (ht : env.compute known slot op = .ok t) :
    ∃ t', env'.compute known' slot op = .ok t' ∧
      ((∀ loss target, op ≠ .gradient loss target) → t'.shape = t.shape) := by
  -- whether an operation can be computed is a question of the shapes of its operands
  have hrows : ∀ o ∈ op.operands, (known'.value o).rows = (known.value o).rows := fun o ho =>
    congrArg Shape.rows (hoperands o ho)
  have hcols : ∀ o ∈ op.operands, (known'.value o).cols = (known.value o).cols := fun o ho =>
    congrArg Shape.cols (hoperands o ho)
  have hfit : ∀ {shape : Shape}, ∀ o ∈ op.operands, (known.value o).stretches shape →
      fitTo shape (known'.value o) = .ok ((known'.value o).stretch shape) := by
    intro shape o ho hstretches
    refine fitTo_eq_ok_iff.2 ⟨?_, rfl⟩
    rw [Tensor.stretches, hrows o ho, hcols o ho]
    exact hstretches
  have hcommon : ∀ {a b shape}, a ∈ op.operands → b ∈ op.operands →
      env.commonShape slot (known.value a) (known.value b) = .ok shape →
      env'.commonShape slot (known'.value a) (known'.value b) = .ok shape := by
    intro a b shape ha hb hshape
    rw [commonShape_eq_ok_iff] at hshape ⊢
    rw [hoperands a ha, hoperands b hb, hshape]
  cases op with
  | placeholder =>
    simp only [compute] at ht ⊢
    split at ht <;> cases ht
    next hfed =>
    -- the same placeholders are fed, with values of the same shapes
    obtain ⟨t', hfed', hshape⟩ := SlotMap.exists_of_map_eq (h.feeds slot) hfed
    exact ⟨t', by rw [hfed'], fun _ => hshape⟩
  | constant v =>
    cases ht
    exact ⟨_, rfl, fun _ => by rw [Tensor.shape_ofValue, Tensor.shape_ofValue]⟩
  | «variable» trainable init =>
    simp only [compute] at ht ⊢
    split at ht
    · next hstored =>
      -- the same variables are stored, with values of the same shapes
      obtain ⟨t', hstored', hshape⟩ := SlotMap.exists_of_map_eq (h.store slot) hstored
      obtain ⟨shape, hstatic, rfl⟩ := except_map_eq_ok_iff.1 ht
      refine ⟨t', ?_, fun _ => hshape⟩
      rw [hstored', h.staticShape_eq]
      exact except_map_eq_ok_iff.2 ⟨shape, hstatic, rfl⟩
    · cases ht
  | random => cases hsteady
  | fill x =>
    obtain ⟨shape, hstatic, rfl⟩ := except_map_eq_ok_iff.1 ht
    refine ⟨.full shape (Scalar.ofSingle x), ?_, fun _ => rfl⟩
    rw [← h.staticShape_eq] at hstatic
    exact except_map_eq_ok_iff.2 ⟨shape, hstatic, rfl⟩
  | dot left right =>
    have hl : left ∈ (Op.dot left right).operands := by simp [Op.operands, Op.inputs]
    have hr : right ∈ (Op.dot left right).operands := by simp [Op.operands, Op.inputs]
    obtain ⟨hinner, rfl⟩ := product_eq_ok_iff.1 ht
    refine ⟨_, product_eq_ok_iff.2 ⟨?_, rfl⟩, fun _ => ?_⟩
    · rw [hcols left hl, hrows right hr, hinner]
    · rw [Tensor.shape_matmul, Tensor.shape_matmul, hrows left hl, hcols right hr]
  | biasAdd input bias =>
    have hx : input ∈ (Op.biasAdd input bias).operands := by simp [Op.operands, Op.inputs]
    have hb : bias ∈ (Op.biasAdd input bias).operands := by simp [Op.operands, Op.inputs]
    obtain ⟨hlast, rfl⟩ := biased_eq_ok_iff.1 ht
    refine ⟨_, biased_eq_ok_iff.2 ⟨?_, rfl⟩, fun _ => hoperands input hx⟩
    rw [hoperands input hx, hoperands bias hb, hlast]
  | binary op a b =>
    obtain ⟨shape, hshape, ht⟩ := except_bind_eq_ok_iff.1 ht
    cases ht
    refine ⟨_, except_bind_eq_ok_iff.2 ⟨shape, hcommon ?_ ?_ hshape, rfl⟩, fun _ => rfl⟩
    all_goals simp [Op.operands, Op.inputs]
  | unary op input =>
    cases ht
    refine ⟨_, rfl, fun _ => ?_⟩
    rw [UnaryOp.shape_apply, UnaryOp.shape_apply]
    exact hoperands input (by simp [Op.operands, Op.inputs])
  | clip input | cast input =>
    cases ht
    exact ⟨_, rfl, fun _ => hoperands input (by simp [Op.operands, Op.inputs])⟩
  | dropout input rate seed =>
    have hshape := hoperands input (by simp [Op.operands, Op.inputs])
    -- a dropout that draws in one of the settings only still has the shape of its input
    obtain ⟨t', ht', hshape'⟩ : ∃ t', env'.compute known' slot (.dropout input rate seed) = .ok t' ∧
        t'.shape = (known'.value input).shape := by
      simp only [compute]
      split <;> exact ⟨_, rfl, rfl⟩
    refine ⟨t', ht', fun _ => ?_⟩
    rw [hshape', hshape]
    simp only [compute] at ht
    split at ht <;> cases ht <;> rfl
  | mean input =>
    cases ht
    refine ⟨_, rfl, fun _ => ?_⟩
    rw [Tensor.shape_meanLast, Tensor.shape_meanLast,
      hoperands input (by simp [Op.operands, Op.inputs])]
  | reduceSum input =>
    cases ht
    exact ⟨_, rfl, fun _ => rfl⟩
  | sigmoidCrossEntropy targets logits =>
    obtain ⟨shape, hshape, ht⟩ := except_bind_eq_ok_iff.1 ht
    cases ht
    refine ⟨_, except_bind_eq_ok_iff.2 ⟨shape, hcommon ?_ ?_ hshape, rfl⟩, fun _ => rfl⟩
    all_goals simp [Op.operands, Op.inputs]
  | softmaxCrossEntropy logits labels =>
    have hx := hoperands logits (by simp [Op.operands, Op.inputs])
    have hz := hoperands labels (by simp [Op.operands, Op.inputs])
    simp only [compute] at ht ⊢
    split at ht <;> cases ht
    next hsame =>
    rw [if_pos (by rw [hx, hz, hsame])]
    exact ⟨_, rfl, fun _ => by rw [Tensor.shape_softmaxCrossEntropy, hx]; rfl⟩
  | gradient loss target => exact ⟨_, rfl, fun hne => absurd rfl (hne loss target)⟩
  | assign target value =>
    obtain ⟨shape, hstatic, ht⟩ := except_bind_eq_ok_iff.1 ht
    obtain ⟨hstretches, rfl⟩ := fitTo_eq_ok_iff.1 ht
    rw [← h.staticShape_eq] at hstatic
    have hvalue := hfit value (by simp [Op.operands]) hstretches
    exact ⟨_, except_bind_eq_ok_iff.2 ⟨shape, hstatic, hvalue⟩, fun _ => rfl⟩
  | assignAdd target delta =>
    obtain ⟨_, hdelta, ht⟩ := except_bind_eq_ok_iff.1 ht
    obtain ⟨hstretches, rfl⟩ := fitTo_eq_ok_iff.1 hdelta
    cases ht
    have htarget := hoperands target (by simp [Op.operands, Op.inputs])
    have hdelta' := hfit delta (by simp [Op.operands, Op.inputs]) hstretches
    rw [← htarget] at hdelta'
    exact ⟨_, except_bind_eq_ok_iff.2 ⟨_, hdelta', rfl⟩, fun _ => htarget⟩

end Setting.Conforms

namespace Setting

variable [Scalar S] {slot : Nat} {op : Op} {e : Evaluation S}

/-- Only the samples of a random node can be refused. -/
theorem succeeds_drawNoise (env : Setting S) (slot : Nat) (h : op.Steady) :
    Succeeds (env.drawNoise slot op) := by
  cases op
  case random => cases h
  case dropout input rate seed =>
    exact .ite (Succeeds.get.bind fun _ => Succeeds.get.bind fun _ =>
      (Succeeds.modify _).bind fun _ => .modify _) (.pure ())
  all_goals exact .pure ()

theorem succeeds_differentiate (env : Setting S) (op : Op) : Succeeds (env.differentiate op) := by
  cases op
  case gradient loss target =>
    have hreport {r : Record} : Succeeds (do
        if ((← get).known.sensitivity loss target).isNone then
          modify fun e => { e with journal := e.journal.push r } : Evaluating S Unit) :=
      Succeeds.get.bind fun _ => .ite (.modify _) (.pure ())
    exact Succeeds.get.bind fun _ => .ite ((Succeeds.modify _).bind fun _ => hreport) hreport
  all_goals exact .pure ()

/-- A node that is not random is evaluated when it has a value on the values of its operands. -/
theorem exists_evaluateSlot {n : GraphNode} (hn : env.graph.nodes[slot]? = some n)
    (hsteady : n.op.Steady) (hcompute : ∀ e' : Evaluation S, e'.values = e.values →
      ∃ t, env.compute e'.known slot n.op = .ok t) :
    ∃ e', env.evaluateSlot slot e = .ok () e' := by
  obtain ⟨_, e₁, hdraw⟩ := env.succeeds_drawNoise slot hsteady e
  obtain ⟨_, e₂, hdiff⟩ := env.succeeds_differentiate n.op e₁
  have hvalues := (differentiated_of_differentiate hdiff).values.trans
    (drawn_of_drawNoise hdraw).values
  obtain ⟨t, ht⟩ := hcompute e₂ hvalues
  simp only [evaluateSlot, hn, bind_eq_ok_iff, lift_eq_ok_iff]
  exact ⟨_, (), e₁, hdraw, (), e₂, hdiff, e₂, e₂, rfl, t, e₂, ⟨ht, rfl⟩, (), _,
    recordAssignment_eq t, rfl⟩

/-- A node without operands is evaluated when it has a value. -/
theorem exists_evaluate_leaf (env : Setting S) {n : GraphNode}
    (hn : env.graph.nodes[slot]? = some n) (hsteady : n.op.Steady) (hleaf : n.op.operands = [])
    {t : Tensor S} (ht : ∀ known, env.compute known slot n.op = .ok t) (streams : SlotMap Stream) :
    ∃ e, env.evaluate [slot] (.start streams) = .ok () e ∧ e.known.value slot = t := by
  obtain ⟨e, he⟩ := exists_evaluateSlot (e := .start streams) hn hsteady fun e' _ =>
    ⟨t, ht e'.known⟩
  refine ⟨e, by rw [evaluate, Graph.schedule_leaf hn hleaf, evaluateAll_singleton, he], ?_⟩
  obtain ⟨u, hstep⟩ := stepped_of_evaluateSlot hn he
  rw [Evaluation.known_value_eq hstep.value_self]
  have hcomputed := hstep.computed (by simp [hleaf])
  exact Except.ok.inj (hcomputed.symm.trans (ht _))

end Setting

/-- A derivative is declared with the closed shape of its variable. -/
theorem Graph.Typed.closed_of_gradient {g : Graph} (hg : g.Typed) {slot loss target : Nat}
    {n : GraphNode} (hn : g.nodes[slot]? = some n) (hop : n.op = .gradient loss target) :
    n.shape.Closed := by
  have htyped := hg.node hn
  obtain ⟨op, shape, type, name⟩ := n
  obtain rfl := hop
  cases htyped with
  | gradient _ found _ isVariable _ =>
    have hclosed := hg.closed_of_isVariable (Graph.before_eq_some_iff.1 found).2 isVariable
    exact hclosed

variable [Scalar S] [Scalar T]

/-- Evaluating in a conforming setting succeeds, too, and gives values of the same shapes. -/
theorem Settled.exists_conforming {listed : List Nat} {e : Evaluation S}
    (h : Settled env listed e) (hconforms : env.Conforms env') (hg : env.graph.Typed)
    (hfits : env.Fits) (hlisted : env.graph.Finished listed)
    (hsteady : ∀ slot ∈ listed, ∀ n : GraphNode, env.graph.nodes[slot]? = some n → n.op.Steady)
    (streams : SlotMap Stream) :
    ∃ e', env'.evaluateAll listed.reverse (.start streams) = .ok () e' ∧
      ∀ slot ∈ listed, (e'.known.value slot).shape = (e.known.value slot).shape := by
  have hcomputed := fun slot hslot n hn => h.computed (s := slot) (n := n) hslot hn
  have hcovers := fun slot hslot n hn => h.covers hg hfits hlisted (s := slot) (n := n) hslot hn
  clear h
  -- the induction is on what has been evaluated so far
  induction hlisted with
  | nil => exact ⟨_, rfl, by simp⟩
  | @cons slot listed rest inside fresh operands ih =>
    rw [List.forall_mem_cons] at hsteady hcomputed hcovers
    obtain ⟨e₁, he₁, hshapes⟩ := ih hsteady.2 hcomputed.2 hcovers.2
    obtain ⟨n, hn⟩ := Graph.exists_node_of_lt inside
    have hn' : env'.graph.nodes[slot]? = some n := hconforms.graph ▸ hn
    have hoperands : ∀ o ∈ n.op.operands, o ∈ listed := by
      rwa [Graph.operands_eq hn] at operands
    have hne : ∀ o ∈ listed, o ≠ slot := fun o ho heq => fresh (heq ▸ ho)
    obtain ⟨e₂, he₂⟩ := Setting.exists_evaluateSlot (e := e₁) hn' (hsteady.1 n hn)
      fun e₃ hvalues => by
        have hsame : ∀ o ∈ n.op.operands,
            (e₃.known.value o).shape = (e.known.value o).shape := fun o ho => by
          rw [← hshapes o (hoperands o ho)]
          simp only [Evaluation.known, hvalues]
        obtain ⟨t', ht', -⟩ := hconforms.exists_compute (hsteady.1 n hn) hsame (hcomputed.1 n hn)
        exact ⟨t', ht'⟩
    have hall := Setting.evaluateAll_cons_reverse he₁ he₂
    have hsettled :=
      settled_of_evaluateAll (hconforms.graph ▸ .cons rest inside fresh operands) hall
    have hother : ∀ o ∈ listed, (e₂.known.value o).shape = (e.known.value o).shape := by
      intro o ho
      obtain ⟨t, hstep⟩ := Setting.stepped_of_evaluateSlot hn' he₂
      rw [← hshapes o ho]
      simp only [Evaluation.known, hstep.value_of_ne o (hne o ho)]
    refine ⟨e₂, hall, List.forall_mem_cons.2 ⟨?_, hother⟩⟩
    have hsame : ∀ o ∈ n.op.operands, (e₂.known.value o).shape = (e.known.value o).shape :=
      fun o ho => hother o (hoperands o ho)
    obtain ⟨t, ht, hshape⟩ := hconforms.exists_compute (hsteady.1 n hn) hsame (hcomputed.1 n hn)
    obtain rfl := Except.ok.inj ((hsettled.computed List.mem_cons_self hn').symm.trans ht)
    by_cases hgradient : ∃ loss target, n.op = .gradient loss target
    · -- both values have the one shape that a derivative is declared with
      obtain ⟨loss, target, hop⟩ := hgradient
      obtain ⟨shape, hconcrete⟩ := (hg.closed_of_gradient hn hop).exists_concrete?
      have hleft := hcovers.1 n hn
      have hright := hsettled.covers (hconforms.graph ▸ hg) (hconforms.fits hfits)
        (hconforms.graph ▸ .cons rest inside fresh operands) List.mem_cons_self hn'
      rw [DeclaredShape.covers_iff_of_concrete? hconcrete] at hleft hright
      rw [hleft, hright]
    · exact hshape fun loss target hop => hgradient ⟨loss, target, hop⟩

end TensorGraph
