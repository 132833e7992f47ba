import TensorGraph.Proofs.Evaluation.Recomputation
import TensorGraph.Proofs.Evaluation.Shapes
import TensorGraph.Proofs.Tensor.Exact

/-!
# Evaluating integers exactly

A node of integers is computed from nodes of integers only. Where single precision can hold its
value and what is added up on the way, evaluating it rounds nowhere, so the kept value is the one
that exact arithmetic gives.

## Main definitions

* `Setting.Held`: single precision holds the exact value of a slot, and the sums on the way to it.

## Main results

* `Op.Typed.exists_reads`: one node of integers is computed exactly.
* `Settled.exists_reads`: so are all that a run evaluates.
-/

namespace TensorGraph

open Single (Representable)

namespace Op

variable {look : Nat → Option GraphNode} {op : Op} {shape : DeclaredShape} {type : ElementType}

/-- A node of integers needs nodes of integers. -/
theorem Typed.integer_of_mem_operands (h : op.Typed look shape type) (htype : type = .i64) {o : Nat}
    {n : GraphNode} (ho : o ∈ op.operands) (hn : look o = some n) : n.type = .i64 := by
  -- an operand is found once, so it has the type of the node that the rule names
  have hsame : ∀ {k : GraphNode}, look o = some k → k.type = .i64 → n.type = .i64 := by
    intro k hk hinteger
    rwa [Option.some.inj (hn.symm.trans hk)]
  cases h with
  | constant | counter => cases ho
  | binary left right sameType =>
    rcases List.mem_pair.1 ho with rfl | rfl
    · exact hsame left htype
    · exact hsame right (sameType ▸ htype)
  | unary input | reduceSum input => exact hsame (List.mem_singleton.1 ho ▸ input) htype
  | assign target value _ sameType =>
    exact hsame (List.mem_singleton.1 ho ▸ value) (sameType ▸ htype)
  | assignAdd target delta _ sameType =>
    rcases List.mem_pair.1 ho with rfl | rfl
    · exact hsame target htype
    · exact hsame delta (sameType ▸ htype)
  | _ => cases htype

end Op

/-- A slot with a node of integers. -/
def Graph.IsInteger (g : Graph) (slot : Nat) : Prop :=
  ∃ n, g.nodes[slot]? = some n ∧ n.type = .i64

/-- Nodes of integers reach nodes of integers only. -/
theorem Graph.Typed.isInteger_of_reaches {g : Graph} (hg : g.Typed) {a b : Nat}
    (h : g.Reaches a b) (ha : g.IsInteger a) : g.IsInteger b := by
  induction h with
  | refl => exact ha
  | tail _ hstep ih =>
    obtain ⟨n, hn, htype⟩ := ih
    rw [operands_eq hn] at hstep
    obtain ⟨m, hm⟩ := (hg.node hn).found (n.op.operands_subset_inputs hstep)
    exact ⟨m, (before_eq_some_iff.1 hm).2, (hg.node hn).integer_of_mem_operands htype hstep hm⟩

namespace Setting

variable {S : Type} [Scalar S] {env : Setting S} {slot : Nat} {n : GraphNode}

/-- How far a recomputation may descend does not matter when it reaches the leaves. -/
theorem recompute_eq_of_lt (hg : env.graph.Typed) {noise : Nat → Option (Tensor S)}
    {depth depth' : Nat} (h : slot < depth) (h' : slot < depth') :
    env.recompute noise depth slot = env.recompute noise depth' slot := by
  induction depth generalizing slot depth' with
  | zero => omega
  | succ depth ih =>
    obtain ⟨depth', rfl⟩ := Nat.exists_eq_succ_of_ne_zero (show depth' ≠ 0 by omega)
    refine env.computeFrom_congr (fun o ho s hs => ?_) fun _ _ => rfl
    have hlt : s < slot := Nat.lt_of_le_of_lt (hg.le_of_reaches hs) (hg.lt_of_mem_operands ho)
    exact ih (by omega) (by omega)

/-- What is known of the recomputed values. -/
def recomputed (env : Setting S) : Known S := env.knownOf env.valueOf fun _ => none

theorem recomputed_value {t : Tensor S} (h : env.valueOf slot = some t) :
    env.recomputed.value slot = t := by
  simp [recomputed, knownOf, Known.ofValues, h]

/-- A recomputed value is computed from the recomputed values of the operands. -/
theorem valueOf_eq_some_iff (hg : env.graph.Typed) (hn : env.graph.nodes[slot]? = some n)
    {t : Tensor S} :
    env.valueOf slot = some t ↔ (∀ o ∈ n.op.operands, (env.valueOf o).isSome) ∧
      env.compute env.recomputed slot n.op = .ok t := by
  have hfrom : env.valueOf slot = env.computeFrom env.valueOf (fun _ => none) slot := by
    refine env.computeFrom_congr (fun o ho s hs => ?_) fun _ _ => rfl
    have hlt : s < slot := Nat.lt_of_le_of_lt (hg.le_of_reaches hs) (hg.lt_of_mem_operands ho)
    exact recompute_eq_of_lt hg hlt (Nat.lt_succ_self s)
  rw [hfrom, computeFrom, hn, Option.bind_some, ← recomputed, ← List.all_eq_true]
  cases env.compute env.recomputed slot n.op <;> simp [Except.toOption]

/-- Single precision holds the exact value of a slot, and whatever is added up for it. -/
structure Held (env : Setting ℚ) (slot : Nat) : Prop where
  /-- All entries of the value are 64-bit integers that single precision holds. -/
  whole : ∀ {u}, env.valueOf slot = some u → u.Whole
  /-- The partial sums of a reduction can be held. -/
  sums : ∀ {n x u}, env.graph.nodes[slot]? = some n → n.op = .reduceSum x →
    env.valueOf x = some u → u.SumsHeld

end Setting

variable {env : Setting Float32} {env' : Setting ℚ}

/-- A node of integers is computed exactly from exact operands. -/
theorem Op.Typed.exists_reads {look : Nat → Option GraphNode} {op : Op} {shape : DeclaredShape}
    {type : ElementType} (h : op.Typed look shape type) (htype : type = .i64)
    {known : Known Float32} {known' : Known ℚ} {slot : Nat} {t : Tensor Float32}
    (hgraph : env'.graph = env.graph)
    (hstore : op.isVariable → ∀ v, env.store.get? slot = some v →
      ∃ u, env'.store.get? slot = some u ∧ v.Reads u)
    (hoperands : ∀ o ∈ op.operands, (known.value o).Reads (known'.value o))
    (hsums : ∀ x, op = .reduceSum x → (known'.value x).SumsHeld)
    (ht : env.compute known slot op = .ok t)
    (hheld : ∀ u, env'.compute known' slot op = .ok u → ∀ q ∈ u.data, Representable q) :
    ∃ u, env'.compute known' slot op = .ok u ∧ t.Reads u := by
  have hstatic : ∀ s, env'.staticShape s = env.staticShape s := fun s => by
    rw [Setting.staticShape, Setting.staticShape, hgraph]
  -- it is enough to find a value that is read if it can be held
  suffices hvalue : ∃ u, env'.compute known' slot op = .ok u ∧
      ((∀ q ∈ u.data, Representable q) → t.Reads u) by
    obtain ⟨u, hu, hread⟩ := hvalue
    exact ⟨u, hu, hread (hheld u hu)⟩
  cases h with
  | constant =>
    cases ht
    exact ⟨_, rfl, Tensor.reads_ofValue htype⟩
  | counter =>
    simp only [Setting.compute] at ht ⊢
    split at ht
    · next v hv =>
      obtain ⟨shape, hshape, rfl⟩ := except_map_eq_ok_iff.1 ht
      obtain ⟨u, hu, hread⟩ := hstore rfl v hv
      rw [hu, hstatic]
      exact ⟨u, except_map_eq_ok_iff.2 ⟨shape, hshape, rfl⟩, fun _ => hread⟩
    · cases ht
  | @binary op a b l r _ _ _ _ float =>
    have ha := hoperands a (by simp [Op.operands, Op.inputs])
    have hb := hoperands b (by simp [Op.operands, Op.inputs])
    obtain ⟨shape, hshape, ht⟩ := except_bind_eq_ok_iff.1 ht
    cases ht
    rw [Setting.commonShape_eq_ok_iff, ha.shape, hb.shape,
      ← Setting.commonShape_eq_ok_iff] at hshape
    refine ⟨_, except_bind_eq_ok_iff.2 ⟨shape, hshape, rfl⟩, fun hrep => ?_⟩
    cases op with
    | add => exact Tensor.reads_combine Single.reads_add ha hb hrep
    | subtract => exact Tensor.reads_combine Single.reads_sub ha hb hrep
    | multiply => exact Tensor.reads_combine Single.reads_mul ha hb hrep
    | divide =>
      rw [float rfl] at htype
      cases htype
  | @unary op x n _ float =>
    have hx := hoperands x (by simp [Op.operands, Op.inputs])
    cases ht
    refine ⟨_, rfl, fun hrep => ?_⟩
    cases op with
    | identity => exact hx
    | negate => exact Tensor.reads_map (fun hp _ => Single.reads_neg hp) hx hrep
    | square => exact Tensor.reads_map (fun hp hsquare => Single.reads_mul hp hp hsquare) hx hrep
    | abs => exact Tensor.reads_map (fun hp _ => Single.reads_abs hp) hx hrep
    | _ =>
      rw [float rfl] at htype
      cases htype
  | @reduceSum x =>
    have hx := hoperands x (by simp [Op.operands, Op.inputs])
    cases ht
    exact ⟨_, rfl, fun _ => Tensor.reads_full (hx.total (hsums x rfl)) []⟩
  | @assign target value =>
    have hvalue := hoperands value (by simp [Op.operands])
    obtain ⟨shape, hshape, hfit⟩ := except_bind_eq_ok_iff.1 ht
    obtain ⟨hstretches, rfl⟩ := Setting.fitTo_eq_ok_iff.1 hfit
    rw [Tensor.stretches, hvalue.rows_eq, hvalue.cols_eq] at hstretches
    rw [← hstatic] at hshape
    exact ⟨_, except_bind_eq_ok_iff.2 ⟨shape, hshape, Setting.fitTo_eq_ok_iff.2 ⟨hstretches, rfl⟩⟩,
      fun _ => hvalue.stretch shape⟩
  | @assignAdd target delta =>
    have htarget := hoperands target (by simp [Op.operands, Op.inputs])
    have hdelta := hoperands delta (by simp [Op.operands, Op.inputs])
    obtain ⟨_, hfit, ht⟩ := except_bind_eq_ok_iff.1 ht
    obtain ⟨hstretches, rfl⟩ := Setting.fitTo_eq_ok_iff.1 hfit
    cases ht
    rw [Tensor.stretches, hdelta.rows_eq, hdelta.cols_eq, htarget.shape] at hstretches
    refine ⟨_, except_bind_eq_ok_iff.2 ⟨_, Setting.fitTo_eq_ok_iff.2 ⟨hstretches, rfl⟩, rfl⟩,
      fun hrep => ?_⟩
    rw [Tensor.add, htarget.shape]
    exact Tensor.reads_combine Single.reads_add htarget (hdelta.stretch _) hrep
  | _ => cases htype

/-- What a run evaluates on integers has the exact values, where these can be held. -/
theorem Settled.exists_reads {listed : List Nat} {e : Evaluation Float32} (h : Settled env listed e)
    (hg : env.graph.Typed) (hlisted : env.graph.Finished listed) (hgraph : env'.graph = env.graph)
    (hstore : ∀ s ∈ listed, ∀ n : GraphNode, env.graph.nodes[s]? = some n → n.op.isVariable →
      ∀ v, env.store.get? s = some v → ∃ u, env'.store.get? s = some u ∧ v.Reads u)
    (hheld : ∀ s ∈ listed, env'.Held s) {slot : Nat} (hslot : slot ∈ listed)
    (hinteger : env.graph.IsInteger slot) :
    ∃ u, env'.valueOf slot = some u ∧ (e.known.value slot).Reads u := by
  -- operands are earlier slots
  induction slot using Nat.strong_induction_on with
  | _ slot ih =>
    have hreached : ∀ o ∈ env.graph.operands slot,
        ∃ u, env'.valueOf o = some u ∧ (e.known.value o).Reads u := fun o ho =>
      ih o (hg.lt_of_mem_operands ho) (hlisted.operands_subset hslot ho)
        (hg.isInteger_of_reaches (.single ho) hinteger)
    obtain ⟨n, hn, htype⟩ := hinteger
    have hn' : env'.graph.nodes[slot]? = some n := by rw [hgraph, hn]
    have hoperand : ∀ o ∈ n.op.operands,
        ∃ u, env'.valueOf o = some u ∧ (e.known.value o).Reads u := by
      rwa [Graph.operands_eq hn] at hreached
    have hvalue : ∀ u, env'.compute env'.recomputed slot n.op = .ok u →
        env'.valueOf slot = some u := fun u hu =>
      (Setting.valueOf_eq_some_iff (hgraph ▸ hg) hn').2 ⟨fun o ho => by
        obtain ⟨u, hu, -⟩ := hoperand o ho
        rw [hu]
        rfl, hu⟩
    have hknown : ∀ o ∈ n.op.operands, (e.known.value o).Reads (env'.recomputed.value o) := by
      intro o ho
      obtain ⟨u, hu, hread⟩ := hoperand o ho
      rwa [Setting.recomputed_value hu]
    have hsums : ∀ x, n.op = .reduceSum x → (env'.recomputed.value x).SumsHeld := by
      intro x hop
      obtain ⟨u, hu, -⟩ := hoperand x (by simp [hop, Op.operands, Op.inputs])
      rw [Setting.recomputed_value hu]
      exact (hheld slot hslot).sums hn' hop hu
    have hrepresentable : ∀ u, env'.compute env'.recomputed slot n.op = .ok u →
        ∀ q ∈ u.data, Representable q := by
      intro u hu q hq
      exact ((hheld slot hslot).whole (hvalue u hu) q hq).1
    obtain ⟨u, hu, hread⟩ := (hg.node hn).exists_reads htype hgraph (hstore slot hslot n hn) hknown
      hsums (h.computed hslot hn) hrepresentable
    exact ⟨u, hvalue u hu, hread⟩

end TensorGraph
