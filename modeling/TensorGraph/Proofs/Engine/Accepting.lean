import TensorGraph.Proofs.Engine.Building

/-!
# Calls that are accepted

A building call on a live engine is refused only by the checks that it makes. Where its operands
pass all of them and the name that it asks for is free, it appends its node, declared as the
operands ask for.

## Main definitions

* `Engine.push`: an engine with one more node.
* `Engine.Free`: a name that can be given to a node.
* `Engine.Unnamed`: an engine with further nodes that have no names.

## Main results

* `Engine.register_eq`, `Engine.unary_eq`, `Engine.binary_eq`, …: what an accepted call appends.
* `Engine.function_eq`: a function that is bound.
-/

namespace TensorGraph

theorem DeclaredShape.axesAgree_self (a : Int) : axesAgree a a := by simp [axesAgree]

/-- The handle of a node that has just been registered. -/
theorem Graph.holds_push (g : Graph) (n : GraphNode) : (g.push n).Holds (g.handle g.size) n :=
  ⟨rfl, getElem?_push_eq_some_iff.2 (.inr ⟨rfl, rfl⟩)⟩

/-- A handle that names a node is located. -/
theorem Graph.Holds.locate_eq {e : Engine} {handle : Node} {n : GraphNode}
    (h : e.graph.Holds handle n) : Engine.locate handle e = .ok (handle.index, n) e :=
  h.located.locate_eq

namespace Engine

variable {α β : Type} {e e' : Engine} {n : GraphNode} {name : Option String}

/-- What a handle finds is the node that it names. -/
theorem Located.eq {g : Graph} {handle : Node} {found : Nat × GraphNode}
    (h : Located g handle found) (hn : g.Holds handle n) : found = (handle.index, n) :=
  Prod.ext h.slot (Option.some.inj (h.node.symm.trans hn.2))

/-- An engine with one more node. -/
def push (e : Engine) (n : GraphNode) : Engine := { e with graph := e.graph.push n }

/-- A name that can be given to a node, if there is one. -/
def Free (e : Engine) (name : Option String) : Prop :=
  ∀ s, name = some s → e.graph.find? s = none

theorem free_none (e : Engine) : e.Free none := nofun

/-- A name is free exactly if no node bears it. -/
theorem free_some_iff {s : String} : e.Free (some s) ↔ e.graph.find? s = none := by
  simp [Free]

/-- A name stays free while nodes are appended that do not have it. -/
theorem Free.push (h : e.Free name) (hn : ∀ s, name = some s → n.name ≠ some s) :
    (e.push n).Free name :=
  fun s hs => Graph.find?_push_eq_none_iff.2 ⟨h s hs, hn s hs⟩

/-- An engine with further nodes, none of which has a name. -/
structure Unnamed (e e' : Engine) : Prop where
  session : e'.session = e.session
  grown : e.graph.Extends e'.graph
  /-- Nodes without names take none. -/
  free : ∀ {name : Option String}, e.Free name → e'.Free name

theorem unnamed_refl (e : Engine) : Unnamed e e := ⟨rfl, .refl _, id⟩

/-- Nodes without names come one batch after the other. -/
theorem Unnamed.trans {e'' : Engine} (h : Unnamed e e') (h' : Unnamed e' e'') : Unnamed e e'' :=
  ⟨h'.session.trans h.session, h.grown.trans h'.grown, fun hfree => h'.free (h.free hfree)⟩

/-- One more node without a name changes nothing about names. -/
theorem Unnamed.push (h : Unnamed e e') (hn : n.name = none) : Unnamed e (e'.push n) where
  session := h.session
  grown := h.grown.trans (Graph.extends_push _ _)
  free hfree := (h.free hfree).push fun s _ => by rw [hn]; nofun

theorem unnamed_push (hn : n.name = none) : Unnamed e (e.push n) := (unnamed_refl e).push hn

/-! ## Checks that pass -/

section Checks

variable {f : Unit → Call β} {slot : Nat} {operation : String}

/-- A check in front of a call that passes may be left out. -/
theorem unless_apply {p : Prop} [Decidable p] {err : Error} (hp : ¬p) :
    (if p then refuse err >>= f else f ()) e = f () e := by
  rw [if_neg hp]

/-- The same where the check is a statement of its own. -/
theorem refuse_if_apply {p : Prop} [Decidable p] {err : Error} (hp : ¬p) :
    ((if p then refuse err else pure ()) >>= f) e = f () e := by
  rw [if_neg hp]
  rfl

/-- The check for floating-point elements passes on a node that has them. -/
theorem expectFloat_apply (htype : n.type = .f32) :
    (expectFloat operation slot n >>= f) e = f () e := refuse_if_apply (not_not.2 htype)

/-- The same where the check is only made under a condition. -/
theorem expectFloat_if_apply {p : Prop} [Decidable p] (htype : p → n.type = .f32) :
    (if p then expectFloat operation slot n >>= f else f ()) e = f () e := by
  split
  · next hp => exact expectFloat_apply (htype hp)
  · rfl

/-- The check for a variable passes on a variable. -/
theorem expectVariable_apply (hvar : n.op.isVariable) :
    (expectVariable slot n >>= f) e = f () e := refuse_if_apply (by simpa using hvar)

end Checks

/-! ## Appending a node -/

/-- A node is registered on a live engine under a name that is free. -/
theorem register_eq (hactive : e.session.isSome) (hfree : e.Free name) :
    register n name e = .ok (e.graph.handle e.graph.size) (e.push { n with name := name }) := by
  refine (bind_of_ok (checkActive_eq hactive)).trans ?_
  cases name with
  | none => rfl
  | some s => exact bind_of_ok (checkFresh_of_none (free_some_iff.1 hfree))

section Sources

variable (hactive : e.session.isSome)
include hactive

/-- A placeholder under a name that is not bound. -/
theorem placeholder_eq {s : String} {shape : DeclaredShape} (hheld : shape.Held)
    (hfree : e.graph.find? s = none) :
    placeholder s shape e = .ok (e.graph.handle e.graph.size)
      (e.push ⟨.placeholder, shape, .f32, some s⟩) := by
  refine (bind_of_ok (checkActive_eq hactive)).trans
    ((bind_of_ok (checkShape_of_held hheld)).trans ?_)
  refine (bind_of_ok (rfl : currentGraph e = .ok e.graph e)).trans ?_
  rw [hfree]
  exact register_eq hactive (free_some_iff.2 hfree)

/-- A constant of a closed shape is accepted under a free name. -/
theorem constant_eq (value : Value) (hclosed : (Shape.declared value.shape).Closed)
    (hfree : e.Free name) :
    constant value name e = .ok (e.graph.handle e.graph.size)
      (e.push ⟨.constant value, Shape.declared value.shape, value.type, name⟩) :=
  (bind_of_ok (checkShape_of_closed hclosed)).trans (register_eq hactive hfree)

/-- A filled tensor of a closed shape is accepted. -/
theorem fill_eq {shape : DeclaredShape} {value : Float32} (hclosed : shape.Closed) :
    fill shape value e = .ok (e.graph.handle e.graph.size)
      (e.push ⟨.fill value, shape, .f32, none⟩) :=
  (bind_of_ok (checkShape_of_closed hclosed)).trans (register_eq hactive e.free_none)

/-- A random tensor of a closed shape is accepted. -/
theorem random_eq {shape : DeclaredShape} {sampler : Sampler} {seed : Option UInt64}
    (hclosed : shape.Closed) :
    random shape sampler seed e = .ok (e.graph.handle e.graph.size)
      (e.push ⟨.random sampler seed, shape, .f32, none⟩) :=
  (bind_of_ok (checkShape_of_closed hclosed)).trans (register_eq hactive e.free_none)

end Sources

section Operands

variable {input left right : Node} {l r : GraphNode} (hactive : e.session.isSome)
  (hfree : e.Free name)
include hactive hfree

/-- A function of one argument is accepted on floating-point elements. -/
theorem unary_eq (op : UnaryOp) (hn : e.graph.Holds input n) (htype : n.type = .f32) :
    unary op input name e = .ok (e.graph.handle e.graph.size)
      (e.push ⟨.unary op input.index, n.shape, n.type, name⟩) :=
  (bind_of_ok hn.locate_eq).trans
    ((expectFloat_if_apply fun _ => htype).trans (register_eq hactive hfree))

/-- Two nodes of one element type that have a common declared shape. -/
theorem binary_eq (op : BinaryOp) {shape : DeclaredShape} (hl : e.graph.Holds left l)
    (hr : e.graph.Holds right r) (htype : l.type = r.type) (hfloat : op = .divide → l.type = .f32)
    (hshape : l.shape.broadcast r.shape = some shape) :
    binary op left right name e = .ok (e.graph.handle e.graph.size)
      (e.push ⟨.binary op left.index right.index, shape, l.type, name⟩) := by
  refine (bind_of_ok hl.locate_eq).trans ((bind_of_ok hr.locate_eq).trans
    ((unless_apply (not_not.2 htype)).trans ((expectFloat_if_apply hfloat).trans ?_)))
  rw [hshape]
  exact register_eq hactive hfree

omit hactive hfree in
/-- A binary operation that is accepted has passed its checks. -/
theorem leads_binary {op : BinaryOp} (hl : e.graph.Holds left l) (hr : e.graph.Holds right r) :
    Leads (binary op left right name) e (fun _ => True) fun handle e' =>
      ∃ shape, l.type = r.type ∧ l.shape.broadcast r.shape = some shape ∧
        handle = e.graph.handle e.graph.size ∧
          e' = e.push ⟨.binary op left.index right.index, shape, l.type, name⟩ := by
  refine leads_located trivial fun found hfound => leads_located trivial fun found' hfound' =>
    leads_unless trivial fun htype => leads_expectFloat_if trivial fun _ => ?_
  -- a handle is held by one node only, so the two that were located are the operands
  obtain rfl := hfound.eq hl
  obtain rfl := hfound'.eq hr
  dsimp only
  split
  · next shape hshape =>
    exact leads_register trivial fun _ _ => ⟨shape, not_not.1 htype, hshape, rfl, rfl⟩
  · exact leads_refuse trivial

/-- Two matrices whose inner axes agree. -/
theorem dot_eq {rows inner inner' cols : Int} {op op' : Op} {name₁ name₂ : Option String}
    (hl : e.graph.Holds left ⟨op, [rows, inner], .f32, name₁⟩)
    (hr : e.graph.Holds right ⟨op', [inner', cols], .f32, name₂⟩)
    (hagree : DeclaredShape.axesAgree inner inner') :
    dot left right name e = .ok (e.graph.handle e.graph.size)
      (e.push ⟨.dot left.index right.index, [rows, cols], .f32, name⟩) := by
  refine (bind_of_ok hl.locate_eq).trans ((bind_of_ok hr.locate_eq).trans
    ((expectFloat_apply rfl).trans ((expectFloat_apply rfl).trans ?_)))
  exact (congrFun (if_pos hagree) e).trans (register_eq hactive hfree)

/-- A matrix and a bias for its columns. -/
theorem biasAdd_eq {rows cols size : Int} {op op' : Op} {name₁ name₂ : Option String}
    (hl : e.graph.Holds left ⟨op, [rows, cols], .f32, name₁⟩)
    (hr : e.graph.Holds right ⟨op', [size], .f32, name₂⟩)
    (hagree : DeclaredShape.axesAgree cols size) :
    biasAdd left right name e = .ok (e.graph.handle e.graph.size)
      (e.push ⟨.biasAdd left.index right.index, [rows, cols], .f32, name⟩) := by
  refine (bind_of_ok hl.locate_eq).trans ((bind_of_ok hr.locate_eq).trans
    ((expectFloat_apply rfl).trans ((expectFloat_apply rfl).trans ?_)))
  exact (congrFun (if_pos hagree) e).trans (register_eq hactive hfree)

/-- A clip is accepted if its bounds are in order. -/
theorem clip_eq {min max : Float32} (hbounds : ¬max < min) (hn : e.graph.Holds input n)
    (htype : n.type = .f32) :
    clip input min max name e = .ok (e.graph.handle e.graph.size)
      (e.push ⟨.clip input.index min max, n.shape, .f32, name⟩) := by
  unfold clip
  exact (unless_apply hbounds).trans ((bind_of_ok hn.locate_eq).trans
    ((expectFloat_apply htype).trans (register_eq hactive hfree)))

/-- A dropout is accepted if its rate is at least zero and below one. -/
theorem dropout_eq {rate : Float32} {seed : Option UInt64} (hrate : 0 ≤ rate ∧ rate < 1)
    (hn : e.graph.Holds input n) (htype : n.type = .f32) :
    dropout input rate seed name e = .ok (e.graph.handle e.graph.size)
      (e.push ⟨.dropout input.index rate seed, n.shape, .f32, name⟩) := by
  unfold dropout
  exact (unless_apply (by simp [hrate])).trans ((bind_of_ok hn.locate_eq).trans
    ((expectFloat_apply htype).trans (register_eq hactive hfree)))

/-- A mean is accepted if there is an axis to take it over. -/
theorem mean_eq (hn : e.graph.Holds input n) (htype : n.type = .f32) (haxis : n.shape ≠ []) :
    mean input name e = .ok (e.graph.handle e.graph.size)
      (e.push ⟨.mean input.index, n.shape.dropLast, .f32, name⟩) :=
  (bind_of_ok hn.locate_eq).trans ((expectFloat_apply htype).trans
    ((unless_apply (by simpa using haxis)).trans (register_eq hactive hfree)))

/-- A sum over all elements is accepted on any node. -/
theorem reduceSum_eq (hn : e.graph.Holds input n) :
    reduceSum input name e = .ok (e.graph.handle e.graph.size)
      (e.push ⟨.reduceSum input.index, [], n.type, name⟩) :=
  (bind_of_ok hn.locate_eq).trans (register_eq hactive hfree)

/-- A cross-entropy of logits is accepted if targets and logits can be broadcast. -/
theorem sigmoidCrossEntropy_eq {shape : DeclaredShape} (hl : e.graph.Holds left l)
    (hr : e.graph.Holds right r) (hlt : l.type = .f32) (hrt : r.type = .f32)
    (hshape : l.shape.broadcast r.shape = some shape) :
    sigmoidCrossEntropy left right name e = .ok (e.graph.handle e.graph.size)
      (e.push ⟨.sigmoidCrossEntropy left.index right.index, shape, .f32, name⟩) := by
  refine (bind_of_ok hl.locate_eq).trans ((bind_of_ok hr.locate_eq).trans
    ((expectFloat_apply hlt).trans ((expectFloat_apply hrt).trans ?_)))
  rw [hshape]
  exact register_eq hactive hfree

/-- Logits and labels declared with the same axes. -/
theorem softmaxCrossEntropy_eq (hl : e.graph.Holds left l) (hr : e.graph.Holds right r)
    (hlt : l.type = .f32) (hrt : r.type = .f32) (hshape : r.shape = l.shape)
    (haxis : l.shape ≠ []) :
    softmaxCrossEntropy left right name e = .ok (e.graph.handle e.graph.size)
      (e.push ⟨.softmaxCrossEntropy left.index right.index, l.shape.dropLast, .f32, name⟩) := by
  refine (bind_of_ok hl.locate_eq).trans ((bind_of_ok hr.locate_eq).trans
    ((expectFloat_apply hlt).trans ((expectFloat_apply hrt).trans ?_)))
  have hself : l.shape.zip l.shape = l.shape.map fun a => (a, a) := by
    rw [List.zip_eq_zipWith, List.zipWith_self]
  dsimp only
  rw [hshape, hself, if_pos (by simp [haxis, DeclaredShape.axesAgree_self])]
  exact register_eq hactive hfree

end Operands

/-! ## Derivatives and updates -/

section Updates

variable {target value : Node} {v k : GraphNode} (hactive : e.session.isSome)
include hactive

/-- A derivative with respect to a floating-point variable is accepted. -/
theorem gradient_eq (loss : Nat) (hv : e.graph.Holds target v) (hvar : v.op.isVariable)
    (htype : v.type = .f32) :
    gradient loss target e = .ok (e.graph.handle e.graph.size)
      (e.push ⟨.gradient loss target.index, v.shape, .f32, none⟩) :=
  (bind_of_ok hv.locate_eq).trans ((expectVariable_apply hvar).trans
    ((expectFloat_apply htype).trans (register_eq hactive e.free_none)))

omit hactive in
/-- An update is accepted if the new value fits into the variable. -/
theorem assignable_eq (hv : e.graph.Holds target v) (hk : e.graph.Holds value k)
    (hvar : v.op.isVariable) (htype : v.type = k.type)
    (hshape : v.shape.broadcast k.shape = some v.shape) :
    assignable target value e = .ok (target.index, value.index, v) e :=
  (bind_of_ok hv.locate_eq).trans ((bind_of_ok hk.locate_eq).trans
    ((expectVariable_apply hvar).trans ((unless_apply (not_not.2 htype)).trans
      (unless_apply (not_not.2 hshape)))))

/-- A variable can be replaced by a value that fits into it. -/
theorem update_eq (hv : e.graph.Holds target v) (hk : e.graph.Holds value k)
    (hvar : v.op.isVariable) (htype : v.type = k.type)
    (hshape : v.shape.broadcast k.shape = some v.shape) :
    update target value e = .ok (e.graph.handle e.graph.size)
      (e.push ⟨.assign target.index value.index, v.shape, v.type, none⟩) :=
  (bind_of_ok (assignable_eq hv hk hvar htype hshape)).trans (register_eq hactive e.free_none)

/-- A value that fits into a variable can be added to it. -/
theorem updateAdd_eq (hv : e.graph.Holds target v) (hk : e.graph.Holds value k)
    (hvar : v.op.isVariable) (htype : v.type = k.type)
    (hshape : v.shape.broadcast k.shape = some v.shape) :
    updateAdd target value e = .ok (e.graph.handle e.graph.size)
      (e.push ⟨.assignAdd target.index value.index, v.shape, v.type, none⟩) :=
  (bind_of_ok (assignable_eq hv hk hvar htype hshape)).trans (register_eq hactive e.free_none)

end Updates

/-! ## Looking at nodes -/

/-- A live engine tells the declared shape of its nodes. -/
theorem shape_eq {handle : Node} (hactive : e.session.isSome) (hn : e.graph.Holds handle n) :
    shape handle e = .ok n.shape e :=
  (bind_of_ok (checkActive_eq hactive)).trans (bind_of_ok hn.locate_eq)

/-- A live engine tells what a variable is initialized by. -/
theorem initializer_eq {handle : Node} {trainable : Bool} {init : Option Nat}
    (hactive : e.session.isSome) (hn : e.graph.Holds handle n)
    (hop : n.op = .variable trainable init) :
    initializer handle e = .ok (init.map e.graph.handle) e := by
  refine (bind_of_ok (checkActive_eq hactive)).trans ((bind_of_ok hn.locate_eq).trans ?_)
  dsimp only
  rw [hop]
  rfl

/-! ## Functions -/

/-- A loop of checks that all pass changes nothing. -/
theorem forM_eq {f : α → Call PUnit} {as : List α} (h : ∀ a ∈ as, f a e = .ok () e) :
    as.forM f e = .ok () e := by
  induction as with
  | nil => rfl
  | cons a as ih =>
    obtain ⟨ha, has⟩ := List.forall_mem_cons.1 h
    exact (bind_of_ok ha).trans (ih has)

/-- A function over placeholders, nodes and updates of a live engine. -/
theorem function_eq {inputs outputs updates : List Node} (hactive : e.session.isSome)
    (hinputs : ∀ i ∈ inputs, ∃ n, e.graph.Holds i n ∧ n.op.isPlaceholder)
    (houtputs : ∀ o ∈ outputs, ∃ n, e.graph.Holds o n)
    (hupdates : ∀ u ∈ updates, ∃ n, e.graph.Holds u n ∧ n.op.isUpdate) :
    function inputs outputs updates e = .ok (.ofNodes e.graph.id inputs outputs updates) e := by
  refine (bind_of_ok (checkActive_eq hactive)).trans ((bind_of_ok (forM_eq fun i hi => ?_)).trans
    ((bind_of_ok (forM_eq fun o ho => ?_)).trans
      ((bind_of_ok (forM_eq fun u hu => ?_)).trans rfl)))
  · -- each entry of the three lists passes its check, so none of the loops refuses
    obtain ⟨n, hn, hop⟩ := hinputs i hi
    exact (bind_of_ok hn.locate_eq).trans (congrFun (if_neg (by simp [hop])) e)
  · obtain ⟨n, hn⟩ := houtputs o ho
    rw [discard_eq_bind]
    exact bind_of_ok hn.locate_eq
  · obtain ⟨n, hn, hop⟩ := hupdates u hu
    exact (bind_of_ok hn.locate_eq).trans (congrFun (if_neg (by simp [hop])) e)

end Engine
end TensorGraph
