import TensorGraph.Proofs.Engine.Accepting
import TensorGraph.Proofs.Engine.Ranging
import TensorGraph.Proofs.Evaluation.Ordering

/-!
# When variables can be created

A variable is created when its shape is closed, its name is free, the parameters of its initializer
are accepted, and what the initializer samples can be drawn. A stream without a seed is derived from
the entropy of the session and the slot of the node, so only for samples without a seed does it
matter where on which engine the variable is created.

## Main definitions

* `Op.Draws`: samples that can be drawn from a stream.
* `Initializer.Makes`: initializers that make a first value.

## Main results

* `Setting.exists_evaluate_source_iff`: when the node of an initializer is evaluated.
* `Engine.exists_createVariable` and `Engine.makes_of_createVariable`: when a variable is created.
-/

namespace TensorGraph

/-- The samples of an operation can be drawn, from its own stream if it has a seed, and otherwise
from the stream of the given number. -/
def Op.Draws (shape : Shape) (key : UInt64) : Op → Prop
  | .random sampler seed =>
    ∃ xs, (sampler.draw shape.size (.ofSeed (seed.getD key))).1 = .ok xs
  | _ => True

namespace Setting

variable {S : Type} [Scalar S] {slot : Nat} {n : GraphNode}

/-- A source is evaluated for the first time when its samples can be drawn. -/
theorem exists_evaluate_source_iff (env : Setting S) {streams : SlotMap Stream} {shape : Shape}
    (hn : env.graph.nodes[slot]? = some n) (hop : n.op.isSource)
    (hshape : n.shape.concrete? = some shape) (hstream : streams.get? slot = none) :
    (∃ ev, env.evaluate [slot] (.start streams) = .ok () ev) ↔
      n.op.Draws shape (env.entropy + .ofNat slot) := by
  have hstatic : env.staticShape slot = .ok shape := by
    simp only [staticShape, hn, Option.map_some, Option.getD_some, hshape]
  have hdraws : (∃ draw, env.draws (Evaluation.start streams).known slot
      (env.streamOf streams slot) n.op = .ok draw) ↔
        n.op.Draws shape (env.entropy + .ofNat slot) := by
    cases hcase : n.op with
    | random sampler seed =>
      simp only [draws, hstatic, Except.bind, streamOf, hstream, Option.getD_none, Op.Draws]
      -- either the samples are accepted or they are not
      obtain ⟨drawn | drawn, next⟩ := sampler.draw shape.size
        (Stream.ofSeed (seed.getD (env.entropy + UInt64.ofNat slot))) <;> simp
    | constant | fill => simp [draws, Op.Draws]
    | _ => simp [hcase, Op.isSource] at hop
  rw [evaluate, Graph.schedule_leaf hn (Op.operands_of_isSource hop), evaluateAll_singleton,
    ← hdraws]
  constructor
  · rintro ⟨ev, hev⟩
    simp only [evaluateSlot, hn, bind_eq_ok_iff] at hev
    obtain ⟨_, e₁, hdrawn, -⟩ := hev
    exact (drawNoise_eq_ok_iff.1 hdrawn).imp fun _ h => h.1
  · rintro ⟨draw, hdraw⟩
    obtain ⟨_, e₂, hdiff⟩ := env.succeeds_differentiate n.op (keepDraw slot (.start streams) draw)
    obtain ⟨t, ht⟩ : ∃ t, env.compute e₂.known slot n.op = .ok t := by
      cases hcase : n.op with
      | random sampler seed => exact ⟨_, by simp only [compute, hstatic]; rfl⟩
      | constant v => exact ⟨_, rfl⟩
      | fill x => exact ⟨_, by simp only [compute, hstatic]; rfl⟩
      | _ => simp [hcase, Op.isSource] at hop
    simp only [evaluateSlot, hn, bind_eq_ok_iff, lift_eq_ok_iff]
    exact ⟨_, (), _, drawNoise_eq_ok_iff.2 ⟨draw, hdraw, rfl⟩, (), e₂, hdiff, e₂, e₂, rfl, t, e₂,
      ⟨ht, rfl⟩, (), _, recordAssignment_eq t, rfl⟩

end Setting

namespace Initializer

/-- An initializer makes a first value of a declared shape. Without a seed it samples from the
stream of the given number. -/
structure Makes (init : Initializer) (shape : DeclaredShape) (key : UInt64) : Prop where
  inRange : (init.op shape).InRange
  draws : (init.op shape).Draws (shape.concrete?.getD []) key

/-- Zeros are made everywhere. -/
theorem makes_zeros (shape : DeclaredShape) (key : UInt64) : zeros.Makes shape key :=
  ⟨trivial, trivial⟩

end Initializer

namespace Engine

variable {e e' : Engine} {init : Initializer} {shape : DeclaredShape}

theorem checkDeviation_eq {stddev : Float32} (h : stddev.isFinite ∧ 0 ≤ stddev) :
    checkDeviation stddev e = .ok () e :=
  congrFun (if_neg (by simp [h])) e

/-- The node of an initializer. -/
theorem compile_eq (hactive : e.session.isSome) (hshape : shape.Closed)
    (hinit : (init.op shape).InRange) :
    init.compile shape e = .ok (e.graph.handle e.graph.size)
      (e.push ⟨init.op shape, shape, .f32, none⟩) := by
  -- every initializer that is in range passes the checks of the call that it makes
  cases init with
  | randomNormal mean stddev seed | truncatedNormal mean stddev seed =>
    exact (bind_of_ok (checkDeviation_eq hinit)).trans (random_eq hactive hshape)
  | randomUniform min max seed =>
    unfold Initializer.compile randomUniform
    have hrange : min < max := hinit
    exact (unless_apply (by simpa using hrange)).trans (random_eq hactive hshape)
  | zeros | ones => exact fill_eq hactive hshape
  | constant x =>
    obtain ⟨dims, hdims⟩ := hshape.exists_concrete?
    obtain ⟨rfl, -⟩ := DeclaredShape.concrete?_eq_some_iff.1 hdims
    simp only [Initializer.compile, Initializer.op, hdims, Option.getD_some]
    exact constant_eq hactive _ hshape e.free_none

/-- Once the checks are passed, the node of the initializer is there, and the evaluation of the
first value comes next. -/
theorem createVariable_eq {name : String} (trainable : Bool)
    (h : Creatable e shape init name) :
    createVariable shape init name trainable e =
      (evaluate .inference .empty [e.graph.size] >>= fun ev => do
        let node ← register ⟨.variable trainable (some e.graph.size), shape, .f32, none⟩ (some name)
        commit [(node.index, ev.known.value e.graph.size)]
        if trainable then train node.index
        report (.createdVariable name shape)
        return node) (e.push ⟨init.op shape, shape, .f32, none⟩) := by
  have hheld : (e.push ⟨init.op shape, shape, .f32, none⟩).graph.Holds
      (e.graph.handle e.graph.size) ⟨init.op shape, shape, .f32, none⟩ := e.graph.holds_push _
  -- the checks in the order in which they are made
  exact (bind_of_ok (checkActive_eq h.active)).trans
    ((bind_of_ok (checkShape_of_closed h.closed)).trans
      ((bind_of_ok (checkFresh_of_none h.free)).trans
        ((bind_of_ok (compile_eq h.active h.closed h.inRange)).trans
          ((bind_of_ok hheld.locate_eq).trans (unless_apply (not_not.2 rfl))))))

/-- A variable is created once its first value has been evaluated. -/
theorem exists_createVariable_of_evaluate {name : String} (trainable : Bool) {s : Session}
    {ev : Evaluation Float32} (h : Creatable e shape init name) (hs : e.session = some s)
    (hev : ((e.push ⟨init.op shape, shape, .f32, none⟩).setting s .inference .empty).evaluate
      [e.graph.size] (.start s.streams) = .ok () ev) :
    ∃ node e', createVariable shape init name trainable e = .ok node e' := by
  have hevaluate := evaluate_apply (e := e.push ⟨init.op shape, shape, .f32, none⟩)
    (s := s) hs .inference .empty [e.graph.size]
  rw [hev] at hevaluate
  have hfree : ((e.push ⟨init.op shape, shape, .f32, none⟩).absorb s ev).Free (some name) :=
    (unnamed_push (e := e) rfl).free (free_some_iff.2 h.free)
  -- what follows the evaluation cannot fail, whether the variable is trained or not
  cases trainable <;> exact ⟨_, _, (createVariable_eq _ h).trans ((bind_of_ok hevaluate).trans
    ((bind_of_ok (register_eq rfl hfree)).trans rfl))⟩

section Variables

variable {name : String} {trainable : Bool} {node : Node} {entropy : UInt64} (he : e.Initialized)
include he

/-- The node of an initializer is evaluated for the first time when its samples can be drawn. -/
theorem exists_evaluate_initializer_iff {s : Session} {made : GraphNode} {handle : Node}
    {e₁ : Engine} (hs : e.session = some s) (happended : Appended e made handle e₁)
    (hop : made.op = init.op shape) (hmade : made.shape = shape) (hshape : shape.Closed) :
    (∃ ev, (e₁.setting s .inference .empty).evaluate [handle.index] (.start s.streams) =
      .ok () ev) ↔
        (init.op shape).Draws (shape.concrete?.getD []) (s.entropy + .ofNat e.graph.size) := by
  obtain ⟨dims, hdims⟩ := hshape.exists_concrete?
  have hundrawn := he.undrawn happended (by rw [happended.engine]; exact hs)
  rw [(e₁.setting s .inference .empty).exists_evaluate_source_iff happended.getElem?
    (hop ▸ init.isSource_op shape) (hmade ▸ hdims) hundrawn, hop, hdims, happended.handle]
  rfl

variable (hentropy : e.session.map (·.entropy) = some entropy)
include hentropy

/-- What creating a variable shows about its initializer. -/
theorem makes_of_createVariable (h : createVariable shape init name trainable e = .ok node e') :
    shape.Closed ∧ init.Makes shape (entropy + .ofNat e.graph.size) := by
  obtain ⟨s, hs, rfl⟩ := Option.map_eq_some_iff.1 hentropy
  obtain ⟨made, handle, e₁, s', ev, hop, hcreated⟩ :=
    (leads_createVariable shape init name trainable).of_eq_ok h
  have hmade : shape = made.shape := hcreated.shape
  have hshape : shape.Closed := hmade ▸ hcreated.closed
  -- appending the initializer has not changed the session
  obtain rfl : s = s' := by
    have hactive := hcreated.active
    rw [hcreated.appended.engine] at hactive
    exact Option.some.inj (hs.symm.trans hactive)
  exact ⟨hshape, (leads_createVariable_inRange shape init name trainable).of_eq_ok h,
    (exists_evaluate_initializer_iff he hs hcreated.appended hop hmade.symm hshape).1
      ⟨ev, hcreated.evaluated⟩⟩

variable (trainable) in
/-- A variable is created when its initializer makes a first value of its shape. -/
theorem exists_createVariable (hshape : shape.Closed) (hfree : e.graph.find? name = none)
    (hinit : init.Makes shape (entropy + .ofNat e.graph.size)) :
    ∃ node e', createVariable shape init name trainable e = .ok node e' := by
  obtain ⟨s, hs, rfl⟩ := Option.map_eq_some_iff.1 hentropy
  have hactive : e.session.isSome := by rw [hs]; rfl
  obtain ⟨made, hop, happended⟩ :=
    (appends_compile init shape).of_eq_ok (compile_eq (e := e) hactive hshape hinit.inRange)
  have hheld : (e.push ⟨init.op shape, shape, .f32, none⟩).graph.Holds
      (e.graph.handle e.graph.size) ⟨init.op shape, shape, .f32, none⟩ := e.graph.holds_push _
  -- what was appended is the node that is held at the end of the graph
  obtain rfl : made = ⟨init.op shape, shape, .f32, none⟩ :=
    Option.some.inj (happended.getElem?.symm.trans hheld.2)
  obtain ⟨ev, hev⟩ :=
    (exists_evaluate_initializer_iff he hs happended hop rfl hshape).2 hinit.draws
  exact exists_createVariable_of_evaluate trainable ⟨hactive, hshape, hfree, hinit.inRange⟩ hs hev

end Variables
end Engine
end TensorGraph
