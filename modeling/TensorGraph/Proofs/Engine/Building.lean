import TensorGraph.Proofs.Engine.Change
import TensorGraph.Proofs.Engine.Leads
import TensorGraph.Proofs.Graph.Reaching

/-!
# What building calls append

A call that builds a graph either refuses and leaves the engine as it is, or appends one node with a
known operation. What it checks before it registers the node is what the typing rule of the node
asks for, so such a call only changes an engine as `Change` allows.

## Main definitions

* `Engine.Changing`: from a sound engine a call only makes changes, whether it fails or not.
* `Engine.Appends`: a call appends one node, or leaves the engine as it is.

## Main results

* `Engine.appends_binary`, `Engine.appends_dot`, …: what each call appends.
* `Engine.Appends.changing`: a call that appends a node only makes changes.
-/

namespace TensorGraph

/-- Every node is registered before a slot that is not yet in use. -/
theorem Graph.before_size {g : Graph} {s : Nat} {n : GraphNode} (h : g.nodes[s]? = some n) :
    g.before g.size s = some n :=
  before_eq_some_iff.2 ⟨lt_size_of_getElem? h, h⟩

/-- A handle with the node of a graph that it names. -/
def Graph.Holds (g : Graph) (handle : Node) (n : GraphNode) : Prop :=
  handle.graph = g.id ∧ g.nodes[handle.index]? = some n

section Holds

variable {g g' : Graph} {handle : Node} {n : GraphNode}

/-- A node that is held stays held. -/
theorem Graph.Holds.extend (h : g.Holds handle n) (hg : g.Extends g') : g'.Holds handle n :=
  ⟨h.1.trans hg.id.symm, hg.node h.2⟩

/-- A node that is held is located by its handle. -/
theorem Graph.Holds.located (h : g.Holds handle n) :
    Engine.Located g handle (handle.index, n) := ⟨h.1, rfl, h.2⟩

end Holds

namespace Engine

variable {α β : Type} {e e₀ : Engine} {n : GraphNode}

/-- Nodes stay in their slots. -/
theorem Change.getElem? {e' : Engine} (h : Change e e') {s : Nat}
    (hn : e.graph.nodes[s]? = some n) : e'.graph.nodes[s]? = some n := by
  cases h with
  | append => exact Graph.getElem?_push_eq_some_iff.2 (.inl hn)
  | declare => exact Graph.getElem?_declare_eq_some_iff.2 (.inl hn)
  | assign | draw | report | dispose => exact hn

/-- Changes keep the nodes that there are. -/
theorem Changes.getElem? {e' : Engine} (h : Changes e e') {s : Nat}
    (hn : e.graph.nodes[s]? = some n) : e'.graph.nodes[s]? = some n := by
  induction h with
  | refl => exact hn
  | tail _ hstep ih => exact hstep.getElem? ih

theorem Change.id_eq {e' : Engine} (h : Change e e') : e'.graph.id = e.graph.id := by
  cases h with
  | declare => exact Graph.id_declare _ _
  | append | assign | draw | report | dispose => rfl

/-- Changes only append nodes to the graph. -/
theorem Changes.extends {e' : Engine} (h : Changes e e') : e.graph.Extends e'.graph := by
  refine ⟨?_, fun hn => h.getElem? hn⟩
  induction h with
  | refl => rfl
  | tail _ hstep ih => exact hstep.id_eq.trans ih

/-- From a sound engine a call only makes changes, whether it gives a value or fails. -/
def Changing (c : Call α) : Prop :=
  ∀ e : Engine, e.Sound → Leads c e (Changes e) fun _ e' => Changes e e'

/-- A call that only makes changes keeps engines sound. -/
theorem Changing.preserves_sound {c : Call α} (hc : Changing c) : Preserves Sound c :=
  fun e _ _ he h => ((hc e he).of_eq_ok h).sound he

/-- Changes may be followed by further ones. -/
theorem Leads.after_changes {c : Call α} (hleads : Leads c e (Changes e) fun _ e' => Changes e e')
    (h : Changes e₀ e) : Leads c e (Changes e₀) fun _ e' => Changes e₀ e' :=
  hleads.imp (fun _ h' => h.trans h') fun _ _ h' => h.trans h'

/-- A sequence only makes changes if both of its parts do. -/
theorem Changing.bind {c : Call α} {f : α → Call β} (hc : Changing c) (hf : ∀ a, Changing (f a)) :
    Changing (c >>= f) := by
  intro e hsound
  refine leads_bind_iff.2 ((hc e hsound).mono fun a e' he' => ?_)
  -- the second part starts from a sound engine again
  exact (hf a e' (he'.sound hsound)).after_changes he'

/-! ## Appending one node -/

/-- A node as a call has appended it, with all that has been checked before. -/
structure Appended (e : Engine) (n : GraphNode) (handle : Node) (e' : Engine) : Prop where
  active : e.session.isSome
  typed : n.op.Typed (e.graph.before e.graph.size) n.shape n.type
  fresh : ∀ name, n.name = some name → e.graph.find? name = none
  stateless : n.op.isVariable = false
  handle : handle = e.graph.handle e.graph.size
  engine : e' = { e with graph := e.graph.push n }

/-- From an engine a call appends a node with a property, or it refuses and leaves the engine as it
is. -/
def Appends (c : Call Node) (e : Engine) (P : GraphNode → Prop) : Prop :=
  Leads c e (e = ·) fun handle e' => ∃ n, P n ∧ Appended e n handle e'

/-- Appending a node is a change. -/
theorem Appended.change {e' : Engine} {handle : Node} (h : Appended e n handle e') :
    Change e e' := by
  obtain ⟨active, typed, fresh, stateless, -, rfl⟩ := h
  exact .append active typed fresh stateless

/-- The handle finds the node. -/
theorem Appended.getElem? {e' : Engine} {handle : Node} (h : Appended e n handle e') :
    e'.graph.nodes[handle.index]? = some n := by
  rw [h.handle, h.engine]
  exact Graph.getElem?_push_eq_some_iff.2 (.inr ⟨rfl, rfl⟩)

/-- A call that appends at most a node only makes changes. -/
theorem Appends.changing {c : Call Node} {P : Engine → GraphNode → Prop}
    (h : ∀ e, Appends c e (P e)) : Changing c := by
  refine fun e _ => (h e).imp ?_ ?_
  · rintro _ rfl
    exact .refl
  · rintro handle e' ⟨n, -, happended⟩
    exact .single happended.change

theorem Appends.imp {c : Call Node} {P Q : GraphNode → Prop} (h : Appends c e P)
    (hPQ : ∀ n, P n → Q n) : Appends c e Q := by
  refine h.mono ?_
  rintro handle e' ⟨n, hn, happended⟩
  exact ⟨n, hPQ n hn, happended⟩

variable {name : Option String}

/-- Registering a node by its typing rule, when it is no variable, appends it. -/
theorem appends_register {op : Op} {shape : DeclaredShape} {type : ElementType}
    {P : GraphNode → Prop} (typed : op.Typed (e.graph.before e.graph.size) shape type)
    (stateless : op.isVariable = false) (hP : P ⟨op, shape, type, name⟩) :
    Appends (register ⟨op, shape, type, none⟩ name) e P :=
  leads_register rfl fun hactive hfresh => ⟨_, hP, hactive, typed, hfresh, stateless, rfl, rfl⟩

/-! ## Sources -/

/-- A placeholder is appended, or the one that has the name and the shape is given back. -/
theorem leads_placeholder (name : String) (shape : DeclaredShape) :
    Leads (placeholder name shape) e (e = ·) fun handle e' =>
      (e' = e ∧ ∃ slot n, handle = e.graph.handle slot ∧ e.graph.find? name = some slot ∧
        e.graph.nodes[slot]? = some n ∧ n.op.isPlaceholder ∧ n.shape = shape) ∨
      ∃ n, (n.op = .placeholder ∧ n.shape = shape ∧ n.name = some name) ∧
        Appended e n handle e' := by
  refine leads_checkActive rfl fun _ => leads_checkShape rfl fun hheld _ => leads_currentGraph ?_
  split
  · -- a name that is taken gives its node back only when that is a placeholder of the same shape
    next slot hslot =>
    split
    · next hsame =>
      obtain ⟨n, hn, hsame⟩ := (Option.any_eq_true _ _).1 hsame
      obtain ⟨hop, hshape⟩ := (Bool.and_eq_true _ _).mp hsame
      exact leads_pure (.inl ⟨rfl, slot, n, rfl, hslot, hn, hop, by simpa using hshape⟩)
    · exact leads_refuse rfl
  · exact (appends_register (.placeholder hheld) rfl ⟨rfl, rfl, rfl⟩).mono fun _ _ => .inr

/-- A placeholder is appended or found. -/
theorem changing_placeholder (name : String) (shape : DeclaredShape) :
    Changing (placeholder name shape) := by
  refine fun e _ => (leads_placeholder name shape).imp ?_ ?_
  · rintro _ rfl
    exact .refl
  · rintro handle e' (⟨rfl, -⟩ | ⟨n, -, happended⟩)
    · exact .refl
    · exact .single happended.change

/-- A constant has no inputs, and holds its value. -/
theorem appends_constant (value : Value) :
    Appends (constant value name) e fun n => n.op = .constant value ∧ n.name = name :=
  leads_checkShape rfl fun _ hclosed => appends_register (.constant (hclosed rfl)) rfl ⟨rfl, rfl⟩

/-- A random node keeps its sampler and its seed. -/
theorem appends_random (shape : DeclaredShape) (sampler : Sampler) (seed : Option UInt64) :
    Appends (random shape sampler seed) e fun n =>
      n.op = .random sampler seed ∧ n.shape = shape ∧ n.name = none :=
  leads_checkShape rfl fun _ hclosed => appends_register (.random (hclosed rfl)) rfl ⟨rfl, rfl, rfl⟩

theorem appends_randomNormal (shape : DeclaredShape) (mean stddev : Float32)
    (seed : Option UInt64) :
    Appends (randomNormal shape mean stddev seed) e fun n =>
      n.op = .random (.normal mean stddev) seed ∧ n.shape = shape ∧ n.name = none :=
  leads_refuse_if rfl fun _ => appends_random shape _ seed

theorem appends_randomUniform (shape : DeclaredShape) (min max : Float32) (seed : Option UInt64) :
    Appends (randomUniform shape min max seed) e fun n =>
      n.op = .random (.uniform min max) seed ∧ n.shape = shape ∧ n.name = none := by
  unfold randomUniform
  exact leads_unless rfl fun _ => appends_random shape _ seed

theorem appends_truncatedNormal (shape : DeclaredShape) (mean stddev : Float32)
    (seed : Option UInt64) :
    Appends (truncatedNormal shape mean stddev seed) e fun n =>
      n.op = .random (.truncatedNormal mean stddev) seed ∧ n.shape = shape ∧ n.name = none :=
  leads_refuse_if rfl fun _ => appends_random shape _ seed

theorem appends_fill (shape : DeclaredShape) (value : Float32) :
    Appends (fill shape value) e fun n =>
      n.op = .fill value ∧ n.shape = shape ∧ n.name = none :=
  leads_checkShape rfl fun _ hclosed => appends_register (.fill (hclosed rfl)) rfl ⟨rfl, rfl, rfl⟩

/-! ## Arithmetic -/

/-- A unary operation refers to its operand. -/
theorem appends_unary (op : UnaryOp) (input : Node) :
    Appends (unary op input name) e fun n => n.op = .unary op input.index ∧ n.name = name := by
  refine leads_located rfl fun found hx => leads_expectFloat_if rfl fun htype => ?_
  rw [← hx.slot]
  exact appends_register (.unary (Graph.before_size hx.found) (by simpa using htype)) rfl ⟨rfl, rfl⟩

/-- A binary operation refers to both operands, and stretches their shapes to each other. -/
theorem appends_binary (op : BinaryOp) (left right : Node) :
    Appends (binary op left right name) e fun n =>
      n.op = .binary op left.index right.index ∧ n.name = name := by
  refine leads_located rfl fun l hl => leads_located rfl fun r hr =>
    leads_unless rfl fun htype => leads_expectFloat_if rfl fun hfloat => ?_
  rw [← hl.slot, ← hr.slot]
  split
  · next shape hshape =>
    exact appends_register (.binary (Graph.before_size hl.found) (Graph.before_size hr.found)
      (not_not.1 htype) hfloat hshape) rfl ⟨rfl, rfl⟩
  · exact leads_refuse rfl

/-- A matrix product refers to both factors. -/
theorem appends_dot (left right : Node) :
    Appends (dot left right name) e fun n =>
      n.op = .dot left.index right.index ∧ n.name = name := by
  refine leads_located rfl fun l hl => leads_located rfl fun r hr =>
    leads_expectFloat rfl fun hlt => leads_expectFloat rfl fun hrt => ?_
  -- the checks are made on the nodes that were found, and they are what typing asks for
  rw [← hl.slot, ← hr.slot]
  split
  · next hls hrs =>
    split
    · next hagree =>
      exact appends_register (.dot (Graph.before_size hl.found) (Graph.before_size hr.found) hlt hrt
        hls hrs hagree) rfl ⟨rfl, rfl⟩
    · exact leads_refuse rfl
  · exact leads_refuse rfl

/-- A bias is stretched to the shape of its input. -/
theorem appends_biasAdd (input bias : Node) :
    Appends (biasAdd input bias name) e fun n =>
      n.op = .biasAdd input.index bias.index ∧ n.name = name := by
  refine leads_located rfl fun x hx => leads_located rfl fun b hb =>
    leads_expectFloat rfl fun hxt => leads_expectFloat rfl fun hbt => ?_
  rw [← hx.slot, ← hb.slot]
  split
  · next hlast hsize =>
    split
    · next hagree =>
      exact appends_register (.biasAdd (Graph.before_size hx.found) (Graph.before_size hb.found) hxt
        hbt hlast hsize hagree) rfl ⟨rfl, rfl⟩
    · exact leads_refuse rfl
  · exact leads_refuse rfl

theorem appends_clip (input : Node) (min max : Float32) :
    Appends (clip input min max name) e fun n =>
      n.op = .clip input.index min max ∧ n.name = name := by
  unfold clip
  refine leads_unless rfl fun _ => leads_located rfl fun x hx =>
    leads_expectFloat rfl fun htype => ?_
  rw [← hx.slot]
  exact appends_register (.clip (Graph.before_size hx.found) htype) rfl ⟨rfl, rfl⟩

theorem appends_float (input : Node) :
    Appends (float input name) e fun n => n.op = .cast input.index ∧ n.name = name := by
  refine leads_located rfl fun x hx => ?_
  rw [← hx.slot]
  exact appends_register (.cast (Graph.before_size hx.found)) rfl ⟨rfl, rfl⟩

/-- A dropout keeps its rate and its seed. -/
theorem appends_dropout (input : Node) (rate : Float32) (seed : Option UInt64) :
    Appends (dropout input rate seed name) e fun n =>
      n.op = .dropout input.index rate seed ∧ n.name = name := by
  unfold dropout
  refine leads_unless rfl fun _ => leads_located rfl fun x hx =>
    leads_expectFloat rfl fun htype => ?_
  rw [← hx.slot]
  exact appends_register (.dropout (Graph.before_size hx.found) htype) rfl ⟨rfl, rfl⟩

/-! ## Reductions and losses -/

/-- A mean drops the last axis. -/
theorem appends_mean (input : Node) :
    Appends (mean input name) e fun n => n.op = .mean input.index ∧ n.name = name := by
  refine leads_located rfl fun x hx => leads_expectFloat rfl fun htype =>
    leads_unless rfl fun haxis => ?_
  rw [← hx.slot]
  exact appends_register (.mean (Graph.before_size hx.found) htype (by simpa using haxis)) rfl
    ⟨rfl, rfl⟩

/-- A sum of all entries is a scalar. -/
theorem appends_reduceSum (input : Node) :
    Appends (reduceSum input name) e fun n => n.op = .reduceSum input.index ∧ n.name = name := by
  refine leads_located rfl fun x hx => ?_
  rw [← hx.slot]
  exact appends_register (.reduceSum (Graph.before_size hx.found)) rfl ⟨rfl, rfl⟩

theorem appends_sigmoidCrossEntropy (targets logits : Node) :
    Appends (sigmoidCrossEntropy targets logits name) e fun n =>
      n.op = .sigmoidCrossEntropy targets.index logits.index ∧ n.name = name := by
  refine leads_located rfl fun z hz => leads_located rfl fun x hx =>
    leads_expectFloat rfl fun hzt => leads_expectFloat rfl fun hxt => ?_
  rw [← hz.slot, ← hx.slot]
  split
  · next shape hshape =>
    exact appends_register (.sigmoidCrossEntropy (Graph.before_size hz.found)
      (Graph.before_size hx.found) hzt hxt hshape) rfl ⟨rfl, rfl⟩
  · exact leads_refuse rfl

theorem appends_softmaxCrossEntropy (logits labels : Node) :
    Appends (softmaxCrossEntropy logits labels name) e fun n =>
      n.op = .softmaxCrossEntropy logits.index labels.index ∧ n.name = name := by
  refine leads_located rfl fun x hx => leads_located rfl fun z hz =>
    leads_expectFloat rfl fun hxt => leads_expectFloat rfl fun hzt => ?_
  extract_lets compatible
  rw [← hx.slot, ← hz.slot]
  split
  · next hcompatible =>
    simp only [compatible, Bool.and_eq_true, Bool.not_eq_true', List.isEmpty_eq_false_iff,
      beq_iff_eq, List.all_eq_true] at hcompatible
    obtain ⟨⟨haxis, hlength⟩, hagree⟩ := hcompatible
    exact appends_register (.softmaxCrossEntropy (Graph.before_size hx.found)
      (Graph.before_size hz.found) hxt hzt haxis hlength hagree) rfl ⟨rfl, rfl⟩
  · exact leads_refuse rfl

/-! ## Derivatives and updates -/

/-- The derivative of a loss of numbers by a variable. -/
theorem appends_gradient {loss : Nat} (hloss : e.graph.nodes[loss]? = some n)
    (htype : n.type = .f32) (weight : Node) :
    Appends (gradient loss weight) e fun n =>
      n.op = .gradient loss weight.index ∧ n.name = none := by
  refine leads_located rfl fun v hv => leads_expectVariable rfl fun hvar =>
    leads_expectFloat rfl fun hvt => ?_
  rw [← hv.slot]
  exact appends_register
    (.gradient (Graph.before_size hloss) (Graph.before_size hv.found) htype hvar hvt) rfl ⟨rfl, rfl⟩

/-- Behind the checks of an assignment, the target is a variable of the type of the value and is not
stretched by it. -/
theorem leads_assignable {R : Engine → Prop} {post : β → Engine → Prop} {target value : Node}
    {f : Nat × Nat × GraphNode → Call β} (h₀ : R e)
    (h : ∀ v k, e.graph.nodes[target.index]? = some v → e.graph.nodes[value.index]? = some k →
      v.op.isVariable → v.type = k.type → DeclaredShape.broadcast v.shape k.shape = some v.shape →
      Leads (f (target.index, value.index, v)) e R post) :
    Leads (assignable target value >>= f) e R post := by
  refine leads_bind_iff.2 ?_
  refine leads_located h₀ fun v hv => leads_located h₀ fun k hk =>
    leads_expectVariable h₀ fun hvar => leads_unless h₀ fun htype =>
      leads_unless h₀ fun hshape => ?_
  -- the handles name the slots at which the two nodes were found
  dsimp only
  rw [hv.slot, hk.slot]
  exact h v.2 k.2 hv.node hk.node hvar (not_not.1 htype) (not_not.1 hshape)

theorem appends_update (target value : Node) :
    Appends (update target value) e fun n =>
      n.op = .assign target.index value.index ∧ n.name = none :=
  leads_assignable rfl fun _ _ hv hk hvar htype hshape => appends_register
    (.assign (Graph.before_size hv) (Graph.before_size hk) hvar htype hshape) rfl ⟨rfl, rfl⟩

theorem appends_updateAdd (target delta : Node) :
    Appends (updateAdd target delta) e fun n =>
      n.op = .assignAdd target.index delta.index ∧ n.name = none :=
  leads_assignable rfl fun _ _ hv hk hvar htype hshape => appends_register
    (.assignAdd (Graph.before_size hv) (Graph.before_size hk) hvar htype hshape) rfl ⟨rfl, rfl⟩

/-- Nodes appended one after the other, with their handles. -/
inductive AppendedAll : Engine → List GraphNode → List Node → Engine → Prop
  | nil {e : Engine} : AppendedAll e [] [] e
  | cons {e e₁ e' : Engine} {n : GraphNode} {handle : Node} {ns : List GraphNode}
      {handles : List Node} (head : Appended e n handle e₁)
      (tail : AppendedAll e₁ ns handles e') : AppendedAll e (n :: ns) (handle :: handles) e'

/-- Appending several nodes is a change. -/
theorem AppendedAll.changes {e' : Engine} {ns : List GraphNode} {handles : List Node}
    (h : AppendedAll e ns handles e') : Changes e e' := by
  induction h with
  | nil => exact .refl
  | cons head _ ih => exact .head head.change ih

/-- Derivatives are appended one by one, as far as it goes. -/
theorem leads_mapM_gradient {loss : Nat} (hloss : e.graph.nodes[loss]? = some n)
    (htype : n.type = .f32) (targets : List Node) :
    Leads (targets.mapM (gradient loss)) e
      (fun e' => ∃ ns handles, AppendedAll e ns handles e' ∧
        ∀ n ∈ ns, ∃ target, n.op = .gradient loss target)
      fun handles e' => ∃ ns, AppendedAll e ns handles e' ∧
        List.Forall₂ (fun target n => n.op = .gradient loss target.index ∧ n.name = none)
          targets ns := by
  -- the loss stays in its slot while the derivatives are appended
  induction targets generalizing e with
  | nil => exact leads_pure ⟨[], .nil, .nil⟩
  | cons target targets ih =>
    rw [List.mapM_cons]
    refine leads_bind_iff.2 (Leads.imp (appends_gradient hloss htype target) ?_ ?_)
    · rintro _ rfl
      exact ⟨_, _, .nil, by simp⟩
    · rintro handle e₁ ⟨k, hk, hhead⟩
      refine leads_bind_iff.2 ((ih (hhead.change.getElem? hloss)).imp ?_ ?_)
      · rintro e' ⟨ns, handles, htail, hns⟩
        exact ⟨_, _, .cons hhead htail, List.forall_mem_cons.2 ⟨⟨_, hk.1⟩, hns⟩⟩
      · rintro handles e' ⟨ns, htail, hns⟩
        exact leads_pure ⟨k :: ns, .cons hhead htail, .cons hk hns⟩

/-- The derivatives by some variables are appended in the order of the variables. A variable at
fault leaves the derivatives by earlier ones behind. -/
theorem leads_gradients (loss : Node) (targets : List Node) :
    Leads (gradients loss targets) e
      (fun e' => ∃ ns handles, AppendedAll e ns handles e' ∧
        ∀ n ∈ ns, ∃ target, n.op = .gradient loss.index target)
      fun handles e' => ∃ ns, AppendedAll e ns handles e' ∧
        List.Forall₂ (fun target n => n.op = .gradient loss.index target.index ∧ n.name = none)
          targets ns := by
  have h₀ : ∃ ns handles, AppendedAll e ns handles e ∧
      ∀ n ∈ ns, ∃ target, n.op = .gradient loss.index target := ⟨_, _, .nil, by simp⟩
  refine leads_located h₀ fun found hfound => leads_expectFloat h₀ fun htype => ?_
  rw [← hfound.slot]
  exact leads_mapM_gradient hfound.found htype targets

/-- Derivatives only make changes. -/
theorem changing_gradients (loss : Node) (targets : List Node) :
    Changing (gradients loss targets) := by
  refine fun e _ => (leads_gradients loss targets).imp ?_ ?_
  · rintro e' ⟨ns, handles, h, -⟩
    exact h.changes
  · rintro handles e' ⟨ns, h, -⟩
    exact h.changes

end Engine
end TensorGraph
