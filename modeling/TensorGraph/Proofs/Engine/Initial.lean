import TensorGraph.Proofs.Engine.Running
import TensorGraph.Proofs.Evaluation.Drawing

/-!
# First values

While a graph is built and nothing is run on it, a variable keeps the value that it was created
with: what the node of its initializer gives before its stream has been drawn from. Building also
appends no update unless it is asked for one.

## Main definitions

* `Setting.Makes`: what a node gives before its stream has been drawn from.
* `Engine.Initialized`: engines whose variables hold their first values.
* `Engine.Buildable`: invariants that appending a node and creating a variable keep.

## Main results

* `Engine.buildable_initialized`: building keeps an engine initialized.
-/

namespace TensorGraph

/-- Whether an operation makes its value from nothing, as the nodes of initializers do. -/
def Op.isSource : Op → Bool
  | constant _ | random _ _ | fill _ => true
  | _ => false

/-- The node of an initializer is a source. -/
theorem Initializer.isSource_op (initializer : Initializer) (shape : DeclaredShape) :
    (initializer.op shape).isSource := by
  cases initializer <;> rfl

/-- Sources have no operands. -/
theorem Op.operands_of_isSource {op : Op} (h : op.isSource) : op.operands = [] := by
  cases op
  case constant | random | fill => rfl
  all_goals cases h

namespace Setting

variable {S : Type} [Scalar S] {env env' : Setting S} {slot : Nat} {n : GraphNode} {t : Tensor S}

/-- What the node in a slot gives before its stream has been drawn from. -/
def Makes (env : Setting S) (slot : Nat) (t : Tensor S) : Prop :=
  ∃ streams ev, streams.get? slot = none ∧ env.evaluate [slot] (.start streams) = .ok () ev ∧
    t = ev.known.value slot

/-- A source reads its own node and the entropy, and nothing else of a setting. -/
theorem evaluate_source (hn : env.graph.nodes[slot]? = some n)
    (hn' : env'.graph.nodes[slot]? = some n) (hentropy : env.entropy = env'.entropy)
    (hop : n.op.isSource) : env.evaluate [slot] = env'.evaluate [slot] := by
  have hlabel : env.graph.label slot = env'.graph.label slot := by
    simp only [Graph.label, hn, hn']
  have hshape : env.staticShape slot = env'.staticShape slot := by
    simp only [staticShape, hn, hn', hlabel]
  -- constants, samples and fills are the sources, and they have no operands
  have hslot : env.evaluateSlot slot = env'.evaluateSlot slot := by
    obtain ⟨op, shape, type, name⟩ := n
    cases op
    case constant | random | fill =>
      simp only [evaluateSlot, hn, hn', drawNoise, differentiate, compute, streamOf, hshape,
        hentropy]
    all_goals cases hop
  have hleaf := Op.operands_of_isSource hop
  rw [evaluate, evaluate, Graph.schedule_leaf hn hleaf, Graph.schedule_leaf hn' hleaf, evaluateAll,
    evaluateAll, hslot]
  rfl

/-- Evaluating a source draws from its own stream only. -/
theorem streams_of_source {ev ev' : Evaluation S} (hn : env.graph.nodes[slot]? = some n)
    (hop : n.op.isSource) (h : env.evaluate [slot] ev = .ok () ev') {k : Nat} (hk : k ≠ slot) :
    ev'.streams.get? k = ev.streams.get? k := by
  rw [evaluate, Graph.schedule_leaf hn (Op.operands_of_isSource hop)] at h
  exact (maintains_evaluateAll fun hmem => absurd (List.mem_singleton.1 hmem) hk).of_eq_ok rfl h

/-- What a source gives depends on its slot and on the entropy only. -/
theorem Makes.transfer (h : env.Makes slot t) (hn : env.graph.nodes[slot]? = some n)
    (hn' : env'.graph.nodes[slot]? = some n) (hentropy : env.entropy = env'.entropy)
    (hop : n.op.isSource) : env'.Makes slot t := by
  obtain ⟨streams, ev, hstream, hev, rfl⟩ := h
  exact ⟨streams, ev, hstream, evaluate_source hn hn' hentropy hop ▸ hev, rfl⟩

end Setting

namespace Engine

variable {e e' e₁ : Engine} {n made : GraphNode} {handle init : Node} {s : Session}
  {ev : Evaluation Float32}

/-- Invariants that building keeps: appending a node which is no update, creating a variable, and
making a record. -/
structure Buildable (I : Engine → Prop) : Prop where
  append : ∀ {e n handle e'}, I e → Appended e n handle e' → n.op.updated? = none → I e'
  create : ∀ {e n made init e₁ s ev handle e'}, I e → Created e n made init e₁ s ev handle e' →
    made.op.isSource → I e'
  report : ∀ {e e'}, I e → Reported e e' → I e'

/-- Engines whose variables hold their first values. -/
structure Initialized (e : Engine) : Prop where
  sound : e.Sound
  /-- Streams belong to nodes. -/
  drawn : ∀ {s slot}, e.session = some s → (s.streams.get? slot).isSome → slot < e.graph.size
  /-- A variable with an initializer holds what the initializer makes. -/
  made : ∀ {s slot n trainable init}, e.session = some s → e.graph.nodes[slot]? = some n →
    n.op = .variable trainable (some init) →
    ∃ made t, e.graph.nodes[init]? = some made ∧ made.op.isSource ∧ s.store.get? slot = some t ∧
      (e.setting s .inference .empty).Makes init t

theorem initialized_create (id : Nat) (entropy : UInt64) : (create id entropy).Initialized where
  sound := sound_create id entropy
  drawn hs := by
    cases hs
    simp
  made _ hn := by simp [create, Graph.empty] at hn

namespace Initialized

/-- Making records changes no variable. -/
theorem report (h : e.Initialized) (hreported : Reported e e') : e'.Initialized := by
  have hsound := hreported.changes.sound h.sound
  obtain ⟨records, rfl⟩ := hreported
  exact ⟨hsound, h.drawn, h.made⟩

/-- A node that is no variable leaves all variables alone. -/
theorem append (h : e.Initialized) (happended : Appended e n handle e') : e'.Initialized := by
  have hchange := happended.change
  have hstateless := happended.stateless
  obtain rfl := happended.engine
  refine ⟨hchange.sound h.sound, fun hs hdrawn => ?_, fun {s slot m _ _} hs hm hop => ?_⟩
  · exact Nat.lt_trans (h.drawn hs hdrawn) (Graph.lt_size_push e.graph n)
  · rcases Graph.getElem?_push_eq_some_iff.1 hm with hold | ⟨-, rfl⟩
    · obtain ⟨made, t, hmade, hsource, ht, hmakes⟩ := h.made hs hold hop
      have hmade' := hchange.getElem? hmade
      exact ⟨made, t, hmade', hsource, ht, hmakes.transfer hmade hmade' rfl hsource⟩
    · rw [hop] at hstateless
      cases hstateless

/-- A node that has just been appended has no stream. -/
theorem undrawn (h : e.Initialized) (happended : Appended e made init e₁)
    (hs : e₁.session = some s) : s.streams.get? init.index = none := by
  rw [← Option.not_isSome_iff_eq_none]
  intro hdrawn
  obtain rfl := happended.engine
  have hlt := h.drawn hs hdrawn
  rw [happended.handle] at hlt
  exact Nat.lt_irrefl _ hlt

/-- A new variable holds what its initializer makes, and the others keep their values. -/
theorem create (h : e.Initialized) (hcreated : Created e n made init e₁ s ev handle e')
    (hsource : made.op.isSource) : e'.Initialized := by
  have h₁ := h.append hcreated.appended
  have hinit := hcreated.appended.getElem?
  have hevaluated := hcreated.evaluated
  have hnodes : ∀ {slot : Nat} {m},
      e₁.graph.nodes[slot]? = some m → e'.graph.nodes[slot]? = some m := by
    intro slot m hm
    rw [hcreated.graph]
    exact Graph.getElem?_declare_eq_some_iff.2 (.inl hm)
  refine ⟨(hcreated.changes h.sound).sound h.sound, fun {s' slot} hs' hdrawn => ?_,
    fun {s' slot m _ init'} hs' hm hop => ?_⟩
  · -- only the initializer has drawn since, and it is a node
    obtain rfl := Option.some.inj (hcreated.session.symm.trans hs')
    rw [hcreated.graph]
    refine Nat.lt_trans ?_ (Graph.lt_size_declare e₁.graph n)
    by_cases hslot : slot = init.index
    · exact hslot ▸ Graph.lt_size_of_getElem? hinit
    · have hkept := Setting.streams_of_source hinit hsource hevaluated hslot
      exact h₁.drawn hcreated.active (hkept ▸ hdrawn)
  · obtain rfl := Option.some.inj (hcreated.session.symm.trans hs')
    rw [hcreated.graph] at hm
    -- an earlier variable keeps its value, and the new one has what was just evaluated
    rcases Graph.getElem?_declare_eq_some_iff.1 hm with hold | ⟨rfl, rfl⟩
    · obtain ⟨made', t, hmade, hsource', ht, hmakes⟩ := h₁.made hcreated.active hold hop
      have hslot : slot ≠ e₁.graph.size := Nat.ne_of_lt (Graph.lt_size_of_getElem? hold)
      exact ⟨made', t, hnodes hmade, hsource', (SlotMap.get?_insert_of_ne _ _ hslot).trans ht,
        hmakes.transfer hmade (hnodes hmade) rfl hsource'⟩
    · obtain ⟨_, hop'⟩ := hcreated.op
      obtain rfl := Option.some.inj (Op.variable.inj (hop'.symm.trans hop)).2
      have hmakes : (e₁.setting s .inference .empty).Makes init.index _ :=
        ⟨s.streams, ev, h.undrawn hcreated.appended hcreated.active, hevaluated, rfl⟩
      exact ⟨made, _, hnodes hinit, hsource, SlotMap.get?_insert_self _ _ _,
        hmakes.transfer hinit (hnodes hinit) rfl hsource⟩

end Initialized

/-- Building keeps variables at their first values. -/
theorem buildable_initialized : Buildable Initialized where
  append h happended _ := h.append happended
  create h hcreated hsource := h.create hcreated hsource
  report h hreported := h.report hreported

/-- Building keeps an engine sound. -/
theorem buildable_sound : Buildable Sound where
  append h happended _ := happended.change.sound h
  create h hcreated _ := (hcreated.changes h).sound h
  report h hreported := hreported.changes.sound h

namespace Buildable

variable {α : Type} {I : Engine → Prop}

/-! ## Calls that build -/

/-- A call that appends nodes which update nothing keeps what building keeps. -/
theorem appends (hI : Buildable I) {c : Call Node} {P : Engine → GraphNode → Prop}
    (h : ∀ e, Appends c e (P e)) (hP : ∀ e n, P e n → n.op.updated? = none) : Preserves I c := by
  intro e handle e' he hc
  obtain ⟨n, hn, happended⟩ := (h e).of_eq_ok hc
  exact hI.append he happended (hP e n hn)

/-- Asking for a placeholder keeps what building keeps. -/
theorem placeholder (hI : Buildable I) (name : String) (shape : DeclaredShape) :
    Preserves I (placeholder name shape) := by
  intro e handle e' he hc
  rcases (leads_placeholder name shape).of_eq_ok hc with ⟨rfl, -⟩ | ⟨n, ⟨hop, -⟩, happended⟩
  · exact he
  · exact hI.append he happended (by rw [hop]; rfl)

/-- Creating a variable keeps what building keeps. -/
theorem createVariable (hI : Buildable I) (shape : DeclaredShape) (initializer : Initializer)
    (name : String) (trainable : Bool) :
    Preserves I (createVariable shape initializer name trainable) := by
  intro e handle e' he hc
  obtain ⟨made, init, e₁, s, ev, hop, hcreated⟩ :=
    (leads_createVariable shape initializer name trainable).of_eq_ok hc
  exact hI.create he hcreated (hop ▸ initializer.isSource_op shape)

theorem reporting (hI : Buildable I) (r : Record) : Preserves I (Engine.report r) :=
  .modify fun _ he => hI.report he (reported_report r)

end Buildable

/-- A call that leaves engines as they are keeps every invariant. -/
theorem Keeps.preserves {α : Type} {I : Engine → Prop} {c : Call α} (hc : Keeps Eq c) :
    Preserves I c := by
  intro e a e' he h
  exact (hc e).of_eq_ok h ▸ he

theorem preserves_lift {α : Type} {I : Engine → Prop} (r : Except Error α) :
    Preserves I (lift r : Call α) := by
  cases r with
  | ok a => exact .pure a
  | error err => exact .throw _

end Engine
end TensorGraph
