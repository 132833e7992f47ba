import Mathlib.Logic.Relation
import TensorGraph.Engine.Function
import TensorGraph.Proofs.Graph.Indexing

/-!
# Changes of an engine

All that a call can do to an engine, as a few elementary changes. A node is appended together with
everything that registering it checks, a variable together with its first value; a variable is only
ever given values of its own shape; a disposed session does not come back.

## Main definitions

* `Engine.Sound`: the graph is typed, and a session holds a tensor of the declared shape for every
  variable and for nothing else.
* `Engine.Change` and `Engine.Changes`: one change, and any number of them.

## Main results

* `Engine.Changes.sound`: changes keep an engine sound.
-/

namespace TensorGraph

/-- A session holds a tensor of the declared shape for every variable of a graph and for nothing
else. -/
structure Session.Holds (s : Session) (g : Graph) : Prop where
  /-- Only variables have values, and these have the shapes that their nodes declare. -/
  shape : ∀ {slot : Nat} {t : Tensor Float32}, s.store.get? slot = some t →
    ∃ n, g.nodes[slot]? = some n ∧ n.op.isVariable ∧ n.shape.concrete? = some t.shape
  /-- Every variable has a value. -/
  isSome : ∀ {slot : Nat} {n : GraphNode}, g.nodes[slot]? = some n → n.op.isVariable →
    (s.store.get? slot).isSome

namespace Session.Holds

variable {s : Session} {g : Graph}

/-- A node that is no variable needs no value. -/
theorem append (h : s.Holds g) {n : GraphNode} (hn : n.op.isVariable = false) :
    s.Holds (g.push n) where
  shape ht := by
    obtain ⟨m, hm, hvar, hshape⟩ := h.shape ht
    exact ⟨m, Graph.getElem?_push_eq_some_iff.2 (.inl hm), hvar, hshape⟩
  isSome hm hvar := by
    rcases Graph.getElem?_push_eq_some_iff.1 hm with hold | ⟨-, rfl⟩
    · exact h.isSome hold hvar
    · rw [hn] at hvar
      cases hvar

theorem declare (h : s.Holds g) {n : GraphNode} {t : Tensor Float32} (hvar : n.op.isVariable)
    (hshape : n.shape.concrete? = some t.shape) :
    Holds { s with store := s.store.insert g.size t } (g.declare n) where
  shape {slot u} hu := by
    simp only at hu
    by_cases hslot : slot = g.size
    · subst hslot
      rw [SlotMap.get?_insert_self, Option.some.injEq] at hu
      exact ⟨n, Graph.getElem?_declare_eq_some_iff.2 (.inr ⟨rfl, rfl⟩), hvar, hu ▸ hshape⟩
    · rw [SlotMap.get?_insert_of_ne _ _ hslot] at hu
      obtain ⟨m, hm, hvar, hshape⟩ := h.shape hu
      exact ⟨m, Graph.getElem?_declare_eq_some_iff.2 (.inl hm), hvar, hshape⟩
  isSome {slot m} hm hvar := by
    -- an old variable keeps its value, and the only new node has been given one
    simp only
    by_cases hslot : slot = g.size
    · simp [hslot]
    · rw [SlotMap.get?_insert_of_ne _ _ hslot]
      rcases Graph.getElem?_declare_eq_some_iff.1 hm with hold | ⟨hself, -⟩
      · exact h.isSome hold hvar
      · exact absurd hself hslot

theorem assign (h : s.Holds g) {slot : Nat} {n : GraphNode} {t : Tensor Float32}
    (hn : g.nodes[slot]? = some n) (hvar : n.op.isVariable)
    (hshape : n.shape.concrete? = some t.shape) :
    Holds { s with store := s.store.insert slot t } g where
  shape {other u} hu := by
    simp only at hu
    -- the new value has the shape of its variable, and the others are as they were
    by_cases hother : other = slot
    · subst hother
      rw [SlotMap.get?_insert_self, Option.some.injEq] at hu
      exact ⟨n, hn, hvar, hu ▸ hshape⟩
    · rw [SlotMap.get?_insert_of_ne _ _ hother] at hu
      exact h.shape hu
  isSome {other m} hm hvar := by
    simp only
    by_cases hother : other = slot
    · simp [hother]
    · rw [SlotMap.get?_insert_of_ne _ _ hother]
      exact h.isSome hm hvar

end Session.Holds

namespace Engine

/-- The states of engines that calls keep to. -/
structure Sound (e : Engine) : Prop where
  /-- The graph is typed. -/
  typed : e.graph.Typed
  /-- The table of names and the list of trained variables are those of the nodes. -/
  indexed : e.graph.Indexed
  /-- A live session holds the variables of the graph. -/
  holds : ∀ {s : Session}, e.session = some s → s.Holds e.graph

/-- An elementary change of an engine. -/
inductive Change : Engine → Engine → Prop
  /-- A node that is no variable is appended under a fresh name. -/
  | append {e : Engine} {n : GraphNode} (active : e.session.isSome)
      (typed : n.op.Typed (e.graph.before e.graph.size) n.shape n.type)
      (fresh : ∀ name, n.name = some name → e.graph.find? name = none)
      (stateless : n.op.isVariable = false) : Change e { e with graph := e.graph.push n }
  /-- A variable is appended under a fresh name and given its first value, and listed if it is
  trained. -/
  | declare {e : Engine} {s : Session} {n : GraphNode} {t : Tensor Float32}
      (active : e.session = some s)
      (typed : n.op.Typed (e.graph.before e.graph.size) n.shape n.type)
      (fresh : ∀ name, n.name = some name → e.graph.find? name = none)
      (isVariable : n.op.isVariable) (shape : n.shape.concrete? = some t.shape) :
      Change e { e with
        graph := e.graph.declare n
        session := some { s with store := s.store.insert e.graph.size t } }
  /-- A variable is given another value. -/
  | assign {e : Engine} {s : Session} {slot : Nat} {n : GraphNode} {t : Tensor Float32}
      (active : e.session = some s) (node : e.graph.nodes[slot]? = some n)
      (isVariable : n.op.isVariable) (shape : n.shape.concrete? = some t.shape) :
      Change e { e with session := some { s with store := s.store.insert slot t } }
  /-- Streams are drawn from. -/
  | draw {e : Engine} {s : Session} (active : e.session = some s) (streams : SlotMap Stream) :
      Change e { e with session := some { s with streams := streams } }
  /-- Records are made. -/
  | report {e : Engine} (records : Array Record) :
      Change e { e with journal := e.journal ++ records }
  /-- The session is ended. -/
  | dispose {e : Engine} : Change e { e with session := none }

/-- Any number of changes. -/
def Changes : Engine → Engine → Prop := Relation.ReflTransGen Change

theorem sound_create (id : Nat) (entropy : UInt64) : (create id entropy).Sound where
  typed := Graph.typed_empty id
  indexed := Graph.indexed_empty id
  holds h := by
    cases h
    constructor <;> simp [create, Graph.empty]

/-- An elementary change keeps an engine sound. -/
theorem Change.sound {e e' : Engine} (h : Change e e') (hsound : e.Sound) : e'.Sound := by
  cases h with
  | append _ typed fresh stateless =>
    exact ⟨hsound.typed.push typed,
      hsound.indexed.push fresh (Op.isTrainable_of_not_isVariable stateless),
      fun hs => (hsound.holds hs).append stateless⟩
  | declare active typed fresh isVariable shape =>
    refine ⟨hsound.typed.declare typed, hsound.indexed.declare fresh, fun hs => ?_⟩
    cases hs
    exact (hsound.holds active).declare isVariable shape
  | assign active node isVariable shape =>
    refine ⟨hsound.typed, hsound.indexed, fun hs => ?_⟩
    cases hs
    exact (hsound.holds active).assign node isVariable shape
  | draw active streams =>
    -- streams are no part of what a session must hold
    refine ⟨hsound.typed, hsound.indexed, fun hs => ?_⟩
    cases hs
    exact ⟨(hsound.holds active).shape, (hsound.holds active).isSome⟩
  | report records => exact ⟨hsound.typed, hsound.indexed, hsound.holds⟩
  | dispose => exact ⟨hsound.typed, hsound.indexed, fun hs => by cases hs⟩

/-- A session that is alive has not been ended before. -/
theorem Changes.isSome {e e' : Engine} (h : Changes e e') (hactive : e'.session.isSome) :
    e.session.isSome := by
  induction h with
  | refl => exact hactive
  | tail _ hstep ih =>
    refine ih ?_
    cases hstep with
    | append active => exact active
    | declare active | assign active | draw active => rw [active]; rfl
    | report => exact hactive
    | dispose => cases hactive

/-- A name that is free has always been free. -/
theorem Changes.find?_eq_none {e e' : Engine} (h : Changes e e') {name : String}
    (hfree : e'.graph.find? name = none) : e.graph.find? name = none := by
  induction h with
  | refl => exact hfree
  | tail _ hstep ih =>
    refine ih ?_
    cases hstep with
    | append => exact (Graph.find?_push_eq_none_iff.1 hfree).1
    | declare =>
      rw [Graph.find?_declare] at hfree
      exact (Graph.find?_push_eq_none_iff.1 hfree).1
    | assign | draw | report | dispose => exact hfree

/-- A name stays bound to its slot, since only free names are bound. -/
theorem Changes.find?_eq_some {e e' : Engine} (h : Changes e e') {name : String} {slot : Nat}
    (hbound : e.graph.find? name = some slot) : e'.graph.find? name = some slot := by
  induction h with
  | refl => exact hbound
  | @tail e₁ _ _ hstep ih =>
    have hkept : ∀ n : GraphNode,
        (∀ name, n.name = some name → e₁.graph.find? name = none) →
        (e₁.graph.push n).find? name = some slot := fun n hfresh => by
      have hne : n.name ≠ some name := fun hname => by cases (hfresh name hname).symm.trans ih
      rw [Graph.find?_push, if_neg hne, ih]
    cases hstep with
    | append _ _ fresh => exact hkept _ fresh
    | declare _ _ fresh => exact (Graph.find?_declare _ _ _).trans (hkept _ fresh)
    | assign | draw | report | dispose => exact ih

/-- Changes keep an engine sound. -/
theorem Changes.sound {e e' : Engine} (h : Changes e e') (hsound : e.Sound) : e'.Sound := by
  induction h with
  | refl => exact hsound
  | tail _ hstep ih => exact hstep.sound ih

end Engine
end TensorGraph
