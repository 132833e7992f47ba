import TensorGraph.Proofs.Engine.Running

/-!
# Calls that lay down nodes

How many nodes a building call appends and which names it gives to them does not depend on the
engine. So calls that build one part after the other put every part at a slot that can be told
beforehand, and a name that none of them gives stays free.

## Main definitions

* `Engine.Lays`: an engine with a number of further nodes that are named from a list.
* `Engine.Laying`: calls that lay down such nodes whenever they succeed.

## Main results

* `Engine.laying_createVariable`: a variable is laid down after the node of its first value.
-/

namespace TensorGraph.Engine

variable {α β : Type} {e e' e'' : Engine} {count more : Nat} {names others : List String}

/-- An engine with a number of further nodes. Their names are in a list, and what streams without
seeds are derived from has not changed. -/
structure Lays (count : Nat) (names : List String) (e e' : Engine) : Prop where
  size : e'.graph.size = e.graph.size + count
  entropy : e'.session.map (·.entropy) = e.session.map (·.entropy)
  free : ∀ s ∉ names, e.graph.find? s = none → e'.graph.find? s = none

namespace Lays

theorem refl (e : Engine) : Lays 0 [] e e := ⟨rfl, rfl, fun _ _ h => h⟩

/-- Nodes and names are laid down one batch after the other. -/
theorem trans (h : Lays count names e e') (h' : Lays more others e' e'') :
    Lays (count + more) (names ++ others) e e'' where
  size := by rw [h'.size, h.size, Nat.add_assoc]
  entropy := h'.entropy.trans h.entropy
  free s hs hfree := by
    rw [List.mem_append, not_or] at hs
    exact h'.free s hs.2 (h.free s hs.1 hfree)

/-- The engine stays alive. -/
theorem active (h : Lays count names e e') (hactive : e.session.isSome) : e'.session.isSome := by
  have hsome := congrArg Option.isSome h.entropy
  rwa [Option.isSome_map, Option.isSome_map, hactive] at hsome

end Lays

/-- A node that is appended to the graph, and listed if it is trained. -/
theorem lays_declare {n : GraphNode} (hgraph : e'.graph = e.graph.declare n)
    (hentropy : e'.session.map (·.entropy) = e.session.map (·.entropy)) :
    Lays 1 n.name.toList e e' where
  size := by
    rw [hgraph, Graph.size_declare]
    exact Array.size_push _
  entropy := hentropy
  free s hs hfree := by
    rw [hgraph, Graph.find?_declare]
    exact Graph.find?_push_eq_none_iff.2 ⟨hfree, by simpa using hs⟩

/-- A node that is appended is laid down under its name. -/
theorem Appended.lays {n : GraphNode} {handle : Node} {name : Option String}
    (h : Appended e n handle e') (hname : n.name = name) : Lays 1 name.toList e e' := by
  have huntrained := Op.isTrainable_of_not_isVariable h.stateless
  obtain rfl := h.engine
  exact hname ▸ lays_declare (Graph.declare_of_not_isTrainable huntrained).symm rfl

/-- Making records lays nothing down. -/
theorem Lays.report (h : Lays count names e e') (hreported : Reported e' e'') :
    Lays count names e e'' := by
  obtain ⟨records, rfl⟩ := hreported
  exact ⟨h.size, h.entropy, h.free⟩

/-! ## Calls -/

/-- A call that lays down a number of nodes, named from a list, when it succeeds. -/
def Laying (count : Nat) (names : List String) (c : Call α) : Prop :=
  ∀ e, Leads c e (fun _ => True) fun _ e' => Lays count names e e'

theorem Laying.of_eq_ok {c : Call α} {a : α} (hc : Laying count names c) (h : c e = .ok a e') :
    Lays count names e e' := (hc e).of_eq_ok h

/-- One call after the other lays down what each of them does. -/
theorem Laying.bind {c : Call α} {f : α → Call β} (hc : Laying count names c)
    (hf : ∀ a, Laying more others (f a)) : Laying (count + more) (names ++ others) (c >>= f) := by
  refine fun e => leads_bind_iff.2 ((hc e).mono fun a e₁ h => ?_)
  exact (hf a e₁).mono fun _ _ h' => h.trans h'

theorem laying_pure (a : α) : Laying 0 [] (pure a) := fun e => leads_pure (.refl e)

/-- A call that leaves the engine as it is lays down nothing. -/
theorem Keeps.laying {c : Call α} (hc : Keeps Eq c) : Laying 0 [] c := by
  refine fun e => (hc e).imp (fun _ _ => trivial) ?_
  rintro _ _ rfl
  exact .refl _

/-- A call that appends a node lays it down under its name. -/
theorem Appends.laying {c : Call Node} {P : Engine → GraphNode → Prop} {name : Option String}
    (hc : ∀ e, Appends c e (P e)) (hname : ∀ e n, P e n → n.name = name) :
    Laying 1 name.toList c := by
  refine fun e => Leads.imp (hc e) (fun _ _ => trivial) ?_
  rintro handle e' ⟨n, hn, happended⟩
  exact happended.lays (hname e n hn)

/-- The node of a first value has no name. -/
theorem appends_compile_unnamed (initializer : Initializer) (shape : DeclaredShape) :
    Appends (initializer.compile shape) e fun n => n.name = none := by
  cases initializer with
  | randomNormal mean stddev seed =>
    exact (appends_randomNormal shape mean stddev seed).imp fun _ h => h.2.2
  | randomUniform min max seed =>
    exact (appends_randomUniform shape min max seed).imp fun _ h => h.2.2
  | truncatedNormal mean stddev seed =>
    exact (appends_truncatedNormal shape mean stddev seed).imp fun _ h => h.2.2
  | zeros => exact (appends_fill shape 0).imp fun _ h => h.2.2
  | ones => exact (appends_fill shape 1).imp fun _ h => h.2.2
  | constant x =>
    unfold Initializer.compile
    cases shape.concrete? with
    | some dims => exact (appends_constant (.full dims x)).imp fun _ h => h.2
    | none => exact leads_refuse rfl

/-- A variable comes after the node of its first value. -/
theorem laying_createVariable (shape : DeclaredShape) (initializer : Initializer) (name : String)
    (trainable : Bool) : Laying 2 [name] (createVariable shape initializer name trainable) := by
  refine fun e => leads_checkActive trivial fun _ => leads_checkShape trivial fun _ _ =>
    leads_checkFresh trivial fun _ => leads_bind_iff.2 ?_
  refine Leads.imp (appends_compile_unnamed initializer shape) (fun _ _ => trivial) ?_
  rintro init e₁ ⟨made, hname, happended⟩
  refine leads_located trivial fun found _ => leads_unless trivial fun _ =>
    leads_evaluate trivial (fun _ _ _ _ _ => trivial) fun s ev hs _ =>
      leads_bind_iff.2 (leads_register trivial fun _ _ => ?_)
  refine leads_bind_iff.2 (leads_train_if ?_)
  refine (happended.lays hname).trans (lays_declare
    (n := ⟨.variable trainable (some found.1), shape, .f32, some name⟩) rfl ?_)
  rw [hs]
  rfl

end TensorGraph.Engine
