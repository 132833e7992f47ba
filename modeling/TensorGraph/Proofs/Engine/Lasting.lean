import TensorGraph.Proofs.Network.Retracing
import TensorGraph.Proofs.Run.Refusing
import TensorGraph.Proofs.Run.Widening

/-!
# What lasts

A graph is never taken back: nodes stay in their slots as they are, and names stay bound to their
nodes, whatever is asked of the engine later and whether it is granted or not. A name is bound once,
by the request that registers a node under it. A placeholder may be asked for again, which gives the
one that there is. So a function that has been bound goes on denoting what it was bound over.

## Main definitions

* `Request.name?`: the name that a request registers a node under.
* `Engine.afterAll`: the engine that requests lead to, one after the other.
* `Engine.Names`: a free name that is bound to a new node.
* `Failure.Blames`: failures that blame a function for what it is over.

## Main results

* `Engine.leads_named`: a request with a name binds it, or asks for a placeholder again.
* `Engine.bindings_last`: what lasts while requests are made.
-/

namespace TensorGraph

/-- The name that a request registers a node under, if it does so. -/
def Request.name? : Request → Option String
  | placeholder name _ | weights _ _ name | stateVariable _ _ name | counter _ name => some name
  | constant _ name | dot _ _ name | biasAdd _ _ name | binary _ _ _ name | unary _ _ name
  | clip _ _ _ name | float _ name | dropout _ _ _ name | mean _ name | reduceSum _ name
  | sigmoidCrossEntropy _ _ name | softmaxCrossEntropy _ _ name => name
  | _ => none

/-- The node of a request is appended under the name that was asked for. -/
theorem Request.name?_eq_of_appended? {r : Request} {op : Op} {name : Option String}
    (h : r.appended? = some (op, name)) : r.name? = name := by
  cases r <;> cases h <;> rfl

/-- Failures that blame a function for what it is over: another graph, nodes of a wrong kind, or
nodes that the graph does not have. -/
inductive Failure.Blames (f : Function) : Failure → Prop
  | graph {g : Nat} : Blames f (.error (.foreignFunction g))
  | kind {node expected actual : String} :
    Blames f (.error (.invalidNodeKind node expected actual))
  | unknown {n : Node} (mem : n ∈ f.inputs ++ (f.outputs ++ f.updates)) :
    Blames f (.error (.unknownNode n))

namespace Engine

variable {e e' : Engine} {name : String}

/-- The engine that requests lead to, one after the other. -/
def afterAll (e : Engine) (rs : List Request) : Engine := rs.foldl (fun e r => e.after r.call) e

/-- Requests lead to engines that can be reached. -/
theorem Reachable.afterAll (h : e.Reachable) (rs : List Request) : (e.afterAll rs).Reachable := by
  induction rs generalizing e with
  | nil => exact h
  | cons r rs ih => exact ih (h.request r)

theorem afterAll_append (e : Engine) (before after : List Request) :
    e.afterAll (before ++ after) = (e.afterAll before).afterAll after := List.foldl_append

/-- Requests only make changes. -/
theorem Sound.changes_afterAll (h : e.Sound) (rs : List Request) : Changes e (e.afterAll rs) := by
  induction rs generalizing e with
  | nil => exact .refl
  | cons r rs ih =>
    have hfirst : Changes e (e.after r.call) := (r.changing e h).after
    exact hfirst.trans (ih (hfirst.sound h))

/-- Requests only make changes. -/
theorem Reachable.changes_afterAll (h : e.Reachable) (rs : List Request) :
    Changes e (e.afterAll rs) :=
  h.sound.changes_afterAll rs

/-! ## Names -/

/-- A name that was free, and is bound to a node that is new. -/
structure Names (name : String) (e e' : Engine) : Prop where
  free : e.find? name = none
  bound : ∃ handle, e'.find? name = some handle ∧ e.graph.size ≤ handle.index

/-- A name is found if it is bound in the graph of the engine. -/
theorem find?_eq_some_iff {handle : Node} :
    e.find? name = some handle ↔ handle.graph = e.graph.id ∧
      e.graph.find? name = some handle.index := by
  rw [find?, Option.map_eq_some_iff]
  constructor
  · rintro ⟨slot, hslot, rfl⟩
    exact ⟨rfl, hslot⟩
  · rintro ⟨hgraph, hslot⟩
    exact ⟨_, hslot, by rw [Graph.handle, ← hgraph]⟩

/-- Registering a node under a free name, perhaps after others. -/
theorem names_of_declare {e₁ : Engine} {n : GraphNode} (hearlier : Changes e e₁)
    (hgraph : e'.graph = e₁.graph.declare n) (hname : n.name = some name)
    (hfree : e₁.graph.find? name = none) : Names name e e' where
  free := by rw [find?, hearlier.find?_eq_none hfree, Option.map_none]
  bound := by
    have hnew : e'.graph.find? name = some e₁.graph.size := by
      rw [hgraph, Graph.find?_declare, Graph.find?_push, if_pos hname]
    exact ⟨e'.graph.handle e₁.graph.size, find?_eq_some_iff.2 ⟨rfl, hnew⟩,
      hearlier.extends.size_le⟩

/-- A node that is appended under a name gets it. -/
theorem Appended.names {n : GraphNode} {handle : Node} (h : Appended e n handle e')
    (hname : n.name = some name) : Names name e e' := by
  refine names_of_declare (n := n) .refl ?_ hname (h.fresh name hname)
  rw [h.engine, Graph.declare_of_not_isTrainable (Op.isTrainable_of_not_isVariable h.stateless)]

/-- A variable that is created under a name gets it. -/
theorem Created.names {n made : GraphNode} {init : Node} {e₁ : Engine} {s : Session}
    {ev : Evaluation Float32} {handle : Node} (h : Created e n made init e₁ s ev handle e')
    (hname : n.name = some name) : Names name e e' :=
  names_of_declare (.single h.appended.change) h.graph hname (h.fresh name hname)

/-- The placeholder that has a name and a shape. -/
structure Placed (e : Engine) (name : String) (shape : DeclaredShape) (handle : Node) : Prop where
  name : e.find? name = some handle
  node : ∃ n, e.graph.nodes[handle.index]? = some n ∧ n.op.isPlaceholder ∧ n.shape = shape

/-- On a sound engine a node that is a placeholder holds numbers. -/
theorem Placed.holds {shape : DeclaredShape} {handle : Node} (h : e.Placed name shape handle)
    (hsound : e.Sound) : e.graph.Holds handle ⟨.placeholder, shape, .f32, some name⟩ := by
  obtain ⟨hgraph, hslot⟩ := find?_eq_some_iff.1 h.name
  obtain ⟨n, hn, hop, rfl⟩ := h.node
  obtain ⟨k, hk, hname⟩ := hsound.indexed.find?_eq_some_iff.1 hslot
  obtain rfl := Option.some.inj (hn.symm.trans hk)
  refine ⟨hgraph, hn.trans ?_⟩
  have htyped := hsound.typed.node hn
  obtain ⟨op, shape, type, name'⟩ := n
  cases op <;> cases hop
  cases htyped
  rw [← hname]

/-- What has been registered under a name is found again when the graph has grown. -/
theorem Placed.changes {shape : DeclaredShape} {handle : Node} (h : e.Placed name shape handle)
    (hchanges : Changes e e') : e'.Placed name shape handle := by
  obtain ⟨hgraph, hslot⟩ := find?_eq_some_iff.1 h.name
  obtain ⟨n, hn, hop, hshape⟩ := h.node
  exact ⟨find?_eq_some_iff.2 ⟨hgraph.trans hchanges.extends.id.symm, hchanges.find?_eq_some hslot⟩,
    n, hchanges.getElem? hn, hop, hshape⟩

/-- A request with a name binds the name when it is granted, or asks for a placeholder again and
changes nothing. -/
theorem leads_named {r : Request} (hr : r.name? = some name) :
    Leads r.call e (fun _ => True) fun _ e' => Names name e e' ∨
      ∃ shape handle, r = .placeholder name shape ∧ e.Placed name shape handle ∧ e' = e := by
  have created (shape : DeclaredShape) (initializer : Initializer) (trainable : Bool) :
      Leads (createVariable shape initializer name trainable) e (fun _ => True)
        fun _ e' => Names name e e' := by
    refine (leads_createVariable shape initializer name trainable).imp (fun _ _ => trivial) ?_
    rintro handle e' ⟨made, init, e₁, s, ev, -, h⟩
    exact h.names rfl
  cases happended : r.appended? with
  | some appended =>
    obtain ⟨c, hcall, hc⟩ := Request.exists_appends happended
    have hname : appended.2 = some name := (Request.name?_eq_of_appended? happended).symm.trans hr
    rw [hcall]
    refine Leads.discard (Leads.imp (hc e) (fun _ _ => trivial) ?_)
    rintro handle e' ⟨n, hn, h⟩
    exact .inl (h.names (hn.2.trans hname))
  | none =>
    cases r with
    | placeholder name shape =>
      cases hr
      refine Leads.discard ((leads_placeholder name shape).imp (fun _ _ => trivial) ?_)
      rintro handle e' (⟨rfl, slot, n, rfl, hslot, hn, hop, hshape⟩ | ⟨n, ⟨-, -, hname⟩, h⟩)
      · exact .inr ⟨shape, e'.graph.handle slot, rfl,
          ⟨find?_eq_some_iff.2 ⟨rfl, hslot⟩, n, hn, hop, hshape⟩, rfl⟩
      · exact .inl (h.names hname)
    | weights shape initializer name =>
      cases hr
      exact Leads.discard ((created shape initializer true).mono fun _ _ => .inl)
    | stateVariable shape initializer name =>
      cases hr
      exact Leads.discard ((created shape initializer false).mono fun _ _ => .inl)
    | counter initial name =>
      cases hr
      refine Leads.discard ((leads_declare initial name).imp (fun _ _ => trivial) ?_)
      rintro handle e' ⟨s, hs, hfree, -, rfl⟩
      exact .inl (names_of_declare (n := ⟨.variable false none, [], .i64, some name⟩) .refl rfl rfl
        hfree)
    | gradients | function | run | execute | executePositional | readVariable | readShape | readType
      | readInitializer | dispose => cases hr
    | _ => cases happended

/-! ## What lasts -/

/-- A run is never refused for the nodes that its function is over. -/
theorem not_blames_of_run {f : Function} (hsound : e.Sound) (hf : f.Over e.graph)
    (feeds : List (Node × Value)) : FailsBy (fun failure => ¬failure.Blames f) (run f feeds) e := by
  have hfound := hf.within
  intro failure e' hrun hblames
  cases refusal_of_run hsound _ _ hrun with
  | disposed => cases hblames
  | foreign different => exact different hf.graph
  | feed _ refused =>
    cases refused with
    | unknown missing =>
      -- a feed that is refused as unknown is for no node of the function
      cases hblames with
      | unknown mem =>
        obtain ⟨found, hlocated⟩ := hfound _ mem
        exact missing found hlocated
    | mistyped | misshapen | empty => cases hblames
  | unknown mem missing =>
    obtain ⟨found, hlocated⟩ := hfound _ (List.mem_append_right _ mem)
    exact missing found hlocated
  | @evaluation _ _ _ k _ _ _ _ _ obstacle =>
    generalize k.op = op at obstacle
    cases obstacle with
    | unfed | mismatched | unstretched => cases hblames
    | @unsampled _ _ _ _ defect => cases defect <;> cases hblames

/-- Whatever is asked of an engine later, and whether it is granted or not, every node stays in its
slot as it is and every name stays bound. While the session is there, a placeholder is given back
when it is asked for again, and nothing changes; any other request with a name is only granted for a
name that is free, and binds it to a new node. A function that has been bound stays a function over
the same nodes, and no run of it is refused for these. -/
theorem bindings_last (h : e.Reachable) (rs : List Request) :
    (∀ (slot : Nat) n, e.graph.nodes[slot]? = some n →
      (e.afterAll rs).graph.nodes[slot]? = some n) ∧
    (∀ name handle, e.find? name = some handle → (e.afterAll rs).find? name = some handle) ∧
    (∀ name shape handle, e.Placed name shape handle → (e.afterAll rs).session.isSome →
      placeholder name shape (e.afterAll rs) = .ok handle (e.afterAll rs)) ∧
    (∀ (r : Request) name, r.name? = some name → gives r.call (e.afterAll rs) →
      Names name (e.afterAll rs) ((e.afterAll rs).after r.call) ∨
        ∃ shape handle, r = .placeholder name shape ∧ (e.afterAll rs).Placed name shape handle ∧
          (e.afterAll rs).after r.call = e.afterAll rs) ∧
    ∀ inputs outputs updates f e₁, function inputs outputs updates e = .ok f e₁ →
      f = .ofNodes e.graph.id inputs outputs updates ∧ f.Over (e.afterAll rs).graph ∧
      (∀ n ∈ inputs ++ (outputs ++ updates), ∃ found, Located e.graph n found ∧
        Located (e.afterAll rs).graph n found) ∧
      ∀ defaults phase feeds failure e₂,
        run { f with defaults := defaults, phase := phase } feeds (e.afterAll rs) =
          .error failure e₂ → ¬failure.Blames f := by
  have hchanges := h.changes_afterAll rs
  have hext := hchanges.extends
  have hsound := (h.afterAll rs).sound
  refine ⟨fun slot n hn => hext.node hn, fun name handle hbound => ?_,
    fun name shape handle hplaced hactive => ?_, fun r name hr hgives => ?_,
    fun inputs outputs updates f e₁ hf => ?_⟩
  · obtain ⟨hgraph, hslot⟩ := find?_eq_some_iff.1 hbound
    exact find?_eq_some_iff.2 ⟨hgraph.trans hext.id.symm, hchanges.find?_eq_some hslot⟩
  · exact placeholder_eq_of_holds hsound hactive ((hplaced.changes hchanges).holds hsound)
  · obtain ⟨_, e₁, hcall⟩ := exists_of_gives hgives
    have hafter : (e.afterAll rs).after r.call = e₁ := by rw [after, hcall]
    rw [hafter]
    exact (leads_named hr).of_eq_ok hcall
  · have hover := over_of_function hf
    obtain ⟨-, rfl⟩ := (leads_function inputs outputs updates).of_eq_ok hf
    refine ⟨rfl, hover.extend hext, fun n hn => ?_, fun defaults phase feeds failure e₂ hrun => ?_⟩
    · obtain ⟨found, hfound⟩ := hover.within n hn
      exact ⟨found, hfound, hfound.extend hext⟩
    · obtain ⟨graph, input, output, update⟩ := hover.extend hext
      -- neither the phase nor the defaults are part of what is checked
      have hnot := not_blames_of_run hsound (f := { Function.ofNodes e.graph.id inputs outputs
        updates with defaults := defaults, phase := phase }) ⟨graph, input, output, update⟩ feeds
      exact fun hblames => hnot _ _ hrun (by cases hblames <;> constructor; assumption)

/-- An engine with a placeholder, a counter, and the squares of what is fed. -/
def squaring : Engine :=
  built [.placeholder "x" [openAxis], .counter 5 "steps", .unary .square ⟨0, 0⟩ (some "squares")]

/-- What is asked of it later: a name in use is refused, a run that is not fed fails, another
placeholder is appended, and a name that is free is bound. -/
def furtherRequests : List Request :=
  [.counter 1 "squares", .run (.ofNodes 0 [⟨0, 0⟩] [⟨0, 2⟩] []) [], .placeholder "y" [1],
    .updateAdd ⟨0, 1⟩ ⟨0, 1⟩, .weights [2] .zeros "w"]

/-- Then the placeholder is given back, the squares bear their name, and running the function that
gives the squares is not refused for what it is over. -/
theorem squaring_lasts :
    placeholder "x" [openAxis] (squaring.afterAll furtherRequests) =
      .ok ⟨0, 0⟩ (squaring.afterAll furtherRequests) ∧
    (squaring.afterAll furtherRequests).find? "squares" = some ⟨0, 2⟩ ∧
    (squaring.afterAll furtherRequests).graph.size = 7 ∧
    ∀ failure e₂, run (.ofNodes 0 [⟨0, 0⟩] [⟨0, 2⟩] []) [] (squaring.afterAll furtherRequests) =
      .error failure e₂ → ¬failure.Blames (.ofNodes 0 [⟨0, 0⟩] [⟨0, 2⟩] []) := by
  have hreachable : squaring.Reachable := reachable_built _
  obtain ⟨-, hnames, hplaced, -, hfunctions⟩ := bindings_last hreachable furtherRequests
  have hx : squaring.Placed "x" [openAxis] ⟨0, 0⟩ := by
    have hnode : (squaring.graph.nodes[0]?).any
        fun n => n.op.isPlaceholder && n.shape == [openAxis] := by decide +kernel
    obtain ⟨n, hn, hsame⟩ := (Option.any_eq_true _ _).1 hnode
    obtain ⟨hop, hshape⟩ := (Bool.and_eq_true _ _).mp hsame
    exact ⟨by decide +kernel, n, hn, hop, by simpa using hshape⟩
  -- the function over the squares can be bound, so it is one that lasts
  obtain ⟨f, e₁, hf⟩ := exists_of_gives (c := function [⟨0, 0⟩] [⟨0, 2⟩] []) (e := squaring)
    (by decide +kernel)
  have hid : squaring.graph.id = 0 := by decide +kernel
  obtain ⟨hbound, -, -, hrefused⟩ := hfunctions _ _ _ f e₁ hf
  rw [hid] at hbound
  subst hbound
  exact ⟨hplaced "x" [openAxis] ⟨0, 0⟩ hx (by decide +kernel),
    hnames "squares" ⟨0, 2⟩ (by decide +kernel), by decide +kernel,
    fun failure e₂ hrun => hrefused [] .inference [] failure e₂ hrun⟩

end Engine
end TensorGraph
