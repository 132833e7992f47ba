import TensorGraph.Proofs.Engine.Initial
import TensorGraph.Proofs.Engine.Reachable

/-!
# What requests append

What a request does to the graph, for properties that follow from it alone. Most requests append one
node or leave the graph as it is; a weight or a state variable comes with the node of its
initializer. The parameters of the operation have been checked by then: a deviation is finite and
not negative, a range of samples is not empty, and a rate of dropping is a proper probability. So
evaluating a graph never meets parameters that are out of range.

## Main definitions

* `Op.InRange`: parameters that registering an operation accepts.
* `Engine.Built`: what a request that evaluates nothing makes of an engine.
* `Graph.Ranged`: every operation of a graph has parameters in range.

## Main results

* `Request.built`: where requests that evaluate nothing lead.
* `Growable.keeps`: what holds of everything that requests append.
* `Engine.Reachable.ranged`: every reachable graph has parameters in range.
-/

namespace TensorGraph

/-- Distributions that a random node is registered for. -/
def Sampler.Accepted : Sampler → Prop
  | normal _ stddev | truncatedNormal _ stddev => stddev.isFinite ∧ 0 ≤ stddev
  | uniform min max => min < max

/-- Draws that are collected only fail when they are never accepted. -/
theorem Sampler.eq_neverAccepted {drawn : Option (Array Float32) × Stream}
    {defect : SamplingDefect} (h : (accepted drawn).1 = .error defect) :
    defect = .neverAccepted := by
  obtain ⟨_ | xs, t⟩ := drawn
  · exact (Except.error.inj h).symm
  · cases h

/-- A distribution that is accepted has no bad deviation, so failing to sample it is a fault. -/
theorem Sampler.Accepted.failure_eq {sampler : Sampler} (h : sampler.Accepted) {count : Nat}
    {s : Stream} {defect : SamplingDefect} (hdraw : (sampler.draw count s).1 = .error defect) :
    defect.failure = .fault (.cannotSample defect) := by
  cases sampler with
  | normal mean stddev | truncatedNormal mean stddev =>
    simp only [draw, if_pos h.1] at hdraw
    rw [eq_neverAccepted hdraw]
    rfl
  | uniform min max =>
    rw [draw] at hdraw
    split at hdraw
    · rw [eq_neverAccepted hdraw]
      rfl
    · -- a width that is not finite is the other defect that accepting has not excluded
      obtain rfl := Except.error.inj hdraw
      rfl

/-- Parameters that registering an operation accepts. -/
def Op.InRange : Op → Prop
  | random sampler _ => sampler.Accepted
  | clip _ min max => ¬max < min
  | dropout _ rate _ => 0 ≤ rate ∧ rate < 1
  | _ => True

namespace Engine

variable {α : Type} {e e' : Engine} {name : Option String}

/-! ## Parameters that are checked -/

/-- Behind the check of a deviation it is finite and not negative. -/
theorem leads_checkDeviation {β : Type} {stddev : Float32} {R : Engine → Prop}
    {post : β → Engine → Prop} {f : Unit → Call β} (h₀ : R e)
    (h : stddev.isFinite ∧ 0 ≤ stddev → Leads (f ()) e R post) :
    Leads (checkDeviation stddev >>= f) e R post :=
  leads_refuse_if h₀ fun hok => h (by simpa using hok)

/-- A random node is in range if its sampler has been accepted. -/
theorem appends_random_inRange (shape : DeclaredShape) {sampler : Sampler} (seed : Option UInt64)
    (h : sampler.Accepted) : Appends (random shape sampler seed) e fun n => n.op.InRange :=
  (appends_random shape sampler seed).imp fun n hn => by rw [hn.1]; exact h

/-- Nodes of normal samples are in range. -/
theorem appends_randomNormal_inRange (shape : DeclaredShape) (mean stddev : Float32)
    (seed : Option UInt64) :
    Appends (randomNormal shape mean stddev seed) e fun n => n.op.InRange :=
  leads_checkDeviation rfl fun h => appends_random_inRange shape seed h

/-- Nodes of truncated normal samples are in range. -/
theorem appends_truncatedNormal_inRange (shape : DeclaredShape) (mean stddev : Float32)
    (seed : Option UInt64) :
    Appends (truncatedNormal shape mean stddev seed) e fun n => n.op.InRange :=
  leads_checkDeviation rfl fun h => appends_random_inRange shape seed h

/-- Nodes of uniform samples are in range. -/
theorem appends_randomUniform_inRange (shape : DeclaredShape) (min max : Float32)
    (seed : Option UInt64) :
    Appends (randomUniform shape min max seed) e fun n => n.op.InRange := by
  unfold randomUniform
  exact leads_unless rfl fun h =>
    appends_random_inRange shape seed (show min < max by simpa using h)

/-- The bounds of a clip are in order. -/
theorem appends_clip_inRange (input : Node) (min max : Float32) :
    Appends (clip input min max name) e fun n => n.op.InRange := by
  have happends : Appends (clip input min max name) e fun n =>
      n.op = .clip input.index min max ∧ n.name = name := appends_clip input min max
  unfold clip at happends ⊢
  split
  · exact rfl
  · next h =>
    rw [if_neg h] at happends
    exact happends.imp fun n hn => by rw [hn.1]; exact h

/-- The rate of a dropout is in range. -/
theorem appends_dropout_inRange (input : Node) (rate : Float32) (seed : Option UInt64) :
    Appends (dropout input rate seed name) e fun n => n.op.InRange := by
  have happends : Appends (dropout input rate seed name) e fun n =>
      n.op = .dropout input.index rate seed ∧ n.name = name := appends_dropout input rate seed
  unfold dropout at happends ⊢
  split
  · exact rfl
  · next h =>
    rw [if_neg h] at happends
    have hrate : 0 ≤ rate ∧ rate < 1 := by simpa using h
    exact happends.imp fun n hn => by rw [hn.1]; exact hrate

/-- Whatever an initializer becomes is in range. -/
theorem appends_compile_inRange (initializer : Initializer) (shape : DeclaredShape) :
    Appends (initializer.compile shape) e fun n => n.op.InRange := by
  have hother : ∀ {op : Op}, initializer.op shape = op → op.InRange →
      Appends (initializer.compile shape) e fun n => n.op.InRange := by
    rintro _ rfl hop
    exact (appends_compile initializer shape).imp fun n hn => hn ▸ hop
  cases initializer with
  | randomNormal mean stddev seed => exact appends_randomNormal_inRange shape mean stddev seed
  | randomUniform min max seed => exact appends_randomUniform_inRange shape min max seed
  | truncatedNormal mean stddev seed =>
    exact appends_truncatedNormal_inRange shape mean stddev seed
  | zeros | ones | constant => exact hother rfl trivial

/-- What creating a variable has checked before it evaluates the first value. -/
structure Creatable (e : Engine) (shape : DeclaredShape) (initializer : Initializer)
    (name : String) : Prop where
  active : e.session.isSome
  closed : shape.Closed
  free : e.graph.find? name = none
  inRange : (initializer.op shape).InRange

/-- Creating a variable leaves the engine as it is, or has passed all its checks. -/
theorem leads_createVariable_checked (shape : DeclaredShape) (initializer : Initializer)
    (name : String) (trainable : Bool) :
    Leads (createVariable shape initializer name trainable) e
      (fun e' => e' = e ∨ Creatable e shape initializer name)
      fun _ _ => Creatable e shape initializer name := by
  refine leads_checkActive (.inl rfl) fun hactive => leads_checkShape (.inl rfl) fun _ hclosed =>
    leads_checkFresh (.inl rfl) fun hfree => ?_
  have hcompile := (appends_compile_inRange (e := e) initializer shape).and
    (appends_compile initializer shape)
  refine leads_bind_iff.2 (Leads.imp hcompile ?_ ?_)
  · rintro _ ⟨rfl, -⟩
    exact .inl rfl
  rintro init e₁ ⟨⟨made, hrange, hmade⟩, made', hop, hmade'⟩
  -- from here on the parameters have been checked, whether a later step fails or not
  have hchecked : Creatable e shape initializer name := by
    obtain rfl := Option.some.inj (hmade.getElem?.symm.trans hmade'.getElem?)
    exact ⟨hactive, hclosed rfl, hfree, hop ▸ hrange⟩
  have hrest : ∀ {β : Type} (c : Call β),
      Leads c e₁ (fun e' => e' = e ∨ Creatable e shape initializer name)
        fun _ _ => Creatable e shape initializer name := by
    intro β c
    unfold Leads
    cases c e₁ with
    | ok => exact hchecked
    | error => exact .inr hchecked
  exact hrest _

/-- Creating a variable leaves the graph as it is, or has found the parameters of its initializer in
range. -/
theorem leads_createVariable_inRange (shape : DeclaredShape) (initializer : Initializer)
    (name : String) (trainable : Bool) :
    Leads (createVariable shape initializer name trainable) e
      (fun e' => e'.graph = e.graph ∨ (initializer.op shape).InRange)
      fun _ _ => (initializer.op shape).InRange := by
  refine (leads_createVariable_checked shape initializer name trainable).imp ?_
    fun _ _ h => h.inRange
  rintro e' (rfl | h)
  · exact .inl rfl
  · exact .inr h.inRange

/-! ## Requests that evaluate nothing -/

/-- What a request that evaluates nothing makes of an engine: it appends nodes or a counter, or ends
the session. -/
inductive Built (e : Engine) : Engine → Prop
  | appended {e' : Engine} {ns : List GraphNode} {handles : List Node}
      (appended : AppendedAll e ns handles e') (inRange : ∀ n ∈ ns, n.op.InRange) : Built e e'
  | declared {s : Session} (active : e.session = some s) (name : String) (t : Tensor Float32) :
    Built e { e with
      graph := e.graph.push ⟨.variable false none, [], .i64, some name⟩
      session := some { s with store := s.store.insert e.graph.size t } }
  | disposed (journal : Array Record) : Built e { e with session := none, journal := journal }

theorem Built.refl (e : Engine) : Built e e := .appended .nil (by simp)

/-- One node is appended. -/
theorem Appended.built {n : GraphNode} {handle : Node} (h : Appended e n handle e')
    (hn : n.op.InRange) : Built e e' :=
  .appended (.cons h .nil) (List.forall_mem_singleton.2 hn)

/-- A call that appends a node in range only builds. -/
theorem Appends.built {c : Call Node} {P : Engine → GraphNode → Prop}
    (hc : ∀ e, Appends c e (P e)) (hP : ∀ e n, P e n → n.op.InRange) : Keeps Built c := by
  refine fun e => Leads.imp (hc e) ?_ ?_
  · rintro _ rfl
    exact .refl e
  · rintro handle e' ⟨n, hn, happended⟩
    exact happended.built (hP e n hn)

/-- A call that leaves the engine as it is only builds. -/
theorem Keeps.built {c : Call α} (hc : Keeps Eq c) : Keeps Built c := by
  refine fun e => (hc e).imp ?_ ?_
  · rintro _ rfl
    exact .refl e
  · rintro _ _ rfl
    exact .refl e

end Engine

open Engine

/-- Requests that evaluate nodes of the graph. -/
def Request.isEvaluating : Request → Bool
  | weights .. | stateVariable .. | run .. | execute .. | executePositional .. | readVariable .. =>
    true
  | _ => false

/-- A request that evaluates nothing appends nodes in range or a counter, ends the session, or
leaves the engine as it is. -/
theorem Request.built (r : Request) (h : r.isEvaluating = false) : Keeps Built r.call := by
  -- an operation whose parameters, if it has any, are in range as they are
  have appended {op : Op} {name : Option String} (happended : r.appended? = some (op, name))
      (hrange : op.InRange) : Keeps Built r.call := by
    obtain ⟨c, hcall, hc⟩ := exists_appends happended
    rw [hcall]
    exact (Appends.built hc fun _ _ hn => hn.1 ▸ hrange).discard
  have checked {c : Call Node} (hc : ∀ e, Appends c e fun n => n.op.InRange) :
      Keeps Built (discard c) := (Appends.built hc fun _ _ hn => hn).discard
  cases r with
  | weights | stateVariable | run | execute | executePositional | readVariable => cases h
  | placeholder name shape =>
    refine Keeps.discard fun e => (leads_placeholder name shape).imp ?_ ?_
    · rintro _ rfl
      exact .refl e
    · rintro handle e' (⟨rfl, -⟩ | ⟨n, ⟨hop, -⟩, happended⟩)
      · exact .refl _
      · exact happended.built (by rw [hop]; trivial)
  | counter initial name =>
    refine Keeps.discard fun e => (leads_declare initial name).imp ?_ ?_
    · rintro _ rfl
      exact .refl e
    · rintro handle e' ⟨s, hs, -, -, rfl⟩
      exact .declared hs name _
  | gradients loss targets =>
    have derived {n : GraphNode} {target : Nat} (hop : n.op = .gradient loss.index target) :
        n.op.InRange := by rw [hop]; trivial
    refine Keeps.discard fun e => (leads_gradients loss targets).imp ?_ ?_
    · rintro e' ⟨ns, handles, happended, hns⟩
      refine .appended happended fun n hn => ?_
      obtain ⟨target, hop⟩ := hns n hn
      exact derived hop
    · rintro handles e' ⟨ns, happended, hns⟩
      refine .appended happended ?_
      clear happended h appended
      induction hns with
      | nil => simp
      | cons hk _ ih => exact List.forall_mem_cons.2 ⟨derived hk.1, ih⟩
  | randomNormal shape m stddev seed =>
    exact checked fun _ => appends_randomNormal_inRange shape m stddev seed
  | randomUniform shape min max seed =>
    exact checked fun _ => appends_randomUniform_inRange shape min max seed
  | truncatedNormal shape m stddev seed =>
    exact checked fun _ => appends_truncatedNormal_inRange shape m stddev seed
  | clip input min max name => exact checked fun _ => appends_clip_inRange input min max
  | dropout input rate seed name => exact checked fun _ => appends_dropout_inRange input rate seed
  | function inputs outputs updates => exact (keeps_function inputs outputs updates).built.discard
  | readShape handle => exact (keeps_shape handle).built.discard
  | readType handle => exact (keeps_type handle).built.discard
  | readInitializer handle => exact (keeps_initializer handle).built.discard
  | dispose =>
    refine fun e => leads_get ?_
    split
    · exact .disposed _
    · exact leads_pure (.refl e)
  | _ => exact appended rfl trivial

namespace Engine

variable {α : Type} {e e' : Engine}

/-! ## Properties that follow from what is appended -/

/-- A property of graphs that everything that requests append keeps. -/
structure Growable (I : Graph → Prop) : Prop where
  append : ∀ {e e' : Engine} {n : GraphNode} {handle : Node}, Appended e n handle e' →
    n.op.InRange → I e.graph → I e'.graph
  create : ∀ {e e' e₁ : Engine} {n made : GraphNode} {init handle : Node} {s : Session}
    {ev : Evaluation Float32}, Created e n made init e₁ s ev handle e' → made.op.isSource →
      made.op.InRange → I e.graph → I e'.graph
  declare : ∀ {g : Graph} (name : String), I g →
    I (g.push ⟨.variable false none, [], .i64, some name⟩)

namespace Growable

variable {I : Graph → Prop}

variable (hI : Growable I)
include hI

/-- Creating a variable keeps what declared variables keep. -/
theorem keeps_createVariable (shape : DeclaredShape) (initializer : Initializer) (name : String)
    (trainable : Bool) : Keeps (fun e e' => I e.graph → I e'.graph)
      (createVariable shape initializer name trainable) := by
  intro e
  refine ((leads_createVariable shape initializer name trainable).and
    (leads_createVariable_inRange shape initializer name trainable)).imp ?_ ?_
  · rintro e' ⟨⟨e₁, hfirst, streams, records, rfl⟩, hgraph | hrange⟩ he
    · rwa [hgraph]
    · -- the node of the initializer may be all that is left of the attempt
      show I e₁.graph
      rcases hfirst with rfl | ⟨made, init, hop, happended⟩
      · exact he
      · exact hI.append happended (hop ▸ hrange) he
  · rintro handle e' ⟨⟨made, init, e₁, s, ev, hop, hcreated⟩, hrange⟩ he
    exact hI.create hcreated (hop ▸ initializer.isSource_op shape) (hop ▸ hrange) he

/-- Nodes in range that are appended keep a growable property. -/
theorem appendedAll {e e' : Engine} {ns : List GraphNode} {handles : List Node}
    (h : AppendedAll e ns handles e') (hns : ∀ n ∈ ns, n.op.InRange) (he : I e.graph) :
    I e'.graph := by
  induction h with
  | nil => exact he
  | cons head _ ih =>
    obtain ⟨hn, hns⟩ := List.forall_mem_cons.1 hns
    exact ih hns (hI.append head hn he)

/-- Whatever is built keeps a growable property. -/
theorem built {e e' : Engine} (h : Built e e') (he : I e.graph) : I e'.graph := by
  cases h with
  | appended happended hns => exact hI.appendedAll happended hns he
  | declared _ name _ => exact hI.declare name he
  | disposed _ => exact he

/-- A request keeps what everything that requests append keeps, whether it fails or not. -/
theorem keeps (r : Request) : Keeps (fun e e' => I e.graph → I e'.graph) r.call := by
  -- evaluating leaves the graph as it is, also when it fails
  have ran {α : Type} {c : Call α} (h : ∀ e, Leads c e (Drained e) fun _ e' =>
      e'.graph = e.graph) : Keeps (fun e e' => I e.graph → I e'.graph) (discard c) := by
    refine Keeps.discard fun e => (h e).imp ?_ fun _ e' hgraph he => by rwa [hgraph]
    rintro _ ⟨streams, records, rfl⟩ he
    exact he
  cases h : r.isEvaluating with
  | false => exact fun e => (r.built h e).imp (fun _ => hI.built) fun _ _ => hI.built
  | true =>
    cases r with
    | weights shape initializer name =>
      exact (hI.keeps_createVariable shape initializer name true).discard
    | stateVariable shape initializer name =>
      exact (hI.keeps_createVariable shape initializer name false).discard
    | run f feeds => exact ran fun e => (leads_run f feeds).mono fun _ _ ⟨_, _, h⟩ => h.graph
    | execute f overrides =>
      exact ran fun e => (leads_execute f overrides).mono fun _ _ ⟨_, _, _, _, h⟩ => h.graph
    | executePositional f values =>
      exact ran fun e =>
        (leads_executePositional f values).mono fun _ _ ⟨_, _, _, _, _, h⟩ => h.graph
    | readVariable handle =>
      refine ran fun e => (keeps_readVariable handle e).mono ?_
      rintro _ _ ⟨streams, records, rfl⟩
      rfl
    | _ => cases h

end Growable

/-- A property of graphs that the empty graph has, and that everything that requests append keeps,
is one of every reachable graph. -/
theorem Reachable.of_growable {I : Graph → Prop} (hI : Growable I) (hempty : ∀ id, I (.empty id))
    (h : e.Reachable) : I e.graph := by
  induction h with
  | create id entropy => exact hempty id
  | @request e _ r ih => exact Leads.after (R := fun e' => I e.graph → I e'.graph) (hI.keeps r e) ih

end Engine

/-! ## Parameters in range -/

/-- A graph the operations of which have parameters that registering them accepts. -/
def Graph.Ranged (g : Graph) : Prop :=
  ∀ (slot : Nat) n, g.nodes[slot]? = some n → n.op.InRange

/-- A graph with one more node in range is in range. -/
theorem Graph.Ranged.push {g : Graph} (h : g.Ranged) {n : GraphNode} (hn : n.op.InRange) :
    (g.push n).Ranged := by
  intro slot m hm
  rcases getElem?_push_eq_some_iff.1 hm with hold | ⟨-, rfl⟩
  · exact h slot m hold
  · exact hn

/-- A graph with one more variable in range is in range. -/
theorem Graph.Ranged.declare {g : Graph} (h : g.Ranged) {n : GraphNode} (hn : n.op.InRange) :
    (g.declare n).Ranged :=
  fun slot m hm => h.push hn slot m (nodes_declare g n ▸ hm)

namespace Engine

/-- Being in range is a property that grows with the graph. -/
theorem growable_ranged : Growable Graph.Ranged where
  append h hrange he := by
    rw [h.engine]
    exact he.push hrange
  create h _ hrange he := by
    obtain ⟨trainable, hop⟩ := h.op
    rw [h.graph, h.appended.engine]
    exact (he.push hrange).declare (by rw [hop]; trivial)
  declare name he := he.push trivial

/-- The parameters of the operations in a reachable graph are in range. -/
theorem Reachable.ranged {e : Engine} (h : e.Reachable) : e.graph.Ranged :=
  h.of_growable growable_ranged fun _ _ _ hn => by simp [Graph.empty] at hn

end Engine
end TensorGraph
