import TensorGraph.Engine.Function
import TensorGraph.Proofs.Evaluation.Outcome
import TensorGraph.Proofs.Graph.Typing

/-!
# Where calls lead

Rules for following a call from an engine to the engines it may end in. A call that gives a value
ends in an engine that depends on the value, and a failing one in an engine that must have some
property as well, since engines survive failures. Checks read the engine and leave it as it is.

## Main definitions

* `Engine.Leads`: a call ends in certain engines.
* `Engine.after` and `Engine.answer`: the engine that a call leaves behind, and what it gives.
* `Engine.Keeps`: calls that keep to a relation of engines.

## Main results

* `Engine.leads_bind_iff`: where sequences lead.
* `Engine.leads_locate`, `Engine.leads_checkShape`, …: where a check leads, and what holds from
  there on.
-/

namespace TensorGraph.Engine

variable {α β : Type} {e e' : Engine} {R : Engine → Prop} {post : β → Engine → Prop}

/-- From `e` a call ends with a value in an engine that `post` relates to the value, or fails in an
engine with the property `fail`. -/
def Leads (c : Call α) (e : Engine) (fail : Engine → Prop) (post : α → Engine → Prop) : Prop :=
  match c e with
  | .ok a e' => post a e'
  | .error _ e' => fail e'

/-- The engine that a call leaves behind. -/
def after (c : Call α) (e : Engine) : Engine :=
  match c e with
  | .ok _ e' => e'
  | .error _ e' => e'

/-- Whether a call gives a value. -/
def gives (c : Call α) (e : Engine) : Bool :=
  match c e with
  | .ok _ _ => true
  | .error _ _ => false

/-- What it gives, and the engine that it leaves. -/
theorem exists_of_gives {c : Call α} (h : gives c e) : ∃ a e', c e = .ok a e' := by
  unfold gives at h
  split at h
  · next a e' heq => exact ⟨a, e', heq⟩
  · cases h

/-- A call that does not give a result fails. -/
theorem exists_of_not_gives {c : Call α} (h : gives c e = false) : ∃ f e', c e = .error f e' := by
  unfold gives at h
  split at h
  · cases h
  · next f e' heq => exact ⟨f, e', heq⟩

/-- Whether a call ends with an error. -/
def refuses (c : Call α) (e : Engine) : Bool :=
  match c e with
  | .error (.error _) _ => true
  | .error (.fault _) _ => false
  | .ok _ _ => false

/-- What it refuses with. -/
theorem exists_of_refuses {c : Call α} (h : refuses c e) :
    ∃ err e', c e = .error (.error err) e' := by
  unfold refuses at h
  split at h
  · next err e' heq => exact ⟨err, e', heq⟩
  · cases h
  · cases h

/-- Whether a call ends with a fault. -/
def faults (c : Call α) (e : Engine) : Bool :=
  match c e with
  | .error (.fault _) _ => true
  | .error (.error _) _ => false
  | .ok _ _ => false

/-- What its fault is. -/
theorem exists_of_faults {c : Call α} (h : faults c e) :
    ∃ fault e', c e = .error (.fault fault) e' := by
  unfold faults at h
  split at h
  · next fault e' heq => exact ⟨fault, e', heq⟩
  · cases h
  · cases h

/-- The value that a call gives, or its failure. -/
def answer (c : Call α) (e : Engine) : Except Failure α :=
  match c e with
  | .ok a _ => .ok a
  | .error f _ => .error f

/-- A fact about an answer is one about a result. -/
theorem exists_of_answer {c : Call α} {f : α → β} {b : β}
    (h : (answer c e).toOption.map f = some b) : ∃ a e', c e = .ok a e' ∧ f a = b := by
  unfold answer at h
  split at h
  · next a e' heq => exact ⟨a, e', heq, Option.some.inj h⟩
  · cases h

/-- A property of all the engines that a call ends in is one of the engine it leaves behind. -/
theorem Leads.after {c : Call α} (h : Leads c e R fun _ e' => R e') : R (e.after c) := by
  unfold Leads at h
  unfold Engine.after
  split at h <;> exact h

/-- A sequence leads on from where its first part leads. -/
theorem leads_bind_iff {c : Call α} {f : α → Call β} :
    Leads (c >>= f) e R post ↔ Leads c e R fun a e' => Leads (f a) e' R post := by
  change Leads (EStateM.bind c f) e R post ↔ _
  unfold Leads EStateM.bind
  cases c e <;> rfl

/-- Weaker conclusions follow. -/
theorem Leads.imp {c : Call α} {R' : Engine → Prop} {post post' : α → Engine → Prop}
    (h : Leads c e R post) (hfail : ∀ e', R e' → R' e') (hpost : ∀ a e', post a e' → post' a e') :
    Leads c e R' post' := by
  unfold Leads at h ⊢
  split
  · next heq =>
    rw [heq] at h
    exact hpost _ _ h
  · next heq =>
    rw [heq] at h
    exact hfail _ h

/-- A weaker conclusion about results follows. -/
theorem Leads.mono {c : Call α} {post post' : α → Engine → Prop} (h : Leads c e R post)
    (hpost : ∀ a e', post a e' → post' a e') : Leads c e R post' :=
  h.imp (fun _ => id) hpost

/-- A call leads where two descriptions of it say. -/
theorem Leads.and {c : Call α} {R' : Engine → Prop} {post post' : α → Engine → Prop}
    (h : Leads c e R post) (h' : Leads c e R' post') :
    Leads c e (fun e' => R e' ∧ R' e') fun a e' => post a e' ∧ post' a e' := by
  unfold Leads at h h' ⊢
  split at h <;> simp_all

/-- What holds wherever a call leads holds of the value that it gives. -/
theorem Leads.of_eq_ok {c : Call α} {a : α} {post : α → Engine → Prop} (h : Leads c e R post)
    (heq : c e = .ok a e') : post a e' := by
  unfold Leads at h
  rwa [heq] at h

/-- The same for a call that fails. -/
theorem Leads.of_eq_error {c : Call α} {f : Failure} {post : α → Engine → Prop}
    (h : Leads c e R post) (heq : c e = .error f e') : R e' := by
  unfold Leads at h
  rwa [heq] at h

/-- A call leads where it is known to end. -/
theorem leads_of_eq_ok {c : Call α} {a : α} {post : α → Engine → Prop} (heq : c e = .ok a e')
    (h : post a e') : Leads c e R post := by
  unfold Leads
  rwa [heq]

/-- A call that fails leads nowhere else. -/
theorem leads_of_eq_error {c : Call α} {f : Failure} {post : α → Engine → Prop}
    (heq : c e = .error f e') (h : R e') : Leads c e R post := by
  unfold Leads
  rwa [heq]

/-- Where a call leads when only its values matter. -/
theorem leads_of_ok {c : Call α} {post : α → Engine → Prop}
    (h : ∀ a e', c e = .ok a e' → post a e') : Leads c e (fun _ => True) post := by
  unfold Leads
  split
  · next heq => exact h _ _ heq
  · trivial

theorem leads_pure {b : β} (h : post b e) : Leads (pure b) e R post := h

/-- A refusal leaves the engine as it is. -/
theorem leads_refuse {err : Error} (h : R e) : Leads (refuse err) e R post := h

/-! ## Checks -/

variable {f : Unit → Call β} {n : GraphNode} {slot : Nat}

/-- The graph of a call is that of its engine. -/
theorem leads_currentGraph {f : Graph → Call β} (h : Leads (f e.graph) e R post) :
    Leads (currentGraph >>= f) e R post := h

theorem leads_get {f : Engine → Call β} (h : Leads (f e) e R post) : Leads (get >>= f) e R post := h

/-- A check that is computed refuses or goes on. -/
theorem leads_lift {r : Except Error α} {f : α → Call β} (h₀ : R e)
    (h : ∀ a, r = .ok a → Leads (f a) e R post) : Leads (lift r >>= f) e R post := by
  cases r with
  | ok a => exact h a rfl
  | error err => exact h₀

/-- A check gives what was checked and leaves the engine as it is. -/
theorem lift_eq_ok_iff {r : Except Error α} {a : α} :
    lift r e = .ok a e' ↔ r = .ok a ∧ e' = e := by
  cases r with
  | ok b => simp [lift, eq_comm]
  | error err => simp [lift, refuse]

/-- A call behind a check gives what it gives when the check is passed. -/
theorem lift_bind_eq_ok_iff {r : Except Error α} {f : α → Call β} {b : β} :
    (lift r >>= f) e = .ok b e' ↔ ∃ a, r = .ok a ∧ f a e = .ok b e' := by
  cases r with
  | ok a =>
    refine ⟨fun h => ⟨a, rfl, h⟩, ?_⟩
    rintro ⟨_, ⟨⟩, h⟩
    exact h
  | error err =>
    constructor
    · intro h
      cases h
    · rintro ⟨_, ⟨⟩, -⟩

/-- Repacking what a call gives changes nothing. -/
theorem after_bind_pure (c : Call α) (f : α → β) (e : Engine) :
    e.after (c >>= fun a => pure (f a)) = e.after c := by
  change (match EStateM.bind c (fun a => pure (f a)) e with
    | .ok _ e' => e'
    | .error _ e' => e') = _
  unfold EStateM.bind after
  cases c e <;> rfl

/-- What a call leaves behind when its first part gives a value. -/
theorem after_bind_of_ok {c : Call α} {f : α → Call β} {a : α} (h : c e = .ok a e') :
    e.after (c >>= f) = e'.after (f a) := by
  rw [after, bind_of_ok h, after]

/-- What a call leaves behind when its first part fails. -/
theorem after_bind_of_error {c : Call α} {f : α → Call β} {failure : Failure}
    (h : c e = .error failure e') : e.after (c >>= f) = e' := by
  rw [after, bind_of_error h]

/-- A check on its own. -/
theorem leads_check {p : Prop} [Decidable p] {err : Error} {post : Unit → Engine → Prop} (h₀ : R e)
    (h : ¬p → post () e) : Leads (if p then refuse err else pure ()) e R post := by
  split
  · exact h₀
  · next hp => exact h hp

/-- A check that refuses under a condition. -/
theorem leads_refuse_if {p : Prop} [Decidable p] {err : Error} (h₀ : R e)
    (h : ¬p → Leads (f ()) e R post) :
    Leads ((if p then refuse err else pure ()) >>= f) e R post :=
  leads_bind_iff.2 (leads_check h₀ h)

/-- The same in the middle of a call. -/
theorem leads_unless {p : Prop} [Decidable p] {err : Error} (h₀ : R e)
    (h : ¬p → Leads (f ()) e R post) : Leads (if p then refuse err >>= f else f ()) e R post := by
  split
  · exact h₀
  · next hp => exact h hp

/-- Behind the check the engine has a session. -/
theorem leads_checkActive (h₀ : R e) (h : e.session.isSome → Leads (f ()) e R post) :
    Leads (checkActive >>= f) e R post := by
  refine leads_bind_iff.2 (leads_get ?_)
  split
  · exact h₀
  · next hsome => exact h (by rwa [Option.isSome_iff_ne_none, ne_eq, ← Option.isNone_iff_eq_none])

/-- The check is passed with a session. -/
theorem checkActive_eq (h : e.session.isSome) : checkActive e = .ok () e := by
  obtain ⟨s, hs⟩ := Option.isSome_iff_exists.1 h
  refine bind_eq_ok_iff.2 ⟨e, e, rfl, ?_⟩
  simp [hs]

/-- A handle belongs to the graph and points into it. -/
theorem slot?_eq_some_iff {g : Graph} {handle : Node} :
    g.slot? handle = some slot ↔
      handle.graph = g.id ∧ handle.index < g.size ∧ slot = handle.index := by
  unfold Graph.slot?
  split
  · next h => simp [h, eq_comm]
  · next h =>
    simp only [reduceCtorEq, false_iff]
    exact fun hall => h ⟨hall.1, hall.2.1⟩

/-- A handle of a graph, with its slot and the node in it. -/
structure Located (g : Graph) (handle : Node) (found : Nat × GraphNode) : Prop where
  graph : handle.graph = g.id
  slot : found.1 = handle.index
  node : g.nodes[handle.index]? = some found.2

/-- The node that is found is in its slot. -/
theorem Located.found {g : Graph} {handle : Node} {found : Nat × GraphNode}
    (h : Located g handle found) : g.nodes[found.1]? = some found.2 := by
  rw [h.slot, h.node]

/-- Behind the check the handle has been located. -/
theorem leads_located {handle : Node} {f : Nat × GraphNode → Call β} (h₀ : R e)
    (h : ∀ found, Located e.graph handle found → Leads (f found) e R post) :
    Leads (locate handle >>= f) e R post := by
  refine leads_bind_iff.2 (leads_currentGraph ?_)
  split
  · -- the handle is of this graph and its slot is in use
    next found hfound =>
    obtain ⟨slot, hslot, hmap⟩ := Option.bind_eq_some_iff.1 hfound
    obtain ⟨n, hn, rfl⟩ := Option.map_eq_some_iff.1 hmap
    obtain ⟨hgraph, -, rfl⟩ := slot?_eq_some_iff.1 hslot
    exact h _ ⟨hgraph, rfl, hn⟩
  · exact h₀

/-- A handle that is located is found. -/
theorem Located.locate_eq {handle : Node} {found : Nat × GraphNode}
    (h : Located e.graph handle found) : locate handle e = .ok found e := by
  have hslot := slot?_eq_some_iff.2 ⟨h.graph, Graph.lt_size_of_getElem? h.node, rfl⟩
  have hfound : (e.graph.nodes[handle.index]?).map (handle.index, ·) = some found := by
    rw [h.node, Option.map_some, ← h.slot]
  unfold locate
  refine bind_eq_ok_iff.2 ⟨e.graph, e, rfl, ?_⟩
  simp only [hslot, Option.bind_some, hfound]
  rfl

/-- A handle that is found is located, and the engine is as it was. -/
theorem located_of_locate {handle : Node} {found : Nat × GraphNode}
    (h : locate handle e = .ok found e') : e' = e ∧ Located e.graph handle found := by
  have hleads : Leads (locate handle >>= pure) e (fun _ => True)
      fun found e' => e' = e ∧ Located e.graph handle found :=
    leads_located trivial fun _ hfound => leads_pure ⟨rfl, hfound⟩
  rw [bind_pure] at hleads
  exact hleads.of_eq_ok h

/-- Behind the check there is a node in the slot of the handle. -/
theorem leads_locate {handle : Node} {f : Nat × GraphNode → Call β} (h₀ : R e)
    (h : ∀ slot n, e.graph.nodes[slot]? = some n → Leads (f (slot, n)) e R post) :
    Leads (locate handle >>= f) e R post :=
  leads_located h₀ fun found hfound => h found.1 found.2 hfound.found

/-- Behind the check the name is free. -/
theorem leads_checkFresh {name : String} (h₀ : R e)
    (h : e.graph.find? name = none → Leads (f ()) e R post) :
    Leads (checkFresh name >>= f) e R post := by
  refine leads_bind_iff.2 (leads_currentGraph ?_)
  split
  · exact h₀
  · next hnone => exact h (by simpa using hnone)

/-- A free name passes the check. -/
theorem checkFresh_of_none {name : String} (h : e.graph.find? name = none) :
    checkFresh name e = .ok () e := by
  refine (bind_of_ok (rfl : currentGraph e = .ok e.graph e)).trans ?_
  rw [h]
  rfl

/-- A name that is taken does not. -/
theorem checkFresh_of_some {name : String} {slot : Nat} (h : e.graph.find? name = some slot) :
    checkFresh name e = .error (.error (.duplicateName name)) e := by
  refine (bind_of_ok (rfl : currentGraph e = .ok e.graph e)).trans ?_
  rw [h]
  rfl

/-- Behind the check the node is a variable. -/
theorem leads_expectVariable (h₀ : R e) (h : n.op.isVariable → Leads (f ()) e R post) :
    Leads (expectVariable slot n >>= f) e R post :=
  leads_refuse_if h₀ fun hvar => h (by simpa using hvar)

/-- Behind the check the node has numbers. -/
theorem leads_expectFloat {operation : String} (h₀ : R e)
    (h : n.type = .f32 → Leads (f ()) e R post) :
    Leads (expectFloat operation slot n >>= f) e R post :=
  leads_refuse_if h₀ fun htype => h (by simpa using htype)

/-- The same for a check that is made under a condition. -/
theorem leads_expectFloat_if {p : Prop} [Decidable p] {operation : String} (h₀ : R e)
    (h : (p → n.type = .f32) → Leads (f ()) e R post) :
    Leads (if p then expectFloat operation slot n >>= f else f ()) e R post := by
  split
  · exact leads_expectFloat h₀ fun htype => h fun _ => htype
  · next hp => exact h fun hself => absurd hself hp

/-- A checked shape is one that the engine can hold, and closed if open axes are not allowed. -/
theorem leads_checkShape {shape : DeclaredShape} {allowOpen : Bool} (h₀ : R e)
    (h : shape.Held → (allowOpen = false → shape.Closed) → Leads (f ()) e R post) :
    Leads (checkShape shape allowOpen >>= f) e R post := by
  refine leads_bind_iff.2 ?_
  unfold checkShape
  refine leads_unless h₀ fun hlength => ?_
  split
  · exact h₀
  · -- an axis that is not positive has passed as an open one, where these are allowed
    next hnone =>
    have hall : ∀ d ∈ shape, d ≤ 0 → allowOpen = true ∧ d = openAxis := by
      simpa using List.find?_eq_none.1 hnone
    refine h ⟨by omega, fun d hd => ?_⟩ fun hclosed => ⟨by omega, fun d hd => ?_⟩
    · by_cases hpos : 0 < d
      · exact .inl hpos
      · exact .inr (hall d hd (by omega)).2
    · by_contra hpos
      rw [hclosed] at hall
      exact Bool.false_ne_true (hall d hd (by omega)).1

/-- A shape that the engine can hold passes the check where open axes are allowed. -/
theorem checkShape_of_held {shape : DeclaredShape} (h : shape.Held) :
    checkShape shape true e = .ok () e := by
  have hpass : shape.find? (fun d => decide (d ≤ 0) && !(true && d == openAxis)) = none := by
    refine List.find?_eq_none.2 fun d hd => ?_
    rcases h.pos_or_open d hd with hpos | hopen
    · simp [Int.not_le.2 hpos]
    · simp [hopen]
  unfold checkShape
  rw [if_neg (Nat.not_lt.2 h.length_le), hpass]
  rfl

/-- A closed shape passes the check everywhere. -/
theorem checkShape_of_closed {shape : DeclaredShape} {allowOpen : Bool} (h : shape.Closed) :
    checkShape shape allowOpen e = .ok () e := by
  have hpass : shape.find? (fun d => decide (d ≤ 0) && !(allowOpen && d == openAxis)) = none :=
    List.find?_eq_none.2 fun d hd => by simp [Int.not_le.2 (h.pos d hd)]
  unfold checkShape
  rw [if_neg (Nat.not_lt.2 h.length_le), hpass]
  rfl

/-- Appending a node binds its name, which must be fresh. -/
theorem leads_register {name : Option String} {post : Node → Engine → Prop} (h₀ : R e)
    (h : e.session.isSome → (∀ s, name = some s → e.graph.find? s = none) →
      post (e.graph.handle e.graph.size)
        { e with graph := e.graph.push { n with name := name } }) :
    Leads (register n name) e R post := by
  refine leads_checkActive h₀ fun hactive => ?_
  cases name with
  | none => exact h hactive (by simp)
  | some s =>
    refine leads_checkFresh h₀ fun hfresh => ?_
    exact h hactive (by simp [hfresh])

/-! ## Calls that keep to a relation -/

variable {rel : Engine → Engine → Prop}

/-- A call that ends, with a value or a failure, in an engine related to the one from which it
started. -/
def Keeps (rel : Engine → Engine → Prop) (c : Call α) : Prop :=
  ∀ e : Engine, Leads c e (rel e) (fun _ e' => rel e e')

/-- A sequence keeps to a transitive relation that both of its parts keep to. -/
theorem Keeps.bind [IsTrans Engine rel] {c : Call α} {f : α → Call β} (hc : Keeps rel c)
    (hf : ∀ a, Keeps rel (f a)) : Keeps rel (c >>= f) := by
  intro e
  refine leads_bind_iff.2 ((hc e).mono fun a e' he' => ?_)
  exact (hf a e').imp (fun _ h => trans_of rel he' h) fun _ _ h => trans_of rel he' h

/-- So does a call for every element of a list. -/
theorem Keeps.forM [Std.Refl rel] [IsTrans Engine rel] {f : α → Call PUnit}
    (hf : ∀ a, Keeps rel (f a)) (as : List α) : Keeps rel (as.forM f) := by
  induction as with
  | nil => exact fun e => leads_pure (refl e)
  | cons a as ih => exact (hf a).bind fun _ => ih

/-- Leaving out the value of a call is a sequence whose second part does nothing. -/
theorem discard_eq_bind (c : Call α) : discard c = c >>= fun _ => pure () := by
  funext e
  change EStateM.map (fun _ => PUnit.unit) c e = EStateM.bind c (fun _ => pure ()) e
  unfold EStateM.map EStateM.bind
  cases c e <;> rfl

/-- A call leads to the same engines when its result is forgotten. -/
theorem Leads.discard {c : Call α} {post : Engine → Prop} (h : Leads c e R fun _ => post) :
    Leads (discard c) e R fun _ => post := by
  rw [discard_eq_bind]
  exact leads_bind_iff.2 (h.mono fun _ _ h => leads_pure h)

/-- It keeps to the same relations. -/
theorem Keeps.discard {c : Call α} (hc : Keeps rel c) : Keeps rel (discard c) :=
  fun e => (hc e).discard

/-! Checks keep to equality. -/

theorem keeps_checkActive : Keeps Eq checkActive :=
  fun _ => leads_get (leads_check rfl fun _ => rfl)

theorem keeps_locate (handle : Node) : Keeps Eq (locate handle) := by
  intro e
  rw [← bind_pure (locate handle)]
  exact leads_locate rfl fun _ _ _ => leads_pure rfl

theorem keeps_checkInput (handle : Node) : Keeps Eq (checkInput handle) :=
  fun _ => leads_locate rfl fun _ _ _ => leads_check rfl fun _ => rfl

theorem keeps_checkUpdate (handle : Node) : Keeps Eq (checkUpdate handle) :=
  fun _ => leads_locate rfl fun _ _ _ => leads_check rfl fun _ => rfl

/-- A function lists what it is bound over, and binding it leaves the engine as it is. -/
theorem leads_function (inputs outputs updates : List Node) :
    Leads (function inputs outputs updates) e (e = ·) fun f e' =>
      e = e' ∧ f = .ofNodes e.graph.id inputs outputs updates := by
  have hinputs := Keeps.forM keeps_checkInput inputs
  have houtputs := Keeps.forM (fun n => (keeps_locate n).discard) outputs
  have hupdates := Keeps.forM keeps_checkUpdate updates
  -- four checks that change nothing, and then the function is made
  refine leads_bind_iff.2 ((keeps_checkActive e).mono ?_)
  rintro - _ rfl
  refine leads_bind_iff.2 ((hinputs e).mono ?_)
  rintro - _ rfl
  refine leads_bind_iff.2 ((houtputs e).mono ?_)
  rintro - _ rfl
  refine leads_bind_iff.2 ((hupdates e).mono ?_)
  rintro - _ rfl
  exact leads_currentGraph (leads_pure ⟨rfl, rfl⟩)

end TensorGraph.Engine
