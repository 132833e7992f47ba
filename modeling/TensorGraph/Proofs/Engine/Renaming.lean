import TensorGraph.Proofs.Engine.Running
import TensorGraph.Proofs.Evaluation.Renaming

/-!
# Engines that hold the same in renamed slots

When the nodes of one engine are found again in the graph of another one, calls may be made on both,
with renamed handles. The checks that calls begin with come to the same. If the variables and the
streams are found again, too, then an evaluation comes to the same values, and committing the same
assignments keeps the engines alike. Only a name may be free on the one engine and taken on the
other one, which has more nodes.

## Main definitions

* `Renaming.Engines`: engines that hold the same in renamed slots.
* `Renaming.Mirroring`: relations of engines that are kept by appending side by side.
* `Failure.NameTaken`: the failure of a call that asks for a name in use.

## Main results

* `Renaming.Mirroring.locate`: locating a handle and the renamed one.
* `Renaming.Engines.evaluate`: evaluating slots and the renamed ones.
-/

namespace TensorGraph

open Engine

/-- The failure of a call that asks for a name in use. -/
def Failure.NameTaken (f : Failure) : Prop := ∃ name, f = .error (.duplicateName name)

/-- A node that is located is within the graph. -/
theorem Engine.Located.lt_size {g : Graph} {handle : Node} {found : Nat × GraphNode}
    (h : Located g handle found) : found.1 < g.size := Graph.lt_size_of_getElem? h.found

namespace Renaming

variable {r : Renaming} {e e' : Engine}

/-- Sessions with the same variables and streams in renamed slots. -/
structure Sessions (r : Renaming) (s s' : Session) : Prop where
  store : r.Carries s.store s'.store
  /-- There are no other variables. -/
  confined : r.Confined s'.store
  streams : r.Carries s.streams s'.streams

/-- Engines that hold the same in renamed slots and draw the same random numbers. -/
structure Engines (r : Renaming) (e e' : Engine) : Prop where
  graph : r.Embeds e.graph e'.graph
  /-- The same variables are trained. -/
  trainable : e'.graph.trainable = e.graph.trainable.map r.slot
  repeatable : ∀ {s : Nat} {n : GraphNode}, e.graph.nodes[s]? = some n → n.op.Repeatable
  session : Option.Rel r.Sessions e.session e'.session

/-- Relations of engines, over a graph and one that it is embedded in, that are kept when a node
and its renamed copy are appended or records are made. -/
structure Mirroring (r : Renaming) (rel : Engine → Engine → Prop) : Prop where
  graph : ∀ {e e' : Engine}, rel e e' → r.Embeds e.graph e'.graph
  isNone : ∀ {e e' : Engine}, rel e e' → e'.session.isNone = e.session.isNone
  append : ∀ {e e' : Engine} {n : GraphNode}, rel e e' → (∀ o ∈ n.op.inputs, o < e.graph.size) →
    n.op.Repeatable → rel { e with graph := e.graph.push n }
      { e' with graph := e'.graph.push (n.rename r.slot) }
  report : ∀ {e e' : Engine} (records records' : Array Record), rel e e' →
    rel { e with journal := records } { e' with journal := records' }

/-- Holding the same in renamed slots is a relation that building keeps. -/
theorem mirroring_engines : r.Mirroring r.Engines where
  graph h := h.graph
  isNone {e e'} h := by
    have hsession := h.session
    revert hsession
    generalize e.session = s
    generalize e'.session = s'
    rintro (_ | _) <;> rfl
  append h hn hop :=
    { graph := h.graph.push hn
      trainable := h.trainable
      repeatable := fun hm => by
        -- the appended node is repeatable as well
        rcases Graph.getElem?_push_eq_some_iff.1 hm with hm | ⟨-, rfl⟩
        · exact h.repeatable hm
        · exact hop
      session := h.session }
  report _ _ h :=
    { graph := h.graph, trainable := h.trainable, repeatable := h.repeatable, session := h.session }

/-- The graphs of live engines, whatever the sessions hold. -/
theorem mirroring_embeds : r.Mirroring fun e e' =>
    r.Embeds e.graph e'.graph ∧ e.session.isSome ∧ e'.session.isSome where
  graph h := h.1
  isNone h := by
    rw [Option.isNone_eq_false_iff.2 h.2.2, Option.isNone_eq_false_iff.2 h.2.1]
  append h hn _ := ⟨h.1.push hn, h.2⟩
  report _ _ h := h

/-! ## Checks -/

section Checks

variable {excused : Failure → Prop} {rel : Engine → Engine → Prop} {α β γ δ : Type}
  {same : α → β → Prop}

/-- Checks in front keep two calls together, whichever errors they give. -/
theorem concur_unless {p : Prop} [Decidable p] {err err' : Error} {f : Unit → Call α}
    {f' : Unit → Call β} (h : rel e e') (hf : Concur excused rel same (f () e) (f' () e')) :
    Concur excused rel same ((if p then refuse err >>= f else f ()) e)
      ((if p then refuse err' >>= f' else f' ()) e') := by
  split
  · exact .error h
  · exact hf

/-- The same where the checks are statements of their own. -/
theorem concur_refuse_if {p : Prop} [Decidable p] {err err' : Error} {f : Unit → Call α}
    {f' : Unit → Call β} (h : rel e e') (hf : Concur excused rel same (f () e) (f' () e')) :
    Concur excused rel same (((if p then refuse err else pure ()) >>= f) e)
      (((if p then refuse err' else pure ()) >>= f') e') := by
  split
  · exact .error h
  · exact hf

/-- A renamed node has the same element type, and so both pass or both fail. -/
theorem concur_expectFloat {operation : String} {slot slot' : Nat} {n : GraphNode}
    {f : Unit → Call α} {f' : Unit → Call β} (h : rel e e')
    (hf : Concur excused rel same (f () e) (f' () e')) :
    Concur excused rel same ((expectFloat operation slot n >>= f) e)
      ((expectFloat operation slot' (n.rename r.slot) >>= f') e') :=
  concur_refuse_if h hf

/-- The same where the check is only made under a condition. -/
theorem concur_expectFloat_if {p : Prop} [Decidable p] {operation : String} {slot slot' : Nat}
    {n : GraphNode} {f : Unit → Call α} {f' : Unit → Call β} (h : rel e e')
    (hf : Concur excused rel same (f () e) (f' () e')) :
    Concur excused rel same
      ((if p then expectFloat operation slot n >>= f else f ()) e)
      ((if p then expectFloat operation slot' (n.rename r.slot) >>= f' else f' ()) e') := by
  split
  · exact concur_expectFloat h hf
  · exact hf

/-- A renamed node is a variable exactly if the node is one. -/
theorem concur_expectVariable {slot slot' : Nat} {n : GraphNode} {f : Unit → Call α}
    {f' : Unit → Call β} (h : rel e e') (hf : Concur excused rel same (f () e) (f' () e')) :
    Concur excused rel same ((expectVariable slot n >>= f) e)
      ((expectVariable slot' (n.rename r.slot) >>= f') e') := by
  unfold expectVariable
  rw [GraphNode.rename, Op.isVariable_rename]
  exact concur_refuse_if h hf

theorem concur_currentGraph {f : Graph → Call α} {f' : Graph → Call β}
    (hf : Concur excused rel same (f e.graph e) (f' e'.graph e')) :
    Concur excused rel same ((currentGraph >>= f) e) ((currentGraph >>= f') e') := hf

/-- A check that does not look at the engine. -/
theorem concur_check {c : Call Unit} {f : Unit → Call α} {f' : Unit → Call β}
    (hc : (∀ e, c e = .ok () e) ∨ ∃ err, ∀ e, c e = .error err e) (h : rel e e')
    (hf : Concur excused rel same (f () e) (f' () e')) :
    Concur excused rel same ((c >>= f) e) ((c >>= f') e') := by
  rcases hc with hc | ⟨err, hc⟩
  · rw [bind_of_ok (hc e), bind_of_ok (hc e')]
    exact hf
  · rw [bind_of_error (hc e), bind_of_error (hc e')]
    exact .error h

/-- Whether a shape is accepted does not depend on the engine. -/
theorem checkShape_cases (shape : DeclaredShape) (allowOpen : Bool) :
    (∀ e, checkShape shape allowOpen e = .ok () e) ∨
      ∃ err, ∀ e, checkShape shape allowOpen e = .error err e := by
  unfold checkShape
  split
  · exact .inr ⟨_, fun _ => rfl⟩
  · split
    · exact .inr ⟨_, fun _ => rfl⟩
    · exact .inl fun _ => rfl

/-- Whether a deviation is accepted does not depend on the engine. -/
theorem checkDeviation_cases (stddev : Float32) :
    (∀ e, checkDeviation stddev e = .ok () e) ∨
      ∃ err, ∀ e, checkDeviation stddev e = .error err e := by
  unfold checkDeviation
  split
  · exact .inr ⟨_, fun _ => rfl⟩
  · exact .inl fun _ => rfl

/-- Computations without an engine that give renamed results keep two calls together. -/
theorem concur_lift_bind {x : Except Error α} {x' : Except Error β} {k : α → β}
    {f : α → Call γ} {f' : β → Call δ} {same : γ → δ → Prop} (h : rel e e')
    (hx : x'.toOption = x.toOption.map k)
    (hf : ∀ a, x = .ok a → Concur excused rel same (f a e) (f' (k a) e')) :
    Concur excused rel same ((Engine.lift x >>= f) e) ((Engine.lift x' >>= f') e') := by
  revert hx
  cases x <;> cases x' <;> rintro ⟨⟩
  · exact .error h
  · exact hf _ rfl

end Checks

namespace Mirroring

variable {excused : Failure → Prop} {rel : Engine → Engine → Prop} {α β : Type}
  {same : α → β → Prop} (hrel : r.Mirroring rel)
include hrel

/-- Both engines are live or both are disposed. -/
theorem checkActive (h : rel e e') {f : Unit → Call α} {f' : Unit → Call β}
    (hf : Concur excused rel same (f () e) (f' () e')) :
    Concur excused rel same ((checkActive >>= f) e) ((checkActive >>= f') e') := by
  unfold Engine.checkActive
  change Concur excused rel same
    (((if e.session.isNone then refuse .disposed else pure ()) >>= f) e)
    (((if e'.session.isNone then refuse .disposed else pure ()) >>= f') e')
  rw [hrel.isNone h]
  exact concur_refuse_if h hf

omit hrel in
/-- Locating a node gives its slot with what is there, or refuses the handle. -/
private theorem locate_apply (handle : Node) (e : Engine) :
    Engine.locate handle e =
      match (e.graph.slot? handle).bind fun slot => (e.graph.nodes[slot]?).map (slot, ·) with
      | some found => .ok found e
      | none => .error (.error (.unknownNode handle)) e := by
  refine (bind_of_ok (rfl : currentGraph e = .ok e.graph e)).trans ?_
  cases (e.graph.slot? handle).bind fun slot => (e.graph.nodes[slot]?).map (slot, ·) <;> rfl

/-- A handle is located on the one engine when the renamed one is located on the other. -/
theorem locate (h : rel e e') (handle : Node) {f : Nat × GraphNode → Call α}
    {f' : Nat × GraphNode → Call β}
    (hf : ∀ found, Located e.graph handle found →
      Concur excused rel same (f found e) (f' (r.slot found.1, found.2.rename r.slot) e')) :
    Concur excused rel same ((locate handle >>= f) e) ((locate (r.node handle) >>= f') e') := by
  -- the renamed handle is located at the renamed slot, and there is the renamed node
  have hfound : ((e'.graph.slot? (r.node handle)).bind fun slot =>
      (e'.graph.nodes[slot]?).map (slot, ·)) = ((e.graph.slot? handle).bind fun slot =>
        (e.graph.nodes[slot]?).map (slot, ·)).map (Prod.map r.slot (·.rename r.slot)) := by
    rw [(hrel.graph h).slot?]
    cases e.graph.slot? handle with
    | none => rfl
    | some slot =>
      simp only [Option.map_some, Option.bind_some, (hrel.graph h).getElem?]
      cases e.graph.nodes[slot]? <;> rfl
  cases hlocated : (e.graph.slot? handle).bind fun slot => (e.graph.nodes[slot]?).map (slot, ·) with
  | none =>
    rw [hlocated, Option.map_none] at hfound
    rw [bind_of_error (by rw [locate_apply, hlocated]),
      bind_of_error (by rw [locate_apply, hfound])]
    exact .error h
  | some found =>
    rw [hlocated, Option.map_some] at hfound
    have hok : Engine.locate handle e = .ok found e := by rw [locate_apply, hlocated]
    rw [bind_of_ok hok, bind_of_ok (by rw [locate_apply, hfound])]
    exact hf found (located_of_locate hok).2

end Mirroring

/-- A name that is free on the second engine is free on the first one. -/
theorem Mirroring.checkFresh {rel : Engine → Engine → Prop} (hrel : r.Mirroring rel)
    {α β : Type} {same : α → β → Prop} {name : String} {f : Unit → Call α} {f' : Unit → Call β}
    (h : rel e e') (hf : Concur Failure.NameTaken rel same (f () e) (f' () e')) :
    Concur Failure.NameTaken rel same ((Engine.checkFresh name >>= f) e)
      ((Engine.checkFresh name >>= f') e') := by
  -- the second engine can have more names, and refusing one of them is excused
  cases hfind : e'.graph.find? name with
  | some slot =>
    rw [bind_of_error (checkFresh_of_some hfind)]
    exact .excuse ⟨name, rfl⟩
  | none =>
    rw [bind_of_ok (checkFresh_of_none hfind),
      bind_of_ok (checkFresh_of_none ((hrel.graph h).find?_eq_none hfind))]
    exact hf

namespace Engines

/-- Evaluating renamed slots on engines that hold the same in renamed slots. -/
theorem evaluate {excused : Failure → Prop} {α β : Type} {same : α → β → Prop}
    (h : r.Engines e e') (targets : List Nat) {phase : Phase}
    {table table' : SlotMap (Tensor Float32)} (htable : r.Carries table table')
    {f : Evaluation Float32 → Call α} {f' : Evaluation Float32 → Call β}
    (hf : ∀ {s s' ev ev'}, r.Evaluations ev ev' → r.Engines (e.absorb s ev) (e'.absorb s' ev') →
      Concur excused r.Engines same (f ev (e.absorb s ev)) (f' ev' (e'.absorb s' ev'))) :
    Concur excused r.Engines same ((Engine.evaluate phase table targets >>= f) e)
      ((Engine.evaluate phase table' (targets.map r.slot) >>= f') e') := by
  have hsession := h.session
  cases hs : e.session with
  | none =>
    rw [hs] at hsession
    have hs' : e'.session = none := by
      generalize e'.session = s' at hsession
      cases hsession
      rfl
    rw [bind_of_error (evaluate_of_none hs ..), bind_of_error (evaluate_of_none hs' ..)]
    exact .error h
  | some s =>
    rw [hs] at hsession
    obtain ⟨s', hs', hsessions⟩ : ∃ s', e'.session = some s' ∧ r.Sessions s s' := by
      generalize e'.session = s' at hsession
      cases hsession with
      | some hsessions => exact ⟨_, rfl, hsessions⟩
    have hsettings : r.Settings (e.setting s phase table) (e'.setting s' phase table') :=
      ⟨h.graph, h.repeatable, hsessions.store, htable, rfl⟩
    have habsorb : ∀ {ev ev'}, r.Evaluations ev ev' →
        r.Engines (e.absorb s ev) (e'.absorb s' ev') := fun hev =>
      ⟨h.graph, h.trainable, h.repeatable, .some { hsessions with streams := hev.streams }⟩
    -- what the evaluations come to is absorbed on both sides, whether they succeed or fail
    have hconcur : Concur excused r.Evaluations (fun _ _ => True) _ _ :=
      hsettings.evaluate (.start hsessions.streams) targets
    have happly := evaluate_apply hs phase table targets
    have happly' := evaluate_apply hs' phase table' (targets.map r.slot)
    revert hconcur happly happly'
    generalize (e.setting s phase table).evaluate _ _ = res
    generalize (e'.setting s' phase table').evaluate _ _ = res'
    rintro (⟨-, hev⟩ | hev | hexcuse) happly happly'
    · rw [bind_of_ok happly, bind_of_ok happly']
      exact hf hev (habsorb hev)
    · rw [bind_of_error happly, bind_of_error happly']
      exact .error (habsorb hev)
    · rw [bind_of_error happly']
      exact .excuse hexcuse

/-- Assignments to renamed variables are committed alike. -/
theorem commit {excused : Failure → Prop} (h : r.Engines e e')
    (assignments : List (Nat × Tensor Float32)) :
    Concur excused r.Engines (fun _ _ => True) (Engine.commit assignments e)
      (Engine.commit (assignments.map (Prod.map r.slot id)) e') := by
  -- assignments are made one by one, and each of them keeps the two stores together
  have hstore : ∀ {store store' : SlotMap (Tensor Float32)},
      r.Carries store store' ∧ r.Confined store' →
      r.Carries (assignments.foldl (fun vs a => vs.insert a.1 a.2) store)
          ((assignments.map (Prod.map r.slot id)).foldl (fun vs a => vs.insert a.1 a.2) store') ∧
        r.Confined ((assignments.map (Prod.map r.slot id)).foldl
          (fun vs a => vs.insert a.1 a.2) store') := by
    induction assignments with
    | nil => exact id
    | cons a assignments ih =>
      exact fun hstore => ih ⟨hstore.1.insert a.1 a.2, hstore.2.insert a.1 a.2⟩
  refine .ok trivial ⟨h.graph, h.trainable, h.repeatable, ?_⟩
  have hsession := h.session
  dsimp only
  revert hsession
  generalize e.session = s
  generalize e'.session = s'
  rintro (hsessions | _)
  · obtain ⟨hstore, hconfined⟩ := hstore ⟨hsessions.store, hsessions.confined⟩
    exact .some { hsessions with store := hstore, confined := hconfined }
  · exact .none

/-- Adding a slot to the trained ones on one engine, and the renamed slot on the other. -/
theorem train (h : r.Engines e e') (slot : Nat) :
    r.Engines { e with graph := e.graph.train slot }
      { e' with graph := e'.graph.train (r.slot slot) } where
  graph := ⟨h.graph.source, h.graph.target, h.graph.node, h.graph.next, h.graph.find?_iff,
    h.graph.earlier⟩
  trainable := by
    change e'.graph.trainable ++ [r.slot slot] = (e.graph.trainable ++ [slot]).map r.slot
    rw [h.trainable, List.map_append, List.map_singleton]
  repeatable := h.repeatable
  session := h.session

end Engines

end Renaming
end TensorGraph
