import TensorGraph.Proofs.Engine.Accepting
import TensorGraph.Proofs.Engine.Reachable
import TensorGraph.Proofs.Evaluation.Undropping

/-!
# Runs without dropout

Dropout is there for training only. A run outside of training, and one that reaches only dropouts of
rate zero, is the run on the graph with the identity in place of every dropout: both give the same
values and leave the same variables and streams behind, or both fail for the same reason. Neither
draws from the stream of a dropout.

## Main definitions

* `Engine.withoutDropout`: the engine with the identity in place of every dropout.
* `Function.DropsNothing`: a function that is not executed for training, or reaches no dropout of a
  positive rate.
* `Engine.Undropped`: engines that a run on both graphs has brought to the same.

## Main results

* `Engine.run_withoutDropout`: running on the graph without dropout.
-/

namespace TensorGraph

/-- Executing the function drops nothing: it is not executed for training, or every dropout that its
outputs and updates reach has a rate that is not positive. -/
def Function.DropsNothing (g : Graph) (f : Function) : Prop :=
  f.phase = .train → ∀ handle ∈ f.outputs ++ f.updates, ∀ slot, g.slot? handle = some slot →
    ∀ s, g.Reaches slot s → ∀ rate, g.rate? s = some rate → ¬0 < rate

/-- The same by the slots that executing the function evaluates. -/
theorem Function.DropsNothing.not_pos_of_reaches {g : Graph} {f : Function}
    (hf : f.DropsNothing g)
    (hlocated : ∀ handle ∈ f.outputs ++ f.updates, ∃ found, Engine.Located g handle found)
    (hphase : f.phase = .train) :
    ∀ t ∈ (f.outputs ++ f.updates).map (·.index), ∀ slot, g.Reaches t slot →
      ∀ rate, g.rate? slot = some rate → ¬0 < rate := by
  refine List.forall_mem_map.2 fun handle hhandle => ?_
  obtain ⟨found, hfound⟩ := hlocated handle hhandle
  exact hf hphase handle hhandle handle.index (Engine.slot?_eq_some_iff.2
    ⟨hfound.graph, Graph.lt_size_of_getElem? hfound.node, rfl⟩)

namespace Engine

/-- The engine with the identity in place of every dropout. -/
def withoutDropout (e : Engine) : Engine := { e with graph := e.graph.withoutDropout }

variable {α β : Type} {e₀ e e' : Engine} {f : Function}

/-! ## Running -/

/-- Engines that a run on an engine and one on the same engine without dropout have led to. They
differ in labels and records at most, and the streams of dropouts are where they were. -/
structure Undropped (e₀ e e' : Engine) : Prop where
  graph : e.graph = e₀.graph
  undropped : e'.graph = e₀.graph.withoutDropout
  session : e'.session = e.session
  stream : ∀ slot, (e₀.graph.rate? slot).isSome →
    e.session.bind (·.streams.get? slot) = e₀.session.bind (·.streams.get? slot)

namespace Undropped

/-- Outcomes of the same call on both engines. -/
abbrev Outcomes (e₀ : Engine) (same : α → α → Prop) :
    EStateM.Result Failure Engine α → EStateM.Result Failure Engine α → Prop :=
  Accord (·.Alike e₀.graph e₀.graph.withoutDropout ·) (Undropped e₀) same

variable {same : β → β → Prop}

theorem refl (e : Engine) : Undropped e e e.withoutDropout := ⟨rfl, rfl, rfl, fun _ _ => rfl⟩

/-- A call refuses in the middle where both conditions hold. -/
theorem refuse_if {p p' : Prop} [Decidable p] [Decidable p'] {err err' : Error}
    {k k' : Unit → Call β} (h : Undropped e₀ e e') (hp : p ↔ p')
    (herr : (Failure.error err).Alike e₀.graph e₀.graph.withoutDropout (.error err'))
    (hk : Outcomes e₀ same (k () e) (k' () e')) :
    Outcomes e₀ same ((if p then refuse err >>= k else k ()) e)
      ((if p' then refuse err' >>= k' else k' ()) e') :=
  .ite hp (fun _ => .error herr h) fun _ => hk

/-- Both engines are live or both are disposed. -/
theorem checkActive (h : Undropped e₀ e e') :
    Outcomes e₀ Eq (Engine.checkActive e) (Engine.checkActive e') := by
  refine .get_bind (.ite (by rw [h.session]) (fun _ => .error (.same _) h) fun _ => .ok rfl h)

theorem report (h : Undropped e₀ e e') (r r' : Record) :
    Outcomes e₀ Eq (Engine.report r e) (Engine.report r' e') :=
  .ok rfl ⟨h.graph, h.undropped, h.session, h.stream⟩

/-- The graphs of both engines are read. -/
theorem currentGraph {k k' : Graph → Call β}
    (hk : Outcomes e₀ same (k e.graph e) (k' e'.graph e')) :
    Outcomes e₀ same ((Engine.currentGraph >>= k) e) ((Engine.currentGraph >>= k') e') := hk

/-- A handle finds the node without dropout. -/
theorem locate (h : Undropped e₀ e e') (handle : Node) :
    Outcomes e₀ (fun found found' => found' = Prod.map id (·.withoutDropout) found)
      (Engine.locate handle e) (Engine.locate handle e') := by
  -- slots are the same without dropout, and the node found there is the one without dropout
  have hfound : ((e'.graph.slot? handle).bind fun slot => (e'.graph.nodes[slot]?).map (slot, ·)) =
      ((e.graph.slot? handle).bind fun slot => (e.graph.nodes[slot]?).map (slot, ·)).map
        (Prod.map id (·.withoutDropout)) := by
    rw [h.undropped, h.graph, Graph.slot?_withoutDropout, Option.map_bind]
    refine Option.bind_congr fun slot _ => ?_
    rw [Graph.getElem?_withoutDropout, Function.comp_apply, Option.map_map, Option.map_map]
    rfl
  unfold Engine.locate
  refine currentGraph ?_
  rw [hfound]
  cases (e.graph.slot? handle).bind fun slot => (e.graph.nodes[slot]?).map (slot, ·) with
  | none => exact .error (.same _) h
  | some found => exact .ok rfl h

/-- A fed value is checked against the same shape and type. -/
theorem checkFeed (h : Undropped e₀ e e') {slot : Nat} {n : GraphNode}
    (hn : e₀.graph.nodes[slot]? = some n) (value : Value) :
    Outcomes e₀ Eq (Engine.checkFeed slot n value e)
      (Engine.checkFeed slot n.withoutDropout value e') := by
  have hn' : e₀.graph.withoutDropout.nodes[slot]? = some n.withoutDropout := by
    rw [Graph.getElem?_withoutDropout, hn, Option.map_some]
  unfold Engine.checkFeed
  rw [← Graph.label_eq hn, ← Graph.label_eq hn']
  refine h.refuse_if .rfl (.typeMismatch slot _ _) (h.refuse_if .rfl (.shapeMismatch slot _ _)
    (h.refuse_if .rfl (.emptyAxis slot _) ?_))
  exact .ite .rfl (fun _ => h.report _ _) fun _ => .ok rfl h

/-- Feeds are collected alike without dropout. -/
theorem collectFeeds (h : Undropped e₀ e e') (feeds : List (Node × Value))
    (table : SlotMap (Tensor Float32)) :
    Outcomes e₀ Eq (Engine.collectFeeds feeds table e) (Engine.collectFeeds feeds table e') := by
  induction feeds generalizing e e' table with
  | nil => exact .ok rfl h
  | cons feed feeds ih =>
    refine (h.locate feed.1).bind ?_
    rintro found _ e₁ e₁' hlocate rfl h₁
    obtain ⟨rfl, hfound⟩ := located_of_locate hlocate
    have hn : e₀.graph.nodes[found.1]? = some found.2 := h.graph ▸ hfound.found
    exact (h₁.checkFeed hn feed.2).bind fun _ _ _ _ _ _ h₂ => ih h₂ _

/-- Handles are located alike without dropout. -/
theorem mapM_locate (h : Undropped e₀ e e') (handles : List Node) :
    Outcomes e₀ (fun found found' => found' = found.map (Prod.map id (·.withoutDropout)))
      (handles.mapM Engine.locate e) (handles.mapM Engine.locate e') :=
  Accord.mapM (fun handle _ _ h => h.locate handle) handles h

/-- An evaluation leaves engines behind that are still the same. -/
theorem absorb {s : Session} {ev ev' : Evaluation Float32} (h : Undropped e₀ e e')
    (hs : e.session = some s) (hev : Evaluation.Undropped e₀.graph s.streams ev ev') :
    Undropped e₀ (e.absorb s ev) (e'.absorb s ev') := by
  obtain ⟨⟨records, rfl⟩, -, hstream⟩ := hev
  refine ⟨h.graph, h.undropped, rfl, fun slot hslot => ?_⟩
  rw [← h.stream slot hslot, hs]
  exact hstream slot hslot

/-- Evaluating targets that reach no active dropout. -/
theorem evaluate (h : Undropped e₀ e e') (hg : e₀.graph.Typed) {phase : Phase}
    (table : SlotMap (Tensor Float32)) {targets : List Nat}
    (htargets : ∀ t ∈ targets, t < e₀.graph.size)
    (hidle : phase = .train → ∀ t ∈ targets, ∀ slot, e₀.graph.Reaches t slot →
      ∀ rate, e₀.graph.rate? slot = some rate → ¬0 < rate) :
    Outcomes e₀ (fun ev ev' => ∃ records, ev' = { ev with journal := records })
      (Engine.evaluate phase table targets e) (Engine.evaluate phase table targets e') := by
  cases hs : e.session with
  | none =>
    have hs' : e'.session = none := by rw [h.session, hs]
    rw [evaluate_of_none hs, evaluate_of_none hs']
    exact .error (.same _) h
  | some s =>
    have hs' : e'.session = some s := by rw [h.session, hs]
    have hsetting : e'.setting s phase table = (e.setting s phase table).withoutDropout := by
      rw [setting, h.undropped, ← h.graph]
      rfl
    have hgraph : (e.setting s phase table).graph = e₀.graph := h.graph
    rw [evaluate_apply hs, evaluate_apply hs', hsetting]
    have hevaluate := (Evaluation.Undropped.start (S := Float32)
      (e.setting s phase table).graph s.streams).evaluate (hgraph ▸ hg) (hgraph ▸ htargets)
      fun t ht slot hreached rate hrate => by
        rw [hgraph] at hreached hrate
        -- a dropout is active while training only, and at a positive rate only
        have hpos : phase = .train → ¬0 < rate := fun hphase =>
          hidle hphase t ht slot hreached rate hrate
        simpa [Setting.dropsAt, setting] using hpos
    rw [hgraph] at hevaluate
    revert hevaluate
    generalize (e.setting s phase table).evaluate targets (.start s.streams) = r
    generalize (e.setting s phase table).withoutDropout.evaluate targets (.start s.streams) = r'
    rintro (⟨-, hev⟩ | ⟨alike, hev⟩)
    · exact .ok hev.same (h.absorb hs hev)
    · exact .error alike (h.absorb hs hev)

/-- Assignments are committed alike without dropout. -/
theorem commit (h : Undropped e₀ e e') (assignments : List (Nat × Tensor Float32)) :
    Outcomes e₀ Eq (Engine.commit assignments e) (Engine.commit assignments e') := by
  refine .ok rfl ⟨h.graph, h.undropped, ?_, fun slot hslot => ?_⟩
  · dsimp only
    rw [h.session]
  · -- assignments leave the streams alone
    rw [← h.stream slot hslot]
    dsimp only
    cases e.session <;> rfl

end Undropped

/-- A run on the graph without dropout gives the same values and leaves the same session behind, or
it fails for the same reason as the run on the graph, when the function drops nothing. No stream of
a dropout is drawn from. -/
theorem run_withoutDropout (he : e.Reachable) (hf : f.DropsNothing e.graph)
    (feeds : List (Node × Value)) :
    Accord (·.Alike e.graph e.graph.withoutDropout ·) (Undropped e)
      (fun values values' => values' = values) (run f feeds e) (run f feeds e.withoutDropout) := by
  refine (Undropped.refl e).checkActive.bind fun _ _ e₁ e₁' _ _ h₁ => ?_
  have hforeign : f.graph ≠ e₁.graph.id ↔ f.graph ≠ e₁'.graph.id := by
    rw [h₁.undropped, h₁.graph]
    rfl
  refine Undropped.currentGraph (h₁.refuse_if hforeign (.same _) ?_)
  refine (h₁.collectFeeds feeds .empty).bind ?_
  rintro table _ e₂ e₂' - rfl h₂
  refine (h₂.mapM_locate f.outputs).bind ?_
  rintro outputs _ e₃ e₃' houtputs rfl h₃
  refine (h₃.mapM_locate f.updates).bind ?_
  rintro updates _ e₄ e₄' hupdates rfl h₄
  obtain ⟨rfl, houtputs⟩ := (leads_mapM_locate (R := fun _ => True) f.outputs trivial).of_eq_ok
    houtputs
  obtain ⟨rfl, hupdates⟩ := (leads_mapM_locate (R := fun _ => True) f.updates trivial).of_eq_ok
    hupdates
  rw [List.length_map, List.length_map]
  refine (h₄.report _ _).bind fun _ _ e₅ e₅' _ _ h₅ => ?_
  -- both runs evaluate the slots of the outputs and updates
  have hfound := List.rel_append houtputs hupdates
  have htargets' : (outputs.map (Prod.map id (·.withoutDropout)) ++
      updates.map (Prod.map id (·.withoutDropout))).map (·.1) = (outputs ++ updates).map (·.1) := by
    rw [← List.map_append, List.map_map]
    rfl
  have hlocated : ∀ handle ∈ f.outputs ++ f.updates, ∃ found, Located e.graph handle found :=
    h₂.graph ▸ exists_of_located hfound
  rw [htargets', map_fst_of_located hfound]
  refine (h₅.evaluate he.sound.typed table (lt_size_of_located hlocated)
    (hf.not_pos_of_reaches hlocated)).bind ?_
  rintro ev _ e₆ e₆' - ⟨records, rfl⟩ h₆
  refine (h₆.commit _).bind fun _ _ e₇ e₇' _ _ h₇ => .ok ?_ h₇
  -- the values are read off the same working state, with the same element types
  rw [List.map_map]
  rfl

/-- An engine with weights, a dropout of them, the sum of the squares of what is left, its
derivative by the weights, and a step along it. -/
def thinning : Engine := built
  [.weights [2] .ones "w", .dropout ⟨0, 1⟩ 0.5 (some 7) none, .unary .square ⟨0, 2⟩ none,
    .reduceSum ⟨0, 3⟩ none, .gradients ⟨0, 4⟩ [⟨0, 1⟩], .updateAdd ⟨0, 1⟩ ⟨0, 5⟩]

theorem reachable_thinning : thinning.Reachable := reachable_built _

/-- The loss and its derivative are fetched, and the step is made. -/
def thinStep : Function := .ofNodes 0 [] [⟨0, 4⟩, ⟨0, 5⟩] [⟨0, 6⟩]

/-- Outside of training the loss is the sum of both squares, whatever the rate of the dropout. -/
theorem thinning_drops_nothing : ∃ values e₁ e₁', thinning.graph.rate? 2 = some 0.5 ∧
    thinStep.DropsNothing thinning.graph ∧ run thinStep [] thinning = .ok values e₁ ∧
    run thinStep [] thinning.withoutDropout = .ok values e₁' ∧ e₁'.session = e₁.session ∧
    values.map (·.toNumbers) = [#[2], #[2, 2]] := by
  have hrate : thinning.graph.rate? 2 = some 0.5 := by decide +kernel
  have hf : thinStep.DropsNothing thinning.graph := nofun
  have hanswer : (answer (run thinStep []) thinning).toOption.map (·.map (·.toNumbers)) =
      some [#[2], #[2, 2]] := by decide +kernel
  obtain ⟨values, e₁, hrun, hvalues⟩ := exists_of_answer hanswer
  have haccord := run_withoutDropout reachable_thinning hf []
  rw [hrun] at haccord
  obtain ⟨_, e₁', hrun', hsame, hundropped⟩ := haccord.exists_right
  exact ⟨values, e₁, e₁', hrate, hf, hrun, hsame ▸ hrun', hundropped.session, hvalues⟩

end Engine
end TensorGraph
