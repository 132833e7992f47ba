import TensorGraph.Proofs.Engine.Running

/-!
# Calls that cannot tell engines apart

Most steps of a run look at the nodes under some handles and at whether the session of an engine
lives, and at nothing else. Such steps give the same on engines that differ only in what they do not
look at. A relation of such engines is veiled when making records and committing values keep to it;
then a run cannot tell the engines apart either, if the evaluation in it cannot.

## Main definitions

* `Engine.VeiledOn`: a relation of engines whose difference calls on some handles do not see.
* `Engine.Veiled`: a relation of engines with the same graph, whose difference most calls do not
  see.

## Main results

* `Engine.agree_evaluate_bind_of`: an evaluation on two engines is as good as those in their
  settings.
* `Engine.VeiledOn.agree_run`: a run on related engines is as good as its evaluation.
-/

namespace TensorGraph

namespace Engine

variable {α β : Type} {e e' : Engine} {known : Node → Prop} {rel : Engine → Engine → Prop}
  {f : Function} {feeds : List (Node × Value)}

/-- Related engines find the same under known handles and are both alive or both disposed, and they
stay related when both make a record or commit the same values. -/
structure VeiledOn (known : Node → Prop) (rel : Engine → Engine → Prop) : Prop where
  id : ∀ {e e' : Engine}, rel e e' → e'.graph.id = e.graph.id
  locate : ∀ {handle : Node}, known handle → Blind rel (locate handle)
  isNone : ∀ {e e' : Engine}, rel e e' → e'.session.isNone = e.session.isNone
  report : ∀ (r : Record), Blind rel (report r)
  commit : ∀ assignments : List (Nat × Tensor Float32), Blind rel (commit assignments)

/-- Related engines have the same graph and are both alive or both disposed, and they stay related
when both make a record or commit the same values. -/
structure Veiled (rel : Engine → Engine → Prop) : Prop where
  graph : ∀ {e e' : Engine}, rel e e' → e'.graph = e.graph
  isNone : ∀ {e e' : Engine}, rel e e' → e'.session.isNone = e.session.isNone
  report : ∀ (r : Record), Blind rel (report r)
  commit : ∀ assignments : List (Nat × Tensor Float32), Blind rel (commit assignments)

theorem blind_refuse (err : Error) : Blind rel (refuse err : Call α) := .throw _

/-- A computation without an engine is blind. -/
theorem blind_lift (r : Except Error α) : Blind rel (lift r) := by
  cases r with
  | ok a => exact .pure a
  | error err => exact blind_refuse err

/-- A check in front of a blind call leaves it blind. -/
theorem blind_unless {p : Prop} [Decidable p] {err : Error} {g : Unit → Call β}
    (hg : Blind rel (g ())) : Blind rel (if p then refuse err >>= g else g ()) :=
  .ite (fun _ _ h => .error h) hg

/-- A check in front leaves two outcomes in agreement. -/
theorem agree_unless {p : Prop} [Decidable p] {err : Error} {g : Unit → Call β} (h : rel e e')
    (hg : Agree rel (g () e) (g () e')) :
    Agree rel ((if p then refuse err >>= g else g ()) e)
      ((if p then refuse err >>= g else g ()) e') := by
  split
  · exact .error h
  · exact hg

/-- What agreeing calls give is the same. -/
theorem answer_eq_of_agree {c : Call α} (h : Agree rel (c e) (c e')) :
    answer c e' = answer c e := by
  unfold answer
  revert h
  generalize c e = r
  generalize c e' = r'
  rintro (_ | _) <;> rfl

/-- Agreeing calls leave related engines behind. -/
theorem after_of_agree {c : Call α} (h : Agree rel (c e) (c e')) :
    rel (e.after c) (e'.after c) := by
  unfold after
  revert h
  generalize c e = r
  generalize c e' = r'
  rintro (h | h) <;> exact h

/-- An evaluation on two live engines agrees, with what follows it, when the evaluations in their
settings do and what follows agrees from the engines that they leave. -/
theorem agree_evaluate_bind_of {same : Evaluation Float32 → Evaluation Float32 → Prop}
    {s s' : Session} (hs : e.session = some s) (hs' : e'.session = some s') {phase : Phase}
    {table : SlotMap (Tensor Float32)} {targets : List Nat} {g : Evaluation Float32 → Call β}
    (heval : Agree same ((e.setting s phase table).evaluate targets (.start s.streams))
      ((e'.setting s' phase table).evaluate targets (.start s'.streams)))
    (habsorb : ∀ ev ev', same ev ev' → rel (e.absorb s ev) (e'.absorb s' ev'))
    (hg : ∀ ev ev', same ev ev' → g ev' = g ev ∧ Blind rel (g ev)) :
    Agree rel ((evaluate phase table targets >>= g) e)
      ((evaluate phase table targets >>= g) e') := by
  have happly := evaluate_apply hs phase table targets
  have happly' := evaluate_apply hs' phase table targets
  revert heval happly happly'
  generalize (e.setting s phase table).evaluate targets (.start s.streams) = r
  generalize (e'.setting s' phase table).evaluate targets (.start s'.streams) = r'
  -- both evaluations give a value or fail in the same way, and are absorbed in either case
  rintro (@⟨_, ev, ev', hev⟩ | @⟨_, ev, ev', hev⟩) happly happly'
  · obtain ⟨hnext, hblind⟩ := hg ev ev' hev
    rw [bind_of_ok happly, bind_of_ok happly', hnext]
    exact hblind _ _ (habsorb ev ev' hev)
  · rw [bind_of_error happly, bind_of_error happly']
    exact .error (habsorb ev ev' hev)

namespace VeiledOn

variable (h : VeiledOn known rel)
include h

/-- Related engines are both live or both disposed. -/
theorem checkActive : Blind rel checkActive := by
  refine .get_bind (fun e e' hrel => ?_) fun e => .ite (blind_refuse _) (.pure ())
  rw [h.isNone hrel]

/-- Known handles are located alike. -/
theorem mapM_locate {handles : List Node} (hknown : ∀ n ∈ handles, known n) :
    Blind rel (handles.mapM Engine.locate) := by
  induction handles with
  | nil => exact .pure _
  | cons handle handles ih =>
    obtain ⟨hhandle, hhandles⟩ := List.forall_mem_cons.1 hknown
    rw [List.mapM_cons]
    exact (h.locate hhandle).bind fun _ => (ih hhandles).bind fun _ => .pure _

/-- A value is checked against the node alone. -/
theorem checkFeed (slot : Nat) (n : GraphNode) (value : Value) :
    Blind rel (checkFeed slot n value) := by
  unfold Engine.checkFeed
  dsimp only
  exact blind_unless (blind_unless (blind_unless (.ite (h.report _) (.pure ()))))

/-- Feeds of known nodes are collected alike. -/
theorem collectFeeds (hknown : ∀ feed ∈ feeds, known feed.1)
    (table : SlotMap (Tensor Float32)) : Blind rel (collectFeeds feeds table) := by
  induction feeds generalizing table with
  | nil => exact .pure _
  | cons feed feeds ih =>
    obtain ⟨hfeed, hfeeds⟩ := List.forall_mem_cons.1 hknown
    exact (h.locate hfeed).bind fun _ => (h.checkFeed _ _ _).bind fun _ => ih hfeeds _

/-- Related engines stay related when a run is finished on both. -/
theorem finishRun (outputs : List (Nat × GraphNode)) (ev : Evaluation Float32) :
    Blind rel (Engine.finishRun outputs ev) :=
  (h.commit _).bind fun _ => .pure _

/-- Runs on related engines agree when their evaluations do, with what follows them. -/
theorem agree_run (hknown : ∀ n ∈ f.outputs ++ f.updates, known n)
    (hfeeds : ∀ feed ∈ feeds, known feed.1) (hrel : rel e e')
    (heval : ∀ e₁ e₁' outputs, Reported e e₁ → rel e₁ e₁' →
      (∀ n ∈ f.outputs ++ f.updates, ∃ found, Located e.graph n found) →
      (∀ feed ∈ feeds, Admitted e.graph feed) →
      List.Forall₂ (Located e.graph) f.outputs outputs →
      Agree rel
        ((evaluate f.phase (feedTable feeds .empty) ((f.outputs ++ f.updates).map (·.index)) >>=
          Engine.finishRun outputs) e₁)
        ((evaluate f.phase (feedTable feeds .empty) ((f.outputs ++ f.updates).map (·.index)) >>=
          Engine.finishRun outputs) e₁')) :
    Agree rel (run f feeds e) (run f feeds e') := by
  obtain ⟨houtput, hupdate⟩ := List.forall_mem_append.1 hknown
  refine (h.checkActive e e' hrel).bind fun _ _ e₁' h₁ hrel => ?_
  obtain rfl := (keeps_checkActive e).of_eq_ok h₁
  -- the numbers of the graphs are all that is asked for next
  rw [bind_of_ok (rfl : currentGraph e = .ok e.graph e),
    bind_of_ok (rfl : currentGraph e₁' = .ok e₁'.graph e₁'), h.id hrel]
  refine agree_unless hrel ?_
  refine (h.collectFeeds hfeeds .empty _ _ hrel).bind fun table e₁ e₁' h₁ hrel => ?_
  obtain ⟨⟨records, rfl⟩, rfl, hadmitted⟩ := (leads_collectFeeds feeds .empty).of_eq_ok h₁
  refine (h.mapM_locate houtput _ _ hrel).bind fun outputs _ e₁' h₁ hrel => ?_
  obtain ⟨rfl, houtputs⟩ := (leads_mapM_locate (R := fun _ => True) f.outputs trivial).of_eq_ok h₁
  refine (h.mapM_locate hupdate _ _ hrel).bind fun updates _ e₁' h₁ hrel => ?_
  obtain ⟨rfl, hupdates⟩ := (leads_mapM_locate (R := fun _ => True) f.updates trivial).of_eq_ok h₁
  refine (h.report _ _ _ hrel).bind fun _ _ e₁' h₁ hrel => ?_
  cases h₁
  have htargets : (outputs ++ updates).map (·.1) = (f.outputs ++ f.updates).map (·.index) := by
    rw [List.map_append, List.map_append, map_fst_of_located houtputs, map_fst_of_located hupdates]
  rw [htargets]
  refine heval _ _ outputs ?_ hrel ?_ hadmitted houtputs
  · exact Reported.trans ⟨records, rfl⟩ (reported_report _)
  · intro n hn
    rcases List.mem_append.1 hn with hn | hn
    · exact exists_of_located houtputs n hn
    · exact exists_of_located hupdates n hn

end VeiledOn

namespace Veiled

theorem currentGraph (h : Veiled rel) : Blind rel currentGraph :=
  .get_bind (fun _ _ hrel => congrArg pure (h.graph hrel).symm) fun _ => .pure _

/-- Related engines have one graph, in which handles are located alike. -/
theorem locate (h : Veiled rel) (handle : Node) : Blind rel (locate handle) := by
  refine h.currentGraph.bind fun g => ?_
  split
  · exact .pure _
  · exact blind_refuse _

/-- With the same graph the same is found under every handle. -/
theorem on (h : Veiled rel) (known : Node → Prop) : VeiledOn known rel where
  id hrel := congrArg Graph.id (h.graph hrel)
  locate _ := h.locate _
  isNone := h.isNone
  report := h.report
  commit := h.commit

end Veiled

end Engine
end TensorGraph
