import TensorGraph.Proofs.Engine.Creating
import TensorGraph.Proofs.Run.Refusing

/-!
# Requests that are declined

A request that builds a graph makes its checks before it appends anything, so an engine that
declines it is as it was. Weights and state variables are the requests for which this takes an
argument: the node of the initializer is appended and evaluated before the variable is. But by then
all checks have been made, and the name of the variable is still free since the initializer takes
none. What is left to go wrong is a distribution that cannot be sampled, and that is a fault.

## Main definitions

* `Request.isBuilding`: requests that append nodes, all at once, or bind a function.
* `Engine.Declines`: a call that declines without a trace.

## Main results

* `Engine.declines_createVariable`: the same for a variable with an initializer.
* `Engine.Reachable.declined_leaves_no_trace`: the same for every request that builds.
-/

namespace TensorGraph

/-- Evaluating a source fails for an obstacle at its own slot. -/
theorem Setting.obstacle_of_evaluate_source {S : Type} [Scalar S] {env : Setting S} {slot : Nat}
    {n : GraphNode} {ev : Evaluation S} (hg : env.graph.Typed) (hstocked : env.Stocked)
    (hn : env.graph.nodes[slot]? = some n) (hop : n.op.isSource) :
    FailsBy (env.Obstacle slot n.op) (env.evaluate [slot]) ev := by
  rw [evaluate, Graph.schedule_leaf hn (Op.operands_of_isSource hop), evaluateAll_singleton]
  exact obstacle_of_evaluateSlot hg hstocked hn

/-- A source in range has a value unless its distribution cannot be sampled. -/
theorem Setting.Obstacle.fault_of_isSource {S : Type} {env : Setting S} {slot : Nat} {op : Op}
    {failure : Failure} (h : env.Obstacle slot op failure) (hop : op.isSource)
    (hrange : op.InRange) : ∃ fault, failure = .fault fault := by
  cases h with
  | unfed => cases hop
  | mismatched operands =>
    rw [Op.operands_of_isSource hop] at operands
    cases operands
  | unstretched => exact ⟨_, rfl⟩
  | unsampled refused =>
    have haccepted : Sampler.Accepted _ := hrange
    exact ⟨_, haccepted.failure_eq refused⟩

/-- Requests that append the node of one operation, perhaps with that of an initializer, or that
bind a function. -/
def Request.isBuilding : Request → Bool
  | gradients .. | run .. | execute .. | executePositional .. | readVariable .. | readShape .. |
    readType .. | readInitializer .. | dispose => false
  | _ => true

namespace Engine

variable {α : Type} {e : Engine} {c : Call α}

/-- From an engine a call that fails with an error leaves the engine as it is. -/
def Declines (c : Call α) (e : Engine) : Prop :=
  ∀ failure e', c e = .error failure e' → e' = e ∨ ∃ fault, failure = .fault fault

theorem declines_of_leads {post : α → Engine → Prop} (h : Leads c e (e = ·) post) :
    Declines c e :=
  fun _ _ hfail => .inl (h.of_eq_error hfail).symm

theorem Declines.discard (h : Declines c e) : Declines (discard c) e := by
  intro failure e' hfail
  rw [discard_eq_bind] at hfail
  rcases bind_eq_error_iff.1 hfail with hfail | ⟨a, e₁, -, ⟨⟩⟩
  exact h failure e' hfail

/-- A variable that is not created leaves nothing behind, not even the node of its initializer. -/
theorem declines_createVariable (hsound : e.Sound) (shape : DeclaredShape) (init : Initializer)
    (name : String) (trainable : Bool) : Declines (createVariable shape init name trainable) e := by
  intro failure e' hfail
  rcases (leads_createVariable_checked shape init name trainable).of_eq_error hfail with
    rfl | hchecked
  · exact .inl rfl
  -- past the checks only sampling can fail, and not with an error
  right
  obtain ⟨s, hs⟩ := Option.isSome_iff_exists.1 hchecked.active
  obtain ⟨made, hop, happended⟩ := (appends_compile init shape).of_eq_ok
    (compile_eq hchecked.active hchecked.closed hchecked.inRange)
  have hsound₁ := happended.change.sound hsound
  have hmade := happended.getElem?
  have hsource : made.op.isSource := hop ▸ init.isSource_op shape
  have hevaluate := evaluate_apply (e := e.push ⟨init.op shape, shape, .f32, none⟩)
    (s := s) hs .inference .empty [e.graph.size]
  -- the value would be there, and the variable with it, were it not for the samples
  cases hev : ((e.push ⟨init.op shape, shape, .f32, none⟩).setting s .inference .empty).evaluate
      [e.graph.size] (.start s.streams) with
  | ok value ev =>
    obtain ⟨node, e'', hok⟩ := exists_createVariable_of_evaluate trainable hchecked hs hev
    cases hok.symm.trans hfail
  | error failure' ev =>
    rw [hev] at hevaluate
    cases ((createVariable_eq trainable hchecked).trans (bind_of_error hevaluate)).symm.trans hfail
    exact (Setting.obstacle_of_evaluate_source hsound₁.typed (hsound₁.stocked hs _ _) hmade hsource
      _ _ hev).fault_of_isSource hsource (hop ▸ hchecked.inRange)

/-- Whatever has been asked of an engine before: if a request that builds a graph ends with an
error, then the engine is as it was, its nodes, their names, the trained variables, the values of
the variables and the streams, and no node of an initializer has been left behind. -/
theorem Reachable.declined_leaves_no_trace (h : e.Reachable) (r : Request) (hr : r.isBuilding)
    {err : Error} {e' : Engine} (hdeclined : r.call e = .error (.error err) e') : e' = e := by
  -- a call that appends a node either appends it or leaves the engine alone
  have appended {c : Call Node} {P : GraphNode → Prop} (hc : Appends c e P) :
      Declines (discard c) e := (declines_of_leads hc).discard
  have hdeclines : Declines r.call e := by
    cases r with
    | gradients | run | execute | executePositional | readVariable | readShape | readType
      | readInitializer | dispose => cases hr
    | weights shape init name =>
      exact (declines_createVariable h.sound shape init name true).discard
    | stateVariable shape init name =>
      exact (declines_createVariable h.sound shape init name false).discard
    | placeholder name shape => exact (declines_of_leads (leads_placeholder name shape)).discard
    | counter initial name => exact (declines_of_leads (leads_declare initial name)).discard
    | function inputs outputs updates =>
      exact (declines_of_leads (leads_function inputs outputs updates)).discard
    | constant value name => exact appended (appends_constant value)
    | update target value => exact appended (appends_update target value)
    | updateAdd target delta => exact appended (appends_updateAdd target delta)
    | randomNormal shape m stddev seed => exact appended (appends_randomNormal shape m stddev seed)
    | randomUniform shape min max seed => exact appended (appends_randomUniform shape min max seed)
    | truncatedNormal shape m stddev seed =>
      exact appended (appends_truncatedNormal shape m stddev seed)
    | zeros shape => exact appended (appends_fill shape 0)
    | ones shape => exact appended (appends_fill shape 1)
    | dot left right name => exact appended (appends_dot left right)
    | biasAdd input bias name => exact appended (appends_biasAdd input bias)
    | binary op left right name => exact appended (appends_binary op left right)
    | unary op input name => exact appended (appends_unary op input)
    | clip input min max name => exact appended (appends_clip input min max)
    | float input name => exact appended (appends_float input)
    | dropout input rate seed name => exact appended (appends_dropout input rate seed)
    | mean input name => exact appended (appends_mean input)
    | reduceSum input name => exact appended (appends_reduceSum input)
    | sigmoidCrossEntropy targets logits name =>
      exact appended (appends_sigmoidCrossEntropy targets logits)
    | softmaxCrossEntropy logits labels name =>
      exact appended (appends_softmaxCrossEntropy logits labels)
  -- only a fault could leave something behind, and this is an error
  rcases hdeclines _ _ hdeclined with heq | ⟨fault, hfault⟩
  · exact heq
  · cases hfault

/-- Weights with a deviation below zero are declined, and the name that they ask for stays free. -/
theorem counting_declines_weights :
    ∃ err, (Request.weights [2] (.randomNormal 0 (-1) none) "w").call counting =
        .error (.error err) counting ∧
      counting.graph.find? "w" = none := by
  obtain ⟨err, e', hfail⟩ := exists_of_refuses
    (by decide +kernel :
      refuses (Request.weights [2] (.randomNormal 0 (-1) none) "w").call counting)
  obtain rfl := Reachable.declined_leaves_no_trace reachable_counting _ rfl hfail
  exact ⟨err, hfail, by decide +kernel⟩

end Engine
end TensorGraph
