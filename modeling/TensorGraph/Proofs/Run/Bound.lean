import TensorGraph.Proofs.Engine.Lasting
import TensorGraph.Proofs.Engine.Ranging
import TensorGraph.Proofs.Run.Succeeding

/-!
# Runs of functions that have been bound

Binding a function checks what it is over, and nothing that is asked of the engine later takes this
away. So once a function has been bound, and as long as the session is there, a run of it on feeds
that may be fed never fails for the state of the engine: no variable is without a value, no shape is
open that must be closed, no parameter is out of range, and nothing is missing from the graph. What
is left are the data: a placeholder that is needed and not fed, and shapes that do not go together.

## Main definitions

* `Graph.Needs`: what the outputs and the updates of a function need.
* `Engine.DataFailure`: why such a run fails.

## Main results

* `Engine.bound_run_fails_for_data`: such a run fails for no other reason.
-/

namespace TensorGraph

/-- The slots that the outputs and the updates of a function need. -/
def Graph.Needs (g : Graph) (f : Function) (slot : Nat) : Prop :=
  ∃ n ∈ f.outputs ++ f.updates, g.Reaches n.index slot

namespace Engine

/-- Why a run of a function on feeds that may be fed fails. A fault is an operation that gives
neither a value nor an error. -/
inductive DataFailure (g : Graph) (f : Function) (feeds : List (Node × Value)) : Failure → Prop
  /-- A placeholder that is needed is not fed. -/
  | unfed {slot : Nat} {k : GraphNode} (needed : g.Needs f slot) (node : g.nodes[slot]? = some k)
      (placeholder : k.op.isPlaceholder) (absent : ∀ feed ∈ feeds, feed.1.index ≠ slot) :
    DataFailure g f feeds (.error (.unresolvedInput (k.label slot)))
  /-- The shapes of two operands that are needed do not go together. -/
  | mismatched {slot : Nat} {k : GraphNode} {expected : DeclaredShape} {actual : Shape}
      (needed : g.Needs f slot) (node : g.nodes[slot]? = some k)
      (operands : k.op.operands.length = 2) :
    DataFailure g f feeds (.error (.shapeMismatch (k.label slot) expected actual))
  /-- A value does not stretch to the variable that an update gives it to. -/
  | unstretched {slot : Nat} {k : GraphNode} {source target : Shape} (needed : g.Needs f slot)
      (node : g.nodes[slot]? = some k) (update : k.op.isUpdate) :
    DataFailure g f feeds (.fault (.cannotStretch source target))
  /-- No samples are drawn from a distribution with parameters in range. -/
  | unsampled {slot : Nat} {k : GraphNode} {sampler : Sampler} {seed : Option UInt64}
      {count : Nat} {stream : Stream} {defect : SamplingDefect} (needed : g.Needs f slot)
      (node : g.nodes[slot]? = some k) (random : k.op = .random sampler seed)
      (accepted : sampler.Accepted) (refused : (sampler.draw count stream).1 = .error defect) :
    DataFailure g f feeds (.fault (.cannotSample defect))

variable {e : Engine} {f : Function} {feeds : List (Node × Value)}

/-- Whether a value may be fed is decided by the node that it is for. -/
instance (g : Graph) (feed : Node × Value) : Decidable (Admitted g feed) :=
  decidable_of_iff (feed.1.graph = g.id ∧ (g.nodes[feed.1.index]?).any fun n =>
      decide (feed.2.type = n.type) && feed.2.fits n.shape && decide (0 ∉ feed.2.shape)) <| by
    simp only [Option.any_eq_true, Bool.and_eq_true, decide_eq_true_eq]
    constructor
    · rintro ⟨hgraph, n, hn, ⟨htype, hfits⟩, hpos⟩
      exact ⟨(feed.1.index, n), ⟨hgraph, rfl, hn⟩, htype, hfits, hpos⟩
    · rintro ⟨found, hfound, htype, hfits, hpos⟩
      exact ⟨hfound.graph, found.2, hfound.node, ⟨htype, hfits⟩, hpos⟩

/-- An obstacle in a run is one for its data. -/
theorem dataFailure_of_obstacle {s : Session} {slot : Nat} {k : GraphNode} {failure : Failure}
    (hranged : e.graph.Ranged) (hneeded : e.graph.Needs f slot)
    (hk : e.graph.nodes[slot]? = some k)
    (h : (e.setting s f.phase (feedTable feeds .empty)).Obstacle slot k.op failure) :
    DataFailure e.graph f feeds failure := by
  have hlabel : (e.setting s f.phase (feedTable feeds .empty)).graph.label slot = k.label slot :=
    Graph.label_eq hk
  have hrange := hranged slot k hk
  generalize hop : k.op = op at h hrange
  cases h with
  | unfed absent =>
    rw [hlabel]
    refine .unfed hneeded hk (by rw [hop]; rfl) fun feed hfeed hslot => ?_
    -- what is fed would be found in the table
    have hfound : ((feedTable feeds .empty).get? slot).isSome :=
      isSome_get?_feedTable (.inr ⟨feed, hfeed, hslot⟩)
    change (feedTable feeds .empty).get? slot = none at absent
    rw [absent] at hfound
    cases hfound
  | mismatched operands =>
    rw [hlabel]
    exact .mismatched hneeded hk (hop ▸ operands)
  | unstretched update => exact .unstretched hneeded hk (hop ▸ update)
  | unsampled refused =>
    rw [hrange.failure_eq refused]
    exact .unsampled hneeded hk hop hrange refused

/-- A run on feeds that may be fed, of a function over the graph of a live engine, fails for the
data. -/
theorem failsBy_run_over (hsound : e.Sound) (hranged : e.graph.Ranged) (hactive : e.session.isSome)
    (hf : f.Over e.graph) (hfeeds : ∀ feed ∈ feeds, Admitted e.graph feed) :
    FailsBy (DataFailure e.graph f feeds) (run f feeds) e := by
  intro failure e' hrun
  -- of all reasons for refusing a run, binding the function and admitting the feeds leave one
  cases refusal_of_run hsound _ _ hrun with
  | disposed ended =>
    rw [ended] at hactive
    cases hactive
  | foreign different => exact absurd hf.graph different
  | feed mem refused => exact absurd (hfeeds _ mem) refused.not_admitted
  | unknown mem missing =>
    obtain ⟨found, hfound⟩ := hf.within _ (List.mem_append_right _ mem)
    exact absurd hfound (missing found)
  | evaluation active mem reached node obstacle =>
    exact dataFailure_of_obstacle hranged ⟨_, mem, reached⟩ node obstacle

/-- While the session is there, a run of a function that has been bound, now or earlier, in any
phase and on any feeds that fit the nodes they are for, gives values or fails for the data. Then a
placeholder that it needs is not fed, or two shapes do not go together, unless the run ends with a
fault. The parameters of whatever it needs are in range. -/
theorem bound_run_fails_for_data (h : e.Reachable) {inputs outputs updates : List Node}
    {e₁ : Engine} (hf : function inputs outputs updates e = .ok f e₁) (rs : List Request)
    (hactive : (e.afterAll rs).session.isSome)
    (hfeeds : ∀ feed ∈ feeds, Admitted (e.afterAll rs).graph feed)
    (defaults : List (Node × Value)) (phase : Phase) :
    (∀ (slot : Nat) k, (e.afterAll rs).graph.Needs f slot →
      (e.afterAll rs).graph.nodes[slot]? = some k → k.op.InRange) ∧
    ((∃ values e', run { f with defaults := defaults, phase := phase } feeds (e.afterAll rs) =
        .ok values e') ∨
      ∃ failure e', run { f with defaults := defaults, phase := phase } feeds (e.afterAll rs) =
        .error failure e' ∧ DataFailure (e.afterAll rs).graph f feeds failure) := by
  have hreachable := h.afterAll rs
  have hranged := hreachable.ranged
  refine ⟨fun slot k _ hk => hranged slot k hk, ?_⟩
  obtain ⟨graph, input, output, update⟩ :=
    (over_of_function hf).extend (h.changes_afterAll rs).extends
  have hfails := failsBy_run_over (f := { f with defaults := defaults, phase := phase })
    hreachable.sound hranged hactive ⟨graph, input, output, update⟩ hfeeds
  cases hrun : run { f with defaults := defaults, phase := phase } feeds (e.afterAll rs) with
  | ok values e' => exact .inl ⟨values, e', rfl⟩
  | error failure e' =>
    refine .inr ⟨failure, e', rfl, ?_⟩
    -- what a function needs depends on its outputs and updates alone
    cases hfails _ _ hrun with
    | unfed needed node placeholder absent => exact .unfed needed node placeholder absent
    | mismatched needed node operands => exact .mismatched needed node operands
    | unstretched needed node update => exact .unstretched needed node update
    | unsampled needed node random accepted refused =>
      exact .unsampled needed node random accepted refused

/-- An engine with two placeholders for vectors of any length, and their sum. -/
def adding : Engine :=
  built [.placeholder "x" [openAxis], .placeholder "y" [openAxis],
    .binary .add ⟨0, 0⟩ ⟨0, 1⟩ (some "sum")]

/-- Vectors of different lengths for the two placeholders. -/
def unequalFeeds : List (Node × Value) :=
  [(⟨0, 0⟩, .vector #[1, 2]), (⟨0, 1⟩, .vector #[1, 2, 3])]

/-- Adding vectors of different lengths, in a graph that has grown by a counter, fails for the
data, and so does adding a vector to nothing. -/
theorem adding_fails_for_data :
    (∃ failure e', run (.ofNodes 0 [⟨0, 0⟩, ⟨0, 1⟩] [⟨0, 2⟩] []) unequalFeeds
        (adding.afterAll [.counter 5 "steps"]) = .error failure e' ∧
      DataFailure (adding.afterAll [.counter 5 "steps"]).graph
        (.ofNodes 0 [⟨0, 0⟩, ⟨0, 1⟩] [⟨0, 2⟩] []) unequalFeeds failure) ∧
    ∃ failure e', run (.ofNodes 0 [⟨0, 0⟩, ⟨0, 1⟩] [⟨0, 2⟩] []) [(⟨0, 0⟩, .vector #[1, 2])]
        (adding.afterAll [.counter 5 "steps"]) = .error failure e' ∧
      DataFailure (adding.afterAll [.counter 5 "steps"]).graph
        (.ofNodes 0 [⟨0, 0⟩, ⟨0, 1⟩] [⟨0, 2⟩] []) [(⟨0, 0⟩, .vector #[1, 2])] failure := by
  have hreachable : adding.Reachable := reachable_built _
  have hid : adding.graph.id = 0 := by decide +kernel
  obtain ⟨f, e₁, hf⟩ := exists_of_gives (c := function [⟨0, 0⟩, ⟨0, 1⟩] [⟨0, 2⟩] [])
    (e := adding) (by decide +kernel)
  obtain ⟨-, hbound⟩ := (leads_function _ _ _).of_eq_ok hf
  rw [hid] at hbound
  subst hbound
  have hactive : (adding.afterAll [.counter 5 "steps"]).session.isSome := by decide +kernel
  -- feeds that are admitted and do not give values fail in the one way that is left
  have hfails : ∀ feeds, (∀ feed ∈ feeds,
      Admitted (adding.afterAll [.counter 5 "steps"]).graph feed) →
      gives (run (.ofNodes 0 [⟨0, 0⟩, ⟨0, 1⟩] [⟨0, 2⟩] []) feeds)
        (adding.afterAll [.counter 5 "steps"]) = false →
      ∃ failure e', run (.ofNodes 0 [⟨0, 0⟩, ⟨0, 1⟩] [⟨0, 2⟩] []) feeds
          (adding.afterAll [.counter 5 "steps"]) = .error failure e' ∧
        DataFailure (adding.afterAll [.counter 5 "steps"]).graph
          (.ofNodes 0 [⟨0, 0⟩, ⟨0, 1⟩] [⟨0, 2⟩] []) feeds failure := by
    intro feeds hfeeds hfail
    obtain ⟨-, ⟨values, e', hok⟩ | hfailure⟩ :=
      bound_run_fails_for_data hreachable hf _ hactive hfeeds [] .inference
    · have hgives := gives_of_eq hok
      exact absurd (hgives.symm.trans hfail) (by simp)
    · exact hfailure
  exact ⟨hfails _ (by decide +kernel) (by decide +kernel),
    hfails _ (by decide +kernel) (by decide +kernel)⟩

end Engine
end TensorGraph
