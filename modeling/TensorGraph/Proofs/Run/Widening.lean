import TensorGraph.Proofs.Engine.Veiled
import TensorGraph.Proofs.Evaluation.Widening
import TensorGraph.Proofs.Run.Overrides

/-!
# Functions on an engine with further nodes

A function is bound over nodes of a graph. When nodes are appended and the session stays as it is,
executing the function goes on giving the same, and leaves the same session behind: it never looks
at the new nodes.

## Main definitions

* `Function.Within`: a function over nodes of a graph.
* `Function.Over`: a function that binding it has checked.
* `Engine.Wider`: an engine with further nodes and the same session.

## Main results

* `Engine.blind_execute_within`: executing a function over earlier nodes gives the same.
* `Engine.within_of_function`: a function that an engine has bound is one over its nodes.
-/

namespace TensorGraph

open Engine

variable {f : Function} {g g' : Graph} {e e' : Engine} {handle : Node}

/-- A handle of a node goes on naming it in a longer graph. -/
theorem Engine.Located.extend {found : Nat × GraphNode} (h : Located g handle found)
    (hg : g.Extends g') : Located g' handle found :=
  ⟨h.graph.trans hg.id.symm, h.slot, hg.node h.node⟩

namespace Function

/-- A function whose inputs, outputs and updates are nodes of a graph. -/
def Within (f : Function) (g : Graph) : Prop :=
  ∀ n ∈ f.inputs ++ (f.outputs ++ f.updates), ∃ found, Located g n found

theorem Within.extend (h : f.Within g) (hg : g.Extends g') : f.Within g' := by
  intro n hn
  obtain ⟨found, hfound⟩ := h n hn
  exact ⟨found, hfound.extend hg⟩

/-- A function over a graph: its inputs are placeholders of the graph, its outputs nodes, and its
updates updates. -/
structure Over (f : Function) (g : Graph) : Prop where
  graph : f.graph = g.id
  input : ∀ n ∈ f.inputs, ∃ found, Located g n found ∧ found.2.op.isPlaceholder
  output : ∀ n ∈ f.outputs, ∃ found, Located g n found
  update : ∀ n ∈ f.updates, ∃ found, Located g n found ∧ found.2.op.isUpdate

theorem Over.within (h : f.Over g) : f.Within g := by
  refine List.forall_mem_append.2 ⟨fun n hn => ?_, List.forall_mem_append.2
    ⟨h.output, fun n hn => ?_⟩⟩
  · obtain ⟨found, hfound, -⟩ := h.input n hn
    exact ⟨found, hfound⟩
  · obtain ⟨found, hfound, -⟩ := h.update n hn
    exact ⟨found, hfound⟩

theorem Over.extend (h : f.Over g) (hg : g.Extends g') : f.Over g' where
  graph := h.graph.trans hg.id.symm
  input n hn := by
    obtain ⟨found, hfound, hop⟩ := h.input n hn
    exact ⟨found, hfound.extend hg, hop⟩
  output n hn := by
    obtain ⟨found, hfound⟩ := h.output n hn
    exact ⟨found, hfound.extend hg⟩
  update n hn := by
    obtain ⟨found, hfound, hop⟩ := h.update n hn
    exact ⟨found, hfound.extend hg, hop⟩

/-- Only the inputs of a function are bound. -/
theorem mem_inputs_of_resolve {overrides feeds : List (Node × Value)}
    (h : f.resolve overrides = .ok feeds) : ∀ feed ∈ feeds, feed.1 ∈ f.inputs := by
  intro feed hfeed
  unfold resolve at h
  split at h
  · cases h
  · rw [← map_fst_of_resolveInputs h]
    exact List.mem_map_of_mem hfeed

end Function

namespace Engine

/-! ## Engines with further nodes -/

/-- Engines over a graph and a longer one, with the same session. -/
structure Wider (g g' : Graph) (e e' : Engine) : Prop where
  graph : e.graph = g
  wider : e'.graph = g'
  session : e'.session = e.session

/-- Calls on nodes of the shorter graph do not see the nodes that the longer one has besides. -/
theorem veiledOn_wider (h : g.Extends g') :
    VeiledOn (fun n => ∃ found, Located g n found) (Wider g g') where
  id {e e'} hrel := by rw [hrel.graph, hrel.wider, h.id]
  locate {handle} hknown := by
    rintro e e' hrel
    obtain ⟨found, hfound⟩ := hknown
    -- a node of the shorter graph is located in both
    have hhere : Located e.graph handle found := hrel.graph ▸ hfound
    have hthere : Located e'.graph handle found := hrel.wider ▸ hfound.extend h
    rw [hhere.locate_eq, hthere.locate_eq]
    exact .ok hrel
  isNone hrel := congrArg Option.isNone hrel.session
  report r := .modify fun _ _ hrel => ⟨hrel.graph, hrel.wider, hrel.session⟩
  commit assignments := .modify fun e e' hrel => by
    refine ⟨hrel.graph, hrel.wider, ?_⟩
    dsimp only
    rw [hrel.session]

/-- Evaluating slots of the shorter graph. -/
theorem blind_evaluate_earlier (hg : g.Typed) (h : g.Extends g') (phase : Phase)
    (table : SlotMap (Tensor Float32)) {targets : List Nat} (htargets : ∀ t ∈ targets, t < g.size) :
    Blind (Wider g g') (evaluate phase table targets) := by
  rintro e e' ⟨rfl, rfl, hsession⟩
  cases hs : e.session with
  | none =>
    rw [evaluate_of_none hs, evaluate_of_none (hsession.trans hs)]
    exact .error ⟨rfl, rfl, hsession⟩
  | some s =>
    have hs' : e'.session = some s := hsession.trans hs
    have heval : (e'.setting s phase table).evaluate targets =
        (e.setting s phase table).evaluate targets :=
      @Setting.evaluate_widen _ (e.setting s phase table) _ h _ hg _ htargets
    rw [evaluate_apply hs, evaluate_apply hs', heval]
    -- what the evaluation leaves is kept on top of the same session
    cases (e.setting s phase table).evaluate targets (.start s.streams) with
    | ok u ev => exact .ok ⟨rfl, rfl, rfl⟩
    | error failure ev => exact .error ⟨rfl, rfl, rfl⟩

/-- Executing a function over earlier nodes gives the same on an engine with further nodes, and
leaves the same session behind. -/
theorem blind_execute_within (hg : g.Typed) (h : g.Extends g') (hf : f.Within g)
    (overrides : List (Node × Value)) : Blind (Wider g g') (execute f overrides) := by
  obtain ⟨hinputs, htargets⟩ := List.forall_mem_append.1 hf
  have hearlier : ∀ t ∈ (f.outputs ++ f.updates).map (·.index), t < g.size := by
    refine List.forall_mem_map.2 fun n hn => ?_
    obtain ⟨found, hfound⟩ := htargets n hn
    exact Graph.lt_size_of_getElem? hfound.node
  have hveiled := veiledOn_wider h
  intro e e' hrel
  unfold execute
  -- resolving the bindings looks at the function only
  cases hresolve : f.resolve overrides with
  | error err => exact .error hrel
  | ok feeds =>
    have hfeeds : ∀ feed ∈ feeds, ∃ found, Located g feed.1 found := fun feed hfeed =>
      hinputs feed.1 (f.mem_inputs_of_resolve hresolve feed hfeed)
    change Agree (Wider g g') (run f feeds e) (run f feeds e')
    refine hveiled.agree_run htargets hfeeds hrel fun e₁ e₁' outputs _ hrel _ _ _ => ?_
    exact ((blind_evaluate_earlier hg h _ _ hearlier).bind (hveiled.finishRun outputs)) _ _ hrel

/-! ## Functions that have been bound -/

/-- Checks that are made one after the other and passed have each been passed. -/
theorem forall_of_forM {α : Type} {c : α → Call PUnit} {P : α → Prop}
    (hc : ∀ a, Leads (c a) e (fun _ => True) fun _ e' => e = e' ∧ P a) (as : List α) :
    Leads (as.forM c) e (fun _ => True) fun _ e' => e = e' ∧ ∀ a ∈ as, P a := by
  induction as with
  | nil => exact leads_pure ⟨rfl, by simp⟩
  | cons a as ih =>
    refine leads_bind_iff.2 ((hc a).mono ?_)
    rintro - _ ⟨rfl, ha⟩
    exact ih.mono fun _ _ ⟨he, has⟩ => ⟨he, List.forall_mem_cons.2 ⟨ha, has⟩⟩

/-- Binding a function checks everything that it is bound over. -/
theorem over_of_function {inputs outputs updates : List Node}
    (h : function inputs outputs updates e = .ok f e') : f.Over e.graph := by
  have hinput : ∀ n, Leads (checkInput n) e (fun _ => True)
      fun _ e' => e = e' ∧ ∃ found, Located e.graph n found ∧ found.2.op.isPlaceholder := fun n =>
    leads_located trivial fun found hfound => leads_check trivial fun hop =>
      ⟨rfl, found, hfound, by simpa using hop⟩
  have houtput : ∀ n, Leads (discard (locate n)) e (fun _ => True)
      fun _ e' => e = e' ∧ ∃ found, Located e.graph n found := by
    intro n
    rw [discard_eq_bind]
    exact leads_located trivial fun found hfound => leads_pure ⟨rfl, found, hfound⟩
  have hupdate : ∀ n, Leads (checkUpdate n) e (fun _ => True)
      fun _ e' => e = e' ∧ ∃ found, Located e.graph n found ∧ found.2.op.isUpdate := fun n =>
    leads_located trivial fun found hfound => leads_check trivial fun hop =>
      ⟨rfl, found, hfound, by simpa using hop⟩
  -- the checks change nothing, so each list is checked in the same engine
  have hbound : Leads (function inputs outputs updates) e (fun _ => True)
      fun f _ => f.Over e.graph := by
    refine leads_checkActive trivial fun _ => ?_
    refine leads_bind_iff.2 ((forall_of_forM hinput inputs).mono ?_)
    rintro - _ ⟨rfl, hinputs⟩
    refine leads_bind_iff.2 ((forall_of_forM houtput outputs).mono ?_)
    rintro - _ ⟨rfl, houtputs⟩
    refine leads_bind_iff.2 ((forall_of_forM hupdate updates).mono ?_)
    rintro - _ ⟨rfl, hupdates⟩
    exact leads_currentGraph (leads_pure ⟨rfl, hinputs, houtputs, hupdates⟩)
  exact hbound.of_eq_ok h

/-- Binding a function locates everything that it is bound over. -/
theorem within_of_function {inputs outputs updates : List Node}
    (h : function inputs outputs updates e = .ok f e') : f.Within e.graph :=
  (over_of_function h).within

end Engine
end TensorGraph
