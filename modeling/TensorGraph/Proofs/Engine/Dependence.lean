import TensorGraph.Engine.Summary
import TensorGraph.Proofs.Engine.Reachable
import TensorGraph.Proofs.Evaluation.Ordering

/-!
# What a node depends on

A summary shows the slots that every node is connected to. What a node evaluates to, or how it
fails, depends on the slots that these edges lead to and on nothing else: neither on feeds,
variables and streams of other slots, nor on what else a run evaluates. Evaluating the node draws
from the streams of such slots only, and makes assignments to such slots only.

## Main definitions

* `GraphSummary.Reaches`: the slots that the edges of a summary lead to.

## Main results

* `Engine.evaluation_confined`: what evaluating a node depends on, and what it changes.
-/

namespace TensorGraph

namespace GraphSummary

/-- A summary shows the first slot as connected to the second one. -/
def Edge (s : GraphSummary) (a b : Nat) : Prop := ∃ n ∈ s.nodes, n.index = a ∧ b ∈ n.inputs

/-- The edges of a summary lead from the first slot to the second one. -/
def Reaches (s : GraphSummary) : Nat → Nat → Prop := Relation.ReflTransGen s.Edge

end GraphSummary

namespace Engine

variable {e : Engine} {a b : Nat}

/-- A summary shows what the operations of the graph are connected to. -/
theorem edge_summary_iff :
    e.summary.Edge a b ↔ ∃ n, e.graph.nodes[a]? = some n ∧ b ∈ n.op.inputs := by
  simp only [GraphSummary.Edge, summary, List.mem_iff_getElem?, List.getElem?_mapIdx,
    Array.getElem?_toList, Option.map_eq_some_iff]
  constructor
  · rintro ⟨_, ⟨i, n, hn, rfl⟩, rfl, hb⟩
    exact ⟨n, hn, hb⟩
  · rintro ⟨n, hn, hb⟩
    exact ⟨_, ⟨a, n, hn, rfl⟩, rfl, hb⟩

/-- Edges lead to what a slot needs. -/
theorem edge_of_mem_operands (h : b ∈ e.graph.operands a) : e.summary.Edge a b := by
  cases hn : e.graph.nodes[a]? with
  | none => simp [Graph.operands, hn] at h
  | some n =>
    rw [Graph.operands_eq hn] at h
    exact edge_summary_iff.2 ⟨n, hn, n.op.operands_subset_inputs h⟩

theorem summary_reaches_of_reaches (h : e.graph.Reaches a b) : e.summary.Reaches a b :=
  Relation.ReflTransGen.mono (fun _ _ h => edge_of_mem_operands h) _ _ h

/-- Edges lead to earlier slots. -/
theorem le_of_summary_reaches (hg : e.graph.Typed) (h : e.summary.Reaches a b) : b ≤ a := by
  induction h with
  | refl => exact Nat.le_refl a
  | tail _ hedge ih =>
    obtain ⟨n, hn, hb⟩ := edge_summary_iff.1 hedge
    exact Nat.le_trans (Nat.le_of_lt (hg.lt_of_mem_inputs hn hb)) ih

variable {S : Type} [Scalar S]

/-- What evaluating a node comes to depends on what a run finds in the slots that the edges of the
summary lead to. Two runs that find the same there, in the same phase, come to the same value or
fail in the same way; they draw and keep the same for these slots, make the same assignments and
records, and leave all other slots alone, whether they succeed or fail. The value is the same when
the node is evaluated along with other targets. -/
theorem evaluation_confined (he : e.Reachable) {o : Nat} (ho : o < e.size) {env env' : Setting S}
    {streams streams' : SlotMap Stream} (hgraph : env.graph = e.graph)
    (h : env.Shares (e.summary.Reaches o) env' streams streams') :
    Agree (fun ev ev' => Evaluation.Same (e.summary.Reaches o) env env' ev ev' ∧
        ev.Within (e.summary.Reaches o) streams ∧ ev'.Within (e.summary.Reaches o) streams')
      (env.evaluate [o] (.start streams)) (env'.evaluate [o] (.start streams')) ∧
    ∀ {targets targets' : List Nat} {ev ev' : Evaluation S},
      (∀ t ∈ targets, t < e.size) → (∀ t ∈ targets', t < e.size) → o ∈ targets → o ∈ targets' →
      env.evaluate targets (.start streams) = .ok () ev →
      env'.evaluate targets' (.start streams') = .ok () ev' →
        ∃ t, ev.values.get? o = some t ∧ ev'.values.get? o = some t := by
  have hg : env.graph.Typed := hgraph ▸ he.sound.typed
  have hsize : env.graph.size = e.size := by rw [hgraph, size]
  have hinputs : ∀ {s n}, e.summary.Reaches o s → env.graph.nodes[s]? = some n →
      ∀ i ∈ n.op.inputs, e.summary.Reaches o i := fun hs hn i hi =>
    hs.tail (edge_summary_iff.2 ⟨_, hgraph ▸ hn, hi⟩)
  have hclosed : ∀ {s i}, e.summary.Reaches o s → i ∈ env.graph.operands s →
      e.summary.Reaches o i := fun hs hi => hs.tail (edge_of_mem_operands (hgraph ▸ hi))
  have hscheduled : ∀ s ∈ env.graph.schedule [o], e.summary.Reaches o s := fun s hs =>
    summary_reaches_of_reaches (hgraph ▸ (hg.mem_schedule_singleton_iff (hsize ▸ ho)).1 hs)
  -- alone, the slot is evaluated after the slots that it reaches and no others
  constructor
  · rw [Setting.evaluate, Setting.evaluate, h.graph]
    refine ((Evaluation.same_start h).evaluateAll hclosed hscheduled).maintains
      (Setting.within_evaluateAll hscheduled hinputs) (Setting.within_start streams)
      (Setting.within_evaluateAll hscheduled ?_) (Setting.within_start streams')
    rwa [h.graph]
  · intro targets targets' ev ev' htargets htargets' hmem hmem' hev hev'
    -- along with other targets, it has the value that its sources determine
    rw [← hsize] at htargets htargets'
    have hmem := hg.mem_schedule_reverse htargets hmem
    have hmem' := hg.mem_schedule_reverse htargets' hmem'
    have hsourced := sourced_of_evaluate hg htargets hev
    have hsourced' : Sourced env' streams' (env.graph.schedule targets').reverse ev' := by
      rw [← h.graph] at hg htargets' ⊢
      exact sourced_of_evaluate hg htargets' hev'
    refine ⟨_, hsourced.values_eq hmem, ?_⟩
    rw [hsourced'.values_eq hmem', (hsourced.agree hsourced' hg h hclosed
      (hg.finished_schedule htargets) (hg.finished_schedule htargets') hmem hmem' .refl).1]

/-- An engine with a placeholder, samples from a stream with a seed, their sum in slot 2, and a
placeholder that the sum does not depend on. -/
def noisy : Engine :=
  built [.placeholder "x" [2], .randomNormal [2] 0 1 (some 7), .binary .add ⟨0, 0⟩ ⟨0, 1⟩ none,
    .placeholder "y" [2]]

/-- A setting in which the second placeholder is fed with copies of a number. -/
def noisyWith (y : Float32) (entropy : UInt64) : Setting Float32 :=
  { graph := noisy.graph, store := .empty
    feeds := (SlotMap.empty.insert 0 (.full [2] 1)).insert 3 (.full [2] y)
    phase := .train, entropy := entropy }

/-- The sum comes to the same whatever the second placeholder is fed with and wherever streams
without a seed come from. -/
theorem noisy_confined :
    noisy.Reachable ∧ 2 < noisy.size ∧
      (noisyWith 0 1).Shares (noisy.summary.Reaches 2) (noisyWith 4 2) .empty .empty ∧
      Agree (fun ev ev' => ev'.values.get? 2 = ev.values.get? 2)
        ((noisyWith 0 1).evaluate [2] (.start .empty))
        ((noisyWith 4 2).evaluate [2] (.start .empty)) := by
  have hreachable : noisy.Reachable := reachable_built _
  have hsize : 2 < noisy.size := by decide +kernel
  have hshares : (noisyWith 0 1).Shares (noisy.summary.Reaches 2) (noisyWith 4 2) .empty .empty :=
    { graph := rfl
      phase := rfl
      store := fun _ _ => rfl
      feeds := fun s hs => by
        have hle := le_of_summary_reaches hreachable.sound.typed hs
        have hne : s ≠ 3 := by omega
        simp only [noisyWith, SlotMap.get?_insert_of_ne _ _ hne]
      streams := fun {s n seed} hs hn hseed => by
        -- the only node that may draw has a seed
        have hseeds : ∀ n ∈ noisy.graph.nodes, (n.op.seed?.all Option.isSome) := by
          decide +kernel
        have hsome := hseeds n (Array.mem_of_getElem? hn)
        rw [hseed, Option.all_some] at hsome
        obtain ⟨k, rfl⟩ := Option.isSome_iff_exists.1 hsome
        rfl }
  obtain ⟨hagree, -⟩ := evaluation_confined hreachable hsize rfl hshares
  exact ⟨hreachable, hsize, hshares, hagree.imp fun _ _ h => h.1.values 2 .refl⟩

end Engine
end TensorGraph
