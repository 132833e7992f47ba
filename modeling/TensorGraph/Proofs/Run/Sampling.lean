import TensorGraph.Proofs.Engine.Demanding
import TensorGraph.Proofs.Engine.Lasting
import TensorGraph.Proofs.Evaluation.Sampling

/-!
# What seeded nodes sample

A seeded node has a stream of its own, which starts from the seed and is moved only by what is drawn
for the node. A request draws for a node at most once, in its evaluation, and goes on from where the
draws of earlier requests have left the stream. So what a seeded node samples is settled by its
seed and the sizes of its draws, whatever else is in the graph or is asked of the engine.

## Main definitions

* `Request.samplings` and `Engine.samplings`: the draws for a slot that requests make.
* `Engine.Drawn`: the draws that have been made for a slot of an engine.
* `Request.Evaluates`: a request that evaluates what it asks for.

## Main results

* `Engine.Drawn.request` and `Engine.Drawn.afterAll`: what one request draws, and what a run of
  requests draws.
* `Engine.seeded_samplings`: what a seeded node samples over any run of requests.
-/

namespace TensorGraph

deriving instance DecidableEq for Sampling

variable {noise : Noise} {k : UInt64} {slot : Nat}

/-- Where the stream of a slot is that starts from a seed. -/
def Session.position (s : Session) (slot : Nat) (seed : UInt64) : Stream :=
  (s.streams.get? slot).getD (Stream.ofSeed seed)

/-- The draws for a slot that evaluating what is asked for makes. -/
def Demand.samplings (d : Demand) (slot : Nat) (e : Engine) : List Sampling :=
  match e.session with
  | some s => (e.setting s d.phase d.feeds).samplings slot (e.graph.schedule d.targets)
      (.start s.streams)
  | none => []

/-- The draws for a slot that a request makes. -/
def Request.samplings (r : Request) (slot : Nat) (e : Engine) : List Sampling :=
  match r.demand e with
  | .ok (some d) e' => d.samplings slot e'
  | _ => []

namespace Engine

variable {e e' : Engine} {log : List Sampling}

/-- The draws for a slot that requests make, for each request those of its own. -/
def samplings (slot : Nat) : Engine → List Request → List (List Sampling)
  | _, [] => []
  | e, r :: rs => r.samplings slot e :: samplings slot (e.after r.call) rs

/-- The draws that have been made for a seeded slot. They follow each other from the seed on to
where the stream of the slot is, as long as there is a session. -/
def Drawn (noise : Noise) (seed : UInt64) (slot : Nat) (log : List Sampling) (e : Engine) : Prop :=
  ∃ t, noise.Follows log (.ofSeed seed) t ∧ ∀ s, e.session = some s → s.position slot seed = t

theorem drawn_create (noise : Noise) (seed : UInt64) (slot id : Nat) (entropy : UInt64) :
    Drawn noise seed slot [] (create id entropy) := by
  refine ⟨_, .nil _, fun s hs => ?_⟩
  cases hs
  rfl

/-- What follows an evaluation leaves the streams where the evaluation has left them. -/
theorem unstirred_conclude (r : Request) (d : Demand) (e : Engine) :
    Unstirred (e.after (evaluate d.phase d.feeds d.targets)) (e.after (r.conclude (some d))) := by
  unfold Request.conclude
  cases hev : evaluate d.phase d.feeds d.targets e with
  | ok ev e' =>
    rw [after_bind_of_ok hev, after, hev]
    exact (r.keeps_settle d ev e').after
  | error failure e' =>
    rw [after_bind_of_error hev, after, hev]
    exact .refl e'

theorem extends_conclude (r : Request) (d : Demand) (e : Engine) :
    e.graph.Extends (e.after (r.conclude (some d))).graph := by
  rw [← graph_after_evaluate e d.phase d.feeds d.targets]
  exact (unstirred_conclude r d e).grown

namespace Drawn

/-- Nothing is drawn where the streams stay where they are. -/
theorem unstirred (h : Drawn noise k slot log e) (he : Unstirred e e') :
    Drawn noise k slot log e' := by
  obtain ⟨t, hlog, hposition⟩ := h
  refine ⟨t, hlog, fun s' hs' => ?_⟩
  obtain ⟨s, hs, hstreams⟩ := he.streams hs'
  rw [← hposition s hs, Session.position, hstreams]
  rfl

/-- An evaluation adds its draws for the slot, also when it fails. -/
theorem evaluate (h : Drawn noise k slot log e)
    (hslot : ∀ n, e.graph.nodes[slot]? = some n → n.op.noise? = some (noise, some k)) (d : Demand) :
    Drawn noise k slot (log ++ d.samplings slot e)
      (e.after (Engine.evaluate d.phase d.feeds d.targets)) := by
  unfold Demand.samplings
  -- a disposed engine evaluates nothing
  cases hs : e.session with
  | none =>
    rw [after, evaluate_of_none hs, List.append_nil]
    exact h
  | some s =>
    obtain ⟨t, hlog, hposition⟩ := h
    obtain rfl := hposition s hs
    rw [after_evaluate hs]
    have hdraws : noise.Follows ((e.setting s d.phase d.feeds).samplings slot
        (e.graph.schedule d.targets) (.start s.streams))
        ((e.setting s d.phase d.feeds).streamOf s.streams slot (some k)) _ :=
      Setting.follows_evaluateAll hslot (e.graph.schedule d.targets) (.start s.streams)
    refine ⟨_, hlog.append hdraws, fun s' hs' => ?_⟩
    cases hs'
    rfl

/-- A request adds its draws for the slot. Before and after its evaluation the streams stay where
they are. -/
theorem request (h : Drawn noise k slot log e) (hsound : e.Sound) (r : Request)
    (hslot : ∀ n, (e.after r.call).graph.nodes[slot]? = some n →
      n.op.noise? = some (noise, some k)) :
    Drawn noise k slot (log ++ r.samplings slot e) (e.after r.call) := by
  have hleads := r.leads_demand hsound
  unfold Request.samplings
  rw [r.call_eq] at hslot ⊢
  -- a request is its demand, the evaluation of it and what is concluded from that
  cases hd : r.demand e with
  | error failure e₁ =>
    rw [after_bind_of_error hd, List.append_nil]
    exact h.unstirred (hleads.of_eq_error hd)
  | ok d e₁ =>
    have hbefore := (hleads.of_eq_ok hd).1
    rw [after_bind_of_ok hd] at hslot ⊢
    cases d with
    | none =>
      rw [List.append_nil]
      exact h.unstirred hbefore
    | some d =>
      have hnode := fun n hn => hslot n ((extends_conclude r d e₁).node hn)
      exact ((h.unstirred hbefore).evaluate hnode d).unstirred (unstirred_conclude r d e₁)

/-- Requests add their draws for the slot, one after the other. -/
theorem afterAll (h : Drawn noise k slot log e) (hsound : e.Sound) (rs : List Request)
    (hslot : ∀ n, (e.afterAll rs).graph.nodes[slot]? = some n →
      n.op.noise? = some (noise, some k)) :
    Drawn noise k slot (log ++ (e.samplings slot rs).flatten) (e.afterAll rs) := by
  induction rs generalizing e log with
  | nil =>
    rw [samplings, List.flatten_nil, List.append_nil]
    exact h
  | cons r rs ih =>
    have hfirst : (e.after r.call).Sound := ((r.changing e hsound).after).sound hsound
    -- the node stays in its slot, so each request finds it there or has no draw for it
    have hrest : Changes (e.after r.call) (e.afterAll (r :: rs)) := hfirst.changes_afterAll rs
    rw [samplings, List.flatten_cons, ← List.append_assoc]
    exact ih (h.request hsound r fun n hn => hslot n (hrest.getElem? hn)) hfirst hslot

end Drawn

end Engine

/-! ## One draw for a request -/

namespace Request

open Engine

variable {r : Request} {e e' : Engine} {d : Demand} {s : Session} {ev : Evaluation Float32}
  {n : GraphNode}

/-- A request draws for a slot at most once, whatever uses the slot. -/
theorem length_samplings_le (hsound : e.Sound) (r : Request) (slot : Nat) :
    (r.samplings slot e).length ≤ 1 := by
  unfold samplings
  split
  · next d e' hd =>
    obtain ⟨hg, htargets⟩ := ((r.leads_demand hsound).of_eq_ok hd).2 d rfl
    unfold Demand.samplings
    split
    · refine Setting.length_samplings_le ?_ _
      exact List.nodup_reverse.1 (hg.finished_schedule htargets).nodup
    · exact Nat.zero_le 1
  · exact Nat.zero_le 1

/-- At an engine a request evaluates what it asks for: the engine and its session at the start of
the evaluation, and the working state at its end. -/
structure Evaluates (r : Request) (e : Engine) (d : Demand) (e' : Engine) (s : Session)
    (ev : Evaluation Float32) : Prop where
  demanded : r.demand e = .ok (some d) e'
  active : e'.session = some s
  evaluated : (e'.setting s d.phase d.feeds).evaluate d.targets (.start s.streams) = .ok () ev

namespace Evaluates

theorem samplings_eq (h : r.Evaluates e d e' s ev) (slot : Nat) :
    r.samplings slot e = (e'.setting s d.phase d.feeds).samplings slot
      (e'.graph.schedule d.targets) (.start s.streams) := by
  simp only [samplings, h.demanded, Demand.samplings, h.active]

/-- The nodes that there are at the evaluation are there afterwards. -/
theorem grown (h : r.Evaluates e d e' s ev) : e'.graph.Extends (e.after r.call).graph := by
  rw [r.call_eq, after_bind_of_ok h.demanded]
  exact extends_conclude r d e'

theorem asked (h : r.Evaluates e d e' s ev) (hsound : e.Sound) : Demanded e' d :=
  ((r.leads_demand hsound).of_eq_ok h.demanded).2 d rfl

theorem finished (h : r.Evaluates e d e' s ev) (hsound : e.Sound) :
    e'.graph.Finished (e'.graph.schedule d.targets).reverse :=
  have ⟨hg, htargets⟩ := h.asked hsound
  hg.finished_schedule htargets

/-- What is drawn for a node in the evaluation. -/
theorem samplings_of_mem (h : r.Evaluates e d e' s ev) (hsound : e.Sound)
    (hslot : slot ∈ e'.graph.schedule d.targets) (hn : e'.graph.nodes[slot]? = some n) :
    r.samplings slot e = ((e'.setting s d.phase d.feeds).sampling? ev.known slot
      ((e'.setting s d.phase d.feeds).streamOf s.streams slot) n.op).toList := by
  have hevaluated : (e'.setting s d.phase d.feeds).evaluateAll
      (e'.graph.schedule d.targets).reverse.reverse (.start s.streams) = .ok () ev := by
    rw [List.reverse_reverse]
    exact h.evaluated
  have hdraws := Setting.samplings_of_evaluateAll (h.finished hsound) hevaluated
    (List.mem_reverse.2 hslot) hn
  rwa [List.reverse_reverse, ← h.samplings_eq] at hdraws

/-- A node that samples in the evaluation is drawn for once, and has its value from the draw. -/
theorem exists_sampling (h : r.Evaluates e d e' s ev) (hsound : e.Sound)
    (hslot : slot ∈ e'.graph.schedule d.targets) (hn : e'.graph.nodes[slot]? = some n)
    (hsamples : (e'.setting s d.phase d.feeds).samples n.op) :
    ∃ x, r.samplings slot e = [x] ∧ x.Applied ev.known slot n.op := by
  obtain ⟨hg, htargets⟩ := h.asked hsound
  obtain ⟨x, hx, happlied⟩ := (sourced_of_evaluate hg htargets h.evaluated).exists_sampling
    (List.mem_reverse.2 hslot) hn hsamples
  exact ⟨x, by rw [h.samplings_of_mem hsound hslot hn, hx, Option.toList_some], happlied⟩

/-- Nothing is drawn for a node that is not evaluated or does not sample. -/
theorem samplings_eq_nil (h : r.Evaluates e d e' s ev) (hsound : e.Sound)
    (hn : ∀ m, e'.graph.nodes[slot]? = some m → m = n)
    (hnot : ¬(slot ∈ e'.graph.schedule d.targets ∧ (e'.setting s d.phase d.feeds).samples n.op)) :
    r.samplings slot e = [] := by
  -- a slot off the schedule is not evaluated, and one on it does not sample
  by_cases hslot : slot ∈ e'.graph.schedule d.targets
  · have hsamples : (e'.setting s d.phase d.feeds).samples n.op = false := by
      simpa [hslot] using hnot
    have hinside := (h.finished hsound).lt_size (List.mem_reverse.2 hslot)
    obtain ⟨m, hm⟩ := Graph.exists_node_of_lt hinside
    obtain rfl := hn m hm
    rw [h.samplings_of_mem hsound hslot hm, Setting.sampling?_eq_none hsamples]
    rfl
  · rw [h.samplings_eq]
    exact Setting.samplings_eq_nil hslot _

end Evaluates
end Request

/-! ## A run of requests -/

namespace Engine

/-- Every request has its own entry among the draws. -/
theorem getElem?_samplings (slot : Nat) (e : Engine) (before : List Request) (r : Request)
    (after : List Request) : (e.samplings slot (before ++ r :: after))[before.length]? =
      some (r.samplings slot (e.afterAll before)) := by
  induction before generalizing e with
  | nil => rfl
  | cons r' before ih => exact ih (e.after r'.call)

theorem length_le_of_mem_samplings {e : Engine} (hsound : e.Sound) (rs : List Request) :
    ∀ draws ∈ e.samplings slot rs, draws.length ≤ 1 := by
  induction rs generalizing e with
  | nil => simp [samplings]
  | cons r rs ih =>
    have hrest := ih (((r.changing e hsound).after).sound hsound)
    exact List.forall_mem_cons.2 ⟨r.length_samplings_le hsound slot, hrest⟩

/-- What a seeded node samples over any run of requests, the ones that create variables and the ones
that fail included. A request draws for it at most once. The draws follow each other from the start
of the stream of its seed, which has the words of the blocks of its key: each takes its numbers from
the words that come next, and the last one leaves the stream where it is at the end. Every request
that evaluates the node with sampling draws once and makes the value of the node from the draw; one
that gives a result and does not evaluate it, or evaluates it without sampling, draws nothing. In
any other history, on a graph of any other nodes, a node that is seeded alike samples the same in
draws of the same sizes. -/
theorem seeded_samplings {id : Nat} {entropy : UInt64} {rs : List Request} {n : GraphNode}
    (hn : ((create id entropy).afterAll rs).graph.nodes[slot]? = some n)
    (hop : n.op.noise? = some (noise, some k)) :
    (∀ draws ∈ (create id entropy).samplings slot rs, draws.length ≤ 1) ∧
    (∃ words, noise.Follows ((create id entropy).samplings slot rs).flatten (.ofSeed k)
        ((Stream.ofSeed k).after words) ∧
      ∀ s, ((create id entropy).afterAll rs).session = some s →
        s.position slot k = (Stream.ofSeed k).after words) ∧
    (∀ i, (Stream.ofSeed k).word i =
      Vector.get (Block.keystream (Stream.ofSeed k).key (.ofNat (i / 16))) (.ofNat 16 i)) ∧
    (∀ before r after d e s ev, rs = before ++ r :: after →
      r.Evaluates ((create id entropy).afterAll before) d e s ev →
      (slot ∈ e.graph.schedule d.targets ∧ (e.setting s d.phase d.feeds).samples n.op →
        ∃ x, ((create id entropy).samplings slot rs)[before.length]? = some [x] ∧
          x.Applied ev.known slot n.op) ∧
      (¬(slot ∈ e.graph.schedule d.targets ∧ (e.setting s d.phase d.feeds).samples n.op) →
        ((create id entropy).samplings slot rs)[before.length]? = some [])) ∧
    ∀ id' entropy' rs' slot' n',
      ((create id' entropy').afterAll rs').graph.nodes[slot']? = some n' →
      n'.op.noise? = some (noise, some k) →
      ((create id' entropy').samplings slot' rs').flatten.map (·.count) =
        ((create id entropy).samplings slot rs).flatten.map (·.count) →
      ((create id' entropy').samplings slot' rs').flatten =
        ((create id entropy).samplings slot rs).flatten := by
  have hdrawn : ∀ {id entropy rs slot n},
      ((create id entropy).afterAll rs).graph.nodes[slot]? = some n →
      n.op.noise? = some (noise, some k) →
      Drawn noise k slot ((create id entropy).samplings slot rs).flatten
        ((create id entropy).afterAll rs) := by
    intro id entropy rs slot n hn hop
    refine (drawn_create noise k slot id entropy).afterAll (sound_create id entropy) rs ?_
    intro m hm
    rwa [Option.some.inj (hm.symm.trans hn)]
  refine ⟨length_le_of_mem_samplings (sound_create id entropy) rs, ?_, Stream.word_ofSeed k, ?_, ?_⟩
  · obtain ⟨t, hlog, hposition⟩ := hdrawn hn hop
    obtain ⟨words, rfl⟩ := hlog.exists_after
    exact ⟨words, hlog, hposition⟩
  · rintro before r after d e s ev rfl hevaluates
    have hbefore : ((create id entropy).afterAll before).Sound :=
      ((Reachable.create id entropy).afterAll before).sound
    -- the node is the one that there is in the slot at the evaluation
    have hrest : Changes (((create id entropy).afterAll before).after r.call)
        ((create id entropy).afterAll (before ++ r :: after)) := by
      rw [afterAll_append]
      exact (((r.changing _ hbefore).after).sound hbefore).changes_afterAll after
    have hnode : ∀ m, e.graph.nodes[slot]? = some m → m = n := fun m hm =>
      Option.some.inj ((hrest.getElem? (hevaluates.grown.node hm)).symm.trans hn)
    rw [getElem?_samplings]
    refine ⟨fun ⟨hslot, hsamples⟩ => ?_, fun hnot => ?_⟩
    · have hinside := (hevaluates.finished hbefore).lt_size (List.mem_reverse.2 hslot)
      obtain ⟨m, hm⟩ := Graph.exists_node_of_lt hinside
      obtain rfl := hnode m hm
      obtain ⟨x, hx, happlied⟩ := hevaluates.exists_sampling hbefore hslot hm hsamples
      exact ⟨x, congrArg some hx, happlied⟩
    · exact congrArg some (hevaluates.samplings_eq_nil hbefore hnode hnot)
  · intro id' entropy' rs' slot' n' hn' hop' hcounts
    obtain ⟨t, hlog, -⟩ := hdrawn hn hop
    obtain ⟨t', hlog', -⟩ := hdrawn hn' hop'
    exact hlog'.unique hlog hcounts

/-- A seeded random node is made first, and fetched twice. -/
def fetchTwice : List Request :=
  [.randomUniform [2] 0 1 (some 7), .run (.ofNodes 0 [] [⟨0, 0⟩] []) [],
    .run (.ofNodes 0 [] [⟨0, 0⟩] []) []]

/-- Such a node is made for the first value of a variable, after another random node, and fetched
between a sum that uses it twice and the other one. -/
def fetchAmong : List Request :=
  [.randomUniform [3] 0 1 (some 5), .weights [2] (.randomUniform 0 1 (some 7)) "w",
    .binary .add ⟨5, 1⟩ ⟨5, 1⟩ none, .run (.ofNodes 5 [] [⟨5, 3⟩, ⟨5, 1⟩, ⟨5, 0⟩] []) []]

/-- The first history draws twice, and makes the samples from the upper bits of the first four words
of the seed. The second history draws for the first value of the variable and once more, and both
times what the first history draws. -/
theorem fetched_alike : ∃ n n',
    ((create 0 0).afterAll fetchTwice).graph.nodes[0]? = some n ∧
    n.op.noise? = some (.samples (.uniform 0 1), some 7) ∧
    ((create 5 11).afterAll fetchAmong).graph.nodes[1]? = some n' ∧
    n'.op.noise? = some (.samples (.uniform 0 1), some 7) ∧
    (List.range 4).map (Stream.ofSeed 7).word = [1789459390, 130212073, 612261766, 1318925544] ∧
    (create 0 0).samplings 0 fetchTwice = [[], [⟨2, .ok #[3495037 / 8388608, 254320 / 8388608]⟩],
      [⟨2, .ok #[1195823 / 8388608, 2576026 / 8388608]⟩]] ∧
    ((create 5 11).samplings 1 fetchAmong).map (·.map (·.count)) = [[], [2], [], [2]] ∧
    ((create 5 11).samplings 1 fetchAmong).flatten =
      ((create 0 0).samplings 0 fetchTwice).flatten := by
  have hnode : (((create 0 0).afterAll fetchTwice).graph.nodes[0]?).bind (·.op.noise?) =
      some (.samples (.uniform 0 1), some 7) := by decide +kernel
  have hnode' : (((create 5 11).afterAll fetchAmong).graph.nodes[1]?).bind (·.op.noise?) =
      some (.samples (.uniform 0 1), some 7) := by decide +kernel
  obtain ⟨n, hn, hop⟩ := Option.bind_eq_some_iff.1 hnode
  obtain ⟨n', hn', hop'⟩ := Option.bind_eq_some_iff.1 hnode'
  have hdraws : (create 0 0).samplings 0 fetchTwice =
      [[], [⟨2, .ok #[3495037 / 8388608, 254320 / 8388608]⟩],
        [⟨2, .ok #[1195823 / 8388608, 2576026 / 8388608]⟩]] := by decide +kernel
  have hcounts' : ((create 5 11).samplings 1 fetchAmong).map (·.map (·.count)) =
      [[], [2], [], [2]] := by decide +kernel
  obtain ⟨-, -, -, -, hsame⟩ := seeded_samplings hn hop
  refine ⟨n, n', hn, hop, hn', hop', by decide +kernel, hdraws, hcounts',
    hsame 5 11 fetchAmong 1 n' hn' hop' ?_⟩
  rw [List.map_flatten, hcounts', hdraws]
  rfl

end Engine
end TensorGraph
