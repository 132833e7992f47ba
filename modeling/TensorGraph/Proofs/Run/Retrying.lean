import TensorGraph.Proofs.Evaluation.Confinement
import TensorGraph.Proofs.Run.Failing
import TensorGraph.Proofs.Run.Refusing
import TensorGraph.Proofs.Run.Sampling

/-!
# Runs after a failing run

A run draws from streams as it evaluates, and commits its assignments at its end. So a failing run
leaves the variables as they were, but not the streams of the sampling nodes that it has come to
before it failed. Each of these has made one draw. A run that needs none of them gives afterwards
what it would have given without the failing run.

## Main definitions

* `Setting.reached` and `Request.reached`: the slots that an evaluation comes to.
* `Session.stream`: what a node draws from next.
* `Engine.AlikeOn`: engines that find the same streams for the nodes of a set.

## Main results

* `Setting.samplings_ne_nil_iff`: an evaluation draws for the sampling nodes that it comes to.
* `Engine.agree_run_on`: a run that needs nodes of a set only cannot tell such engines apart.
* `Engine.failed_run_spends_draws`: what a failing run has drawn, and what it has not.
-/

namespace TensorGraph

variable {e e' : Engine} {f : Function} {feeds : List (Node × Value)}

/-! ## How far an evaluation comes -/

namespace Setting

variable {S : Type} [Scalar S] {env : Setting S} {slot : Nat} {slots : List Nat} {n : GraphNode}
  {op : Op} {ev : Evaluation S}

/-- The slots that evaluating a list of slots comes to: all of them, or those up to the first one
that fails. -/
def reached (env : Setting S) : List Nat → Evaluation S → List Nat
  | [], _ => []
  | slot :: rest, ev =>
    slot :: match env.evaluateSlot slot ev with
      | .ok _ ev' => env.reached rest ev'
      | .error _ _ => []

theorem reached_prefix (slots : List Nat) (ev : Evaluation S) : env.reached slots ev <+: slots := by
  induction slots generalizing ev with
  | nil => exact List.prefix_rfl
  | cons slot slots ih =>
    refine List.cons_prefix_cons.2 ⟨rfl, ?_⟩
    split
    · exact ih _
    · exact List.nil_prefix

omit [Scalar S] in
/-- A node makes a draw when it samples: the shape of a random node is closed. -/
theorem isSome_sampling?_iff (hg : env.graph.Typed) (hn : env.graph.nodes[slot]? = some n)
    {known : Known S} {stream : Option UInt64 → Stream} :
    (env.sampling? known slot stream n.op).isSome ↔ env.samples n.op := by
  have htyped := hg.node hn
  obtain ⟨op, shape, type, name⟩ := n
  cases op with
  | random sampler seed =>
    cases htyped with
    | random closed =>
      obtain ⟨shape, hshape⟩ := exists_staticShape hn closed
      simp [sampling?, Op.noise?, drawSize?, hshape, samples, Except.toOption]
  | dropout input rate seed =>
    by_cases hdrops : env.dropsAt rate <;>
      simp [sampling?, Op.noise?, drawSize?, hdrops, samples]
  | _ => simp [sampling?, Op.noise?, samples]

/-- An evaluation draws for a node that it comes to and that samples, and for no other one. -/
theorem samplings_ne_nil_iff (hg : env.graph.Typed) (hn : env.graph.nodes[slot]? = some n)
    (slots : List Nat) (ev : Evaluation S) :
    env.samplings slot slots ev ≠ [] ↔ slot ∈ env.reached slots ev ∧ env.samples n.op := by
  -- at the slot itself there is a draw when the node samples
  have hat : ∀ ev : Evaluation S, env.samplingsAt slot ev ≠ [] ↔ env.samples n.op := fun ev => by
    rw [samplingsAt, hn, Option.bind_some, ← isSome_sampling?_iff hg hn, ne_eq,
      Option.toList_eq_nil_iff, ← ne_eq, Option.ne_none_iff_isSome]
  induction slots generalizing ev with
  | nil => simp [samplings, reached]
  | cons s slots ih =>
    rw [samplings, reached, List.mem_cons, ne_eq, List.append_eq_nil_iff, not_and_or, ← ne_eq]
    have hhead : (if s = slot then env.samplingsAt slot ev else []) ≠ [] ↔
        slot = s ∧ env.samples n.op := by
      by_cases hs : s = slot
      · simp [hs, hat ev]
      · simp [hs, Ne.symm hs]
    rw [hhead, or_and_right]
    refine or_congr Iff.rfl ?_
    -- after a failure no slot is reached any more
    cases env.evaluateSlot s ev with
    | ok _ ev' => exact ih ev'
    | error f ev' => simp

/-- Drawing without a draw leaves the streams alone. -/
theorem streams_of_sampling?_eq_none
    (h : env.sampling? ev.known slot (env.streamOf ev.streams slot) op = none) :
    (finalState (env.drawNoise slot op) ev).streams = ev.streams := by
  cases op with
  | random sampler seed =>
    cases hshape : env.staticShape slot with
    | ok shape => simp [sampling?, Op.noise?, drawSize?, hshape, Except.toOption] at h
    | error f =>
      rw [drawNoise, hshape]
      rfl
  | dropout input rate seed =>
    by_cases hdrops : env.dropsAt rate
    · simp [sampling?, Op.noise?, drawSize?, hdrops] at h
    · rw [drawNoise, if_neg hdrops]
      rfl
  | _ => rfl

/-- An evaluation leaves the stream of a slot alone that it does not draw for. -/
theorem stream_of_samplings_eq_nil (h : env.samplings slot slots ev = []) :
    (finalState (env.evaluateAll slots) ev).streams.get? slot = ev.streams.get? slot := by
  induction slots generalizing ev with
  | nil => rfl
  | cons s slots ih =>
    obtain ⟨hhead, hrest⟩ := List.append_eq_nil_iff.1 h
    -- other slots leave the stream alone, and the slot itself does when it has no draw
    have hfirst : (finalState (env.evaluateSlot s) ev).streams.get? slot =
        ev.streams.get? slot := by
      by_cases hs : s = slot
      · subst hs
        rw [if_pos rfl] at hhead
        cases hn : env.graph.nodes[s]? with
        | none =>
          unfold evaluateSlot
          rw [hn]
          rfl
        | some n =>
          rw [samplingsAt, hn, Option.bind_some, Option.toList_eq_nil_iff] at hhead
          rw [streams_of_evaluateSlot hn, streams_of_sampling?_eq_none hhead]
      · exact (maintains_evaluateSlot fun _ heq => absurd heq hs).finalState rfl
    rw [evaluateAll]
    cases hstep : env.evaluateSlot s ev with
    | ok _ ev' =>
      rw [finalState_of_ok hstep] at hfirst
      rw [hstep] at hrest
      rw [finalState_bind_of_ok hstep, ih hrest, hfirst]
    | error f ev' =>
      rw [finalState_of_error hstep] at hfirst
      rw [finalState_bind_of_error hstep, hfirst]

end Setting

/-! ## Engines with the same streams for some nodes -/

/-- What a node with a seed, or without one, draws from next in a slot. -/
def Session.stream (s : Session) (slot : Nat) (seed : Option UInt64) : Stream :=
  (s.streams.get? slot).getD (Stream.ofSeed (seed.getD (s.entropy + UInt64.ofNat slot)))

namespace Engine

variable {R : Nat → Prop}

/-- Engines that are the same but for their records and for what nodes outside a set draw from. -/
def AlikeOn (R : Nat → Prop) (e e' : Engine) : Prop :=
  ∃ streams journal,
    e' = { e with
      session := e.session.map fun s => { s with streams := streams }
      journal := journal } ∧
    ∀ s, e.session = some s → ∀ {slot n seed}, R slot → e.graph.nodes[slot]? = some n →
      n.op.seed? = some seed →
        { s with streams := streams }.stream slot seed = s.stream slot seed

theorem AlikeOn.alike (h : AlikeOn R e e') : Alike e e' := by
  obtain ⟨streams, journal, rfl, -⟩ := h
  exact ⟨streams, journal, rfl⟩

theorem veiled_alikeOn (R : Nat → Prop) : Veiled (AlikeOn R) where
  graph := by
    rintro e _ ⟨streams, journal, rfl, -⟩
    rfl
  isNone := by
    rintro e _ ⟨streams, journal, rfl, -⟩
    exact Option.isNone_map
  report r := by
    refine .modify ?_
    rintro e _ ⟨streams, journal, rfl, hsame⟩
    exact ⟨streams, _, rfl, hsame⟩
  commit assignments := by
    refine .modify ?_
    rintro e _ ⟨streams, journal, rfl, hsame⟩
    refine ⟨streams, journal, ?_, ?_⟩
    · simp only [Option.map_map]
      rfl
    · intro s hs
      obtain ⟨s₀, hs₀, rfl⟩ := Option.map_eq_some_iff.1 hs
      exact hsame s₀ hs₀

/-- Evaluating targets that need nodes of a set only gives the same for what looks at the values of
such nodes and at the assignments. -/
theorem agree_evaluate_bind_on {β : Type} {phase : Phase} {table : SlotMap (Tensor Float32)}
    {targets : List Nat} {g : Evaluation Float32 → Call β} (h : AlikeOn R e e')
    (hclosed : ∀ {slot o}, R slot → o ∈ e.graph.operands slot → R o)
    (hscheduled : ∀ slot ∈ e.graph.schedule targets, R slot)
    (hsame : ∀ ev ev' : Evaluation Float32, ev'.assignments = ev.assignments →
      (∀ slot, R slot → ev'.values.get? slot = ev.values.get? slot) → g ev' = g ev)
    (hg : ∀ ev, Blind (AlikeOn R) (g ev)) :
    Agree (AlikeOn R) ((evaluate phase table targets >>= g) e)
      ((evaluate phase table targets >>= g) e') := by
  obtain ⟨streams, journal, rfl, hstreams⟩ := h
  cases hs : e.session with
  | none =>
    rw [bind_of_error (evaluate_of_none hs ..), bind_of_error (evaluate_of_none rfl ..)]
    exact .error ⟨streams, journal, by rw [hs], by simp [hs]⟩
  | some s =>
    have hshares : (e.setting s phase table).Shares R (e.setting s phase table) s.streams
        streams :=
      { graph := rfl
        phase := rfl
        feeds := fun _ _ => rfl
        store := fun _ _ => rfl
        streams := fun hslot hn hseed => hstreams s hs hslot hn hseed }
    have hagree : Agree _ ((e.setting s phase table).evaluate targets (.start s.streams))
        ((e.setting s phase table).evaluate targets (.start streams)) :=
      (Evaluation.same_start hshares).evaluateAll hclosed hscheduled
    -- the streams are no part of the setting
    refine agree_evaluate_bind_of hs rfl hagree ?_ ?_
    · refine fun ev ev' hev => ⟨_, _, rfl, ?_⟩
      rintro _ ⟨⟩ slot n seed hslot hn hseed
      exact hev.shares.streams hslot hn hseed
    · exact fun ev ev' hev => ⟨hsame ev ev' hev.assignments hev.values, hg ev⟩

/-- A run that needs nodes of a set only cannot tell engines apart that find the same streams for
these nodes. -/
theorem agree_run_on (hg : e.graph.Typed)
    (hclosed : ∀ {slot o}, R slot → o ∈ e.graph.operands slot → R o)
    (htargets : ∀ n ∈ f.outputs ++ f.updates, R n.index) (h : AlikeOn R e e') :
    Agree (AlikeOn R) (run f feeds e) (run f feeds e') := by
  have hveiled := (veiled_alikeOn R).on fun _ => True
  refine hveiled.agree_run (fun _ _ => trivial) (fun _ _ => trivial) h
    fun e₁ e₁' outputs hreported h hlocated _ houtputs => ?_
  obtain ⟨records, rfl⟩ := hreported
  refine agree_evaluate_bind_on h hclosed ?_ ?_ (hveiled.finishRun outputs)
  · intro slot hslot
    obtain ⟨_, ht, hreached⟩ := (hg.mem_schedule_iff (lt_size_of_located hlocated)).1 hslot
    obtain ⟨n, hn, rfl⟩ := List.mem_map.1 ht
    clear hslot
    induction hreached with
    | refl => exact htargets n hn
    | tail _ hstep ih => exact hclosed ih hstep
  · intro ev ev' hassignments hvalues
    -- what is given are the values of the outputs, which are nodes of the set
    have hslots : ∀ found ∈ outputs, R found.1 := by
      intro found hfound
      have hslot : found.1 ∈ outputs.map (·.1) := List.mem_map_of_mem hfound
      rw [map_fst_of_located houtputs] at hslot
      obtain ⟨n, hn, hindex⟩ := List.mem_map.1 hslot
      exact hindex ▸ htargets n (List.mem_append_left _ hn)
    rw [finishRun, finishRun, hassignments]
    refine bind_congr fun _ => congrArg pure (List.map_congr_left fun found hfound => ?_)
    simp only [Evaluation.known, hvalues _ (hslots found hfound)]

end Engine

/-! ## Runs that fail -/

/-- The slots that evaluating what is asked for comes to. -/
def Demand.reached (d : Demand) (e : Engine) : List Nat :=
  match e.session with
  | some s => (e.setting s d.phase d.feeds).reached (e.graph.schedule d.targets) (.start s.streams)
  | none => []

/-- The slots that the evaluation of a request comes to. -/
def Request.reached (r : Request) (e : Engine) : List Nat :=
  match r.demand e with
  | .ok (some d) e' => d.reached e'
  | _ => []

namespace Engine

variable {s : Session} {failure : Failure}

/-- How a run fails: it is refused before it evaluates anything, or its evaluation fails. -/
inductive Failed (e : Engine) (s : Session) (f : Function) (feeds : List (Node × Value)) :
    Failure → Engine → Prop
  | refused {failure : Failure} {e' : Engine} (reported : Reported e e')
      (demanded : (Request.run f feeds).demand e = .error failure e') :
    Failed e s f feeds failure e'
  | stopped {failure : Failure} {e₁ : Engine} {ev : Evaluation Float32} (reported : Reported e e₁)
      (demanded : (Request.run f feeds).demand e =
        .ok (some ⟨f.phase, feedTable feeds .empty, (f.outputs ++ f.updates).map (·.index)⟩) e₁)
      (located : ∀ n ∈ f.outputs ++ f.updates, ∃ found, Located e.graph n found)
      (evaluated : (e.setting s f.phase (feedTable feeds .empty)).evaluate
        ((f.outputs ++ f.updates).map (·.index)) (.start s.streams) = .error failure ev) :
    Failed e s f feeds failure (e₁.absorb s ev)

theorem failed_of_run (hs : e.session = some s) (hfail : run f feeds e = .error failure e') :
    Failed e s f feeds failure e' := by
  have hleads : Leads (Request.run f feeds).demand e (Reported e) fun d e₁ => Reported e e₁ ∧
      d = some ⟨f.phase, feedTable feeds .empty, (f.outputs ++ f.updates).map (·.index)⟩ ∧
      ∀ n ∈ f.outputs ++ f.updates, ∃ found, Located e.graph n found := by
    rw [Request.demand, ← bind_pure_comp]
    refine leads_bind_iff.2 ((leads_demandRun f feeds).mono ?_)
    rintro d e₁ ⟨h, hd, hlocated⟩
    exact leads_pure ⟨h, congrArg some hd, hlocated⟩
  have hcall : (Request.run f feeds).call e = .error failure e' := by
    rw [Request.call, discard_eq_bind, bind_eq_error_iff]
    exact .inl hfail
  rw [Request.call_eq, bind_eq_error_iff] at hcall
  rcases hcall with hdemand | ⟨d, e₁, hdemand, hconclude⟩
  · exact .refused (hleads.of_eq_error hdemand) hdemand
  · obtain ⟨hreported, rfl, hlocated⟩ := hleads.of_eq_ok hdemand
    rw [Request.conclude, bind_eq_error_iff] at hconclude
    obtain ⟨records, rfl⟩ := hreported
    rcases hconclude with hevaluate | ⟨ev, e₂, -, hsettle⟩
    · have happly := evaluate_apply (e := { e with journal := e.journal ++ records }) hs f.phase
        (feedTable feeds .empty) ((f.outputs ++ f.updates).map (·.index))
      have hresult := happly.symm.trans hevaluate
      split at hresult <;> cases hresult
      next hev => exact .stopped ⟨records, rfl⟩ hdemand hlocated hev
    · -- committing cannot fail
      cases hsettle

/-- What a failing run has drawn: one draw for each sampling node that its evaluation has come to,
in the order of its schedule. Each draw has moved the stream of its node on from where it was, and
the streams of all other nodes are where they were. -/
structure Spent (e : Engine) (s : Session) (f : Function) (feeds : List (Node × Value))
    (streams : SlotMap Stream) : Prop where
  reached : (Request.run f feeds).reached e <+:
    e.graph.schedule ((f.outputs ++ f.updates).map (·.index))
  drawn : ∀ {slot : Nat} {n : GraphNode}, e.graph.nodes[slot]? = some n →
    ((Request.run f feeds).samplings slot e ≠ [] ↔ slot ∈ (Request.run f feeds).reached e ∧
      (e.setting s f.phase (feedTable feeds .empty)).samples n.op)
  once : ∀ slot, ((Request.run f feeds).samplings slot e).length ≤ 1
  follows : ∀ {slot : Nat} {n : GraphNode} {noise : Noise} {seed : Option UInt64},
    e.graph.nodes[slot]? = some n → n.op.noise? = some (noise, seed) →
      noise.Follows ((Request.run f feeds).samplings slot e) (s.stream slot seed)
        ({ s with streams := streams }.stream slot seed)
  kept : ∀ {slot : Nat}, (Request.run f feeds).samplings slot e = [] →
    streams.get? slot = s.streams.get? slot

theorem Failed.exists_spent (h : Failed e s f feeds failure e') (hsound : e.Sound)
    (hs : e.session = some s) :
    ∃ streams journal,
      e' = { e with session := some { s with streams := streams }, journal := journal } ∧
      Spent e s f feeds streams := by
  have honce := (Request.run f feeds).length_samplings_le hsound
  -- a refused run has drawn nothing; a stopped one has drawn for the slots that it came to
  cases h with
  | refused reported demanded =>
    obtain ⟨records, rfl⟩ := reported
    have hidle : ∀ slot, (Request.run f feeds).samplings slot e = [] := fun slot => by
      rw [Request.samplings, demanded]
    have hreached : (Request.run f feeds).reached e = [] := by rw [Request.reached, demanded]
    refine ⟨s.streams, e.journal ++ records, by rw [hs], ?_⟩
    constructor
    case reached =>
      rw [hreached]
      exact List.nil_prefix
    case drawn => simp [hidle, hreached]
    case once => exact honce
    case follows =>
      intro slot n noise seed _ _
      rw [hidle]
      exact .nil _
    case kept => exact fun _ => rfl
  | @stopped e₁ ev reported demanded located evaluated =>
    obtain ⟨records, rfl⟩ := reported
    have hstreams : ev = finalState ((e.setting s f.phase (feedTable feeds .empty)).evaluate
        ((f.outputs ++ f.updates).map (·.index))) (.start s.streams) :=
      (finalState_of_error evaluated).symm
    have hsamplings : ∀ slot, (Request.run f feeds).samplings slot e =
        (e.setting s f.phase (feedTable feeds .empty)).samplings slot
          (e.graph.schedule ((f.outputs ++ f.updates).map (·.index))) (.start s.streams) := by
      intro slot
      simp only [Request.samplings, demanded, Demand.samplings, hs]
      rfl
    have hreached : (Request.run f feeds).reached e =
        (e.setting s f.phase (feedTable feeds .empty)).reached
          (e.graph.schedule ((f.outputs ++ f.updates).map (·.index))) (.start s.streams) := by
      simp only [Request.reached, demanded, Demand.reached, hs]
      rfl
    refine ⟨ev.streams, _, rfl, ?_⟩
    constructor
    case reached =>
      rw [hreached]
      exact Setting.reached_prefix _ _
    case drawn =>
      intro slot n hn
      rw [hsamplings, hreached]
      exact Setting.samplings_ne_nil_iff hsound.typed hn _ _
    case once => exact honce
    case follows =>
      intro slot n noise seed hn hop
      rw [hsamplings, hstreams]
      refine Setting.follows_evaluateAll (fun m hm => ?_) _ _
      rwa [Option.some.inj (hm.symm.trans hn)]
    case kept =>
      intro slot hidle
      rw [hsamplings] at hidle
      rw [hstreams]
      exact Setting.stream_of_samplings_eq_nil hidle

/-- A failing run leaves the graph and the variables as they were, and has drawn from the streams of
the sampling nodes that it has come to. A run of any function that needs no node with a draw gives
afterwards what it would have given without the failing run, and leaves the same behind. -/
theorem failed_run_spends_draws (h : e.Reachable) (hs : e.session = some s)
    (hfail : run f feeds e = .error failure e') :
    ∃ streams, e'.graph = e.graph ∧ e'.session = some { s with streams := streams } ∧
      Spent e s f feeds streams ∧
      ∀ (g : Function) (values : List (Node × Value)),
        (∀ n ∈ g.outputs ++ g.updates, ∀ slot, e.graph.Reaches n.index slot →
          (Request.run f feeds).samplings slot e = []) →
        answer (run g values) e' = answer (run g values) e ∧
          Alike (e.after (run g values)) (e'.after (run g values)) := by
  obtain ⟨streams, journal, rfl, hspent⟩ := (failed_of_run hs hfail).exists_spent h.sound hs
  refine ⟨streams, rfl, rfl, hspent, fun g values hfree => ?_⟩
  -- what the outputs and updates need finds its streams where they were
  let R : Nat → Prop := fun slot => ∃ n ∈ g.outputs ++ g.updates, e.graph.Reaches n.index slot
  have halike : AlikeOn R e
      { e with session := some { s with streams := streams }, journal := journal } := by
    refine ⟨streams, journal, by rw [hs]; rfl, ?_⟩
    rintro s' hs' slot n seed ⟨m, hm, hreached⟩ _ _
    obtain rfl := Option.some.inj (hs.symm.trans hs')
    rw [Session.stream, Session.stream, hspent.kept (hfree m hm slot hreached)]
  have hagree : Agree (AlikeOn R) (run g values e) (run g values
      { e with session := some { s with streams := streams }, journal := journal }) := by
    refine agree_run_on h.sound.typed ?_ (fun n hn => ⟨n, hn, .refl⟩) halike
    rintro slot o ⟨n, hn, hreached⟩ ho
    exact ⟨n, hn, hreached.tail ho⟩
  exact ⟨answer_eq_of_agree hagree, (after_of_agree hagree).alike⟩

/-- An engine with a seeded random node that has been fetched, and a vector to be fed. -/
def sampled : Engine :=
  built [.randomUniform [1] 0 1 (some 7), .placeholder "x" [1], .run (.ofNodes 0 [] [⟨0, 0⟩] []) []]

/-- Fetching the vector fails when nothing is fed. When the random node is fetched after it nothing
has been drawn by then, and fetching the random node gives what it would have given before. -/
theorem sampled_spares_stream :
    ∃ s failure e', sampled.Reachable ∧ sampled.session = some s ∧
      run (.ofNodes 0 [] [⟨0, 1⟩, ⟨0, 0⟩] []) [] sampled = .error failure e' ∧
      answer (run (.ofNodes 0 [] [⟨0, 0⟩] []) []) e' =
        answer (run (.ofNodes 0 [] [⟨0, 0⟩] []) []) sampled := by
  have hreachable : sampled.Reachable := reachable_built _
  obtain ⟨s, hs⟩ := Option.isSome_iff_exists.1 (by decide +kernel : sampled.session.isSome)
  obtain ⟨failure, e', hfail⟩ := exists_of_not_gives
    (c := run (.ofNodes 0 [] [⟨0, 1⟩, ⟨0, 0⟩] []) []) (e := sampled) (by decide +kernel)
  obtain ⟨streams, -, -, -, hretry⟩ := failed_run_spends_draws hreachable hs hfail
  refine ⟨s, failure, e', hreachable, hs, hfail, (hretry _ _ ?_).1⟩
  intro n hn slot hreached
  obtain rfl := List.mem_singleton.1 hn
  -- the random node needs nothing else
  obtain rfl | ⟨o, ho, -⟩ := hreached.cases_head
  · exact List.length_eq_zero_iff.1 (by decide +kernel)
  · have hleaf : sampled.graph.operands 0 = [] := by decide +kernel
    exact absurd ho (hleaf ▸ List.not_mem_nil)

/-- When the random node is fetched before it, its stream has moved on, and fetching the random node
gives other samples. -/
theorem failing_run_draws :
    sampled.Reachable ∧ ∃ failure e', run (.ofNodes 0 [] [⟨0, 0⟩, ⟨0, 1⟩] []) [] sampled =
        .error failure e' ∧
      (∃ stream, sampled.session.bind (·.streams.get? 0) = some stream ∧
        e'.session.bind (·.streams.get? 0) ≠ some stream) ∧
      answer (run (.ofNodes 0 [] [⟨0, 0⟩] []) []) e' ≠
        answer (run (.ofNodes 0 [] [⟨0, 0⟩] []) []) sampled := by
  obtain ⟨failure, e', hfail⟩ := exists_of_not_gives
    (c := run (.ofNodes 0 [] [⟨0, 0⟩, ⟨0, 1⟩] []) []) (e := sampled) (by decide +kernel)
  have hleft : e' = sampled.after (run (.ofNodes 0 [] [⟨0, 0⟩, ⟨0, 1⟩] []) []) := by
    rw [after, hfail]
  subst hleft
  refine ⟨reachable_built _, failure, _, hfail, ?_, ?_⟩
  · obtain ⟨stream, hstream⟩ := Option.isSome_iff_exists.1
      (by decide +kernel : (sampled.session.bind (·.streams.get? 0)).isSome)
    refine ⟨stream, hstream, ?_⟩
    rw [← hstream]
    decide +kernel
  · intro hsame
    have hsame := congrArg (fun r => r.toOption.map (·.map Value.toNumbers)) hsame
    revert hsame
    decide +kernel

end Engine
end TensorGraph
