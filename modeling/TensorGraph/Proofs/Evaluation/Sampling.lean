import TensorGraph.Proofs.Evaluation.Ordering
import TensorGraph.Proofs.Random.Drawing

/-!
# What an evaluation samples

A node that samples draws from a stream of its own: a random node the samples of its distribution, a
dropout the factors of its operand. An evaluation draws for a slot at most once, whatever uses the
slot, and leaves the stream of the slot where this draw has left it, also when it fails on the way.

## Main definitions

* `Setting.sampling?`: the draw that evaluating a node makes.
* `Setting.samplings`: the draws that an evaluation makes for a slot.

## Main results

* `Setting.follows_evaluateAll`: an evaluation moves the stream of a slot by its draws for the slot.
* `Setting.length_samplings_le`: an evaluation draws for a slot at most once.
* `Setting.samplings_of_evaluateAll` and `Sourced.exists_sampling`: in an evaluation that gives a
  result, what a node has drawn, and what has become of it.
-/

namespace TensorGraph

/-! ## The draws of an evaluation -/

/-- What an operation draws, and the seed of its stream. -/
def Op.noise? : Op → Option (Noise × Option UInt64)
  | random sampler seed => some (.samples sampler, seed)
  | dropout _ rate seed => some (.factors rate, seed)
  | _ => none

variable {S : Type} [Scalar S]

namespace Setting

/-- How many numbers a node draws: one for every entry of its shape, and in a dropout that is active
one for every entry of its operand. -/
def drawSize? (env : Setting S) (known : Known S) (slot : Nat) : Op → Option Nat
  | .random _ _ => (env.staticShape slot).toOption.map (·.size)
  | .dropout input rate _ => if env.dropsAt rate then some (known.value input).shape.size else none
  | _ => none

/-- The draw that evaluating a node makes. -/
def sampling? (env : Setting S) (known : Known S) (slot : Nat) (stream : Option UInt64 → Stream)
    (op : Op) : Option Sampling :=
  op.noise?.bind fun (noise, seed) =>
    (env.drawSize? known slot op).map fun count => ⟨count, (noise.draw count (stream seed)).1⟩

/-- The draws for a slot that evaluating the slot makes. -/
def samplingsAt (env : Setting S) (slot : Nat) (e : Evaluation S) : List Sampling :=
  ((env.graph.nodes[slot]?).bind fun n =>
    env.sampling? e.known slot (env.streamOf e.streams slot) n.op).toList

/-- The draws for a slot that evaluating a list of slots makes, as far as it gets. -/
def samplings (env : Setting S) (slot : Nat) : List Nat → Evaluation S → List Sampling
  | [], _ => []
  | s :: rest, e =>
    (if s = slot then env.samplingsAt slot e else []) ++
      match env.evaluateSlot s e with
      | .ok _ e' => env.samplings slot rest e'
      | .error _ _ => []

variable {env : Setting S} {slot : Nat} {n : GraphNode} {op : Op} {noise : Noise}
  {seed : Option UInt64}
  {e e' : Evaluation S} {slots : List Nat}

omit [Scalar S] in
/-- A slot draws from the stream that has been put back for it. -/
theorem streamOf_insert (streams : SlotMap Stream) (slot : Nat) (stream : Stream)
    (seed : Option UInt64) : env.streamOf (streams.insert slot stream) slot seed = stream := by
  simp [streamOf]

/-- The stream of a random node is kept whether the samples are accepted or not. -/
theorem streams_of_random {shape : Shape} (hshape : env.staticShape slot = .ok shape)
    (sampler : Sampler) (seed : Option UInt64) (e : Evaluation S) :
    (finalState (env.drawNoise slot (.random sampler seed)) e).streams =
      e.streams.insert slot (sampler.draw shape.size (env.streamOf e.streams slot seed)).2 := by
  rw [drawNoise, hshape, finalState_bind_of_ok (rfl : lift (.ok shape) e = .ok shape e),
    finalState_bind_of_ok (get_apply e)]
  generalize sampler.draw shape.size (env.streamOf e.streams slot seed) = draw
  obtain ⟨drawn | drawn, stream⟩ := draw <;> rfl

/-- A dropout puts its stream back where its mask has left it. -/
theorem streams_of_dropout {input : Nat} {rate : Float32} (hdrops : env.dropsAt rate)
    (seed : Option UInt64) (e : Evaluation S) :
    (finalState (env.drawNoise slot (.dropout input rate seed)) e).streams =
      e.streams.insert slot (Dropping.mask rate (e.known.value input).shape.size
        (env.streamOf e.streams slot seed)).2 := by
  rw [drawNoise, if_pos hdrops]
  rfl

/-- Drawing moves the stream of a slot by the draw of its node. -/
theorem follows_drawNoise (hop : op.noise? = some (noise, seed)) (e : Evaluation S) :
    noise.Follows (env.sampling? e.known slot (env.streamOf e.streams slot) op).toList
      (env.streamOf e.streams slot seed)
      (env.streamOf (finalState (env.drawNoise slot op) e).streams slot seed) := by
  cases op with
  | random sampler seed =>
    cases hop
    cases hshape : env.staticShape slot with
    | error f =>
      -- without a shape nothing is drawn
      rw [sampling?, drawSize?, drawNoise, hshape]
      exact .nil _
    | ok shape =>
      rw [streams_of_random hshape, streamOf_insert, sampling?, drawSize?, hshape]
      exact .singleton (.samples sampler) shape.size _
  | dropout input rate seed =>
    cases hop
    by_cases hdrops : env.dropsAt rate
    · rw [streams_of_dropout hdrops, streamOf_insert, sampling?, drawSize?, if_pos hdrops]
      exact .singleton (.factors rate) _ _
    · rw [sampling?, drawSize?, drawNoise, if_neg hdrops, if_neg hdrops]
      exact .nil _
  | _ => cases hop

/-- Evaluating a slot moves its stream by the draws for it. -/
theorem follows_samplingsAt
    (h : ∀ n, env.graph.nodes[slot]? = some n → n.op.noise? = some (noise, seed))
    (e : Evaluation S) :
    noise.Follows (env.samplingsAt slot e) (env.streamOf e.streams slot seed)
      (env.streamOf (finalState (env.evaluateSlot slot) e).streams slot seed) := by
  unfold samplingsAt
  cases hn : env.graph.nodes[slot]? with
  | none =>
    unfold evaluateSlot
    rw [hn]
    exact .nil _
  | some n =>
    rw [streams_of_evaluateSlot hn]
    exact follows_drawNoise (h n hn) e

/-- Evaluating another slot leaves the stream of a slot alone. -/
theorem streamOf_evaluateSlot_of_ne {s : Nat} (hs : s ≠ slot) (e : Evaluation S) :
    env.streamOf (finalState (env.evaluateSlot s) e).streams slot = env.streamOf e.streams slot :=
  streamOf_congr ((maintains_evaluateSlot fun _ heq => absurd heq hs).finalState rfl)

/-- An evaluation moves the stream of a slot by its draws for the slot, also when it fails. -/
theorem follows_evaluateAll
    (h : ∀ n, env.graph.nodes[slot]? = some n → n.op.noise? = some (noise, seed))
    (slots : List Nat) (e : Evaluation S) :
    noise.Follows (env.samplings slot slots e) (env.streamOf e.streams slot seed)
      (env.streamOf (finalState (env.evaluateAll slots) e).streams slot seed) := by
  induction slots generalizing e with
  | nil => exact .nil _
  | cons s slots ih =>
    have hfirst : noise.Follows (if s = slot then env.samplingsAt slot e else [])
        (env.streamOf e.streams slot seed)
        (env.streamOf (finalState (env.evaluateSlot s) e).streams slot seed) := by
      -- only the slot itself moves its stream
      by_cases hs : s = slot
      · rw [if_pos hs, hs]
        exact follows_samplingsAt h e
      · rw [if_neg hs, streamOf_evaluateSlot_of_ne hs]
        exact .nil _
    rw [samplings, evaluateAll]
    -- a failure ends the evaluation, so the draws up to it are all that there are
    cases hstep : env.evaluateSlot s e with
    | ok _ e' =>
      rw [finalState_bind_of_ok hstep]
      rw [finalState_of_ok hstep] at hfirst
      exact hfirst.append (ih e')
    | error f e' =>
      rw [finalState_bind_of_error hstep, List.append_nil]
      rwa [finalState_of_error hstep] at hfirst

/-! ## One draw for a slot -/

/-- A slot that is not evaluated samples nothing. -/
theorem samplings_eq_nil (h : slot ∉ slots) (e : Evaluation S) :
    env.samplings slot slots e = [] := by
  induction slots generalizing e with
  | nil => rfl
  | cons s slots ih =>
    obtain ⟨hs, hslots⟩ := List.ne_and_not_mem_of_not_mem_cons h
    rw [samplings, if_neg (Ne.symm hs), List.nil_append]
    split
    · exact ih hslots _
    · rfl

/-- The slots of a schedule are different, so there is at most one draw for each of them. -/
theorem length_samplings_le (h : slots.Nodup) (e : Evaluation S) :
    (env.samplings slot slots e).length ≤ 1 := by
  induction slots generalizing e with
  | nil => exact Nat.zero_le 1
  | cons s slots ih =>
    obtain ⟨hs, hslots⟩ := List.nodup_cons.1 h
    rw [samplings]
    by_cases heq : s = slot
    · subst heq
      -- the slot does not come again, whether or not its evaluation succeeds
      have hrest : (match env.evaluateSlot s e with
          | .ok _ e' => env.samplings s slots e'
          | .error _ _ => []) = [] := by
        split
        · exact samplings_eq_nil hs _
        · rfl
      rw [if_pos rfl, hrest, List.append_nil]
      exact Option.length_toList_le
    · rw [if_neg heq, List.nil_append]
      split
      · exact ih hslots _
      · exact Nat.zero_le 1

/-- A slot samples in the first slots and then in the others. -/
theorem samplings_append (slots slots' : List Nat) {e e' : Evaluation S}
    (h : env.evaluateAll slots e = .ok () e') :
    env.samplings slot (slots ++ slots') e =
      env.samplings slot slots e ++ env.samplings slot slots' e' := by
  induction slots generalizing e with
  | nil =>
    cases h
    rfl
  | cons s slots ih =>
    obtain ⟨_, e₁, hstep, hrest⟩ := bind_eq_ok_iff.1 h
    simp only [List.cons_append, samplings, hstep, ih hrest, List.append_assoc]

theorem samplings_singleton (e : Evaluation S) :
    env.samplings slot [slot] e = env.samplingsAt slot e := by
  rw [samplings, if_pos rfl]
  cases env.evaluateSlot slot e <;> exact List.append_nil _

omit [Scalar S] in
/-- What a node draws depends on the values of its operands. -/
theorem sampling?_congr {known known' : Known S} {stream : Option UInt64 → Stream}
    (h : ∀ o ∈ op.operands, known.value o = known'.value o) :
    env.sampling? known slot stream op = env.sampling? known' slot stream op := by
  cases op with
  | dropout input rate seed =>
    rw [sampling?, sampling?, drawSize?, drawSize?, h input (by simp [Op.operands, Op.inputs])]
  | _ => rfl

omit [Scalar S] in
/-- An operation that samples nothing has no sampling. -/
theorem sampling?_eq_none {known : Known S} {stream : Option UInt64 → Stream}
    (h : env.samples op = false) : env.sampling? known slot stream op = none := by
  cases op with
  | random => cases h
  | dropout input rate seed =>
    have hdrops : env.dropsAt rate = false := h
    rw [sampling?, drawSize?, hdrops]
    rfl
  | _ => rfl

/-- In an evaluation that gives a result, the draws for a slot are the one that its node makes from
the stream at the start and the values at the end. -/
theorem samplings_of_evaluateAll {listed : List Nat} {streams : SlotMap Stream}
    (hfinished : env.graph.Finished listed)
    (h : env.evaluateAll listed.reverse (.start streams) = .ok () e) (hslot : slot ∈ listed)
    (hn : env.graph.nodes[slot]? = some n) :
    env.samplings slot listed.reverse (.start streams) =
      (env.sampling? e.known slot (env.streamOf streams slot) n.op).toList := by
  induction hfinished generalizing e with
  | nil => cases hslot
  | @cons s listed rest inside fresh operands ih =>
    rw [List.reverse_cons] at h ⊢
    rw [evaluateAll_append, bind_eq_ok_iff] at h
    obtain ⟨_, e₁, hrest, hlast⟩ := h
    rw [evaluateAll_singleton] at hlast
    rw [samplings_append _ _ hrest]
    obtain ⟨m, hm⟩ := Graph.exists_node_of_lt inside
    obtain ⟨t, hstep⟩ := stepped_of_evaluateSlot hm hlast
    -- evaluating the slot in front has left the values of earlier slots alone
    have hkept : ∀ {o}, o ∈ listed → e₁.known.value o = e.known.value o := fun ho => by
      simp only [Evaluation.known, hstep.value_of_ne _ fun heq => fresh (heq ▸ ho)]
    rcases List.mem_cons.1 hslot with rfl | hslot
    · have hstream : e₁.streams.get? slot = streams.get? slot :=
        (maintains_evaluateAll fun hs => absurd (List.mem_reverse.1 hs) fresh).of_eq_ok rfl hrest
      rw [samplings_eq_nil (mt List.mem_reverse.1 fresh), List.nil_append, samplings_singleton,
        samplingsAt, hn, Option.bind_some, streamOf_congr hstream]
      refine congrArg _ (sampling?_congr fun o ho => hkept (operands ?_))
      rwa [Graph.operands_eq hn]
    · have hne : slot ∉ [s] := fun hs => fresh (List.mem_singleton.1 hs ▸ hslot)
      rw [samplings_eq_nil hne, List.append_nil, ih hrest hslot]
      exact congrArg _ (sampling?_congr fun o ho => hkept (rest.mem_of_mem_operands hslot hn ho))

end Setting

/-! ## What is made of a draw -/

/-- A random node has the samples of its draw as its value, and a dropout scales its operand by the
factors. -/
def Sampling.Applied (d : Sampling) (known : Known S) (slot : Nat) : Op → Prop
  | .random _ _ => ∃ (shape : Shape) (xs : Array Float32), d = ⟨shape.size, .ok xs⟩ ∧
      known.value slot = .ofSamples shape xs
  | .dropout input _ _ => ∃ xs, d = ⟨(known.value input).shape.size, .ok xs⟩ ∧
      known.value slot =
        (known.value input).hadamard (.ofSamples (known.value input).shape xs)
  | _ => False

/-- A node that samples has made a draw and has its value from it. -/
theorem Sourced.exists_sampling {env : Setting S} {streams : SlotMap Stream} {listed : List Nat}
    {e : Evaluation S} (h : Sourced env streams listed e) {slot : Nat} {n : GraphNode}
    (hslot : slot ∈ listed) (hn : env.graph.nodes[slot]? = some n)
    (hsamples : env.samples n.op) :
    ∃ d, env.sampling? e.known slot (env.streamOf streams slot) n.op = some d ∧
      d.Applied e.known slot n.op := by
  obtain ⟨draw, hdraw, hnoise⟩ := h.drawn hslot hn
  have hcomputed := h.computed hslot hn
  have hknown : e.known.noise slot = draw.map Prod.fst := hnoise
  -- the draw and the value are facts about the operation, so both follow its case split
  revert hdraw hcomputed hsamples
  cases n.op with
  | random sampler seed =>
    intro _ hdraw hcomputed
    rw [Setting.draws] at hdraw
    cases hshape : env.staticShape slot with
    | error f => simp [hshape, Except.bind] at hdraw
    | ok shape =>
      simp only [hshape, Except.bind] at hdraw
      split at hdraw
      · next xs next hdrawn =>
        cases hdraw
        simp only [Setting.compute, hshape, hknown] at hcomputed
        refine ⟨⟨shape.size, .ok xs⟩, ?_, shape, xs, rfl, (Except.ok.inj hcomputed).symm⟩
        simp [Setting.sampling?, Setting.drawSize?, Op.noise?, hshape, Except.toOption, Noise.draw,
          hdrawn]
      · cases hdraw
  | dropout input rate seed =>
    intro hdrops hdraw hcomputed
    have hdrops : env.dropsAt rate := hdrops
    simp only [Setting.draws, if_pos hdrops] at hdraw
    cases hdraw
    simp only [Setting.compute, hknown] at hcomputed
    refine ⟨⟨_, .ok _⟩, ?_, _, rfl, (Except.ok.inj hcomputed).symm⟩
    simp only [Setting.sampling?, Setting.drawSize?, Op.noise?, if_pos hdrops]
    rfl
  | _ =>
    intro hsamples
    cases hsamples

end TensorGraph
