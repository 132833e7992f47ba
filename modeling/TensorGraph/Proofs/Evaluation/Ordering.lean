import TensorGraph.Proofs.Evaluation.Confinement
import TensorGraph.Proofs.Evaluation.Conforming
import TensorGraph.Proofs.Evaluation.Drawing

/-!
# Evaluating in any order

A slot draws from a stream of its own and is computed from its operands. So what it evaluates to
depends neither on the order in which the slots of a run are evaluated nor on which other targets
the run has: a run gives a result exactly when every slot in it evaluates on its own, and then to
the values that these evaluate to.

## Main definitions

* `Setting.draws`: what a node draws from its stream.
* `Sourced`: a settled evaluation whose samples come from the streams that the run started with.
* `Setting.Gives`: the value that a slot evaluates to on its own.

## Main results

* `Sourced.agree`: two runs that read the same of a slot agree about it.
* `Setting.exists_evaluateAll_of_sourced`: evaluating slots each of which evaluates on its own.
* `Setting.gives_iff_sourced` and `Setting.gives_binary_iff`: what a slot evaluates to.
-/

namespace TensorGraph

variable {S : Type} [Scalar S]

/-! ## Samples -/

/-- Samples as a tensor. -/
def Tensor.ofSamples (shape : Shape) (xs : Array Float32) : Tensor S :=
  tabulate shape fun i j => Scalar.ofSingle (xs.getD (i * shape.cols + j) 0)

namespace Setting

/-- What a node draws from its stream, and the stream afterwards. -/
def draws (env : Setting S) (known : Known S) (slot : Nat) (stream : Option UInt64 → Stream) :
    Op → Except Failure (Option (Tensor S × Stream))
  | .random sampler seed =>
    (env.staticShape slot).bind fun shape =>
      match sampler.draw shape.size (stream seed) with
      | (.ok xs, next) => .ok (some (.ofSamples shape xs, next))
      | (.error defect, _) => .error defect.failure
  | .dropout input rate seed =>
    let shape := (known.value input).shape
    let (factors, next) := Dropping.mask rate shape.size (stream seed)
    .ok (if env.dropsAt rate then some (.ofSamples shape factors, next) else none)
  | _ => .ok none

/-- The working state after a draw. -/
def keepDraw (slot : Nat) (e : Evaluation S) : Option (Tensor S × Stream) → Evaluation S
  | some (noise, stream) =>
    { e with noise := e.noise.insert slot noise, streams := e.streams.insert slot stream }
  | none => e

variable {env env' : Setting S} {slot : Nat} {op : Op} {e e' : Evaluation S}

/-- Drawing gives a result when the samples are accepted, and keeps what has been drawn. -/
theorem drawNoise_eq_ok_iff : env.drawNoise slot op e = .ok () e' ↔
    ∃ draw, env.draws e.known slot (env.streamOf e.streams slot) op = .ok draw ∧
      e' = keepDraw slot e draw := by
  cases op with
  | random sampler seed =>
    cases hshape : env.staticShape slot with
    | error f => simp [drawNoise, draws, hshape, bind_eq_ok_iff, lift_eq_ok_iff, Except.bind]
    | ok shape =>
      rw [drawNoise, bind_of_ok (lift_eq_ok_iff.2 ⟨hshape, rfl⟩), bind_of_ok (get_apply e),
        draws, hshape, Except.bind]
      -- the stream is kept whether the samples are accepted or not
      obtain ⟨drawn | drawn, stream⟩ := sampler.draw shape.size (env.streamOf e.streams slot seed)
      · simp [bind_eq_ok_iff]
      · constructor
        · intro h
          obtain ⟨_, _, hstream, hnoise⟩ := bind_eq_ok_iff.1 h
          cases hstream
          cases hnoise
          exact ⟨_, rfl, rfl⟩
        · rintro ⟨_, hdraw, rfl⟩
          cases hdraw
          rfl
  | dropout input rate seed =>
    simp only [drawNoise, draws, Except.ok.injEq, exists_eq_left']
    split
    · change EStateM.Result.ok _ _ = _ ↔ _
      simp only [EStateM.Result.ok.injEq, true_and]
      exact eq_comm
    · simp [keepDraw, eq_comm]
  | _ => simp [drawNoise, draws, keepDraw, eq_comm]

/-- What a node draws depends on the values of its operands. -/
theorem draws_congr {known known' : Known S} {stream : Option UInt64 → Stream}
    (h : ∀ o ∈ op.operands, known.value o = known'.value o) :
    env.draws known slot stream op = env.draws known' slot stream op := by
  cases op with
  | dropout input rate seed => rw [draws, draws, h input (by simp [Op.operands, Op.inputs])]
  | _ => rfl

/-- Runs that find the same in a slot draw the same for it. -/
theorem Shares.draws_eq {R : Nat → Prop} {streams streams' : SlotMap Stream}
    (h : env.Shares R env' streams streams') {n : GraphNode} (hslot : R slot)
    (hn : env.graph.nodes[slot]? = some n) (known : Known S) :
    env'.draws known slot (env'.streamOf streams' slot) n.op =
      env.draws known slot (env.streamOf streams slot) n.op := by
  -- only nodes with a seed draw, and their streams are the ones that are shared
  cases hop : n.op with
  | random sampler seed =>
    have hseed : n.op.seed? = some seed := by rw [hop]; rfl
    simp only [draws, h.staticShape_eq, h.streams hslot hn hseed]
  | dropout input rate seed =>
    have hseed : n.op.seed? = some seed := by rw [hop]; rfl
    have hdrops : env'.dropsAt rate = env.dropsAt rate := by rw [dropsAt, dropsAt, h.phase]
    simp only [draws, h.streams hslot hn hseed, hdrops]
  | _ => simp only [draws]

omit [Scalar S] in
/-- A run finds the same as itself. -/
theorem Shares.refl (env : Setting S) (streams : SlotMap Stream) :
    env.Shares (fun _ => True) env streams streams where
  graph := rfl
  phase := rfl
  feeds _ _ := rfl
  store _ _ := rfl
  streams _ _ _ := rfl

omit [Scalar S] in
theorem streamOf_congr {streams streams' : SlotMap Stream}
    (h : streams.get? slot = streams'.get? slot) :
    env.streamOf streams slot = env.streamOf streams' slot :=
  funext fun seed => by rw [streamOf, streamOf, h]

/-- What evaluating a slot draws, from a state that has drawn nothing for it. -/
theorem draws_of_evaluateSlot {n : GraphNode} (hn : env.graph.nodes[slot]? = some n)
    (hslot : slot ∉ n.op.operands) (hnoise : e.noise.get? slot = none)
    (h : env.evaluateSlot slot e = .ok () e') :
    ∃ draw, env.draws e'.known slot (env.streamOf e.streams slot) n.op = .ok draw ∧
      e'.noise.get? slot = draw.map Prod.fst := by
  obtain ⟨t, hstep⟩ := stepped_of_evaluateSlot hn h
  simp only [evaluateSlot, hn, bind_eq_ok_iff, lift_eq_ok_iff] at h
  obtain ⟨_, e₁, hdrawn, _, e₂, hdiff, _, _, hget, _, _, ⟨-, rfl⟩, _, e₃, hrecord, hkeep⟩ := h
  cases hget
  rw [recordAssignment_eq] at hrecord
  cases hrecord
  cases hkeep
  -- the draw comes before the value of the slot, which is not among its own operands
  obtain ⟨draw, hdraw, rfl⟩ := drawNoise_eq_ok_iff.1 hdrawn
  refine ⟨draw, ?_, ?_⟩
  · rw [← hdraw]
    refine draws_congr fun o ho => ?_
    have hne : o ≠ slot := fun heq => hslot (heq ▸ ho)
    simp only [Evaluation.known, hstep.value_of_ne o hne]
  · simp only [(differentiated_of_differentiate hdiff).noise]
    cases draw with
    | none => exact hnoise
    | some d => simp [keepDraw]

end Setting

/-! ## Runs -/

/-- A settled evaluation whose samples come from the streams that the run started with; streams of
other slots than the evaluated ones are as they were. -/
structure Sourced (env : Setting S) (streams : SlotMap Stream) (listed : List Nat)
    (e : Evaluation S) : Prop extends Settled env listed e where
  drawn : ∀ {s : Nat} {n : GraphNode}, s ∈ listed → env.graph.nodes[s]? = some n →
    ∃ draw, env.draws e.known s (env.streamOf streams s) n.op = .ok draw ∧
      e.noise.get? s = draw.map Prod.fst
  untouched : ∀ s ∉ listed, e.streams.get? s = streams.get? s

/-- Evaluating slots in an order in which operands come first. -/
theorem sourced_of_evaluateAll {env : Setting S} {listed : List Nat} {streams : SlotMap Stream}
    {e : Evaluation S} (hfinished : env.graph.Finished listed)
    (h : env.evaluateAll listed.reverse (.start streams) = .ok () e) :
    Sourced env streams listed e := by
  refine ⟨settled_of_evaluateAll hfinished h, ?_, fun s hs => ?_⟩
  · -- the list is read from its end, so the slot in front has been evaluated last
    induction hfinished generalizing e with
    | nil => exact fun hs => nomatch hs
    | @cons slot listed rest inside fresh operands ih =>
      rw [List.reverse_cons, Setting.evaluateAll_append, bind_eq_ok_iff] at h
      obtain ⟨_, e₁, hrest, hlast⟩ := h
      rw [Setting.evaluateAll_singleton] at hlast
      have hsettled := settled_of_evaluateAll rest hrest
      obtain ⟨n, hn⟩ := Graph.exists_node_of_lt inside
      obtain ⟨t, hstep⟩ := Setting.stepped_of_evaluateSlot hn hlast
      rw [Graph.operands_eq hn] at operands
      have hne : ∀ s ∈ listed, s ≠ slot := fun s hs heq => fresh (heq ▸ hs)
      intro s m hs hm
      rcases List.mem_cons.1 hs with rfl | hs
      · obtain rfl : n = m := Option.some.inj (hn.symm.trans hm)
        have hnoise : e₁.noise.get? s = none := by
          rw [← Option.not_isSome_iff_eq_none]
          exact fun hsome => fresh (hsettled.mem_of_noise hsome)
        have hstream : e₁.streams.get? s = streams.get? s :=
          (Setting.maintains_evaluateAll fun hs =>
            absurd (List.mem_reverse.1 hs) fresh).of_eq_ok rfl hrest
        have hdrawn := Setting.draws_of_evaluateSlot hn (fun hs => fresh (operands hs)) hnoise hlast
        rwa [Setting.streamOf_congr hstream] at hdrawn
      · -- an earlier slot has the values of its operands behind it already
        obtain ⟨draw, hdraw, hkept⟩ := ih hrest hs hm
        refine ⟨draw, ?_, by rw [hstep.noise_of_ne s (hne s hs), hkept]⟩
        rw [← hdraw]
        refine Setting.draws_congr fun o ho => ?_
        have ho := rest.mem_of_mem_operands hs hm ho
        simp only [Evaluation.known, hstep.value_of_ne o (hne o ho)]
  · exact (Setting.maintains_evaluateAll fun hs' => absurd (List.mem_reverse.1 hs') hs).of_eq_ok rfl
      h

/-- A run that gives a result. -/
theorem sourced_of_evaluate {env : Setting S} {targets : List Nat} {streams : SlotMap Stream}
    {e : Evaluation S} (hg : env.graph.Typed) (htargets : ∀ t ∈ targets, t < env.graph.size)
    (h : env.evaluate targets (.start streams) = .ok () e) :
    Sourced env streams (env.graph.schedule targets).reverse e :=
  sourced_of_evaluateAll (hg.finished_schedule htargets) (by rwa [List.reverse_reverse])

/-- Targets are evaluated. -/
theorem Graph.Typed.mem_schedule_reverse {g : Graph} {targets : List Nat} {slot : Nat}
    (hg : g.Typed) (htargets : ∀ t ∈ targets, t < g.size) (hslot : slot ∈ targets) :
    slot ∈ (g.schedule targets).reverse :=
  List.mem_reverse.2 ((hg.mem_schedule_iff htargets).2 ⟨slot, hslot, .refl⟩)

namespace Sourced

variable {env env' : Setting S} {streams streams' : SlotMap Stream} {listed listed' : List Nat}
  {e e' : Evaluation S} {R : Nat → Prop}

/-- Two runs that find the same in a set of slots agree about the slots of it that both evaluate. -/
theorem agree (h : Sourced env streams listed e) (h' : Sourced env' streams' listed' e')
    (hg : env.graph.Typed) (hshares : env.Shares R env' streams streams')
    (hclosed : ∀ {s o}, R s → o ∈ env.graph.operands s → R o)
    (hlisted : env.graph.Finished listed) (hlisted' : env.graph.Finished listed') {s : Nat}
    (hs : s ∈ listed) (hs' : s ∈ listed') (hR : R s) :
    e'.known.value s = e.known.value s ∧ e'.noise.get? s = e.noise.get? s := by
  induction s using Nat.strongRecOn with
  | ind s ih =>
    obtain ⟨n, hn⟩ := Graph.exists_node_of_lt (hlisted.lt_size hs)
    have hn' : env'.graph.nodes[s]? = some n := by rw [hshares.graph, hn]
    -- what the operands reach are earlier slots of the set that both runs evaluate
    have hbelow : ∀ o ∈ n.op.operands, ∀ t, env.graph.Reaches o t →
        e'.known.value t = e.known.value t ∧ e'.noise.get? t = e.noise.get? t := by
      intro o ho t ht
      rw [← Graph.operands_eq hn] at ho
      have hlt : t < s := Nat.lt_of_le_of_lt (hg.le_of_reaches ht) (hg.lt_of_mem_operands ho)
      refine ih t hlt (hlisted.mem_of_reaches (hlisted.operands_subset hs ho) ht)
        (hlisted'.mem_of_reaches (hlisted'.operands_subset hs' ho) ht) ?_
      induction ht with
      | refl => exact hclosed hR ho
      | tail hot hstep iht =>
        exact hclosed (iht (Nat.lt_of_le_of_lt
          (hg.le_of_reaches hot) (hg.lt_of_mem_operands ho))) hstep
    have hvalue : ∀ o ∈ n.op.operands, e'.known.value o = e.known.value o := fun o ho =>
      (hbelow o ho o .refl).1
    have hnoise : e'.noise.get? s = e.noise.get? s := by
      obtain ⟨draw, hdraw, hkept⟩ := h.drawn hs hn
      obtain ⟨draw', hdraw', hkept'⟩ := h'.drawn hs' hn'
      rw [hshares.draws_eq hR hn, Setting.draws_congr hvalue, hdraw] at hdraw'
      rw [hkept, hkept', Except.ok.inj hdraw']
    refine ⟨?_, hnoise⟩
    have hcompute := h'.computed hs' hn'
    rw [hshares.compute_eq hR, env.compute_congr hvalue hnoise, h.computed hs hn] at hcompute
    · exact (Except.ok.inj hcompute).symm
    · intro loss target hop
      have hloss : loss ∈ n.op.operands := by simp [hop, Op.operands, Op.inputs]
      rw [h.known_sensitivity hs hn hop, h'.known_sensitivity hs' hn' hop, hshares.graph,
        Graph.sensitivities_congr (fun t ht => (hbelow loss hloss t ht).1)
          fun t ht => (hbelow loss hloss t ht).2]

/-- Two runs of one setting agree about the slots that both evaluate. -/
theorem agree_self (h : Sourced env streams listed e) (h' : Sourced env streams listed' e')
    (hg : env.graph.Typed) (hlisted : env.graph.Finished listed)
    (hlisted' : env.graph.Finished listed') {s : Nat} (hs : s ∈ listed) (hs' : s ∈ listed') :
    e'.known.value s = e.known.value s ∧ e'.noise.get? s = e.noise.get? s :=
  h.agree h' hg (.refl env streams) (fun _ _ => trivial) hlisted hlisted' hs hs' trivial

end Sourced

/-- Differentiating a loss that has been evaluated makes its derivatives known. -/
theorem Settled.sensitivity_of_differentiate {env : Setting S} {listed : List Nat}
    {e e' : Evaluation S} {loss target : Nat} (h : Settled env listed e)
    (hdiff : env.differentiate (.gradient loss target) e = .ok () e') :
    e'.known.sensitivity loss target = (env.graph.sensitivities e.known loss).get? target := by
  have hstep := Setting.differentiated_of_differentiate hdiff
  obtain ⟨m, hm⟩ := Option.isSome_iff_exists.1 (hstep.isSome_of_gradient rfl)
  simp only [Evaluation.known, hm, Option.bind_some]
  rcases hstep.sensitivities hm with hold | ⟨rfl, -⟩
  · rw [(h.sensitivities hold).2]
    rfl
  · rfl

namespace Setting

variable {env : Setting S} {streams : SlotMap Stream} {slot : Nat} {e e' : Evaluation S}
  {listed listed' : List Nat}

/-- A slot whose operands have been evaluated is evaluated when it is in another run. -/
theorem exists_evaluateSlot_of_sourced (h : Sourced env streams listed e)
    (h' : Sourced env streams listed' e') (hg : env.graph.Typed)
    (hlisted : env.graph.Finished (slot :: listed)) (hlisted' : env.graph.Finished listed')
    (hslot : slot ∈ listed') : ∃ e₁, env.evaluateSlot slot e = .ok () e₁ := by
  cases hlisted with | cons rest inside fresh operands =>
  obtain ⟨n, hn⟩ := Graph.exists_node_of_lt inside
  rw [Graph.operands_eq hn] at operands
  have hbelow : ∀ o ∈ n.op.operands, ∀ t, env.graph.Reaches o t →
      e'.known.value t = e.known.value t ∧ e'.noise.get? t = e.noise.get? t := fun o ho t ht =>
    h.agree_self h' hg rest hlisted' (rest.mem_of_reaches (operands ho) ht)
      (hlisted'.mem_of_reaches (hlisted'.mem_of_mem_operands hslot hn ho) ht)
  have hvalue : ∀ o ∈ n.op.operands, e'.known.value o = e.known.value o := fun o ho =>
    (hbelow o ho o .refl).1
  -- the samples are accepted, since they have been in the other run
  obtain ⟨draw, hdraw, hkept⟩ := h'.drawn hslot hn
  rw [draws_congr hvalue, ← streamOf_congr (h.untouched slot fresh)] at hdraw
  have hdrawn := drawNoise_eq_ok_iff.2 ⟨draw, hdraw, rfl⟩
  obtain ⟨_, e₂, hdiff⟩ := env.succeeds_differentiate n.op (keepDraw slot e draw)
  have hsteps := differentiated_of_differentiate hdiff
  -- so the same is known of what the slot is computed from
  have hcompute : env.compute e₂.known slot n.op = .ok (e'.known.value slot) := by
    rw [← h'.computed hslot hn]
    refine env.compute_congr (fun o ho => ?_) ?_ fun loss target hop => ?_
    · rw [hvalue o ho]
      simp only [Evaluation.known, hsteps.values, (drawn_of_drawNoise hdrawn).values]
    · have hnone : e.noise.get? slot = none := by
        rw [← Option.not_isSome_iff_eq_none]
        exact fun hsome => fresh (h.mem_of_noise hsome)
      change e₂.noise.get? slot = e'.noise.get? slot
      rw [hsteps.noise, hkept]
      cases draw with
      | none => exact hnone
      | some d => simp [keepDraw]
    · have hloss : loss ∈ n.op.operands := by simp [hop, Op.operands, Op.inputs]
      -- a gradient draws nothing
      simp only [hop, draws, Except.ok.injEq] at hdraw
      rw [← hdraw, hop] at hdiff
      rw [h.sensitivity_of_differentiate hdiff, h'.known_sensitivity hslot hn hop,
        Graph.sensitivities_congr (fun t ht => (hbelow loss hloss t ht).1)
          fun t ht => (hbelow loss hloss t ht).2]
  simp only [evaluateSlot, hn, bind_eq_ok_iff, lift_eq_ok_iff]
  exact ⟨_, (), _, hdrawn, (), e₂, hdiff, e₂, e₂, rfl, _, e₂, ⟨hcompute, rfl⟩, (), _,
    recordAssignment_eq _, rfl⟩

/-- Slots are evaluated, in any order in which operands come first, when some runs evaluate them. -/
theorem exists_evaluateAll_of_sourced (streams : SlotMap Stream) (hg : env.graph.Typed)
    (hlisted : env.graph.Finished listed)
    (h : ∀ s ∈ listed, ∃ others e', env.graph.Finished others ∧ Sourced env streams others e' ∧
      s ∈ others) : ∃ e, env.evaluateAll listed.reverse (.start streams) = .ok () e := by
  induction hlisted with
  | nil => exact ⟨_, rfl⟩
  | cons rest inside fresh operands ih =>
    obtain ⟨⟨others, e', hothers, hsourced, hslot⟩, hrest⟩ := List.forall_mem_cons.1 h
    obtain ⟨e, he⟩ := ih hrest
    obtain ⟨e₁, he₁⟩ := exists_evaluateSlot_of_sourced (sourced_of_evaluateAll rest he) hsourced hg
      (.cons rest inside fresh operands) hothers hslot
    exact ⟨e₁, evaluateAll_cons_reverse he he₁⟩

/-! ## Slots on their own -/

/-- The value that a slot evaluates to on its own. -/
def Gives (env : Setting S) (streams : SlotMap Stream) (slot : Nat) (t : Tensor S) : Prop :=
  ∃ e, env.evaluate [slot] (.start streams) = .ok () e ∧ e.values.get? slot = some t

theorem Gives.unique {t u : Tensor S} (ht : env.Gives streams slot t)
    (hu : env.Gives streams slot u) : t = u := by
  obtain ⟨e, he, ht⟩ := ht
  obtain ⟨e', he', hu⟩ := hu
  cases he.symm.trans he'
  exact Option.some.inj (ht.symm.trans hu)

/-- A slot evaluates on its own to what it evaluates to in any run. -/
theorem gives_iff_sourced (hg : env.graph.Typed) (hslot : slot < env.graph.size) {t : Tensor S} :
    env.Gives streams slot t ↔ ∃ listed e, env.graph.Finished listed ∧
      Sourced env streams listed e ∧ slot ∈ listed ∧ e.known.value slot = t := by
  have hslots : ∀ s ∈ [slot], s < env.graph.size := List.forall_mem_singleton.2 hslot
  have hfinished := hg.finished_schedule hslots
  have hself := hg.mem_schedule_reverse hslots List.mem_cons_self
  constructor
  · rintro ⟨e, he, ht⟩
    exact ⟨_, e, hfinished, sourced_of_evaluate hg hslots he, hself, Evaluation.known_value_eq ht⟩
  · rintro ⟨listed, e, hlisted, h, hslot', rfl⟩
    -- the run has evaluated all that the slot reaches
    obtain ⟨e', he'⟩ := exists_evaluateAll_of_sourced streams hg hfinished fun s hs =>
      ⟨listed, e, hlisted, h, hlisted.mem_of_reaches hslot'
        ((hg.mem_schedule_singleton_iff hslot).1 (List.mem_reverse.1 hs))⟩
    have hsourced := sourced_of_evaluateAll hfinished he'
    rw [List.reverse_reverse] at he'
    refine ⟨e', he', ?_⟩
    rw [hsourced.values_eq hself, (h.agree_self hsourced hg hlisted hfinished hslot' hself).1]

/-- A run gives every target the value that it evaluates to on its own. -/
theorem gives_of_evaluate {targets : List Nat} (hg : env.graph.Typed)
    (htargets : ∀ t ∈ targets, t < env.graph.size) (hslot : slot ∈ targets)
    (h : env.evaluate targets (.start streams) = .ok () e) :
    env.Gives streams slot (e.known.value slot) :=
  (gives_iff_sourced hg (htargets slot hslot)).2 ⟨_, e, hg.finished_schedule htargets,
    sourced_of_evaluate hg htargets h, hg.mem_schedule_reverse htargets hslot, rfl⟩

/-- What a slot needs is evaluated ahead of it when its operands evaluate on their own. -/
theorem exists_evaluate_operands (streams : SlotMap Stream) (hg : env.graph.Typed)
    (hslot : slot < env.graph.size)
    (h : ∀ o ∈ env.graph.operands slot, ∃ t, env.Gives streams o t) :
    ∃ before e, env.graph.Finished (slot :: before) ∧
      env.evaluateAll before.reverse (.start streams) = .ok () e ∧
      ∀ o ∈ env.graph.operands slot, env.Gives streams o (e.known.value o) := by
  have hlt : ∀ o ∈ env.graph.operands slot, o < env.graph.size := fun o ho =>
    Nat.lt_trans (hg.lt_of_mem_operands ho) hslot
  have hfinished := hg.finished_schedule (List.forall_mem_singleton.2 hslot)
  have hmem : ∀ s, s ∈ (env.graph.schedule [slot]).reverse ↔ env.graph.Reaches slot s := fun s =>
    List.mem_reverse.trans (hg.mem_schedule_singleton_iff hslot)
  -- the slot is scheduled last, after all that its operands reach
  obtain ⟨before, hbefore⟩ : ∃ before, (env.graph.schedule [slot]).reverse = slot :: before := by
    simp [Graph.schedule, Graph.visit]
  rw [hbefore] at hfinished hmem
  cases hfinished with | cons rest inside fresh operands =>
  obtain ⟨e, he⟩ := exists_evaluateAll_of_sourced streams hg rest fun s hs => by
    rcases ((hmem s).1 (List.mem_cons_of_mem _ hs)).cases_head with rfl | ⟨o, ho, hos⟩
    · exact absurd hs fresh
    · obtain ⟨t, ht⟩ := h o ho
      obtain ⟨others, e', hothers, hsourced, ho', -⟩ := (gives_iff_sourced hg (hlt o ho)).1 ht
      exact ⟨others, e', hothers, hsourced, hothers.mem_of_reaches ho' hos⟩
  refine ⟨before, e, .cons rest inside fresh operands, he, fun o ho => ?_⟩
  exact (gives_iff_sourced hg (hlt o ho)).2
    ⟨before, e, rest, sourced_of_evaluateAll rest he, operands ho, rfl⟩

/-- A node that is not random evaluates when its operands do, to the value that theirs determine. -/
theorem gives_of_operands {n : GraphNode} {t : Tensor S} (value : Nat → Tensor S)
    (hg : env.graph.Typed) (hn : env.graph.nodes[slot]? = some n) (hsteady : n.op.Steady)
    (hoperands : ∀ o ∈ n.op.operands, env.Gives streams o (value o))
    (hcompute : ∀ known : Known S, (∀ o ∈ n.op.operands, known.value o = value o) →
      env.compute known slot n.op = .ok t) : env.Gives streams slot t := by
  have hslot : slot < env.graph.size := Graph.lt_size_of_getElem? hn
  obtain ⟨before, e, hfinished, he, hgives⟩ := exists_evaluate_operands streams hg hslot (by
    rw [Graph.operands_eq hn]
    exact fun o ho => ⟨_, hoperands o ho⟩)
  rw [Graph.operands_eq hn] at hgives
  obtain ⟨e₁, he₁⟩ := exists_evaluateSlot (e := e) hn hsteady fun e' hvalues => by
    have hknown : e'.known.value = e.known.value := by simp only [Evaluation.known, hvalues]
    exact ⟨t, hcompute _ fun o ho => by rw [hknown, (hgives o ho).unique (hoperands o ho)]⟩
  have hsourced := sourced_of_evaluateAll hfinished (evaluateAll_cons_reverse he he₁)
  -- the operands keep their values while the slot is evaluated
  have hvalues : ∀ o ∈ n.op.operands, e₁.known.value o = value o := by
    intro o ho
    have hmem := hfinished.mem_of_mem_operands List.mem_cons_self hn ho
    have hself := (gives_iff_sourced hg (hfinished.lt_size hmem)).2
      ⟨_, e₁, hfinished, hsourced, hmem, rfl⟩
    exact hself.unique (hoperands o ho)
  have hvalue : e₁.known.value slot = t := Except.ok.inj
    ((hsourced.computed List.mem_cons_self hn).symm.trans (hcompute _ hvalues))
  exact (gives_iff_sourced hg hslot).2 ⟨_, e₁, hfinished, hsourced, List.mem_cons_self, hvalue⟩

/-- A node without operands. -/
theorem gives_of_leaf {n : GraphNode} {t : Tensor S} (hg : env.graph.Typed)
    (hn : env.graph.nodes[slot]? = some n) (hsteady : n.op.Steady) (hleaf : n.op.operands = [])
    (hcompute : ∀ known : Known S, env.compute known slot n.op = .ok t) :
    env.Gives streams slot t :=
  gives_of_operands (fun _ => t) hg hn hsteady (by simp [hleaf]) fun known _ =>
    hcompute known

/-- A node with one operand. -/
theorem gives_of_operand {n : GraphNode} {a : Nat} {t u : Tensor S} (hg : env.graph.Typed)
    (hn : env.graph.nodes[slot]? = some n) (hsteady : n.op.Steady) (hoperands : n.op.operands = [a])
    (hu : env.Gives streams a u)
    (hcompute : ∀ known : Known S, known.value a = u → env.compute known slot n.op = .ok t) :
    env.Gives streams slot t := by
  refine gives_of_operands (fun _ => u) hg hn hsteady ?_ fun known hknown => ?_
  · rwa [hoperands, List.forall_mem_singleton]
  · rw [hoperands, List.forall_mem_singleton] at hknown
    exact hcompute known hknown

/-- A node with two operands, which may be the same one. -/
theorem gives_of_pair {n : GraphNode} {a b : Nat} {t u v : Tensor S} (hg : env.graph.Typed)
    (hn : env.graph.nodes[slot]? = some n) (hsteady : n.op.Steady)
    (hoperands : n.op.operands = [a, b]) (hu : env.Gives streams a u) (hv : env.Gives streams b v)
    (hcompute : ∀ known : Known S, known.value a = u → known.value b = v →
      env.compute known slot n.op = .ok t) : env.Gives streams slot t := by
  let value (o : Nat) : Tensor S := if o = a then u else v
  have ha : value a = u := if_pos rfl
  -- the two operands may be one slot, which then has one value
  have hb : value b = v := by
    by_cases hab : b = a
    · obtain rfl := hab
      exact ha.trans (hu.unique hv)
    · exact if_neg hab
  refine gives_of_operands value hg hn hsteady ?_ fun known hknown => ?_
  · rw [hoperands, List.forall_mem_cons, List.forall_mem_singleton, ha, hb]
    exact ⟨hu, hv⟩
  · rw [hoperands, List.forall_mem_cons, List.forall_mem_singleton, ha, hb] at hknown
    exact hcompute known hknown.1 hknown.2

section Binary

variable {n : GraphNode} {op : BinaryOp} {a b : Nat} {t u v : Tensor S}

/-- The operands of an operation evaluate, and their values have a common shape. -/
theorem Gives.of_binary (hg : env.graph.Typed) (hn : env.graph.nodes[slot]? = some n)
    (hop : n.op = .binary op a b) (h : env.Gives streams slot t) :
    ∃ u v shape, env.Gives streams a u ∧ env.Gives streams b v ∧
      u.shape.broadcast v.shape = some shape ∧ t = .combine shape op.apply u v := by
  have hslot : slot < env.graph.size := Graph.lt_size_of_getElem? hn
  -- the slots that are evaluated for a node contain its operands, with their own values
  obtain ⟨listed, e, hlisted, hsourced, hmem, rfl⟩ := (gives_iff_sourced hg hslot).1 h
  have hcompute := hsourced.computed hmem hn
  rw [hop] at hcompute
  obtain ⟨shape, hshape, heq⟩ := except_bind_eq_ok_iff.1 hcompute
  have hoperand : ∀ o ∈ n.op.operands, env.Gives streams o (e.known.value o) := by
    intro o ho
    have ho := hlisted.mem_of_mem_operands hmem hn ho
    exact (gives_iff_sourced hg (hlisted.lt_size ho)).2 ⟨listed, e, hlisted, hsourced, ho, rfl⟩
  exact ⟨_, _, shape, hoperand a (by simp [hop, Op.operands, Op.inputs]),
    hoperand b (by simp [hop, Op.operands, Op.inputs]), commonShape_eq_ok_iff.1 hshape,
    (Except.ok.inj heq).symm⟩

/-- An operation on two operands evaluates when both do and their values have a common shape. -/
theorem gives_binary_iff (hg : env.graph.Typed) (hn : env.graph.nodes[slot]? = some n)
    (hop : n.op = .binary op a b) :
    env.Gives streams slot t ↔ ∃ u v shape, env.Gives streams a u ∧ env.Gives streams b v ∧
      u.shape.broadcast v.shape = some shape ∧ t = .combine shape op.apply u v := by
  refine ⟨Gives.of_binary hg hn hop, ?_⟩
  rintro ⟨u, v, shape, hu, hv, hshape, rfl⟩
  refine gives_of_pair hg hn (by rw [hop]; rfl) (by rw [hop]; rfl) hu hv
    fun known hknown hknown' => ?_
  rw [hop, compute, hknown, hknown']
  exact except_bind_eq_ok_iff.2 ⟨shape, commonShape_eq_ok_iff.2 hshape, rfl⟩

end Binary

end Setting
end TensorGraph
