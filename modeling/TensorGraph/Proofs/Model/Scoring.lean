import TensorGraph.Proofs.Model.Feeding
import TensorGraph.Proofs.Model.Stopping

/-!
# The losses that steps and evaluations report

A step of training and an evaluation ask for the losses among other things, in different phases and
at different places of what they fetch. Where no output depends on a dropout that drops something,
the losses reach deterministic operations only. What they come to then depends on nothing but the
variables at the start of the call and the batch: neither on the phase, nor on what else is fetched,
nor on the updates of the step.

## Main definitions

* `Value.HasMean`: the mean of the elements of a value.
* `Network.DropsNothing`: a layer that depends on no dropout of positive rate.
* `Engine.Fetches`: the value of a node, recomputed from the variables of an engine.

## Main results

* `Setting.valueOf_withPhase`: values that need no samples do not depend on the phase.
* `Model.deterministic_of_compile`: what the losses and metrics of a compiled model reach.
* `Model.steps_and_evaluations_agree`: a step and an evaluation report the same losses.
-/

namespace TensorGraph

open Engine

/-! ## Deterministic slots -/

namespace Setting

variable {S : Type} [Scalar S] {env : Setting S} {slot : Nat}

/-- A setting in another phase. -/
def withPhase (env : Setting S) (phase : Phase) : Setting S := { env with phase := phase }

omit [Scalar S] in
/-- Where only deterministic operations are reached nothing is sampled, whatever the phase. -/
theorem quiet_of_deterministic (h : env.graph.ReachesOnly Op.Deterministic slot) :
    env.Quiet slot := by
  intro t n ht hn
  obtain ⟨hpassive, hrate⟩ := (h.of_reaches ht).op hn
  cases hop : n.op
  case random sampler seed => simp [hop, Op.Passive, Op.isRandom] at hpassive
  case dropout input rate seed =>
    have hzero : ¬0 < rate := hrate rate (by rw [hop]; rfl)
    simp [samples, dropsAt, hzero]
  all_goals rfl

theorem compute_withPhase (env : Setting S) (phase : Phase) (known : Known S) (slot : Nat)
    (op : Op) : (env.withPhase phase).compute known slot op = env.compute known slot op := by
  cases op <;> rfl

theorem recompute_withPhase (env : Setting S) (phase : Phase) (noise : Nat → Option (Tensor S))
    (depth slot : Nat) :
    (env.withPhase phase).recompute noise depth slot = env.recompute noise depth slot := by
  induction depth generalizing slot with
  | zero => rfl
  | succ depth ih =>
    have hbelow : (env.withPhase phase).recompute noise depth = env.recompute noise depth :=
      funext ih
    simp only [recompute, hbelow, computeFrom, compute_withPhase]
    rfl

/-- The phase matters to what is sampled only. -/
theorem valueOf_withPhase (env : Setting S) (phase : Phase) (slot : Nat) :
    (env.withPhase phase).valueOf slot = env.valueOf slot :=
  env.recompute_withPhase phase _ _ _

end Setting

/-! ## Means -/

theorem DeclaredShape.Covers.size_ne_zero {declared : DeclaredShape} {s : Shape}
    (h : declared.Covers s) : s.size ≠ 0 := by
  induction h with
  | nil => exact Nat.one_ne_zero
  | cons haxis _ ih => exact Nat.mul_ne_zero (Nat.ne_of_gt haxis.1) ih

namespace Value

/-- A number is the mean of a value: the sum of its elements, added from left to right, over how
many there are. There is at least one, and there are as many as the shape says. -/
structure HasMean (v : Value) (x : Float32) : Prop where
  size : v.toNumbers.size = v.shape.size
  nonempty : v.shape.size ≠ 0
  eq : x = v.toNumbers.toList.foldl (· + ·) 0 / Single.ofInt v.shape.size

theorem size_toNumbers (v : Value) : v.toNumbers.size = v.shape.size := by
  rw [← v.size_eq, toNumbers]
  cases v.elements <;> simp [Elements.toNumbers, Elements.size]

theorem mean_eq_some_iff {v : Value} {x : Float32} : v.mean = some x ↔ v.HasMean x := by
  rw [mean, show v.size = v.shape.size from v.size_eq, ← Array.foldl_toList]
  split
  · next hempty => exact ⟨nofun, fun h => absurd hempty h.nonempty⟩
  · next hnonempty =>
    exact ⟨fun h => ⟨v.size_toNumbers, hnonempty, (Option.some.inj h).symm⟩, fun h => by rw [h.eq]⟩

/-- A value that is not empty has a mean. -/
theorem exists_mean {v : Value} (h : v.shape.size ≠ 0) : ∃ x, v.mean = some x :=
  ⟨_, mean_eq_some_iff.2 ⟨v.size_toNumbers, h, rfl⟩⟩

/-- When every value has a mean, none is left out. -/
theorem forall₂_hasMean {vs : List Value} (h : ∀ v ∈ vs, ∃ x, v.mean = some x) :
    List.Forall₂ HasMean vs (vs.filterMap mean) := by
  induction vs with
  | nil => exact .nil
  | cons v vs ih =>
    obtain ⟨⟨x, hx⟩, hvs⟩ := List.forall_mem_cons.1 h
    rw [List.filterMap_cons_some hx]
    exact .cons (mean_eq_some_iff.1 hx) (ih hvs)

end Value

/-! ## What is fetched -/

namespace Engine

variable {e e' : Engine} {s : Session} {f : Function} {feeds : List (Node × Value)} {n : Node}
  {v w : Value} {values : List Value} {ev : Evaluation Float32}

/-- The value of a node on an engine with a session, recomputed without samples from what is fed and
the variables as they are. -/
def Fetches (e : Engine) (s : Session) (feeds : List (Node × Value)) (n : Node) (v : Value) :
    Prop :=
  ∃ k t, e.graph.nodes[n.index]? = some k ∧
    (e.setting s .inference (feedTable feeds .empty)).valueOf n.index = some t ∧
      v = t.toValue k.type

theorem Fetches.eq (h : Fetches e s feeds n v) (h' : Fetches e s feeds n w) : v = w := by
  obtain ⟨k, t, hk, ht, rfl⟩ := h
  obtain ⟨k', t', hk', ht', rfl⟩ := h'
  obtain rfl := Option.some.inj (hk.symm.trans hk')
  rw [Option.some.inj (ht.symm.trans ht')]

/-- What a run fetches has a mean: no shape that a node declares covers an empty one. -/
theorem Ran.exists_mean (h : Ran e s f feeds ev values e') (hsound : e.Sound) :
    ∀ v ∈ values, ∃ x, v.mean = some x := by
  intro v hv
  obtain ⟨n, hn, k, hk, rfl⟩ := exists_mem_of_forall₂ h.values.flip hv
  have hlisted := (h.mem_listed_iff hsound).2 ⟨n, List.mem_append_left _ hn, .refl⟩
  have hcovers := (h.settled hsound).covers hsound.typed (hsound.fits h.active h.checked)
    (h.finished hsound) hlisted hk
  exact Value.exists_mean (by rw [Tensor.shape_toValue]; exact hcovers.size_ne_zero)

/-- A node that reaches only deterministic operations is fetched as it is recomputed, in every phase
and whatever else is fetched or updated. -/
theorem Ran.fetches (h : Ran e s f feeds ev values e') (hsound : e.Sound) (hn : n ∈ f.outputs)
    (hreaches : e.graph.ReachesOnly Op.Deterministic n.index)
    (hv : ∃ k, e.graph.nodes[n.index]? = some k ∧ v = (ev.known.value n.index).toValue k.type) :
    Fetches e s feeds n v := by
  obtain ⟨k, hk, rfl⟩ := hv
  have hlisted := (h.mem_listed_iff hsound).2 ⟨n, List.mem_append_left _ hn, .refl⟩
  refine ⟨k, _, hk, ?_, rfl⟩
  have hvalue := (h.settled hsound).valueOf_eq hsound.typed (h.finished hsound) hlisted
    (Setting.quiet_of_deterministic hreaches)
  rw [← Setting.valueOf_withPhase _ f.phase]
  exact hvalue

/-- The part of a run that fetches some nodes in a row. -/
theorem Ran.forall₂_fetches (h : Ran e s f feeds ev values e') (hsound : e.Sound)
    {before nodes after : List Node} (houtputs : f.outputs = before ++ nodes ++ after)
    (hreaches : ∀ n ∈ nodes, e.graph.ReachesOnly Op.Deterministic n.index) :
    List.Forall₂ (Fetches e s feeds) nodes ((values.drop before.length).take nodes.length) := by
  have hvalues := List.forall₂_take nodes.length (List.forall₂_drop before.length h.values)
  rw [houtputs, List.append_assoc, List.drop_left, List.take_left] at hvalues
  refine forall₂_compose (List.forall₂_same.2 fun _ _ => rfl) hvalues ?_
  rintro n _ v hn rfl hv
  exact h.fetches hsound (by rw [houtputs]; simp [hn]) (hreaches n hn) hv

end Engine

/-! ## Programs -/

namespace Program

variable {p : Program} {e e' : Engine} {features targets results : List Value} {scores : Scores}

/-- What an evaluation gives are the means of the fetched values, first those of the losses. -/
theorem evaluate_eq_ok_iff : p.evaluate features targets e = .ok scores e' ↔
    ∃ feeds values, p.batchFeeds features targets = .ok feeds ∧
      execute p.evaluateFunction feeds e = .ok values e' ∧
      scores = ⟨(values.take p.losses.length).filterMap Value.mean,
        (values.drop p.losses.length).filterMap Value.mean⟩ := by
  rw [evaluate, lift_bind_eq_ok_iff]
  constructor
  · rintro ⟨feeds, hfeeds, h⟩
    obtain ⟨values, _, hexecute, hscores⟩ := bind_eq_ok_iff.1 h
    cases hscores
    exact ⟨feeds, values, hfeeds, hexecute, rfl⟩
  · rintro ⟨feeds, values, hfeeds, hexecute, rfl⟩
    exact ⟨feeds, hfeeds, bind_eq_ok_iff.2 ⟨values, e', hexecute, rfl⟩⟩

/-- The losses of a program are deterministic. -/
def LossesDeterministic (p : Program) (g : Graph) : Prop :=
  ∀ n ∈ p.losses, g.ReachesOnly Op.Deterministic n.index

/-- A step gives the losses as they are recomputed from the variables before it. -/
theorem fetches_of_trainBatch (hreads : p.Reads e.graph) (hsound : e.Sound)
    (hlosses : p.LossesDeterministic e.graph)
    (h : p.trainBatch features targets e = .ok results e') :
    ∃ s, e.session = some s ∧
      List.Forall₂ (Fetches e s (p.batchBindings features targets)) p.losses results := by
  obtain ⟨updates, -, hfunction⟩ := hreads.trainFunction
  obtain ⟨feeds, values, hfeeds, hexecute, rfl⟩ := trainBatch_eq_ok_iff.1 h
  obtain ⟨-, s, ev, hran⟩ := exists_ran_of_execute (f := p.trainFunction) (by rw [hfunction]; rfl)
    (by rw [hfunction]; rfl) hfeeds hexecute
  -- the losses are the last outputs of the training function
  have houtputs : p.trainFunction.outputs = p.outputs ++ p.losses ++ [] := by
    rw [hfunction, List.append_nil]
    rfl
  exact ⟨s, hran.active, hran.forall₂_fetches hsound houtputs hlosses⟩

/-- An evaluation gives the means of the losses as they are recomputed, and one mean for every
metric. -/
theorem fetches_of_evaluate (hreads : p.Reads e.graph) (hsound : e.Sound)
    (hlosses : p.LossesDeterministic e.graph)
    (h : p.evaluate features targets e = .ok scores e') :
    scores.metrics.length = p.metrics.length ∧ ∃ s values, e.session = some s ∧
      List.Forall₂ (Fetches e s (p.batchBindings features targets)) p.losses values ∧
      List.Forall₂ Value.HasMean values scores.losses := by
  have hfunction := hreads.evaluateFunction
  obtain ⟨feeds, values, hfeeds, hexecute, rfl⟩ := evaluate_eq_ok_iff.1 h
  obtain ⟨-, s, ev, hran⟩ := exists_ran_of_execute (f := p.evaluateFunction)
    (by rw [hfunction]; rfl) (by rw [hfunction]; rfl) hfeeds hexecute
  have hmeans := hran.exists_mean hsound
  -- the losses are the first outputs, the metrics the rest
  have houtputs : p.evaluateFunction.outputs = [] ++ p.losses ++ p.metrics := by
    rw [hfunction]
    rfl
  have hcount : values.length = p.losses.length + p.metrics.length := by
    rw [← hran.values.length_eq, houtputs, List.nil_append, List.length_append]
  refine ⟨?_, s, _, hran.active, hran.forall₂_fetches hsound houtputs hlosses, ?_⟩
  · have hmetrics := Value.forall₂_hasMean fun v (hv : v ∈ values.drop p.losses.length) =>
      hmeans v (List.mem_of_mem_drop hv)
    rw [← hmetrics.length_eq, List.length_drop, hcount, Nat.add_sub_cancel_left]
  · exact Value.forall₂_hasMean fun v hv => hmeans v (List.mem_of_mem_take hv)

end Program

/-! ## Compiled models -/

/-- No dropout that a layer depends on, itself included, drops anything. -/
def Network.DropsNothing (n : Network) (id : LayerId) : Prop :=
  ∀ ls, n.lineage id = .ok ls → ∀ up ∈ ls, ∀ d feeder, up.2 = .dropout d feeder → ¬0 < d.rate

namespace Model

variable {n : Network} {m : Model} {p : Program} {e e' e'' e₀ e₁ : Engine}
  {features targets results : List Value} {scores : Scores}

/-- A compiled model has a loss for every output and a node for every metric. -/
theorem lengths_of_compile (hfed : m.network.WellFed) (hcounts : m.Counts) (hsound : e.Sound)
    (h : m.compile e = .ok p e') :
    p.losses.length = m.outputs.length ∧ p.metrics.length = m.metrics.length := by
  obtain ⟨_, -, -, houtputs⟩ := exists_chronicle hfed hsound h
  obtain ⟨_, _, w, hends, hassemble, -⟩ := exists_assembled h
  obtain ⟨rfl, rfl, pairs, updates, targeted, lost, summed, scored, trained, hassembly⟩ :=
    exists_assembly hassemble
  have hsound₁ := keeping_compileEnds buildable_sound m _ _ _ hsound hends
  obtain ⟨-, hpairs⟩ := hassembly.lengths hsound₁ houtputs.length_eq
  have hlosses := length_of_mapM hassembly.losses
  have hmetrics := length_of_mapM hassembly.metrics
  rw [List.length_zip, hpairs] at hlosses hmetrics
  refine ⟨by rw [hlosses, hcounts.losses, Nat.min_self], ?_⟩
  -- either there are no metrics, or one for every output
  rcases hcounts.metrics with hnone | hall
  · rw [hmetrics, hnone, List.length_nil, Nat.zero_min]
  · rw [hmetrics, hall, Nat.min_self]

/-- Where no output depends on a dropout that drops something, the losses and metrics of a compiled
model reach only deterministic operations. -/
theorem deterministic_of_compile {inputs outputs : List LayerId} {losses : List Loss}
    {descent : Descent} {metrics : List Metric} (hgrown : n.Grown)
    (hcreate : Model.create n inputs outputs losses descent metrics = .ok m)
    (hreachable : e₀.Reachable) (hcompile : m.compile e₀ = .ok p e₁)
    (hdrops : ∀ id ∈ outputs, n.DropsNothing id) : p.LossesDeterministic e₁.graph := by
  obtain ⟨rfl, -, houtputs⟩ := create_eq_ok hcreate
  have hfed := hgrown.wellFed
  obtain ⟨_, _, w, hends, hassemble, -⟩ := exists_assembled hcompile
  obtain ⟨rfl, rfl, pairs, updates, targeted, lost, summed, scored, trained, h⟩ :=
    exists_assembly hassemble
  obtain ⟨hw, -, hfinds⟩ := chronicled_of_compileEnds hfed hreachable.sound hends
  obtain ⟨htargeted, names, -, htargets⟩ :=
    (leads_compileTargets hw.sound _ _).of_eq_ok h.targets
  have hinherits : Graph.Inherits Op.Deterministic fun g => g.ReachesOnly Op.Deterministic :=
    Graph.inherits_reachesOnly fun _ hop => hop
  have hplaceholder : ∀ {g : Graph} {node : Node} {k : GraphNode}, g.Holds node k →
      k.op = .placeholder → g.ReachesOnly Op.Deterministic node.index := by
    intro g node k hholds hop
    exact .leaf hholds.2 (by rw [hop]; exact ⟨⟨rfl, rfl⟩, nofun⟩) (by rw [hop]; rfl)
  -- the outputs reach only deterministic operations, the targets are placeholders
  have hreached : AtAll (fun g => g.ReachesOnly Op.Deterministic) targeted.graph p.outputs := by
    intro node hnode
    obtain ⟨id, hid, b, hb, rfl⟩ := exists_mem_of_forall₂ hfinds.flip hnode
    obtain ⟨ls, hls, -⟩ := houtputs id hid
    refine Graph.ReachesOnly.extend ?_ htargeted.extends
    refine hw.chronicle.inherits hfed (keeping_compileEnds buildable_sourced _ _ _ _
      hreachable.sourced hends) hinherits hb hls (fun _ _ _ _ _ _ => hplaceholder) ?_
    intro up hup d feeder hup' input
    exact ⟨⟨rfl, rfl⟩, by rintro _ ⟨⟩; exact hdrops id hid ls hls up hup d feeder hup'⟩
  obtain ⟨hresults, -⟩ := h.inherits_scored hinherits hreached fun target htarget => by
    obtain ⟨name, -, shape, hholds⟩ := exists_mem_of_forall₂ htargets.flip htarget
    exact hplaceholder hholds rfl
  have hscored : Changes w.engine scored := htargeted.trans h.padded_scored.changes
  exact fun node hnode => Graph.ReachesOnly.extend (hresults node (List.mem_append_left _ hnode))
    (h.changes_of_scored (hscored.sound hw.sound)).extends

/-- A step of training and an evaluation report the same losses. Where no output of a compiled model
depends on a dropout of positive rate, take any engine that it can find itself on later, and a batch
on which both an evaluation and a step give a result there. The evaluation gives one loss for every
output and one number for every metric, the step gives one value for every output, and the losses of
the evaluation are the means of these values, in order: of each value the sum of its elements over
their number. The values are the losses of the batch, recomputed from the variables as they are
before the step. -/
theorem steps_and_evaluations_agree {inputs outputs : List LayerId} {losses : List Loss}
    {descent : Descent} {metrics : List Metric} (hgrown : n.Grown)
    (hcreate : Model.create n inputs outputs losses descent metrics = .ok m)
    (hreachable : e₀.Reachable) (hcompile : m.compile e₀ = .ok p e₁) (hlater : Changes e₁ e)
    (hdrops : ∀ id ∈ outputs, n.DropsNothing id)
    (hevaluate : p.evaluate features targets e = .ok scores e')
    (htrain : p.trainBatch features targets e = .ok results e'') :
    scores.losses.length = outputs.length ∧ scores.metrics.length = metrics.length ∧
    results.length = outputs.length ∧
    List.Forall₂ Value.HasMean results scores.losses ∧
    ∃ s, e.session = some s ∧
      List.Forall₂ (Fetches e s (p.batchBindings features targets)) p.losses results := by
  have hcounts := counts_of_create hcreate
  have hlosses := deterministic_of_compile hgrown hcreate hreachable hcompile hdrops
  obtain ⟨rfl, -⟩ := create_eq_ok hcreate
  obtain ⟨hlossCount, hmetricCount⟩ :=
    lengths_of_compile hgrown.wellFed hcounts hreachable.sound hcompile
  have hsound := hlater.sound (sound_of_compile hreachable.sound hcompile)
  have hreads := (reads_of_compile hreachable.sound hcompile).extend hlater.extends
  have hlosses : p.LossesDeterministic e.graph :=
    fun node hnode => (hlosses node hnode).extend hlater.extends
  obtain ⟨s, hs, hresults⟩ := p.fetches_of_trainBatch hreads hsound hlosses htrain
  obtain ⟨hscored, s', values, hs', hvalues, hmeans⟩ :=
    p.fetches_of_evaluate hreads hsound hlosses hevaluate
  obtain rfl := Option.some.inj (hs.symm.trans hs')
  -- both fetch the same values for the losses
  obtain rfl : results = values :=
    List.right_unique_forall₂' (fun _ _ _ h h' => h.eq h') hresults hvalues
  have hcount : results.length = outputs.length := by rw [← hresults.length_eq, hlossCount]
  exact ⟨by rw [← hmeans.length_eq, hcount], by rw [hscored, hmetricCount], hcount, hmeans, s, hs,
    hresults⟩

/-- An input, and two dense layers on it that repeat the input in every column. -/
def repeatingLayers : List NamedLayer :=
  [⟨"x", .input (.singles (some "x"))⟩,
    ⟨"y", .dense (.ones 2 (some .linear) (some "y") Nat.two_pos) ⟨0, 0⟩⟩,
    ⟨"z", .dense (.ones 3 (some .linear) (some "z") Dense.units_pos_three) ⟨0, 0⟩⟩]

/-- A network with as many of these layers as given. -/
def repeating (size : Nat) : Network := ⟨0, (repeatingLayers.take size).toArray⟩

theorem add_repeating : ∀ k (h : k < repeatingLayers.length),
    (repeating k).add repeatingLayers[k].layer = .ok (⟨0, k⟩, repeating (k + 1))
  | 0, _ => Network.add_eq_ok_iff.2 ⟨nofun, "x", by decide +kernel, rfl, rfl, rfl⟩
  | 1, _ => Network.add_eq_ok_iff.2 ⟨by rintro _ ⟨⟩; rfl, "y", by decide +kernel, rfl, rfl, rfl⟩
  | 2, _ => Network.add_eq_ok_iff.2 ⟨by rintro _ ⟨⟩; rfl, "z", by decide +kernel, rfl, rfl, rfl⟩

theorem grown_repeating : (repeating 3).Grown :=
  .add (.add (.add (.empty 0) (add_repeating 0 (by decide))) (add_repeating 1 (by decide)))
    (add_repeating 2 (by decide))

/-- A model with two outputs, and a metric for each of them. -/
def scoredModel : Model where
  network := repeating 3
  inputs := [⟨0, 0⟩]
  outputs := [⟨0, 1⟩, ⟨0, 2⟩]
  losses := [.meanSquaredError, .meanSquaredError]
  descent := .halves
  metrics := [.meanAbsoluteError, .meanAbsoluteError]

/-- The rows one and two. -/
def twoRows : List Value := [⟨[2, 1], .numbers #[1, 2], rfl⟩]

/-- Targets that are zero for the first output and one for the second. -/
def zeroOneTargets : List Value := [.full [2, 2] 0, .full [2, 3] 1]

/-- The outputs repeat the rows. So the squared errors of the rows are one and four for the first
output, and zero and one for the second, which a step gives and of which an evaluation gives the
means. -/
theorem scored_steps_and_evaluations_agree : ∃ p e scores e' results e'',
    scoredModel.compile (.create 0 0) = .ok p e ∧
    p.evaluate twoRows zeroOneTargets e = .ok scores e' ∧
    p.trainBatch twoRows zeroOneTargets e = .ok results e'' ∧
    results.map (·.toNumbers) = [#[1, 4], #[0, 1]] ∧
    scores = ⟨[2.5, 0.5], [1.5, 0.5]⟩ ∧ List.Forall₂ Value.HasMean results scores.losses := by
  have hcreate : create (repeating 3) [⟨0, 0⟩] [⟨0, 1⟩, ⟨0, 2⟩]
      [.meanSquaredError, .meanSquaredError] scoredModel.descent
      [.meanAbsoluteError, .meanAbsoluteError] = .ok scoredModel := rfl
  obtain ⟨⟨p, e⟩, e₁, hrun, hfacts⟩ := exists_of_answer (c := scoredModel.compileKeeping)
    (e := .create 0 0)
    (f := fun r => decide (
      (answer (r.1.evaluate twoRows zeroOneTargets) r.2).toOption.map
        (fun scores => (scores.losses, scores.metrics)) = some ([2.5, 0.5], [1.5, 0.5]) ∧
      (answer (r.1.trainBatch twoRows zeroOneTargets) r.2).toOption.map
        (fun results => results.map (·.toNumbers)) = some [#[1, 4], #[0, 1]]))
    (b := true) (by decide +kernel)
  obtain ⟨_, _, hcompile, hrun⟩ := bind_eq_ok_iff.1 hrun
  cases hrun
  obtain ⟨hevaluate, htrain⟩ := of_decide_eq_true hfacts
  obtain ⟨⟨losses, metrics⟩, e', hevaluate, hscores⟩ := exists_of_answer hevaluate
  obtain ⟨results, e'', htrain, hresults⟩ := exists_of_answer htrain
  obtain ⟨rfl, rfl⟩ := Prod.mk.inj hscores
  have hdrops : ∀ id ∈ [(⟨0, 1⟩ : LayerId), ⟨0, 2⟩], (repeating 3).DropsNothing id := by
    simp only [List.forall_mem_cons, List.not_mem_nil, false_imp_iff, implies_true, and_true]
    -- the lineage of an output is a dense layer and the input
    constructor <;> rintro ls ⟨⟩ <;>
      refine List.forall_mem_cons.2 ⟨?_, List.forall_mem_singleton.2 ?_⟩ <;> rintro d feeder ⟨⟩
  obtain ⟨-, -, -, hmeans, -⟩ := steps_and_evaluations_agree grown_repeating hcreate
    (.create 0 0) hcompile .refl hdrops hevaluate htrain
  exact ⟨p, e, _, e', results, e'', hcompile, hevaluate, htrain, hresults, rfl, hmeans⟩

end Model
end TensorGraph
