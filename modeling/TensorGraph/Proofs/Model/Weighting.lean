import TensorGraph.Proofs.Derivative.Reading
import TensorGraph.Proofs.Learning.Weighting
import TensorGraph.Proofs.Model.Descending
import TensorGraph.Proofs.Model.Stopping

/-!
# What losses weigh in a step

A step goes down along the derivative of the summed objective. When a batch makes a step, its
evaluation on exact numbers gives a result, too, and there the summed objective is the sum of the
summed losses, each taken as often as stretching repeats it. The same holds of the slopes, and so of
the derivatives. Losses of one shape all weigh one. Losses of different shapes do not, and what they
weigh can depend on the number of rows.

## Main definitions

* `Program.WeighsLosses`: the summed objective of an evaluation, as a weighted sum.

## Main results

* `Program.WeighsLosses.total_eq_sum`: losses with the shape of the objective all weigh one.
* `Program.exists_conforming_of_trainBatch`: the evaluation of a batch in another setting.
* `Model.objective_weighs_losses`: what every loss weighs.
* `Model.objective_not_sum_of_losses`: squared errors that weigh three.
-/

open DualNumber TrivSqZeroExt

namespace TensorGraph

open Engine

variable {S K : Type} [Scalar S] [Field K]

theorem Scalar.additive_snd [LinearOrder K] [Elementary K] : Additive (snd : K[ε] → K) :=
  ⟨rfl, fun _ _ => rfl⟩

namespace Program

variable {p : Program} {e e' : Engine} {s : Session} {features targets results : List Value}
  {env : Setting S}

/-- The slots that a batch asks for. -/
def asked (p : Program) : List Nat :=
  (p.trainFunction.outputs ++ p.trainFunction.updates).map (·.index)

/-- In an evaluation the objective is the sum of the losses, each as often as stretching repeats it.
The sums are those of all entries, under a map of numbers. -/
def WeighsLosses (p : Program) (ev : Evaluation S) (φ : S → K) : Prop :=
  ∃ losses total, List.Forall₂ (fun (n : Node) t => ev.values.get? n.index = some t)
      p.losses losses ∧
    ev.values.get? p.objective.index = some total ∧
    (∀ t ∈ losses, t.shape.Stretches total.shape) ∧
    φ total.total = (losses.map fun t => (t.shape.repeats total.shape : K) * φ t.total).sum

theorem weighsLosses_of_settled {φ : S → K} {listed : List Nat} {ev : Evaluation S}
    (h : Settled env listed ev) (hg : env.graph.Typed) (hfits : env.Fits)
    (hlisted : env.graph.Finished listed) (hφ : Scalar.Additive φ)
    (hsum : env.graph.AddsUp (p.losses.map (·.index)) p.objective.index)
    (hlosses : ∀ n ∈ p.losses, n.index ∈ listed) (hobjective : p.objective.index ∈ listed) :
    p.WeighsLosses ev φ := by
  obtain ⟨hstretches, htotal⟩ := h.total_eq hg hfits hlisted hφ hsum hobjective
  rw [List.map_map] at htotal
  refine ⟨p.losses.map fun n => ev.known.value n.index, _, ?_, h.values_eq hobjective, ?_, ?_⟩
  · rw [List.forall₂_map_right_iff, List.forall₂_same]
    exact fun n hn => h.values_eq (hlosses n hn)
  · rw [List.forall_mem_map]
    exact fun n hn => hstretches _ (List.mem_map_of_mem hn)
  · rw [List.map_map]
    exact htotal

/-- Losses with the shape of the objective all weigh one. -/
theorem WeighsLosses.total_eq_sum {ev : Evaluation S} {φ : S → K} {total : Tensor S}
    (h : p.WeighsLosses ev φ) (htotal : ev.values.get? p.objective.index = some total)
    (hshapes : ∀ n ∈ p.losses, ∀ t, ev.values.get? n.index = some t → t.shape = total.shape) :
    ∃ losses, List.Forall₂ (fun (n : Node) t => ev.values.get? n.index = some t) p.losses losses ∧
      φ total.total = (losses.map fun t => φ t.total).sum := by
  obtain ⟨losses, total', hvalues, hvalue, -, hsum⟩ := h
  obtain rfl : total = total' := Option.some.inj (htotal.symm.trans hvalue)
  refine ⟨losses, hvalues, hsum.trans (congrArg List.sum (List.map_congr_left fun t ht => ?_))⟩
  obtain ⟨i, hi⟩ := List.mem_iff_getElem?.1 ht
  obtain ⟨n, hn, hloss⟩ := exists_of_forall₂ hvalues.flip hi
  rw [hshapes n (List.mem_of_getElem? hn) t hloss, Shape.repeats_self, Nat.cast_one, one_mul]

/-- What a batch asks for is in the graph. -/
theorem Reads.lt_size (h : p.Reads e.graph) : ∀ t ∈ p.asked, t < e.graph.size :=
  List.forall_mem_map.2 fun n hn => (h.steady n hn).lt_size

/-- When a batch makes a step, its evaluation in any conforming setting gives a result, too, and the
values have the shapes that they have in the step. -/
theorem exists_conforming_of_trainBatch (hreads : p.Reads e.graph) (hsound : e.Sound)
    (htrain : p.trainBatch features targets e = .ok results e') (hs : e.session = some s)
    (hconforms : (p.batchSetting e s features targets).Conforms env) (streams : SlotMap Stream) :
    ∃ ev, env.evaluate p.asked (.start streams) = .ok () ev ∧
      Settled env (env.graph.schedule p.asked).reverse ev ∧
      ∀ slot t, ev.values.get? slot = some t →
        ((p.batchSetting e s features targets).evaluated? p.asked s.streams slot).map (·.shape) =
          some t.shape := by
  obtain ⟨s', ev₀, values, hran⟩ := hreads.exists_ran htrain
  obtain rfl : s = s' := Option.some.inj (hs.symm.trans hran.active)
  have hstep := hran.evaluated
  rw [hreads.phase_eq] at hstep
  obtain ⟨ev, hev, hshapes⟩ :=
    hran.exists_conforming hsound hreads.steady (by rw [hreads.phase_eq]; exact hconforms) streams
  have hgraph : env.graph = e.graph := hconforms.graph
  have hsettled : Settled env (env.graph.schedule p.asked).reverse ev :=
    settled_of_evaluate (hgraph ▸ hsound.typed) (hgraph ▸ hreads.lt_size) hev
  refine ⟨ev, hev, hsettled, fun slot t ht => ?_⟩
  have hslot := (hsettled.isSome_iff slot).1 (ht ▸ rfl)
  rw [hgraph] at hslot
  -- the slot has a value in the step as well, of the same shape
  have hvalue := (hran.settled hsound).values_eq hslot
  have hshape := hshapes slot (List.mem_reverse.1 hslot)
  rw [Evaluation.known_value_eq ht] at hshape
  have hfound := (Setting.evaluated?_eq hstep slot).trans hvalue
  exact (congrArg (Option.map (·.shape)) hfound).trans (congrArg some hshape.symm)

/-- What a batch reads has the shapes that the nodes declare. -/
theorem fits_of_trainBatch (hreads : p.Reads e.graph) (hsound : e.Sound)
    (htrain : p.trainBatch features targets e = .ok results e') (hs : e.session = some s) :
    (p.batchSetting e s features targets).Fits := by
  obtain ⟨_, _, _, hran⟩ := hreads.exists_ran htrain
  exact hsound.fits hs hran.checked

end Program

namespace Model

variable {m : Model} {p : Program} {e₀ e₁ e e' : Engine} {s : Session}
  {features targets results : List Value} {env : Setting S}

/-- When a batch makes a step on an engine that a compiled model can find itself on, its evaluation
in any conforming setting gives a result in which the losses weigh as often as they are repeated. -/
theorem exists_weighing (hsound : e₀.Sound) (hcompile : m.compile e₀ = .ok p e₁)
    (hchanges : Changes e₁ e) (htrain : p.trainBatch features targets e = .ok results e')
    (hs : e.session = some s) (hconforms : (p.batchSetting e s features targets).Conforms env)
    {φ : S → K} (hφ : Scalar.Additive φ) (streams : SlotMap Stream) :
    ∃ ev, env.evaluate p.asked (.start streams) = .ok () ev ∧
      (e₁.trainableWeights ≠ [] → p.WeighsLosses ev φ) := by
  have hreads := (reads_of_compile hsound hcompile).extend hchanges.extends
  have hsound := hchanges.sound (sound_of_compile hsound hcompile)
  obtain ⟨built, updates, trained, hcompiled⟩ := exists_compiled hcompile
  obtain ⟨hsum, hneeds⟩ := hcompiled.needs_objective
  obtain ⟨ev, hev, hsettled, -⟩ :=
    p.exists_conforming_of_trainBatch hreads hsound htrain hs hconforms streams
  refine ⟨ev, hev, fun hweights => ?_⟩
  have hgraph : env.graph = e.graph := hconforms.graph
  have hg : env.graph.Typed := hgraph ▸ hsound.typed
  have hasked : ∀ t ∈ p.asked, t < env.graph.size := hgraph ▸ hreads.lt_size
  -- whatever a fetched node or an update needs is evaluated
  have hlisted : ∀ n ∈ p.trainFunction.outputs ++ p.trainFunction.updates, ∀ slot,
      env.graph.Reaches n.index slot → slot ∈ (env.graph.schedule p.asked).reverse := by
    intro n hn slot hreaches
    rw [List.mem_reverse, hg.mem_schedule_iff hasked]
    exact ⟨n.index, List.mem_map_of_mem hn, hreaches⟩
  refine p.weighsLosses_of_settled hsettled hg
    (hconforms.fits (p.fits_of_trainBatch hreads hsound htrain hs)) (hg.finished_schedule hasked) hφ
    ?_ ?_ ?_
  · rw [hgraph]
    exact hsum.mono fun _ _ => hchanges.extends.op?
  · -- the losses are fetched
    obtain ⟨_, -, hfunction⟩ := hreads.trainFunction
    refine fun n hn => hlisted n (List.mem_append_left _ ?_) _ .refl
    rw [hfunction]
    exact List.mem_append_right _ hn
  · obtain ⟨u, hu, hreaches⟩ := hneeds hweights
    refine hlisted u (List.mem_append_right _ hu) _ ?_
    rw [hgraph]
    exact hreaches.extend hchanges.extends

/-- Whenever a batch makes a step, its evaluation on exact numbers gives a result, too. If there are
weights to train, the entries of the objective add up to those of the losses, each loss taken as
often as stretching repeats it. The same holds of the slopes when a variable moves in a direction,
so this is also what every loss weighs in the derivative that a step follows. -/
theorem objective_weighs_losses [LinearOrder K] [Elementary K] {env : Setting K}
    (hsound : e₀.Sound) (hcompile : m.compile e₀ = .ok p e₁) (hchanges : Changes e₁ e)
    (htrain : p.trainBatch features targets e = .ok results e') (hs : e.session = some s)
    (hconforms : (p.batchSetting e s features targets).Conforms env) (streams : SlotMap Stream) :
    (∃ ev, env.evaluate p.asked (.start streams) = .ok () ev ∧
      (e₁.trainableWeights ≠ [] → p.WeighsLosses ev (id : K → K))) ∧
    ∀ (target : Nat) (d : Tensor K), ∃ ev,
      (env.move target d).evaluate p.asked (.start streams) = .ok () ev ∧
      (e₁.trainableWeights ≠ [] → p.WeighsLosses ev (snd : K[ε] → K)) := by
  constructor
  · exact exists_weighing hsound hcompile hchanges htrain hs hconforms Scalar.additive_id streams
  · exact fun target d => exists_weighing hsound hcompile hchanges htrain hs
      (hconforms.trans (env.conforms_move target d)) Scalar.additive_snd streams

/-! ## Losses of different shapes -/

/-- Three rows for `mixed`. -/
def threeRows : List Value := [.full [3, 1] 1]

/-- Targets for which the squared error of every row is one. -/
def threeTargets : List Value := [.full [3, 1] 0, .full [3, 3] 1]

/-- A step on three rows has the losses in the slots 19 and 25 and their sum in the slot 26. The
squared errors have one number for every row and add up to three, the cross entropies have three
numbers for every row. -/
theorem mixed_steps_on_three_rows :
    ∃ p e s results e', mixed.compile (.create 0 0) = .ok p e ∧ e.session = some s ∧
      p.trainBatch threeRows threeTargets e = .ok results e' ∧ e.trainableWeights ≠ [] ∧
      p.losses = [⟨0, 19⟩, ⟨0, 25⟩] ∧ p.objective = ⟨0, 26⟩ ∧
      [19, 25, 26].map (fun slot => ((p.batchSetting e s threeRows threeTargets).evaluated? p.asked
        s.streams slot).map (·.shape)) = [some [3], some [3, 3], some [3, 3]] ∧
      (((p.batchSetting e s threeRows threeTargets).exactly ℚ).evaluated? [19] .empty 19).map
        (·.total) = some 3 ∧
      (e.graph.schedule [19]).all fun slot => (e.graph.nodes[slot]?).all (·.op.isPolynomial) := by
  obtain ⟨⟨p, e⟩, e₁, hrun, hfacts⟩ := exists_of_answer (c := mixed.compileKeeping)
    (e := .create 0 0)
    (f := fun r => decide (gives (r.1.trainBatch threeRows threeTargets) r.2 ∧
      r.2.trainableWeights ≠ [] ∧ r.1.losses = [⟨0, 19⟩, ⟨0, 25⟩] ∧ r.1.objective = ⟨0, 26⟩ ∧
      (r.2.session.map fun s => [19, 25, 26].map fun slot =>
        ((r.1.batchSetting r.2 s threeRows threeTargets).evaluated? r.1.asked s.streams slot).map
          (·.shape)) = some [some [3], some [3, 3], some [3, 3]] ∧
      (r.2.session.bind fun s =>
        (((r.1.batchSetting r.2 s threeRows threeTargets).exactly ℚ).evaluated? [19] .empty 19).map
          (·.total)) = some 3 ∧
      (r.2.graph.schedule [19]).all fun slot => (r.2.graph.nodes[slot]?).all (·.op.isPolynomial)))
    (b := true) (by decide +kernel)
  obtain ⟨hgives, hweights, hlosses, hobjective, hshapes, htotal, hpolynomial⟩ :=
    of_decide_eq_true hfacts
  obtain ⟨_, _, hcompile, hrun⟩ := bind_eq_ok_iff.1 hrun
  cases hrun
  obtain ⟨results, e', htrain⟩ := exists_of_gives hgives
  obtain ⟨s, hs, hshapes⟩ := Option.map_eq_some_iff.1 hshapes
  rw [hs, Option.bind_some] at htotal
  exact ⟨p, e, s, results, e', hcompile, hs, htrain, hweights, hlosses, hobjective, hshapes, htotal,
    hpolynomial⟩

/-- On the real numbers the squared errors of the three rows add up to three, and they are taken
three times. -/
theorem mixed_repeats_squared_errors :
    ∃ p e s results e' ev t₁ t₂ total, mixed.compile (.create 0 0) = .ok p e ∧
      e.session = some s ∧ p.trainBatch threeRows threeTargets e = .ok results e' ∧
      ((p.batchSetting e s threeRows threeTargets).exactly ℝ).evaluate p.asked (.start s.streams) =
        .ok () ev ∧
      p.losses = [⟨0, 19⟩, ⟨0, 25⟩] ∧ p.objective = ⟨0, 26⟩ ∧ ev.values.get? 19 = some t₁ ∧
      ev.values.get? 25 = some t₂ ∧ ev.values.get? 26 = some total ∧ t₁.total = 3 ∧
      total.total = 3 * t₁.total + t₂.total := by
  obtain ⟨p, e, s, results, e', hcompile, hs, htrain, hweights, hlosses, hobjective, hshapes,
    htotal, hpolynomial⟩ := mixed_steps_on_three_rows
  have hsound : e.Sound := sound_of_compile (sound_create 0 0) hcompile
  have hreads := reads_of_compile (sound_create 0 0) hcompile
  have hconforms := (p.batchSetting e s threeRows threeTargets).conforms_exactly (K := ℝ)
  obtain ⟨ev, hev, hsettled, hshape⟩ :=
    p.exists_conforming_of_trainBatch hreads hsound htrain hs hconforms s.streams
  obtain ⟨ev', hev', hweighs⟩ := exists_weighing (sound_create 0 0) hcompile .refl htrain hs
    hconforms Scalar.additive_id s.streams
  obtain rfl : ev = ev' := (EStateM.Result.ok.inj (hev.symm.trans hev')).2
  obtain ⟨losses, total, hvalues, hvalue, -, hsum⟩ := hweighs hweights
  rw [hlosses] at hvalues
  obtain _ | ⟨hfirst, hvalues⟩ := hvalues
  obtain _ | ⟨hsecond, hvalues⟩ := hvalues
  obtain _ | _ := hvalues
  rw [hobjective] at hvalue
  simp only [List.map_cons, List.map_nil, hshape _ _ hfirst, hshape _ _ hsecond, hshape _ _ hvalue,
    List.cons.injEq, Option.some.injEq, and_true] at hshapes
  obtain ⟨h₁, h₂, h⟩ := hshapes
  have hrepeats : Shape.repeats [3] [3, 3] = 3 ∧ Shape.repeats [3, 3] [3, 3] = 1 := by decide
  simp only [List.map_cons, List.map_nil, List.sum_cons, List.sum_nil, h₁, h₂, h, hrepeats] at hsum
  -- the squared errors are a polynomial, so their sum is that of the rational numbers
  have hthree := Setting.total_exactly hsound.typed hsettled
    (hsound.typed.finished_schedule hreads.lt_size) ((hsettled.isSome_iff _).1 (hfirst ▸ rfl))
    (List.all_eq_true.1 hpolynomial) htotal
  rw [Evaluation.known_value_eq hfirst] at hthree
  refine ⟨p, e, s, results, e', ev, _, _, total, hcompile, hs, htrain, hev, hlosses, hobjective,
    hfirst, hsecond, hvalue, ?_, ?_⟩
  · exact hthree.trans (by norm_num)
  · simpa using hsum

/-- The losses of `mixed` weigh as often as they are repeated. -/
theorem mixed_losses_weigh :
    ∃ p e s results e', mixed.compile (.create 0 0) = .ok p e ∧ e.session = some s ∧
      p.trainBatch threeRows threeTargets e = .ok results e' ∧
      (∃ ev, ((p.batchSetting e s threeRows threeTargets).exactly ℝ).evaluate p.asked
          (.start s.streams) = .ok () ev ∧ p.WeighsLosses ev (id : ℝ → ℝ)) ∧
      ∀ (target : Nat) (d : Tensor ℝ), ∃ ev,
        (((p.batchSetting e s threeRows threeTargets).exactly ℝ).move target d).evaluate p.asked
          (.start s.streams) = .ok () ev ∧ p.WeighsLosses ev (snd : ℝ[ε] → ℝ) := by
  obtain ⟨p, e, s, results, e', hcompile, hs, htrain, hweights, -⟩ := mixed_steps_on_three_rows
  obtain ⟨⟨ev, hev, hweighs⟩, hslopes⟩ := objective_weighs_losses (sound_create 0 0) hcompile .refl
    htrain hs (Setting.conforms_exactly (K := ℝ) _) s.streams
  refine ⟨p, e, s, results, e', hcompile, hs, htrain, ⟨ev, hev, hweighs hweights⟩, ?_⟩
  intro target d
  obtain ⟨ev', hev', hweighs'⟩ := hslopes target d
  exact ⟨ev', hev', hweighs' hweights⟩

/-- The entries of the objective need not add up to those of all losses, each taken once. -/
theorem objective_not_sum_of_losses :
    ¬∀ (m : Model) (p : Program) (e e' : Engine) (s : Session)
      (features targets results : List Value) (ev : Evaluation ℝ),
      create m.network m.inputs m.outputs m.losses m.descent m.metrics = .ok m →
      m.compile (.create 0 0) = .ok p e → e.session = some s →
      p.trainBatch features targets e = .ok results e' →
      ((p.batchSetting e s features targets).exactly ℝ).evaluate p.asked (.start s.streams) =
        .ok () ev →
      ∃ losses total, List.Forall₂ (fun (n : Node) t => ev.values.get? n.index = some t)
          p.losses losses ∧ ev.values.get? p.objective.index = some total ∧
        total.total = (losses.map (·.total)).sum := by
  intro hall
  obtain ⟨p, e, s, results, e', ev, t₁, t₂, total, hcompile, hs, htrain, hev, hlosses, hobjective,
    hfirst, hsecond, hvalue, hthree, htotal⟩ := mixed_repeats_squared_errors
  obtain ⟨losses, total', hvalues, hvalue', hsum⟩ :=
    hall mixed p e e' s _ _ results ev rfl hcompile hs htrain hev
  rw [hlosses] at hvalues
  obtain _ | ⟨hfirst', hvalues⟩ := hvalues
  obtain _ | ⟨hsecond', hvalues⟩ := hvalues
  obtain _ | _ := hvalues
  rw [hobjective] at hvalue'
  obtain rfl := Option.some.inj (hfirst.symm.trans hfirst')
  obtain rfl := Option.some.inj (hsecond.symm.trans hsecond')
  obtain rfl := Option.some.inj (hvalue.symm.trans hvalue')
  -- three is not nine
  simp only [List.map_cons, List.map_nil, List.sum_cons, List.sum_nil] at hsum
  rw [hthree] at htotal hsum
  linarith

end Model
end TensorGraph
