import TensorGraph.Proofs.Evaluation.Locality
import TensorGraph.Proofs.Evaluation.Outcome

/-!
# Settled evaluations

While a schedule is evaluated, the values kept so far are settled: the value of every evaluated slot
is the one that computing it from all the kept values gives, whatever has been evaluated since. The
same holds of the derivatives kept for the losses, and the assignments kept are those of the
evaluated updates in order.

## Main definitions

* `Setting.samples`: whether a node draws random numbers in a phase.
* `Op.updated?`: the variable that an update changes.
* `Stepped`: what evaluating one slot changes.
* `Settled`: the invariant of a run.

## Main results

* `Settled.step`: evaluating one more slot keeps an evaluation settled.
* `settled_of_evaluate`: a run that gives a result leaves a settled evaluation.
-/

namespace TensorGraph

/-- The variable that an update changes. -/
def Op.updated? : Op → Option Nat
  | assign target _ | assignAdd target _ => some target
  | _ => none

/-- The variable that the update in a slot changes. -/
def Graph.updated? (g : Graph) (slot : Nat) : Option Nat :=
  (g.nodes[slot]?).bind fun n => n.op.updated?

/-- Whether a node draws random numbers in the phase of a run. -/
def Setting.samples {S : Type} (env : Setting S) : Op → Bool
  | .random _ _ => true
  | .dropout _ rate _ => env.dropsAt rate
  | _ => false

variable {S : Type} [Scalar S]

namespace Setting

variable {env : Setting S} {slot : Nat} {op : Op} {e e' : Evaluation S}

/-! ## Single steps -/

omit [Scalar S] in
theorem lift_eq_ok_iff {α : Type} {r : Except Failure α} {a : α} :
    (lift r : Evaluating S α) e = .ok a e' ↔ r = .ok a ∧ e' = e := by
  cases r <;> simp [lift, eq_comm]

omit [Scalar S] in
theorem maintains_lift {I : Evaluation S → Prop} {α : Type} (r : Except Failure α) :
    Maintains I (lift r : Evaluating S α) := by
  cases r with
  | ok a => exact .pure a
  | error f => exact .throw f

/-- What a step that draws random numbers changes: the streams, and the noise of its own slot. -/
structure Drawn (env : Setting S) (slot : Nat) (op : Op) (e e' : Evaluation S) : Prop where
  values : e'.values = e.values
  sensitivities : e'.sensitivities = e.sensitivities
  assignments : e'.assignments = e.assignments
  /-- Other slots keep their noise. -/
  noise_of_ne : ∀ s ≠ slot, e'.noise.get? s = e.noise.get? s
  /-- A node that samples nothing is left without noise. -/
  noise_of_not_samples : env.samples op = false → e'.noise.get? slot = e.noise.get? slot
  /-- A node that samples has noise. -/
  isSome_of_samples : env.samples op = true → (e'.noise.get? slot).isSome
  /-- Samples have the shape of their node. -/
  shape_of_random : ∀ {sampler seed t}, op = .random sampler seed → e'.noise.get? slot = some t →
    env.staticShape slot = .ok t.shape

omit [Scalar S] in
private theorem Drawn.refl (h : env.samples op = false) : Drawn env slot op e e where
  values := rfl
  sensitivities := rfl
  assignments := rfl
  noise_of_ne _ _ := rfl
  noise_of_not_samples _ := rfl
  isSome_of_samples hs := by rw [h] at hs; cases hs
  shape_of_random hop := by rw [hop] at h; cases h

theorem drawn_of_drawNoise (h : env.drawNoise slot op e = .ok () e') : Drawn env slot op e e' := by
  cases op
  case random sampler seed =>
    simp only [drawNoise, bind_eq_ok_iff, lift_eq_ok_iff] at h
    obtain ⟨shape, _, ⟨hshape, rfl⟩, _, _, hget, _, _, hstream, hnoise⟩ := h
    cases hget
    cases hstream
    generalize Sampler.draw _ _ _ = draw at hnoise
    obtain ⟨drawn | drawn, stream⟩ := draw
    · -- a sampler that fails ends the run
      cases hnoise
    · cases hnoise
      refine ⟨rfl, rfl, rfl, fun s hs => SlotMap.get?_insert_of_ne _ _ hs, fun hs => ?_,
        fun _ => ?_, fun _ ht => ?_⟩
      · cases hs
      · simp
      · simp only [SlotMap.get?_insert_self, Option.some.injEq] at ht
        rw [hshape, ← ht, Tensor.shape_tabulate]
  case dropout input rate seed =>
    simp only [drawNoise] at h
    split at h
    · next hdrops =>
      simp only [bind_eq_ok_iff] at h
      obtain ⟨_, _, hget, _, _, hget', _, _, hstream, hnoise⟩ := h
      cases hget
      cases hget'
      cases hstream
      cases hnoise
      refine ⟨rfl, rfl, rfl, fun s hs => SlotMap.get?_insert_of_ne _ _ hs, fun hs => ?_,
        fun _ => ?_, fun hop => ?_⟩
      · simp [samples, hdrops] at hs
      · simp
      · cases hop
    · -- nothing is dropped, so nothing is drawn
      next hdrops =>
      cases h
      exact .refl (by simpa [samples] using hdrops)
  all_goals
    cases h
    exact .refl rfl

/-- What differentiating a loss changes: the derivatives kept for the loss, and the records. -/
structure Differentiated (env : Setting S) (op : Op) (e e' : Evaluation S) : Prop where
  values : e'.values = e.values
  noise : e'.noise = e.noise
  assignments : e'.assignments = e.assignments
  /-- Derivatives that are kept stay, and new ones are those of the loss. -/
  sensitivities : ∀ {loss m}, e'.sensitivities.get? loss = some m →
    e.sensitivities.get? loss = some m ∨
      m = env.graph.sensitivities e.known loss ∧ ∃ target, op = .gradient loss target
  /-- No derivatives are dropped. -/
  isSome : ∀ {loss}, (e.sensitivities.get? loss).isSome → (e'.sensitivities.get? loss).isSome
  /-- The loss of a gradient has derivatives. -/
  isSome_of_gradient : ∀ {loss target}, op = .gradient loss target →
    (e'.sensitivities.get? loss).isSome

omit [Scalar S] in
/-- Making a record leaves everything else as it was. -/
private theorem unchanged_of_report {p : Prop} [Decidable p] {r : Record}
    (h : (if p then modify fun e => { e with journal := e.journal.push r } else pure () :
      Evaluating S Unit) e = .ok () e') :
    e'.values = e.values ∧ e'.noise = e.noise ∧ e'.assignments = e.assignments ∧
      e'.sensitivities = e.sensitivities := by
  rw [ite_modify_eq_ok_iff] at h
  split at h <;> simp [h]

theorem differentiated_of_differentiate (h : env.differentiate op e = .ok () e') :
    Differentiated env op e e' := by
  cases op
  case gradient loss target =>
    simp only [differentiate, bind_eq_ok_iff] at h
    obtain ⟨_, _, hget, h⟩ := h
    cases hget
    split at h
    · -- the loss is differentiated for the first time
      simp only [bind_eq_ok_iff] at h
      obtain ⟨_, _, hkeep, _, _, hget, h⟩ := h
      cases hkeep
      cases hget
      obtain ⟨hvalues, hnoise, hassignments, hsensitivities⟩ := unchanged_of_report h
      refine ⟨hvalues, hnoise, hassignments, fun {loss' m} hm => ?_, fun {loss'} hm => ?_,
        fun hop => ?_⟩
      · rw [hsensitivities] at hm
        by_cases hloss : loss' = loss
        · subst hloss
          rw [SlotMap.get?_insert_self, Option.some.injEq] at hm
          exact .inr ⟨hm.symm, target, rfl⟩
        · rw [SlotMap.get?_insert_of_ne _ _ hloss] at hm
          exact .inl hm
      · rw [hsensitivities]
        by_cases hloss : loss' = loss
        · simp [hloss]
        · rwa [SlotMap.get?_insert_of_ne _ _ hloss]
      · cases hop
        simp [hsensitivities]
    · -- the loss has been differentiated for another gradient
      next hkept =>
      simp only [bind_eq_ok_iff] at h
      obtain ⟨_, _, hget, h⟩ := h
      cases hget
      obtain ⟨hvalues, hnoise, hassignments, hsensitivities⟩ := unchanged_of_report h
      refine ⟨hvalues, hnoise, hassignments, fun hm => .inl (hsensitivities ▸ hm),
        fun hm => hsensitivities ▸ hm, fun hop => ?_⟩
      cases hop
      rw [hsensitivities, Option.isSome_iff_ne_none]
      simpa [SlotMap.contains] using hkept
  all_goals
    cases h
    refine ⟨rfl, rfl, rfl, fun h => .inl h, fun h => h, fun hop => ?_⟩
    cases hop

omit [Scalar S] in
/-- The value of an update is kept as an assignment to its variable. -/
theorem recordAssignment_eq (t : Tensor S) :
    recordAssignment t op e = .ok () { e with
      assignments := e.assignments ++ (op.updated?.map fun target => (target, t)).toArray } := by
  cases op <;> simp [recordAssignment, Op.updated?]

end Setting

namespace Evaluation

/-- The value of a slot that has one. -/
theorem known_value_eq {e : Evaluation S} {s : Nat} {t : Tensor S} (h : e.values.get? s = some t) :
    e.known.value s = t := by
  simp [known, h]

end Evaluation

/-- What evaluating one slot changes, when its value is `t`. -/
structure Stepped (env : Setting S) (slot : Nat) (op : Op) (t : Tensor S) (e e' : Evaluation S) :
    Prop where
  /-- The slot has its value. -/
  value_self : e'.values.get? slot = some t
  /-- Other slots keep theirs. -/
  value_of_ne : ∀ s ≠ slot, e'.values.get? s = e.values.get? s
  /-- The value is computed from what is known afterwards. -/
  computed : slot ∉ op.operands → env.compute e'.known slot op = .ok t
  /-- Other slots keep their noise. -/
  noise_of_ne : ∀ s ≠ slot, e'.noise.get? s = e.noise.get? s
  /-- A slot that was without noise has noise when it samples. -/
  noise_iff : e.noise.get? slot = none → ((e'.noise.get? slot).isSome ↔ env.samples op)
  /-- Samples have the shape of their node. -/
  shape_of_random : ∀ {sampler seed u}, op = .random sampler seed → e'.noise.get? slot = some u →
    env.staticShape slot = .ok u.shape
  /-- Derivatives that are kept stay, and new ones are those of the loss of the slot. -/
  sensitivities : ∀ {loss m}, e'.sensitivities.get? loss = some m →
    e.sensitivities.get? loss = some m ∨
      m = env.graph.sensitivities e.known loss ∧ ∃ target, op = .gradient loss target
  /-- No derivatives are dropped. -/
  isSome : ∀ {loss}, (e.sensitivities.get? loss).isSome → (e'.sensitivities.get? loss).isSome
  /-- The loss of a gradient has derivatives. -/
  isSome_of_gradient : ∀ {loss target}, op = .gradient loss target →
    (e'.sensitivities.get? loss).isSome
  /-- The value of an update is the last assignment. -/
  assignments : e'.assignments.toList =
    e.assignments.toList ++ (op.updated?.map fun target => (target, t)).toList

/-- Evaluating a slot draws what its node samples, differentiates its loss, computes its value and
keeps the value, for an update also as an assignment. -/
theorem Setting.stepped_of_evaluateSlot {env : Setting S} {slot : Nat} {n : GraphNode}
    {e e' : Evaluation S} (hn : env.graph.nodes[slot]? = some n)
    (h : env.evaluateSlot slot e = .ok () e') : ∃ t, Stepped env slot n.op t e e' := by
  simp only [evaluateSlot, hn, bind_eq_ok_iff, lift_eq_ok_iff] at h
  -- drawing, differentiating, reading the state, computing, recording and keeping, in this order
  obtain ⟨_, e₁, hdraw, _, e₂, hdiff, _, _, hget, t, _, ⟨ht, rfl⟩, _, e₃, hrecord, hkeep⟩ := h
  cases hget
  rw [recordAssignment_eq] at hrecord
  cases hrecord
  cases hkeep
  have hdrawn := drawn_of_drawNoise hdraw
  have hdiff := differentiated_of_differentiate hdiff
  have hvalues := hdiff.values.trans hdrawn.values
  refine ⟨t, ?_⟩
  constructor
  case value_self => exact SlotMap.get?_insert_self _ _ _
  case value_of_ne =>
    intro s hs
    rw [← hvalues]
    exact SlotMap.get?_insert_of_ne _ _ hs
  case computed =>
    intro hslot
    rw [← ht]
    refine env.compute_congr (fun o ho => ?_) rfl fun _ _ _ => rfl
    have hne : o ≠ slot := fun heq => hslot (heq ▸ ho)
    simp only [Evaluation.known, SlotMap.get?_insert_of_ne _ _ hne]
  case noise_of_ne =>
    intro s hs
    rw [← hdrawn.noise_of_ne s hs, ← hdiff.noise]
  case noise_iff =>
    intro hnone
    simp only [hdiff.noise]
    refine ⟨fun hsome => ?_, hdrawn.isSome_of_samples⟩
    by_contra hsamples
    rw [hdrawn.noise_of_not_samples (by simpa using hsamples), hnone] at hsome
    cases hsome
  case shape_of_random =>
    intro sampler seed u hop hu
    exact hdrawn.shape_of_random hop (by rw [← hu, ← hdiff.noise])
  case sensitivities =>
    intro loss m hm
    rcases hdiff.sensitivities hm with hold | ⟨rfl, target, hop⟩
    · exact .inl (hdrawn.sensitivities ▸ hold)
    · -- nothing is drawn for a gradient
      refine .inr ⟨Graph.sensitivities_congr (fun s _ => ?_) (fun s _ => ?_), target, hop⟩
      · simp only [Evaluation.known, hdrawn.values]
      · by_cases hs : s = slot
        · exact hs ▸ hdrawn.noise_of_not_samples (by rw [hop]; rfl)
        · exact hdrawn.noise_of_ne s hs
  case isSome =>
    intro loss hloss
    exact hdiff.isSome (hdrawn.sensitivities ▸ hloss)
  case isSome_of_gradient => exact hdiff.isSome_of_gradient
  case assignments =>
    simp only [hdiff.assignments, hdrawn.assignments, Array.toList_append]
    cases n.op.updated? <;> rfl

/-! ## Whole runs -/

/-- The invariant of a run that has evaluated the listed slots, the last one in front. -/
structure Settled (env : Setting S) (listed : List Nat) (e : Evaluation S) : Prop where
  /-- The slots with a value are those that have been evaluated. -/
  isSome_iff : ∀ s, (e.values.get? s).isSome ↔ s ∈ listed
  /-- A value is the one that computing it from what is known now gives. -/
  computed : ∀ {s : Nat} {n : GraphNode}, s ∈ listed → env.graph.nodes[s]? = some n →
    env.compute e.known s n.op = .ok (e.known.value s)
  /-- The evaluated slots with noise are those that sample. -/
  noise_iff : ∀ {s : Nat} {n : GraphNode}, s ∈ listed → env.graph.nodes[s]? = some n →
    ((e.noise.get? s).isSome ↔ env.samples n.op)
  /-- No other slot has noise. -/
  mem_of_noise : ∀ {s : Nat}, (e.noise.get? s).isSome → s ∈ listed
  /-- Samples have the shape of their node. -/
  shape_of_random : ∀ {s : Nat} {n : GraphNode} {sampler : Sampler} {seed : Option UInt64}
    {t : Tensor S}, s ∈ listed → env.graph.nodes[s]? = some n → n.op = .random sampler seed →
    e.noise.get? s = some t → env.staticShape s = .ok t.shape
  /-- The derivatives that are kept are those that differentiating now gives. -/
  sensitivities : ∀ {loss : Nat} {m : SlotMap (Tensor S)}, e.sensitivities.get? loss = some m →
    loss ∈ listed ∧ m = env.graph.sensitivities e.known loss
  /-- The losses of evaluated gradients have been differentiated. -/
  isSome_of_gradient : ∀ {s : Nat} {n : GraphNode} {loss target : Nat}, s ∈ listed →
    env.graph.nodes[s]? = some n → n.op = .gradient loss target →
    (e.sensitivities.get? loss).isSome
  /-- The assignments are the values of the evaluated updates in order. -/
  assignments : e.assignments.toList = listed.reverse.filterMap fun s =>
    (env.graph.updated? s).map fun target => (target, e.known.value s)

namespace Settled

variable {env : Setting S} {listed : List Nat} {e e' : Evaluation S}

/-- A run starts settled. -/
theorem start (env : Setting S) (streams : SlotMap Stream) : Settled env [] (.start streams) where
  isSome_iff := by simp [Evaluation.start]
  computed hs := by cases hs
  noise_iff hs := by cases hs
  mem_of_noise := by simp [Evaluation.start]
  shape_of_random hs := by cases hs
  sensitivities := by simp [Evaluation.start]
  isSome_of_gradient hs := by cases hs
  assignments := by simp [Evaluation.start]

/-- What is known of the derivative that an evaluated gradient stands for. -/
theorem known_sensitivity (h : Settled env listed e) {s : Nat} {n : GraphNode} {loss target : Nat}
    (hs : s ∈ listed) (hn : env.graph.nodes[s]? = some n) (hop : n.op = .gradient loss target) :
    e.known.sensitivity loss target = (env.graph.sensitivities e.known loss).get? target := by
  obtain ⟨m, hm⟩ := Option.isSome_iff_exists.1 (h.isSome_of_gradient hs hn hop)
  simp only [Evaluation.known, hm, Option.bind_some]
  rw [(h.sensitivities hm).2]
  rfl

section Step

variable {slot : Nat} {op : Op} {t : Tensor S}

/-- Slots that have been evaluated keep what is known of them. -/
private theorem known_of_mem (hstep : Stepped env slot op t e e') (hfresh : slot ∉ listed)
    {s : Nat} (hs : s ∈ listed) :
    e'.known.value s = e.known.value s ∧ e'.known.noise s = e.known.noise s := by
  have hne : s ≠ slot := fun heq => hfresh (heq ▸ hs)
  refine ⟨?_, hstep.noise_of_ne s hne⟩
  simp only [Evaluation.known, hstep.value_of_ne s hne]

/-- Losses that have been evaluated keep their derivatives. -/
private theorem sensitivities_of_mem (hrest : env.graph.Finished listed)
    (hstep : Stepped env slot op t e e') (hfresh : slot ∉ listed) {loss : Nat}
    (hloss : loss ∈ listed) :
    env.graph.sensitivities e.known loss = env.graph.sensitivities e'.known loss := by
  refine Graph.sensitivities_congr (fun s hs => ?_) (fun s hs => ?_)
  · exact (known_of_mem hstep hfresh (hrest.mem_of_reaches hloss hs)).1.symm
  · exact (known_of_mem hstep hfresh (hrest.mem_of_reaches hloss hs)).2.symm

/-- The derivatives that are kept are those that differentiating now gives. -/
private theorem sensitivities_step (h : Settled env listed e) (hrest : env.graph.Finished listed)
    (hstep : Stepped env slot op t e e') (hfresh : slot ∉ listed) (hoperands : op.operands ⊆ listed)
    {loss : Nat} {m : SlotMap (Tensor S)} (hm : e'.sensitivities.get? loss = some m) :
    loss ∈ listed ∧ m = env.graph.sensitivities e'.known loss := by
  rcases hstep.sensitivities hm with hold | ⟨rfl, target, hop⟩
  · obtain ⟨hloss, rfl⟩ := h.sensitivities hold
    exact ⟨hloss, sensitivities_of_mem hrest hstep hfresh hloss⟩
  · have hloss : loss ∈ listed := hoperands (by simp [hop, Op.operands, Op.inputs])
    exact ⟨hloss, sensitivities_of_mem hrest hstep hfresh hloss⟩

/-- Computing a slot that has been evaluated gives the same value again. -/
private theorem computed_of_mem (h : Settled env listed e) (hrest : env.graph.Finished listed)
    (hstep : Stepped env slot op t e e') (hfresh : slot ∉ listed) (hoperands : op.operands ⊆ listed)
    {s : Nat} {n : GraphNode} (hs : s ∈ listed) (hn : env.graph.nodes[s]? = some n) :
    env.compute e'.known s n.op = .ok (e'.known.value s) := by
  rw [(known_of_mem hstep hfresh hs).1, ← h.computed hs hn]
  -- its operands and, for a gradient, its loss have been evaluated before
  refine env.compute_congr (fun o ho => ?_) (known_of_mem hstep hfresh hs).2
    fun loss target hop => ?_
  · exact (known_of_mem hstep hfresh (hrest.mem_of_mem_operands hs hn ho)).1
  · obtain ⟨m, hm⟩ := Option.isSome_iff_exists.1 (hstep.isSome (h.isSome_of_gradient hs hn hop))
    obtain ⟨hloss, rfl⟩ := sensitivities_step h hrest hstep hfresh hoperands hm
    rw [h.known_sensitivity hs hn hop, sensitivities_of_mem hrest hstep hfresh hloss]
    simp only [Evaluation.known, hm, Option.bind_some]

/-- Evaluating one more slot keeps an evaluation settled. -/
theorem step (h : Settled env listed e) {n : GraphNode} (hn : env.graph.nodes[slot]? = some n)
    (hfinished : env.graph.Finished (slot :: listed)) (hstep : Stepped env slot n.op t e e') :
    Settled env (slot :: listed) e' := by
  cases hfinished with | cons hrest hslot hfresh hoperands =>
  rw [Graph.operands_eq hn] at hoperands
  have hne : ∀ {s}, s ∈ listed → s ≠ slot := fun hs heq => hfresh (heq ▸ hs)
  have hnode : ∀ {k : GraphNode}, env.graph.nodes[slot]? = some k → k = n := fun hk =>
    Option.some.inj (hk.symm.trans hn)
  constructor
  case isSome_iff =>
    intro s
    by_cases hs : s = slot
    · simp [hs, hstep.value_self]
    · rw [hstep.value_of_ne s hs, h.isSome_iff]
      simp [hs]
  case computed =>
    intro s k hs hk
    rcases List.mem_cons.1 hs with rfl | hs
    · -- the slot is no operand of its own, so keeping its value changes nothing it reads
      rw [Evaluation.known_value_eq hstep.value_self, hnode hk]
      exact hstep.computed fun hself => hfresh (hoperands hself)
    · exact computed_of_mem h hrest hstep hfresh hoperands hs hk
  case noise_iff =>
    intro s k hs hk
    rcases List.mem_cons.1 hs with rfl | hs
    · rw [hnode hk]
      refine hstep.noise_iff ?_
      rw [← Option.not_isSome_iff_eq_none]
      exact fun hsome => hfresh (h.mem_of_noise hsome)
    · rw [hstep.noise_of_ne s (hne hs)]
      exact h.noise_iff hs hk
  case mem_of_noise =>
    intro s hs
    by_cases hslot : s = slot
    · exact hslot ▸ List.mem_cons_self
    · rw [hstep.noise_of_ne s hslot] at hs
      exact List.mem_cons_of_mem _ (h.mem_of_noise hs)
  case shape_of_random =>
    intro s k sampler seed u hs hk hop hu
    rcases List.mem_cons.1 hs with rfl | hs
    · exact hstep.shape_of_random (hnode hk ▸ hop) hu
    · exact h.shape_of_random hs hk hop (by rw [← hu, hstep.noise_of_ne s (hne hs)])
  case sensitivities =>
    intro loss m hm
    obtain ⟨hloss, heq⟩ := sensitivities_step h hrest hstep hfresh hoperands hm
    exact ⟨List.mem_cons_of_mem _ hloss, heq⟩
  case isSome_of_gradient =>
    intro s k loss target hs hk hop
    rcases List.mem_cons.1 hs with rfl | hs
    · exact hstep.isSome_of_gradient (hnode hk ▸ hop)
    · exact hstep.isSome (h.isSome_of_gradient hs hk hop)
  case assignments =>
    -- the old assignments have kept their values, and the slot adds its own at the end
    have hupdated : env.graph.updated? slot = n.op.updated? := by simp [Graph.updated?, hn]
    rw [hstep.assignments, h.assignments, List.reverse_cons, List.filterMap_append]
    congr 1
    · refine List.filterMap_congr fun s hs => ?_
      rw [(known_of_mem hstep hfresh (List.mem_reverse.1 hs)).1]
    · rw [List.filterMap_cons, hupdated, Evaluation.known_value_eq hstep.value_self]
      cases n.op.updated? <;> rfl

end Step

end Settled

namespace Setting

variable {env : Setting S} {e e' : Evaluation S}

theorem evaluateAll_append (xs ys : List Nat) :
    env.evaluateAll (xs ++ ys) = (do env.evaluateAll xs; env.evaluateAll ys) := by
  induction xs with
  | nil => rfl
  | cons s xs ih => simp only [List.cons_append, evaluateAll, ih, bind_assoc]

theorem evaluateAll_singleton (slot : Nat) : env.evaluateAll [slot] = env.evaluateSlot slot :=
  bind_pure_unit

/-- The slot in front of a list is evaluated last when the list is read from its end. -/
theorem evaluateAll_cons_reverse {slot : Nat} {listed : List Nat} {e₁ e₂ : Evaluation S}
    (hrest : env.evaluateAll listed.reverse e = .ok () e₁)
    (hslot : env.evaluateSlot slot e₁ = .ok () e₂) :
    env.evaluateAll (slot :: listed).reverse e = .ok () e₂ := by
  rw [List.reverse_cons, evaluateAll_append, bind_eq_ok_iff]
  exact ⟨(), e₁, hrest, by rw [evaluateAll_singleton, hslot]⟩

end Setting

/-- Evaluating slots in an order in which operands come first leaves a settled evaluation. -/
theorem settled_of_evaluateAll {env : Setting S} {listed : List Nat} {streams : SlotMap Stream}
    {e : Evaluation S} (hfinished : env.graph.Finished listed)
    (h : env.evaluateAll listed.reverse (.start streams) = .ok () e) : Settled env listed e := by
  -- the list is read from its end, so the slot in front has been evaluated last
  induction hfinished generalizing e with
  | nil =>
    cases h
    exact .start env streams
  | @cons slot listed rest inside fresh operands ih =>
    rw [List.reverse_cons, Setting.evaluateAll_append, bind_eq_ok_iff] at h
    obtain ⟨_, e₁, hrest, hlast⟩ := h
    simp only [Setting.evaluateAll, bind_eq_ok_iff] at hlast
    obtain ⟨_, e₂, hslot, hpure⟩ := hlast
    cases hpure
    obtain ⟨n, hn⟩ := Graph.exists_node_of_lt inside
    obtain ⟨t, hstep⟩ := Setting.stepped_of_evaluateSlot hn hslot
    exact (ih hrest).step hn (.cons rest inside fresh operands) hstep

/-- A run that gives a result leaves a settled evaluation. -/
theorem settled_of_evaluate {env : Setting S} {targets : List Nat} {streams : SlotMap Stream}
    {e : Evaluation S} (hg : env.graph.Typed) (htargets : ∀ t ∈ targets, t < env.graph.size)
    (h : env.evaluate targets (.start streams) = .ok () e) :
    Settled env (env.graph.schedule targets).reverse e := by
  have hall : env.evaluateAll (env.graph.schedule targets).reverse.reverse (.start streams) =
      .ok () e := by rwa [List.reverse_reverse]
  exact settled_of_evaluateAll (hg.finished_schedule htargets) hall

end TensorGraph
