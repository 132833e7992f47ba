import TensorGraph.Proofs.Evaluation.Locality
import TensorGraph.Proofs.Evaluation.Outcome
import TensorGraph.Proofs.Graph.Undropping

/-!
# Evaluating without dropout

A dropout that is not active hands its operand on and hands sensitivities back unchanged, as the
identity does, and draws nothing. So an evaluation that meets only such dropouts takes the same
steps on the graph without dropout: it computes the same values and derivatives, makes the same
assignments and draws the same samples, or it fails for the same reason.

## Main definitions

* `Failure.Match`: results of the same computation on two graphs.
* `Evaluation.Undropped`: working states that have come to the same, before any dropout has drawn.

## Main results

* `Graph.sensitivities_withoutDropout`: the derivatives of a loss.
* `Setting.compute_withoutDropout`: the value of a node.
* `Evaluation.Undropped.evaluate`: a whole evaluation.
-/

namespace TensorGraph

/-! ## Results that match -/

/-- The same value, or failures that differ in labels at most. -/
inductive Failure.Match {α : Type} (g g' : Graph) : Except Failure α → Except Failure α → Prop
  | ok (a : α) : Match g g' (.ok a) (.ok a)
  | error {f f' : Failure} (alike : f.Alike g g' f') : Match g g' (.error f) (.error f')

namespace Failure.Match

variable {g g' : Graph} {α β : Type}

theorem refl (r : Except Failure α) : Match g g' r r := by
  cases r with
  | ok a => exact .ok a
  | error f => exact .error (.same f)

/-- Results that match are used alike by programs that match. -/
theorem bind {r r' : Except Failure α} {k k' : α → Except Failure β} (h : Match g g' r r')
    (hk : ∀ a, Match g g' (k a) (k' a)) : Match g g' (r >>= k) (r' >>= k') := by
  cases h with
  | ok a => exact hk a
  | error alike => exact .error alike

/-- Results that match do so under every function. -/
theorem map {r r' : Except Failure α} (h : Match g g' r r') (k : α → β) :
    Match g g' (r.map k) (r'.map k) := by
  cases h with
  | ok a => exact .ok (k a)
  | error alike => exact .error alike

end Failure.Match

variable {S : Type} [Scalar S]

/-! ## Sensitivities -/

section Sweep

variable {known : Known S}

/-- Without factors a dropout hands on what the identity does. -/
theorem Op.pullback_withoutDropout {op : Op} {slot : Nat} {t : Tensor S}
    (hnoise : op.rate?.isSome → known.noise slot = none) :
    op.withoutDropout.pullback known slot t = op.pullback known slot t := by
  cases op with
  | dropout input rate seed => rw [withoutDropout, pullback, pullback, hnoise rfl, UnaryOp.pullback]
  | _ => rfl

variable {g : Graph}

/-- A dropout without noise passes sensitivities on as the identity does. -/
theorem Graph.sweep_withoutDropout
    (hnoise : ∀ slot, (g.rate? slot).isSome → known.noise slot = none) (bound : Nat)
    (reached : SlotMap (Tensor S)) :
    g.withoutDropout.sweep known bound reached = g.sweep known bound reached := by
  induction bound generalizing reached with
  | zero => rfl
  | succ slot ih =>
    rw [sweep, sweep, getElem?_withoutDropout]
    cases reached.get? slot with
    | none => exact ih reached
    | some t =>
      cases hn : g.nodes[slot]? with
      | none => exact ih reached
      | some n =>
        -- the node hands the same on, and the slots below go on with it
        have hpullback : n.op.withoutDropout.pullback known slot t = n.op.pullback known slot t :=
          Op.pullback_withoutDropout fun hrate => hnoise slot (by rwa [rate?_eq hn])
        dsimp only [Option.map_some, GraphNode.withoutDropout]
        rw [hpullback]
        exact ih _

/-- While no dropout has drawn, a loss has the same derivatives. -/
theorem Graph.sensitivities_withoutDropout
    (hnoise : ∀ slot, (g.rate? slot).isSome → known.noise slot = none) (loss : Nat) :
    g.withoutDropout.sensitivities known loss = g.sensitivities known loss :=
  sweep_withoutDropout hnoise _ _

end Sweep

/-! ## Values -/

namespace Setting

/-- The setting with the graph without dropout. -/
def withoutDropout (env : Setting S) : Setting S := { env with graph := env.graph.withoutDropout }

variable {env : Setting S} {known : Known S} {slot : Nat} {op : Op}

omit [Scalar S] in
@[simp] theorem feeds_withoutDropout : env.withoutDropout.feeds = env.feeds := rfl

omit [Scalar S] in
@[simp] theorem store_withoutDropout : env.withoutDropout.store = env.store := rfl

omit [Scalar S] in
/-- Without dropout a slot has the same static shape. -/
theorem match_staticShape (slot : Nat) :
    Failure.Match env.graph env.graph.withoutDropout (env.staticShape slot)
      (env.withoutDropout.staticShape slot) := by
  have hshape : (env.withoutDropout.graph.nodes[slot]?).map (·.shape) =
      (env.graph.nodes[slot]?).map (·.shape) := Graph.shape_withoutDropout slot
  unfold staticShape
  dsimp only
  rw [hshape]
  split
  · exact .ok _
  · exact .error (.openShape slot _)

omit [Scalar S] in
/-- Without dropout tensors can be broadcast as before. -/
theorem match_commonShape (slot : Nat) (a b : Tensor S) :
    Failure.Match env.graph env.graph.withoutDropout (env.commonShape slot a b)
      (env.withoutDropout.commonShape slot a b) := by
  unfold commonShape
  split
  · exact .ok _
  · exact .error (.shapeMismatch slot _ _)

/-- Without factors a dropout has the value of the identity, and any other node keeps its value. -/
theorem compute_withoutDropout (hnoise : op.rate?.isSome → known.noise slot = none) :
    Failure.Match env.graph env.graph.withoutDropout (env.compute known slot op)
      (env.withoutDropout.compute known slot op.withoutDropout) := by
  -- only a dropout becomes another operation; for the rest, the failures name the same slots in the
  -- two graphs
  cases op with
  | placeholder =>
    simp only [Op.withoutDropout, compute, feeds_withoutDropout]
    split
    · exact .ok _
    · exact .error (.unresolvedInput slot)
  | «variable» trainable init =>
    simp only [Op.withoutDropout, compute, store_withoutDropout]
    split
    · exact (match_staticShape slot).map _
    · exact .error (.noVariable slot)
  | random sampler seed => exact (match_staticShape slot).bind fun _ => .ok _
  | fill x => exact (match_staticShape slot).map _
  | dot left right =>
    simp only [Op.withoutDropout, compute, product]
    split
    · exact .ok _
    · exact .error (.shapeMismatch slot _ _)
  | biasAdd input bias =>
    simp only [Op.withoutDropout, compute, biased]
    split
    · exact .ok _
    · exact .error (.shapeMismatch slot _ _)
  | binary op a b => exact (match_commonShape slot _ _).bind fun _ => .ok _
  | dropout input rate seed =>
    simp only [Op.withoutDropout, compute, hnoise rfl, UnaryOp.apply]
    exact .ok _
  | sigmoidCrossEntropy targets logits =>
    exact (match_commonShape slot _ _).bind fun _ => .ok _
  | softmaxCrossEntropy logits labels =>
    simp only [Op.withoutDropout, compute]
    split
    · exact .ok _
    · exact .error (.shapeMismatch slot _ _)
  | assign target value => exact (match_staticShape target).bind fun _ => .refl _
  | constant | unary | clip | cast | mean | reduceSum | gradient | assignAdd => exact .refl _

end Setting

/-! ## The working state -/

/-- Working states on a graph and on the one without dropout that differ in records only. No dropout
has drawn in this evaluation, and the streams of dropouts are where they were at its start. -/
structure Evaluation.Undropped (g : Graph) (streams : SlotMap Stream) (ev ev' : Evaluation S) :
    Prop where
  same : ∃ records, ev' = { ev with journal := records }
  noise : ∀ slot, (g.rate? slot).isSome → ev.noise.get? slot = none
  stream : ∀ slot, (g.rate? slot).isSome → ev.streams.get? slot = streams.get? slot

namespace Evaluation.Undropped

variable {env : Setting S} {streams : SlotMap Stream} {ev ev' : Evaluation S} {slot : Nat} {op : Op}

omit [Scalar S] in
/-- No dropout has drawn at the start. -/
theorem start (g : Graph) (streams : SlotMap Stream) :
    Undropped g streams (.start streams : Evaluation S) (.start streams) :=
  ⟨⟨#[], rfl⟩, fun slot _ => SlotMap.get?_empty slot, fun _ _ => rfl⟩

/-- Outcomes of the same step on both graphs. -/
abbrev Outcomes {α : Type} (g : Graph) (streams : SlotMap Stream) :
    EStateM.Result Failure (Evaluation S) α → EStateM.Result Failure (Evaluation S) α → Prop :=
  Accord (·.Alike g g.withoutDropout ·) (Undropped g streams) Eq

omit [Scalar S] in
/-- Results that match have the same consequences. -/
theorem lift_bind {α β : Type} {g : Graph} {r r' : Except Failure α}
    {k k' : α → Evaluating S β} (h : Undropped g streams ev ev')
    (hr : Failure.Match g g.withoutDropout r r')
    (hk : ∀ a, Outcomes g streams (k a ev) (k' a ev')) :
    Outcomes g streams ((Setting.lift r >>= k) ev) ((Setting.lift r' >>= k') ev') := by
  cases hr with
  | ok a => exact hk a
  | error alike => exact .error alike h

omit [Scalar S] in
/-- A slot that holds no dropout may have drawn. -/
theorem keepStream {g : Graph} (h : Undropped g streams ev ev') (hslot : g.rate? slot = none)
    (s : Stream) :
    Outcomes g streams (Setting.keepStream slot s ev) (Setting.keepStream slot s ev') := by
  obtain ⟨⟨records, rfl⟩, noise, stream⟩ := h
  refine .ok rfl ⟨⟨records, rfl⟩, noise, fun other hother => ?_⟩
  have hne : other ≠ slot := by
    rintro rfl
    simp [hslot] at hother
  rw [← stream other hother]
  exact SlotMap.get?_insert_of_ne _ s hne

/-- Draws for slots without dropout keep two runs together. -/
theorem keepNoise {g : Graph} (h : Undropped g streams ev ev') (hslot : g.rate? slot = none)
    (shape : Shape) (xs : Array Float32) :
    Outcomes g streams (Setting.keepNoise slot shape xs ev)
      (Setting.keepNoise slot shape xs ev') := by
  obtain ⟨⟨records, rfl⟩, noise, stream⟩ := h
  refine .ok rfl ⟨⟨records, rfl⟩, fun other hother => ?_, stream⟩
  have hne : other ≠ slot := by
    rintro rfl
    simp [hslot] at hother
  rw [← noise other hother]
  exact SlotMap.get?_insert_of_ne _ _ hne

/-- A random node draws the same on both graphs, and nothing else draws. -/
theorem drawNoise (h : Undropped env.graph streams ev ev') (hop : env.graph.rate? slot = op.rate?)
    (hidle : ∀ rate, op.rate? = some rate → env.dropsAt rate = false) :
    Outcomes env.graph streams (env.drawNoise slot op ev)
      (env.withoutDropout.drawNoise slot op.withoutDropout ev') := by
  cases op with
  | random sampler seed =>
    refine h.lift_bind (Setting.match_staticShape slot) fun shape => .get_bind ?_
    -- both graphs draw from the same stream
    have hstream : env.withoutDropout.streamOf ev'.streams slot seed =
        env.streamOf ev.streams slot seed := by
      obtain ⟨records, rfl⟩ := h.same
      rfl
    rw [hstream]
    generalize sampler.draw shape.size (env.streamOf ev.streams slot seed) = draw
    obtain ⟨drawn, stream⟩ := draw
    refine (h.keepStream hop stream).bind fun _ _ ev₁ ev₁' _ _ h₁ => ?_
    cases drawn with
    | ok xs => exact h₁.keepNoise hop shape xs
    | error defect => exact .error (.same _) h₁
  | dropout input rate seed =>
    -- the dropout is not active
    rw [Setting.drawNoise, hidle rate rfl]
    exact .ok rfl h
  | _ => exact .ok rfl h

/-- Derivatives are the same without dropout. -/
theorem differentiate (h : Undropped env.graph streams ev ev') (op : Op) :
    Outcomes env.graph streams (env.differentiate op ev)
      (env.withoutDropout.differentiate op.withoutDropout ev') := by
  cases op with
  | gradient loss target =>
    have hreport {ev ev' : Evaluation S} (record record' : Record)
        (h : Undropped env.graph streams ev ev') :
        Outcomes env.graph streams
          ((do if ((← get).known.sensitivity loss target).isNone then
                modify fun e => { e with journal := e.journal.push record } :
            Evaluating S Unit) ev)
          ((do if ((← get).known.sensitivity loss target).isNone then
                modify fun e => { e with journal := e.journal.push record' } :
            Evaluating S Unit) ev') := by
      obtain ⟨⟨records, rfl⟩, noise, stream⟩ := h
      exact .get_bind (.ite .rfl (fun _ => .ok rfl ⟨⟨_, rfl⟩, noise, stream⟩)
        fun _ => .ok rfl ⟨⟨records, rfl⟩, noise, stream⟩)
    obtain ⟨⟨records, rfl⟩, noise, stream⟩ := h
    refine .get_bind (.ite .rfl (fun _ => ?_) fun _ =>
      hreport _ _ ⟨⟨records, rfl⟩, noise, stream⟩)
    -- the loss is differentiated for the first time, and has the same derivatives on both graphs
    have hsensitivities : env.graph.withoutDropout.sensitivities ev.known loss =
        env.graph.sensitivities ev.known loss := Graph.sensitivities_withoutDropout noise loss
    refine hreport _ _ ⟨⟨records, ?_⟩, noise, stream⟩
    change _ = { ev with
      sensitivities := ev.sensitivities.insert loss (env.graph.sensitivities ev.known loss)
      journal := records }
    rw [← hsensitivities]
    rfl
  | _ => exact .ok rfl h

omit [Scalar S] in
/-- Both runs record the same assignment. -/
theorem recordAssignment {g : Graph} (h : Undropped g streams ev ev') (t : Tensor S) (op : Op) :
    Outcomes g streams (Setting.recordAssignment t op ev)
      (Setting.recordAssignment t op.withoutDropout ev') := by
  cases op with
  | assign | assignAdd =>
    obtain ⟨⟨records, rfl⟩, noise, stream⟩ := h
    exact .ok rfl ⟨⟨records, rfl⟩, noise, stream⟩
  | _ => exact .ok rfl h

/-- Evaluating one slot whose dropout, if it holds one, is not active. -/
theorem evaluateSlot (h : Undropped env.graph streams ev ev')
    (hidle : ∀ rate, env.graph.rate? slot = some rate → env.dropsAt rate = false) :
    Outcomes env.graph streams (env.evaluateSlot slot ev)
      (env.withoutDropout.evaluateSlot slot ev') := by
  have hnode : env.withoutDropout.graph.nodes[slot]? =
      (env.graph.nodes[slot]?).map (·.withoutDropout) := Graph.getElem?_withoutDropout slot
  unfold Setting.evaluateSlot
  rw [hnode]
  cases hn : env.graph.nodes[slot]? with
  | none => exact .ok rfl h
  | some n =>
    have hop : env.graph.rate? slot = n.op.rate? := Graph.rate?_eq hn
    rw [hop] at hidle
    refine (h.drawNoise hop hidle).bind fun _ _ ev₁ ev₁' _ _ h => ?_
    refine (h.differentiate n.op).bind fun _ _ ev₂ ev₂' _ _ h => ?_
    -- a dropout that is not active draws no factors
    have hmatch : Failure.Match env.graph env.graph.withoutDropout
        (env.compute ev₂.known slot n.op)
        (env.withoutDropout.compute ev₂'.known slot n.op.withoutDropout) := by
      obtain ⟨⟨records, rfl⟩, noise, -⟩ := h
      exact Setting.compute_withoutDropout fun hrate => noise slot (by rwa [hop])
    refine .get_bind (h.lift_bind hmatch fun t => ?_)
    refine (h.recordAssignment t n.op).bind fun _ _ ev₃ ev₃' _ _ h => ?_
    obtain ⟨⟨records, rfl⟩, noise, stream⟩ := h
    exact .ok rfl ⟨⟨records, rfl⟩, noise, stream⟩

/-- Slots evaluate to the same without dropout, if no dropout among them drops. -/
theorem evaluateAll (h : Undropped env.graph streams ev ev') {slots : List Nat}
    (hidle : ∀ slot ∈ slots, ∀ rate, env.graph.rate? slot = some rate → env.dropsAt rate = false) :
    Outcomes env.graph streams (env.evaluateAll slots ev)
      (env.withoutDropout.evaluateAll slots ev') := by
  induction slots generalizing ev ev' with
  | nil => exact .ok rfl h
  | cons slot slots ih =>
    obtain ⟨hslot, hslots⟩ := List.forall_mem_cons.1 hidle
    exact (h.evaluateSlot hslot).bind fun _ _ _ _ _ _ h => ih h hslots

/-- Evaluating targets that reach no active dropout. -/
theorem evaluate (h : Undropped env.graph streams ev ev') (hg : env.graph.Typed)
    {targets : List Nat} (htargets : ∀ t ∈ targets, t < env.graph.size)
    (hidle : ∀ t ∈ targets, ∀ slot, env.graph.Reaches t slot →
      ∀ rate, env.graph.rate? slot = some rate → env.dropsAt rate = false) :
    Outcomes env.graph streams (env.evaluate targets ev)
      (env.withoutDropout.evaluate targets ev') := by
  have hschedule : env.withoutDropout.graph.schedule targets = env.graph.schedule targets :=
    Graph.schedule_withoutDropout targets
  rw [Setting.evaluate, Setting.evaluate, hschedule]
  refine h.evaluateAll fun slot hslot => ?_
  -- what is scheduled is reached from a target
  obtain ⟨t, ht, hreached⟩ := (hg.mem_schedule_iff htargets).1 hslot
  exact hidle t ht slot hreached

end Evaluation.Undropped
end TensorGraph
