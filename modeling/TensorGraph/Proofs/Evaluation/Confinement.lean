import TensorGraph.Proofs.Evaluation.Settled

/-!
# Evaluations that read the same

An evaluation that stays within a set of slots reads the feeds, the variables and the streams of
these slots, and nothing of other slots. So two evaluations in the same phase that find the same
there come to the same values or fail in the same way, draw the same samples, and make the same
assignments and records. What they draw, keep and assign is for slots of the set.

## Main definitions

* `Op.seed?`: the seeds of operations that may draw samples.
* `Setting.Shares`: two settings in which a run reads the same of some slots.
* `Evaluation.Same`: two working states that know the same of some slots.
* `Evaluation.Within`: a working state that has kept to some slots.

## Main results

* `Evaluation.Same.evaluateAll`: evaluating slots of the set from such states.
* `Setting.within_evaluateAll`: evaluating slots of the set keeps to it, also when it fails.
-/

namespace TensorGraph

/-- The seed of an operation that may draw samples. -/
def Op.seed? : Op → Option (Option UInt64)
  | random _ seed | dropout _ _ seed => some seed
  | _ => none

variable {S : Type} {R : Nat → Prop}

/-- Two settings with the same graph and phase, and streams for them, that have the same feeds and
variables in some slots. A node in such a slot that draws samples finds the same stream. -/
structure Setting.Shares (R : Nat → Prop) (env env' : Setting S)
    (streams streams' : SlotMap Stream) : Prop where
  graph : env'.graph = env.graph
  phase : env'.phase = env.phase
  feeds : ∀ s, R s → env'.feeds.get? s = env.feeds.get? s
  store : ∀ s, R s → env'.store.get? s = env.store.get? s
  streams : ∀ {s : Nat} {n : GraphNode} {seed : Option UInt64}, R s →
    env.graph.nodes[s]? = some n → n.op.seed? = some seed →
      env'.streamOf streams' s seed = env.streamOf streams s seed

/-- Two working states that know the same of some slots and have made the same assignments and
records. -/
structure Evaluation.Same (R : Nat → Prop) (env env' : Setting S) (e e' : Evaluation S) : Prop where
  shares : env.Shares R env' e.streams e'.streams
  values : ∀ s, R s → e'.values.get? s = e.values.get? s
  noise : ∀ s, R s → e'.noise.get? s = e.noise.get? s
  sensitivities : ∀ s, R s → e'.sensitivities.get? s = e.sensitivities.get? s
  assignments : e'.assignments = e.assignments
  journal : e'.journal = e.journal

/-- Two runs start with the same knowledge if they share feeds, store and streams. -/
theorem Evaluation.same_start {env env' : Setting S} {streams streams' : SlotMap Stream}
    (h : env.Shares R env' streams streams') :
    Evaluation.Same R env env' (.start streams) (.start streams') where
  shares := h
  values _ _ := rfl
  noise _ _ := rfl
  sensitivities _ _ := rfl
  assignments := rfl
  journal := rfl

variable [Scalar S] {env env' : Setting S} {e e' : Evaluation S} {slot : Nat} {op : Op}

namespace Setting.Shares

variable {streams streams' : SlotMap Stream} (h : env.Shares R env' streams streams')
include h

omit [Scalar S] in
/-- The static shape of a slot depends on what is shared only. -/
theorem staticShape_eq (slot : Nat) : env'.staticShape slot = env.staticShape slot := by
  rw [staticShape, staticShape, h.graph]

omit [Scalar S] in
/-- Drawing from the stream of a slot leaves the same streams when both have drawn as much. -/
theorem insert (slot : Nat) (stream : Stream) :
    env.Shares R env' (streams.insert slot stream) (streams'.insert slot stream) :=
  { h with
    streams := by
      intro s n seed hs hn hseed
      by_cases hslot : s = slot
      · simp [streamOf, hslot]
      · have hkept := h.streams hs hn hseed
        simpa only [streamOf, SlotMap.get?_insert_of_ne _ _ hslot] using hkept }

/-- A slot in the set has the same value on the same knowledge. -/
theorem compute_eq (hslot : R slot) (known : Known S) :
    env'.compute known slot op = env.compute known slot op := by
  cases op <;>
    simp only [compute, product, biased, commonShape, h.staticShape_eq, h.graph, h.feeds slot hslot,
      h.store slot hslot]

end Setting.Shares

namespace Evaluation.Same

variable (h : Evaluation.Same R env env' e e')
include h

omit [Scalar S] in
/-- A computation without a working state keeps two runs the same. -/
theorem lift {α : Type} (x : Except Failure α) :
    Agree (Evaluation.Same R env env') (Setting.lift x e) (Setting.lift x e') := by
  cases x with
  | ok a => exact .ok h
  | error f => exact .error h

/-- A slot of the set has the same value in both runs. -/
theorem value_eq {s : Nat} (hs : R s) : e'.known.value s = e.known.value s := by
  simp only [Evaluation.known, h.values s hs]

omit [Scalar S] in
/-- A stream that both runs put back keeps them the same. -/
theorem keepStream (slot : Nat) (stream : Stream) :
    Agree (Evaluation.Same R env env') (Setting.keepStream slot stream e)
      (Setting.keepStream slot stream e') :=
  .ok { h with shares := h.shares.insert slot stream }

/-- Draws that both runs keep keep them the same. -/
theorem keepNoise (slot : Nat) (shape : Shape) (xs : Array Float32) :
    Agree (Evaluation.Same R env env') (Setting.keepNoise slot shape xs e)
      (Setting.keepNoise slot shape xs e') := by
  refine .ok { h with noise := fun s hs => ?_ }
  by_cases hslot : s = slot
  · simp [hslot]
  · simpa only [SlotMap.get?_insert_of_ne _ _ hslot] using h.noise s hs

/-- A slot in the set draws the same samples. -/
theorem drawNoise {n : GraphNode} (hslot : R slot) (hn : env.graph.nodes[slot]? = some n)
    (hoperands : ∀ o ∈ n.op.operands, R o) :
    Agree (Evaluation.Same R env env') (env.drawNoise slot n.op e)
      (env'.drawNoise slot n.op e') := by
  cases hop : n.op with
  | random sampler seed =>
    have hseed : n.op.seed? = some seed := by rw [hop]; rfl
    simp only [Setting.drawNoise, h.shares.staticShape_eq]
    -- the stream moves on before a failure to draw is reported
    refine (h.lift _).bind fun shape _ _ _ h => .get_bind ?_
    rw [h.shares.streams hslot hn hseed]
    generalize sampler.draw _ _ = draw
    obtain ⟨drawn, stream⟩ := draw
    refine (h.keepStream slot stream).bind fun _ _ _ _ h => ?_
    cases drawn with
    | ok xs => exact h.keepNoise slot shape xs
    | error defect => exact .error h
  | dropout input rate seed =>
    have hseed : n.op.seed? = some seed := by rw [hop]; rfl
    have hinput : R input := hoperands input (by simp [hop, Op.operands, Op.inputs])
    -- whether a dropout draws depends on the phase and on its rate alone
    have hdrops : env'.dropsAt rate = env.dropsAt rate := by
      rw [Setting.dropsAt, Setting.dropsAt, h.shares.phase]
    simp only [Setting.drawNoise, hdrops]
    split
    · refine .get_bind (.get_bind ?_)
      rw [h.value_eq hinput, h.shares.streams hslot hn hseed]
      generalize Dropping.mask _ _ _ = draw
      obtain ⟨factors, stream⟩ := draw
      exact (h.keepStream slot stream).bind fun _ _ _ _ h => h.keepNoise slot _ factors
    · exact .ok h
  | _ => exact .ok h

/-- A loss in the set has the same derivatives, when the set holds what it reaches. -/
theorem sensitivities_eq (hclosed : ∀ {s o}, R s → o ∈ env.graph.operands s → R o) {loss : Nat}
    (hloss : R loss) :
    env'.graph.sensitivities e'.known loss = env.graph.sensitivities e.known loss := by
  have hreached : ∀ s, env.graph.Reaches loss s → R s := by
    intro s hs
    induction hs with
    | refl => exact hloss
    | tail _ hstep ih => exact hclosed ih hstep
  rw [h.shares.graph]
  exact Graph.sensitivities_congr (fun s hs => h.value_eq (hreached s hs))
    fun s hs => h.noise s (hreached s hs)

/-- Derivatives only look at slots of a set that is closed under operands. -/
theorem differentiate (hclosed : ∀ {s o}, R s → o ∈ env.graph.operands s → R o)
    (hoperands : ∀ o ∈ op.operands, R o) :
    Agree (Evaluation.Same R env env') (env.differentiate op e) (env'.differentiate op e') := by
  cases op with
  | gradient loss target =>
    have hloss : R loss := hoperands loss (by simp [Op.operands, Op.inputs])
    -- the derivatives are the same once the loss has been differentiated, and so is the report
    have hreport : ∀ {e e' : Evaluation S} (record : Record), Evaluation.Same R env env' e e' →
        Agree (Evaluation.Same R env env')
          ((do if ((← get).known.sensitivity loss target).isNone then
                modify fun e => { e with journal := e.journal.push record } :
            Evaluating S Unit) e)
          ((do if ((← get).known.sensitivity loss target).isNone then
                modify fun e => { e with journal := e.journal.push record } :
            Evaluating S Unit) e') := by
      intro e e' record h
      have hkept : e'.known.sensitivity loss target = e.known.sensitivity loss target := by
        simp only [Evaluation.known, h.sensitivities loss hloss]
      refine .get_bind ?_
      rw [hkept]
      split
      · exact .ok { h with journal := congrArg (·.push record) h.journal }
      · exact .ok h
    have hlabels : ∀ s, env'.graph.label s = env.graph.label s := fun s => by rw [h.shares.graph]
    have hcontains : e'.sensitivities.contains loss = e.sensitivities.contains loss := by
      rw [SlotMap.contains, SlotMap.contains, h.sensitivities loss hloss]
    refine .get_bind ?_
    rw [hcontains, hlabels, hlabels]
    split
    · refine hreport _ { h with sensitivities := fun s hs => ?_ }
      dsimp only
      rw [h.sensitivities_eq hclosed hloss]
      by_cases hs' : s = loss
      · simp [hs']
      · simpa only [SlotMap.get?_insert_of_ne _ _ hs'] using h.sensitivities s hs
    · exact hreport _ h
  | _ => exact .ok h

omit [Scalar S] in
/-- Both runs record the same assignment. -/
theorem recordAssignment (t : Tensor S) (op : Op) :
    Agree (Evaluation.Same R env env') (Setting.recordAssignment t op e)
      (Setting.recordAssignment t op e') := by
  cases op with
  | assign target _ | assignAdd target _ =>
    exact .ok { h with assignments := congrArg (·.push (target, t)) h.assignments }
  | _ => exact .ok h

/-- Evaluating a slot of the set. -/
theorem evaluateSlot (hclosed : ∀ {s o}, R s → o ∈ env.graph.operands s → R o) (hslot : R slot) :
    Agree (Evaluation.Same R env env') (env.evaluateSlot slot e) (env'.evaluateSlot slot e') := by
  unfold Setting.evaluateSlot
  rw [h.shares.graph]
  cases hn : env.graph.nodes[slot]? with
  | none => exact .ok h
  | some n =>
    have hoperands : ∀ o ∈ n.op.operands, R o := fun o ho =>
      hclosed hslot (by rwa [Graph.operands_eq hn])
    refine (h.drawNoise hslot hn hoperands).bind fun _ _ _ _ h => ?_
    refine (h.differentiate hclosed hoperands).bind fun _ e e' _ h => .get_bind ?_
    -- a value depends on what is known of the operands, on the noise of the slot itself, and for a
    -- derivative on the sensitivities of its loss
    have hcompute : env'.compute e'.known slot n.op = env.compute e.known slot n.op := by
      rw [h.shares.compute_eq hslot]
      refine env.compute_congr (fun o ho => h.value_eq (hoperands o ho)) (h.noise slot hslot) ?_
      intro loss target hop
      have hloss : R loss := hoperands loss (by simp [hop, Op.operands, Op.inputs])
      simp only [Evaluation.known, h.sensitivities loss hloss]
    rw [hcompute]
    refine (h.lift _).bind fun t _ _ _ h => (h.recordAssignment t n.op).bind fun _ _ _ _ h => ?_
    -- only the value of the slot itself is new
    refine .ok { h with values := fun s hs => ?_ }
    by_cases hs' : s = slot
    · simp [hs']
    · simpa only [SlotMap.get?_insert_of_ne _ _ hs'] using h.values s hs

/-- Evaluating slots of a set that holds their operands. -/
theorem evaluateAll (hclosed : ∀ {s o}, R s → o ∈ env.graph.operands s → R o) {slots : List Nat}
    (hslots : ∀ s ∈ slots, R s) :
    Agree (Evaluation.Same R env env') (env.evaluateAll slots e) (env'.evaluateAll slots e') := by
  induction slots generalizing e e' with
  | nil => exact .ok h
  | cons slot slots ih =>
    obtain ⟨hslot, hslots⟩ := List.forall_mem_cons.1 hslots
    exact (h.evaluateSlot hclosed hslot).bind fun _ _ _ _ h => ih h hslots

end Evaluation.Same

/-! ## What an evaluation leaves alone -/

/-- A working state that has values and samples for slots of a set only, has drawn from the streams
of such slots only, and has made assignments to them only. -/
structure Evaluation.Within (R : Nat → Prop) (streams : SlotMap Stream) (e : Evaluation S) :
    Prop where
  values : ∀ s, (e.values.get? s).isSome → R s
  noise : ∀ s, (e.noise.get? s).isSome → R s
  sensitivities : ∀ s, (e.sensitivities.get? s).isSome → R s
  streams : ∀ s, ¬R s → e.streams.get? s = streams.get? s
  assignments : ∀ a ∈ e.assignments, R a.1

namespace Setting

variable {streams : SlotMap Stream}

omit [Scalar S] in
theorem within_start (streams : SlotMap Stream) :
    (Evaluation.start streams : Evaluation S).Within R streams where
  values s := by simp [Evaluation.start]
  noise s := by simp [Evaluation.start]
  sensitivities s := by simp [Evaluation.start]
  streams _ _ := rfl
  assignments := by simp [Evaluation.start]

/-- A slot with a value in a map that has been given one in another slot. -/
theorem isSome_insert {α : Type} {m : SlotMap α} (hm : ∀ s, (m.get? s).isSome → R s)
    (hslot : R slot) (a : α) (s : Nat) (hs : ((m.insert slot a).get? s).isSome) : R s := by
  by_cases heq : s = slot
  · exact heq ▸ hslot
  · rw [SlotMap.get?_insert_of_ne _ _ heq] at hs
    exact hm s hs

omit [Scalar S] in
/-- A stream is put back for a slot of the set. -/
theorem within_keepStream (hslot : R slot) (stream : Stream) :
    Maintains (Evaluation.Within R streams) (keepStream slot stream : Evaluating S Unit) := by
  refine .modify fun e h => { h with streams := fun s hs => ?_ }
  have hne : s ≠ slot := fun heq => hs (heq ▸ hslot)
  rw [SlotMap.get?_insert_of_ne _ _ hne, h.streams s hs]

/-- Draws are kept for a slot of the set. -/
theorem within_keepNoise (hslot : R slot) (shape : Shape) (xs : Array Float32) :
    Maintains (Evaluation.Within R streams) (keepNoise slot shape xs : Evaluating S Unit) :=
  .modify fun _ h => { h with noise := isSome_insert h.noise hslot _ }

/-- Drawing for a slot of the set stays within it. -/
theorem within_drawNoise (hslot : R slot) (op : Op) :
    Maintains (Evaluation.Within R streams) (env.drawNoise slot op) := by
  -- only samples and dropouts touch the noise and the streams
  cases op with
  | random sampler seed =>
    refine (maintains_lift _).bind fun shape => Maintains.get.bind fun _ =>
      (within_keepStream hslot _).bind fun _ => ?_
    split
    · exact within_keepNoise hslot shape _
    · exact .throw _
  | dropout input rate seed =>
    refine .ite (fun _ => ?_) fun _ => .pure ()
    exact Maintains.get.bind fun _ => Maintains.get.bind fun _ =>
      (within_keepStream hslot _).bind fun _ => within_keepNoise hslot _ _
  | _ => exact .pure ()

/-- Differentiating with respect to slots of the set stays within it. -/
theorem within_differentiate (hinputs : ∀ i ∈ op.inputs, R i) :
    Maintains (Evaluation.Within R streams) (env.differentiate op) := by
  cases op with
  | gradient loss target =>
    have hloss : R loss := hinputs loss (by simp [Op.inputs])
    -- the report of a derivative that does not exist goes to the journal
    have hreport {r : Record} : Maintains (Evaluation.Within R streams) (do
        if ((← get).known.sensitivity loss target).isNone then
          modify fun e => { e with journal := e.journal.push r } : Evaluating S Unit) :=
      Maintains.get.bind fun _ => .ite (fun _ => .modify fun _ h => { h with }) fun _ => .pure ()
    refine Maintains.get.bind fun _ => .ite (fun _ => ?_) fun _ => hreport
    exact .bind (.modify fun _ h =>
      { h with sensitivities := isSome_insert h.sensitivities hloss _ }) fun _ => hreport
  | _ => exact .pure ()

omit [Scalar S] in
/-- An update of a slot of the set stays within it. -/
theorem within_recordAssignment (hinputs : ∀ i ∈ op.inputs, R i) (t : Tensor S) :
    Maintains (Evaluation.Within R streams) (recordAssignment t op) := by
  cases op with
  | assign target _ | assignAdd target _ =>
    refine .modify fun e h => { h with assignments := fun a ha => ?_ }
    -- the variable of an update is connected to it
    rcases Array.mem_push.1 ha with ha | rfl
    · exact h.assignments a ha
    · exact hinputs target (by simp [Op.inputs])
  | _ => exact .pure ()

/-- Evaluating a slot stays within a set that holds the slot and its inputs. -/
theorem within_evaluateSlot (hslot : R slot)
    (hinputs : ∀ n, env.graph.nodes[slot]? = some n → ∀ i ∈ n.op.inputs, R i) :
    Maintains (Evaluation.Within R streams) (env.evaluateSlot slot) := by
  unfold evaluateSlot
  split
  · exact .pure ()
  · next n hn =>
    refine (within_drawNoise hslot n.op).bind fun _ =>
      (within_differentiate (hinputs n hn)).bind fun _ => Maintains.get.bind fun _ =>
        (maintains_lift _).bind fun t => ?_
    exact (within_recordAssignment (hinputs n hn) t).bind fun _ =>
      .modify fun _ h => { h with values := isSome_insert h.values hslot t }

/-- Evaluating slots of a set that holds what they are connected to keeps to the set, also when it
fails on the way. -/
theorem within_evaluateAll {slots : List Nat} (hslots : ∀ s ∈ slots, R s)
    (hinputs : ∀ {s n}, R s → env.graph.nodes[s]? = some n → ∀ i ∈ n.op.inputs, R i) :
    Maintains (Evaluation.Within R streams) (env.evaluateAll slots) := by
  induction slots with
  | nil => exact .pure ()
  | cons slot slots ih =>
    obtain ⟨hslot, hslots⟩ := List.forall_mem_cons.1 hslots
    exact (within_evaluateSlot hslot fun n hn => hinputs hslot hn).bind fun _ => ih hslots

end Setting
end TensorGraph
