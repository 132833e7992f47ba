import TensorGraph.Proofs.Evaluation.Locality
import TensorGraph.Proofs.Evaluation.Outcome
import TensorGraph.Proofs.Graph.Renaming

/-!
# Evaluating renamed slots

A run does the same on renamed slots: it reads the same variables and feeds, makes the same draws
and hands sensitivities on in the same order, so it comes to the same values, or it fails as well.
Streams without a seed would be derived from the slots, so nodes that sample must have seeds.

## Main definitions

* `Op.Repeatable`: operations that draw from no stream without a seed.
* `Renaming.Carries`: a slot map with the values of another one in renamed slots.
* `Renaming.Settings` and `Renaming.Evaluations`: what a run reads, and its working state.

## Main results

* `Renaming.Embeds.sensitivities`: the derivatives of a loss.
* `Renaming.Settings.evaluate`: evaluating renamed targets.
-/

namespace TensorGraph

/-- Operations that draw from no stream without a seed. -/
def Op.Repeatable : Op → Prop
  | random _ seed => seed.isSome
  | dropout _ rate seed => seed.isSome ∨ ¬0 < rate
  | _ => True

/-- Renaming leaves the seeds of an operation. -/
@[simp] theorem Op.repeatable_rename {ρ : Nat → Nat} {op : Op} :
    (op.rename ρ).Repeatable ↔ op.Repeatable := by
  cases op <;> rfl

namespace Renaming

variable {r : Renaming} {g g' : Graph} {s : Nat}

/-! ## Slot maps -/

section Carries

variable {α : Type} {m m' : SlotMap α}

/-- A slot map with the values of another one in renamed slots, and perhaps with others. -/
def Carries (r : Renaming) (m m' : SlotMap α) : Prop := ∀ s, m'.get? (r.slot s) = m.get? s

theorem carries_empty : r.Carries (.empty : SlotMap α) .empty := fun s => by
  rw [SlotMap.get?_empty, SlotMap.get?_empty]

/-- A value that is put into a slot and its renamed copy is carried. -/
theorem Carries.insert (h : r.Carries m m') (s : Nat) (a : α) :
    r.Carries (m.insert s a) (m'.insert (r.slot s) a) := by
  intro t
  by_cases hts : t = s
  · subst hts
    rw [SlotMap.get?_insert_self, SlotMap.get?_insert_self]
  · rw [SlotMap.get?_insert_of_ne _ _ hts, SlotMap.get?_insert_of_ne _ _ (mt r.slot_inj.1 hts), h t]

/-- A slot map without values in slots where nothing went. -/
def Confined (r : Renaming) (m : SlotMap α) : Prop := ∀ t, (∀ s, r.slot s ≠ t) → m.get? t = none

/-- A value in a renamed slot leaves the other slots empty. -/
theorem Confined.insert (h : r.Confined m) (s : Nat) (a : α) : r.Confined (m.insert (r.slot s) a) :=
  fun t ht => by rw [SlotMap.get?_insert_of_ne _ _ (ht s).symm, h t ht]

end Carries

/-! ## What is known -/

variable {S : Type} [Scalar S]

/-- The same knowledge of renamed slots. -/
structure Knows (r : Renaming) (known known' : Known S) : Prop where
  value : ∀ s, known'.value (r.slot s) = known.value s
  noise : ∀ s, known'.noise (r.slot s) = known.noise s
  sensitivity : ∀ loss target,
    known'.sensitivity (r.slot loss) (r.slot target) = known.sensitivity loss target

variable {known known' : Known S} {m m' : SlotMap (Tensor S)}

/-- Contributions to sensitivities go to the renamed slots. -/
theorem Knows.pullback (h : r.Knows known known') (op : Op) (s : Nat) (t : Tensor S) :
    (op.rename r.slot).pullback known' (r.slot s) t =
      (op.pullback known s t).map (Prod.map r.slot id) := by
  cases op
  case dropout input rate seed =>
    simp only [Op.rename, Op.pullback, h.noise]
    cases known.noise s <;> rfl
  all_goals simp only [Op.rename, Op.pullback, h.value, List.map_cons, List.map_nil, Prod.map, id]

/-- A contribution that arrives in a renamed slot is carried. -/
theorem Carries.receive (h : r.Carries m m') (c : Nat × Tensor S) :
    r.Carries (Graph.receive m c) (Graph.receive m' (Prod.map r.slot id c)) := by
  intro s
  rw [Graph.get?_receive, Graph.get?_receive]
  simp only [Prod.map_fst, Prod.map_snd, id, r.slot_inj, h c.1, h s]

/-- A contribution to a renamed slot leaves the other slots empty. -/
theorem Confined.receive (h : r.Confined m) (c : Nat × Tensor S) :
    r.Confined (Graph.receive m (Prod.map r.slot id c)) := by
  intro t ht
  rw [Graph.get?_receive, if_neg fun heq => ht c.1 heq.symm, h t ht]

/-- All contributions of a node arrive in renamed slots. -/
theorem carries_foldl_receive (cs : List (Nat × Tensor S)) (h : r.Carries m m')
    (hconfined : r.Confined m') :
    r.Carries (cs.foldl Graph.receive m)
        ((cs.map (Prod.map r.slot id)).foldl Graph.receive m') ∧
      r.Confined ((cs.map (Prod.map r.slot id)).foldl Graph.receive m') := by
  induction cs generalizing m m' with
  | nil => exact ⟨h, hconfined⟩
  | cons c cs ih => exact ih (h.receive c) (hconfined.receive c)

/-- A sweep over renamed slots hands the same on. Slots where nothing went are passed over, since
nothing reaches them. -/
theorem Embeds.sweep (hg : r.Embeds g g') (hknown : r.Knows known known') {bound bound' : Nat}
    (hbound : ∀ s, r.slot s < bound' ↔ s < bound) (h : r.Carries m m')
    (hconfined : r.Confined m') :
    r.Carries (g.sweep known bound m) (g'.sweep known' bound' m') := by
  induction bound' generalizing bound m m' with
  | zero =>
    obtain rfl : bound = 0 := Nat.eq_zero_of_not_pos fun hpos => by
      exact absurd ((hbound 0).2 hpos) (Nat.not_lt_zero _)
    exact h
  | succ slot ih =>
    by_cases hslot : ∃ s, r.slot s = slot
    · obtain ⟨s, rfl⟩ := hslot
      -- the slots below are the renamed ones of those below
      have hbelow : ∀ t, r.slot t < r.slot s ↔ t < s := fun t => r.increasing.lt_iff_lt
      obtain rfl : bound = s + 1 := by
        refine Nat.le_antisymm (Nat.not_lt.1 fun hlt => ?_) ((hbound s).1 (Nat.lt_succ_self _))
        have hle := Nat.le_of_lt_succ ((hbound (s + 1)).2 hlt)
        exact absurd (r.increasing.le_iff_le.1 hle) (Nat.not_succ_le_self s)
      rw [Graph.sweep, Graph.sweep, h s, hg.getElem?]
      cases m.get? s with
      | none => exact ih hbelow h hconfined
      | some t =>
        cases g.nodes[s]? with
        | none => exact ih hbelow h hconfined
        | some n =>
          obtain ⟨hcarries, hconfined⟩ :=
            carries_foldl_receive (n.op.pullback known s t) h hconfined
          dsimp only [Option.map_some, GraphNode.rename]
          rw [hknown.pullback]
          exact ih hbelow hcarries hconfined
    · -- nothing has reached this slot
      have hne : ∀ s, r.slot s ≠ slot := fun s hs => hslot ⟨s, hs⟩
      rw [Graph.sweep, hconfined slot hne]
      refine ih (fun s => ?_) h hconfined
      rw [← hbound s]
      have := hne s
      omega

/-- The sensitivities of a loss are the same in the graph that it is embedded in. -/
theorem Embeds.sensitivities (hg : r.Embeds g g') (hknown : r.Knows known known') (loss : Nat) :
    r.Carries (g.sensitivities known loss) (g'.sensitivities known' (r.slot loss)) := by
  rw [Graph.sensitivities, Graph.sensitivities, hknown.value]
  refine hg.sweep hknown (fun s => ?_) (carries_empty.insert _ _) fun t ht => ?_
  · rw [Nat.lt_succ_iff, Nat.lt_succ_iff, r.increasing.le_iff_le]
  · rw [SlotMap.get?_insert_of_ne _ _ fun heq => ht loss heq.symm, SlotMap.get?_empty]

/-! ## Settings -/

/-- Settings in which a run reads the same of renamed slots. -/
structure Settings (r : Renaming) (env env' : Setting S) : Prop where
  graph : r.Embeds env.graph env'.graph
  repeatable : ∀ {s : Nat} {n : GraphNode}, env.graph.nodes[s]? = some n → n.op.Repeatable
  store : r.Carries env.store env'.store
  feeds : r.Carries env.feeds env'.feeds
  phase : env'.phase = env.phase

variable {env env' : Setting S}

namespace Settings

omit [Scalar S] in
/-- A renamed slot has the same shape in a run. -/
theorem staticShape (h : r.Settings env env') (s : Nat) :
    (env'.staticShape (r.slot s)).toOption = (env.staticShape s).toOption := by
  have hshape : (env'.graph.nodes[r.slot s]?).map (·.shape) =
      (env.graph.nodes[s]?).map (·.shape) := by
    rw [h.graph.getElem?, Option.map_map]
    rfl
  unfold Setting.staticShape
  dsimp only
  rw [hshape]
  cases DeclaredShape.concrete? _ <;> rfl

omit [Scalar S] in
/-- Whether two tensors can be broadcast is a matter of their shapes. -/
private theorem toOption_commonShape (a b : Tensor S) (s : Nat) :
    (env.commonShape s a b).toOption = Shape.broadcast a.shape b.shape := by
  unfold Setting.commonShape
  cases Shape.broadcast a.shape b.shape <;> rfl

/-- A renamed node has the same value on the same knowledge. -/
theorem compute (h : r.Settings env env') (hknown : r.Knows known known') (s : Nat) (op : Op) :
    (env'.compute known' (r.slot s) (op.rename r.slot)).toOption =
      (env.compute known s op).toOption := by
  -- the shapes, the feeds and the store are carried over, so each operation finds the same
  -- arguments
  cases op with
  | placeholder =>
    simp only [Op.rename, Setting.compute, h.feeds s]
    cases env.feeds.get? s <;> rfl
  | constant => rfl
  | «variable» trainable init =>
    simp only [Op.rename, Setting.compute, h.store s]
    cases env.store.get? s with
    | none => rfl
    | some t =>
      have hstatic := h.staticShape s
      revert hstatic
      cases env'.staticShape (r.slot s) <;> cases env.staticShape s <;> rintro ⟨⟩ <;> rfl
  | random | fill =>
    simp only [Op.rename, Setting.compute, hknown.noise]
    have hstatic := h.staticShape s
    revert hstatic
    cases env'.staticShape (r.slot s) <;> cases env.staticShape s <;> rintro ⟨⟩ <;> rfl
  | dot left right =>
    simp only [Op.rename, Setting.compute, Setting.product, hknown.value]
    split <;> rfl
  | biasAdd input bias =>
    simp only [Op.rename, Setting.compute, Setting.biased, hknown.value]
    split <;> rfl
  | binary op a b =>
    simp only [Op.rename, Setting.compute, hknown.value, toOption_bind, toOption_commonShape]
  | unary op input | clip input min max | cast input | mean input | reduceSum input
  | gradient loss target =>
    simp only [Op.rename, Setting.compute, hknown.value, hknown.sensitivity]
  | dropout input rate seed =>
    simp only [Op.rename, Setting.compute, hknown.value, hknown.noise]
  | sigmoidCrossEntropy targets logits =>
    simp only [Op.rename, Setting.compute, hknown.value, toOption_bind, toOption_commonShape]
  | softmaxCrossEntropy logits labels =>
    simp only [Op.rename, Setting.compute, hknown.value]
    split <;> rfl
  | assign target value =>
    simp only [Op.rename, Setting.compute, hknown.value, toOption_bind, h.staticShape]
  | assignAdd target delta =>
    simp only [Op.rename, Setting.compute, hknown.value]

end Settings

/-! ## The working state -/

/-- Working states that have come to the same on renamed slots. -/
structure Evaluations (r : Renaming) (ev ev' : Evaluation S) : Prop where
  values : r.Carries ev.values ev'.values
  noise : r.Carries ev.noise ev'.noise
  sensitivities : ∀ s, Option.Rel r.Carries (ev.sensitivities.get? s)
    (ev'.sensitivities.get? (r.slot s))
  streams : r.Carries ev.streams ev'.streams
  assignments : ev'.assignments.toList = ev.assignments.toList.map (Prod.map r.slot id)

namespace Evaluations

variable {ev ev' : Evaluation S}

omit [Scalar S] in
/-- Runs start with the same streams and no values. -/
theorem start {streams streams' : SlotMap Stream} (h : r.Carries streams streams') :
    r.Evaluations (.start streams : Evaluation S) (.start streams') where
  values := carries_empty
  noise := carries_empty
  sensitivities s := by
    simp only [Evaluation.start, SlotMap.get?_empty]
    exact .none
  streams := h
  assignments := rfl

/-- Values that have been found so far are known alike. -/
theorem knows (h : r.Evaluations ev ev') : r.Knows ev.known ev'.known where
  value s := by
    simp only [Evaluation.known, h.values s]
  noise s := h.noise s
  sensitivity loss target := by
    simp only [Evaluation.known]
    have hcarries := h.sensitivities loss
    revert hcarries
    generalize ev.sensitivities.get? loss = kept
    generalize ev'.sensitivities.get? (r.slot loss) = kept'
    -- a loss is differentiated in both evaluations or in neither
    rintro (hcarries | _)
    · exact hcarries target
    · rfl

omit [Scalar S] in
theorem contains (h : r.Evaluations ev ev') (loss : Nat) :
    ev'.sensitivities.contains (r.slot loss) = ev.sensitivities.contains loss := by
  have hcarries := h.sensitivities loss
  unfold SlotMap.contains
  revert hcarries
  generalize ev.sensitivities.get? loss = kept
  generalize ev'.sensitivities.get? (r.slot loss) = kept'
  rintro (_ | _) <;> rfl

end Evaluations

section Steps

variable {ev ev' : Evaluation S} {excused : Failure → Prop} {α β γ : Type} {same : α → β → Prop}

omit [Scalar S] in
/-- A computation without a working state keeps two runs together. -/
theorem concur_lift {x x' : Except Failure γ} {f : γ → Evaluating S α} {f' : γ → Evaluating S β}
    (h : r.Evaluations ev ev') (hx : x'.toOption = x.toOption)
    (hf : ∀ t, Concur excused r.Evaluations same (f t ev) (f' t ev')) :
    Concur excused r.Evaluations same ((Setting.lift x >>= f) ev)
      ((Setting.lift x' >>= f') ev') := by
  revert hx
  cases x <;> cases x' <;> rintro ⟨⟩
  · exact .error h
  · exact hf _

omit [Scalar S] in
/-- Streams that go back into renamed slots keep two runs together. -/
theorem concur_keepStream (h : r.Evaluations ev ev') (s : Nat) (stream : Stream) :
    Concur excused r.Evaluations (fun _ _ => True) (Setting.keepStream s stream ev)
      (Setting.keepStream (r.slot s) stream ev') :=
  .ok trivial { h with streams := h.streams.insert s stream }

/-- Draws that go into renamed slots keep two runs together. -/
theorem concur_keepNoise (h : r.Evaluations ev ev') (s : Nat) (shape : Shape)
    (xs : Array Float32) :
    Concur excused r.Evaluations (fun _ _ => True) (Setting.keepNoise s shape xs ev)
      (Setting.keepNoise (r.slot s) shape xs ev') :=
  .ok trivial { h with noise := h.noise.insert s _ }

namespace Settings

omit [Scalar S] in
/-- A stream with a seed does not depend on the slot of its node. -/
theorem streamOf {streams streams' : SlotMap Stream} (h : r.Carries streams streams') (s : Nat)
    {seed : Option UInt64} (hseed : seed.isSome) :
    env'.streamOf streams' (r.slot s) seed = env.streamOf streams s seed := by
  obtain ⟨k, rfl⟩ := Option.isSome_iff_exists.1 hseed
  rw [Setting.streamOf, Setting.streamOf, h s]
  rfl

/-- An operation with a seed, or without draws, draws the same in its renamed slot. -/
theorem drawNoise (h : r.Settings env env') (hev : r.Evaluations ev ev') (s : Nat) {op : Op}
    (hop : op.Repeatable) :
    Concur excused r.Evaluations (fun _ _ => True) (env.drawNoise s op ev)
      (env'.drawNoise (r.slot s) (op.rename r.slot) ev') := by
  cases op
  case random sampler seed =>
    refine concur_lift hev (h.staticShape s) fun shape => .get_bind ?_
    rw [streamOf hev.streams s hop]
    generalize sampler.draw _ _ = draw
    obtain ⟨drawn, stream⟩ := draw
    refine (concur_keepStream hev s stream).bind fun _ _ _ _ _ _ hev => ?_
    cases drawn with
    | ok xs => exact concur_keepNoise hev s shape xs
    | error defect => exact .error hev
  case dropout input rate seed =>
    have hdrops : env'.dropsAt rate = env.dropsAt rate := by
      rw [Setting.dropsAt, Setting.dropsAt, h.phase]
    simp only [Op.rename, Setting.drawNoise, hdrops]
    split
    · next hdrops =>
      -- a dropout that drops has a seed
      have hseed : seed.isSome := hop.resolve_right fun hrate => by
        simp only [Setting.dropsAt, Bool.and_eq_true, decide_eq_true_eq] at hdrops
        exact hrate hdrops.2
      refine .get_bind (.get_bind ?_)
      rw [hev.knows.value, streamOf hev.streams s hseed]
      generalize Dropping.mask _ _ _ = draw
      obtain ⟨factors, stream⟩ := draw
      exact (concur_keepStream hev s stream).bind fun _ _ _ _ _ _ hev =>
        concur_keepNoise hev s _ factors
    · exact .ok trivial hev
  all_goals exact .ok trivial hev

/-- Derivatives are the same in the renamed slots. -/
theorem differentiate (h : r.Settings env env') (hev : r.Evaluations ev ev') (op : Op) :
    Concur excused r.Evaluations (fun _ _ => True) (env.differentiate op ev)
      (env'.differentiate (op.rename r.slot) ev') := by
  cases op
  case gradient loss target =>
    have hreport : ∀ {ev ev' : Evaluation S} (record record' : Record), r.Evaluations ev ev' →
        Concur excused r.Evaluations (fun _ _ => True)
          ((do if ((← get).known.sensitivity loss target).isNone then
                modify fun e => { e with journal := e.journal.push record } :
            Evaluating S Unit) ev)
          ((do if ((← get).known.sensitivity (r.slot loss) (r.slot target)).isNone then
                modify fun e => { e with journal := e.journal.push record' } :
            Evaluating S Unit) ev') := by
      intro ev ev' record record' hev
      refine .get_bind ?_
      rw [hev.knows.sensitivity]
      -- the first gradient of a loss sweeps the graph, and the following ones reuse the
      -- sensitivities
      split
      · exact .ok trivial { hev with }
      · exact .ok trivial hev
    refine .get_bind ?_
    rw [hev.contains]
    split
    · have hkept := h.graph.sensitivities hev.knows loss
      refine hreport _ _ { hev with sensitivities := fun s => ?_ }
      -- the renaming keeps slots apart, so the new sensitivities replace none of another loss
      by_cases hs : s = loss
      · subst hs
        rw [SlotMap.get?_insert_self, SlotMap.get?_insert_self]
        exact .some hkept
      · rw [SlotMap.get?_insert_of_ne _ _ hs, SlotMap.get?_insert_of_ne _ _ (mt r.slot_inj.1 hs)]
        exact hev.sensitivities s
    · exact hreport _ _ hev
  all_goals exact .ok trivial hev

omit [Scalar S] in
/-- An update writes the same value into the renamed variable. -/
theorem recordAssignment (hev : r.Evaluations ev ev') (t : Tensor S) (op : Op) :
    Concur excused r.Evaluations (fun _ _ => True) (Setting.recordAssignment t op ev)
      (Setting.recordAssignment t (op.rename r.slot) ev') := by
  cases op
  case assign target _ | assignAdd target _ =>
    refine .ok trivial { hev with assignments := ?_ }
    simp only [Array.toList_push, hev.assignments, List.map_append, List.map_cons, List.map_nil,
      Prod.map, id]
  all_goals exact .ok trivial hev

/-- A slot and its renamed copy evaluate to the same. -/
theorem evaluateSlot (h : r.Settings env env') (hev : r.Evaluations ev ev') (s : Nat) :
    Concur excused r.Evaluations (fun _ _ => True) (env.evaluateSlot s ev)
      (env'.evaluateSlot (r.slot s) ev') := by
  unfold Setting.evaluateSlot
  rw [h.graph.getElem?]
  cases hn : env.graph.nodes[s]? with
  | none => exact .ok trivial hev
  | some n =>
    -- draw, differentiate, compute, record: each step leaves the evaluations alike for the next one
    refine (h.drawNoise hev s (h.repeatable hn)).bind fun _ _ _ _ _ _ hev => ?_
    refine (h.differentiate hev n.op).bind fun _ _ _ _ _ _ hev => ?_
    refine .get_bind (concur_lift hev (h.compute hev.knows s n.op) fun t => ?_)
    refine (recordAssignment hev t n.op).bind fun _ _ _ _ _ _ hev => ?_
    exact .ok trivial { hev with values := hev.values.insert s t }

/-- Slots and their renamed copies evaluate to the same, one after the other. -/
theorem evaluateAll (h : r.Settings env env') (hev : r.Evaluations ev ev') (slots : List Nat) :
    Concur excused r.Evaluations (fun _ _ => True) (env.evaluateAll slots ev)
      (env'.evaluateAll (slots.map r.slot) ev') := by
  induction slots generalizing ev ev' with
  | nil => exact .ok trivial hev
  | cons s slots ih => exact (h.evaluateSlot hev s).bind fun _ _ _ _ _ _ hev => ih hev

/-- Evaluating renamed targets comes to the same. -/
theorem evaluate (h : r.Settings env env') (hev : r.Evaluations ev ev') (targets : List Nat) :
    Concur excused r.Evaluations (fun _ _ => True) (env.evaluate targets ev)
      (env'.evaluate (targets.map r.slot) ev') := by
  rw [Setting.evaluate, Setting.evaluate, h.graph.schedule]
  exact h.evaluateAll hev _

end Settings

end Steps

end Renaming
end TensorGraph
