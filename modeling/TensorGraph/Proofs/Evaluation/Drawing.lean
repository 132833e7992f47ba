import TensorGraph.Proofs.Evaluation.Recomputation

/-!
# Evaluation and the streams

Only sampling nodes read the streams, each its own one. Where the targets reach none, an evaluation
gives the same values, or fails in the same way, whatever has been drawn from the streams before.

## Main results

* `Setting.blind_evaluate`: evaluating targets that reach no sampling node.
* `Setting.streams_of_evaluateSlot`: evaluating a slot moves the streams as drawing for it does.
* `Setting.maintains_evaluateAll`: the stream of a slot moves only when the slot is evaluated and
  samples.
-/

namespace TensorGraph

variable {S : Type} [Scalar S]

/-- Working states that are the same but for their streams. -/
def Evaluation.Restreamed (e e' : Evaluation S) : Prop :=
  ∃ streams, e' = { e with streams := streams }

namespace Setting

open Evaluation (Restreamed)

variable {env : Setting S} {slot : Nat} {op : Op}

omit [Scalar S] in
/-- A change of the working state that ignores the streams is blind to them. -/
private theorem blind_modify {f : Evaluation S → Evaluation S}
    (h : ∀ e streams, f { e with streams := streams } = { f e with streams := streams }) :
    Blind Restreamed (modify f : Evaluating S PUnit) := by
  refine .modify ?_
  rintro e _ ⟨streams, rfl⟩
  exact ⟨streams, h e streams⟩

omit [Scalar S] in
/-- Reading the working state is blind to streams if they are ignored. -/
private theorem blind_get_bind {α : Type} {f : Evaluation S → Evaluating S α}
    (h : ∀ e streams, f { e with streams := streams } = f e) (hf : ∀ e, Blind Restreamed (f e)) :
    Blind Restreamed (get >>= f) := by
  refine .get_bind ?_ hf
  rintro e _ ⟨streams, rfl⟩
  exact (h e streams).symm

omit [Scalar S] in
/-- A computation without a working state is blind to streams. -/
theorem blind_lift {α : Type} (r : Except Failure α) :
    Blind Restreamed (lift r : Evaluating S α) := by
  cases r with
  | ok a => exact .pure a
  | error f => exact .throw f

/-- For an operation that samples nothing, nothing is drawn. -/
theorem drawNoise_eq_pure (h : env.samples op = false) :
    (env.drawNoise slot op : Evaluating S Unit) = pure () := by
  cases op
  case random => cases h
  case dropout input rate seed =>
    have hrate : env.dropsAt rate = false := h
    rw [drawNoise, hrate]
    rfl
  all_goals rfl

/-- Derivatives do not look at streams. -/
theorem blind_differentiate : Blind Restreamed (env.differentiate op) := by
  cases op
  case gradient loss target =>
    have hreport {r : Record} : Blind Restreamed (do
        if ((← get).known.sensitivity loss target).isNone then
          modify fun e => { e with journal := e.journal.push r } : Evaluating S Unit) :=
      blind_get_bind (fun _ _ => rfl) fun _ => .ite (blind_modify fun _ _ => rfl) (.pure ())
    exact blind_get_bind (fun _ _ => rfl) fun _ =>
      .ite (.bind (blind_modify fun _ _ => rfl) fun _ => hreport) hreport
  all_goals exact .pure ()

omit [Scalar S] in
/-- Updates do not look at streams. -/
theorem blind_recordAssignment (t : Tensor S) : Blind Restreamed (recordAssignment t op) := by
  cases op
  case assign | assignAdd => exact blind_modify fun _ _ => rfl
  all_goals exact .pure ()

/-- Evaluating a node that draws nothing does not depend on the streams. -/
theorem blind_evaluateSlot
    (h : ∀ n, env.graph.nodes[slot]? = some n → env.samples n.op = false) :
    Blind Restreamed (env.evaluateSlot slot) := by
  unfold evaluateSlot
  split
  · exact .pure ()
  · next n hn =>
    rw [drawNoise_eq_pure (h n hn), pure_bind]
    refine blind_differentiate.bind fun _ => ?_
    refine blind_get_bind (fun _ _ => rfl) fun e => (blind_lift _).bind fun t => ?_
    exact (blind_recordAssignment t).bind fun _ => blind_modify fun _ _ => rfl

/-- Slots that sample nothing do not look at streams. -/
theorem blind_evaluateAll {slots : List Nat}
    (h : ∀ slot ∈ slots, ∀ n, env.graph.nodes[slot]? = some n → env.samples n.op = false) :
    Blind Restreamed (env.evaluateAll slots) := by
  induction slots with
  | nil => exact .pure ()
  | cons slot slots ih =>
    obtain ⟨hslot, hslots⟩ := List.forall_mem_cons.1 h
    exact (blind_evaluateSlot hslot).bind fun _ => ih hslots

/-- Evaluating targets that reach no sampling node does not depend on the streams. -/
theorem blind_evaluate {targets : List Nat} (hg : env.graph.Typed)
    (htargets : ∀ t ∈ targets, t < env.graph.size) (hquiet : ∀ t ∈ targets, env.Quiet t) :
    Blind Restreamed (env.evaluate targets) := by
  refine blind_evaluateAll fun slot hslot n hn => ?_
  obtain ⟨t, ht, hreached⟩ := (hg.mem_schedule_iff htargets).1 hslot
  exact hquiet t ht slot n hreached hn

/-! ## The stream of one slot -/

section Stream

variable {k : Nat} {x : Option Stream}

/-- Only the stream of the slot itself moves when samples are drawn for a slot. -/
theorem maintains_drawNoise (h : slot = k → env.samples op = false) :
    Maintains (fun e => e.streams.get? k = x) (env.drawNoise slot op) := by
  have hstream : ∀ {stream}, slot ≠ k →
      Maintains (fun e : Evaluation S => e.streams.get? k = x) (keepStream slot stream) :=
    fun hne => .modify fun _ he => (SlotMap.get?_insert_of_ne _ _ (Ne.symm hne)).trans he
  cases op
  case random sampler seed =>
    -- a slot that samples is another one, so its stream is kept elsewhere
    have hne : slot ≠ k := fun heq => Bool.noConfusion (h heq)
    refine (maintains_lift _).bind fun shape => Maintains.get.bind fun _ =>
      (hstream hne).bind fun _ => ?_
    split
    · exact .modify fun _ he => he
    · exact .throw _
  case dropout input rate seed =>
    refine .ite (fun hdrops => ?_) fun _ => .pure ()
    -- where dropouts draw, the hypothesis excludes the slot of this one
    have hne : slot ≠ k := fun heq => Bool.noConfusion ((h heq).symm.trans hdrops)
    exact Maintains.get.bind fun _ => Maintains.get.bind fun _ => (hstream hne).bind fun _ =>
      .modify fun _ he => he
  all_goals exact .pure ()

/-- Differentiating changes derivatives and records only. -/
theorem maintains_differentiate {I : Evaluation S → Prop}
    (hI : ∀ e sensitivities journal, I e →
      I { e with sensitivities := sensitivities, journal := journal }) :
    Maintains I (env.differentiate op) := by
  cases op
  case gradient loss target =>
    have hreport {r : Record} : Maintains I (do
        if ((← get).known.sensitivity loss target).isNone then
          modify fun e => { e with journal := e.journal.push r } : Evaluating S Unit) :=
      Maintains.get.bind fun _ => .ite (fun _ => .modify fun e => hI e _ _) fun _ => .pure ()
    exact Maintains.get.bind fun _ =>
      .ite (fun _ => .bind (.modify fun e => hI e _ _) fun _ => hreport) fun _ => hreport
  all_goals exact .pure ()

omit [Scalar S] in
/-- Recording an assignment changes the assignments only. -/
theorem maintains_recordAssignment {I : Evaluation S → Prop}
    (hI : ∀ e assignments, I e → I { e with assignments := assignments }) (t : Tensor S) :
    Maintains I (recordAssignment t op) := by
  cases op
  case assign | assignAdd => exact .modify fun e => hI e _
  all_goals exact .pure ()

/-- Evaluating a slot moves the streams as drawing for it does. -/
theorem streams_of_evaluateSlot {n : GraphNode} (hn : env.graph.nodes[slot]? = some n)
    (e : Evaluation S) :
    (finalState (env.evaluateSlot slot) e).streams =
      (finalState (env.drawNoise slot n.op) e).streams := by
  unfold evaluateSlot
  rw [hn]
  refine finalState_bind (g := Evaluation.streams) (fun _ e' => ?_) e
  refine Maintains.finalState (I := fun e : Evaluation S => e.streams = e'.streams) ?_ rfl
  refine (maintains_differentiate fun _ _ _ h => h).bind fun _ => Maintains.get.bind fun _ =>
    (maintains_lift _).bind fun t => ?_
  exact (maintains_recordAssignment (fun _ _ h => h) t).bind fun _ => .modify fun _ h => h

/-- A stream stays where it is unless its own slot samples. -/
theorem maintains_evaluateSlot
    (h : ∀ n, slot = k → env.graph.nodes[slot]? = some n → env.samples n.op = false) :
    Maintains (fun e => e.streams.get? k = x) (env.evaluateSlot slot) := by
  cases hn : env.graph.nodes[slot]? with
  | none =>
    unfold evaluateSlot
    rw [hn]
    exact .pure ()
  | some n =>
    refine .of_finalState fun e he => ?_
    rw [streams_of_evaluateSlot hn]
    exact (maintains_drawNoise fun heq => h n heq hn).finalState he

/-- The stream of a slot moves only when the slot is evaluated and samples. -/
theorem maintains_evaluateAll {slots : List Nat}
    (h : k ∈ slots → ∀ n, env.graph.nodes[k]? = some n → env.samples n.op = false) :
    Maintains (fun e => e.streams.get? k = x) (env.evaluateAll slots) := by
  induction slots with
  | nil => exact .pure ()
  | cons slot slots ih =>
    refine (maintains_evaluateSlot fun n heq hn => ?_).bind fun _ =>
      ih fun hk => h (List.mem_cons_of_mem _ hk)
    exact h (heq ▸ List.mem_cons_self) n (heq ▸ hn)

end Stream

end Setting
end TensorGraph
