import TensorGraph.Proofs.Run.Bound
import TensorGraph.Proofs.Shape.Stretching

/-!
# Values that fit their variables

An update is registered when the declared shape of its value stretches to the shape of its variable.
An axis that is left open gets its size in a run, and need not fit any more then. The update does
not check this: a value that stretches to the variable becomes its next one, and any other one ends
the run in a fault, where other operations report that shapes do not go together. A value without
open axes always fits.

## Main definitions

* `Graph.Assigns`: an update of a variable by a node, with their shapes.
* `Engine.Arrives`: a run that has come to a slot.

## Main results

* `Setting.evaluateAll_eq_error_iff`: a run fails at the first slot that fails.
* `Engine.update_fits_or_faults`: what becomes of the updates of a run.
-/

namespace TensorGraph

/-- The variable that an update changes, and the node that it takes the value from. -/
def Op.assignment? : Op → Option (Nat × Nat)
  | assign target value | assignAdd target value => some (target, value)
  | _ => none

theorem Op.exists_assignment {op : Op} (h : op.isUpdate) :
    ∃ target value, op.assignment? = some (target, value) := by
  cases op with
  | assign target value | assignAdd target value => exact ⟨target, value, rfl⟩
  | _ => cases h

theorem Op.isUpdate_of_assignment {op : Op} {a : Nat × Nat} (h : op.assignment? = some a) :
    op.isUpdate := by
  cases op with
  | assign target value | assignAdd target value => rfl
  | _ => cases h

theorem Op.mem_operands_of_assignment {op : Op} {target value : Nat}
    (h : op.assignment? = some (target, value)) : value ∈ op.operands := by
  cases op with
  | assign target' value' | assignAdd target' value' =>
    cases h
    simp [operands, inputs]
  | _ => cases h

/-- An update is of a variable to whose shape the declared shape of the value stretches. -/
theorem Op.Typed.exists_assigned {look : Nat → Option GraphNode} {op : Op} {shape : DeclaredShape}
    {type : ElementType} (h : op.Typed look shape type) {target value : Nat}
    (hop : op.assignment? = some (target, value)) :
    ∃ v k, look target = some v ∧ look value = some k ∧ v.op.isVariable ∧
      DeclaredShape.broadcast v.shape k.shape = some v.shape := by
  cases h with
  | assign target value isVariable _ fits | assignAdd target value isVariable _ fits =>
    cases hop
    exact ⟨_, _, target, value, isVariable, fits⟩
  | _ => cases hop

namespace Graph

/-- A slot holds an update of a variable of some shape by a node with some declared shape. -/
structure Assigns (g : Graph) (slot value : Nat) (shape : Shape) (declared : DeclaredShape) :
    Prop where
  update : ∃ n target v, g.nodes[slot]? = some n ∧ n.op.assignment? = some (target, value) ∧
    g.nodes[target]? = some v ∧ v.op.isVariable ∧ v.shape.concrete? = some shape
  value : ∃ k, g.nodes[value]? = some k ∧ k.shape = declared

variable {g : Graph} {slot value : Nat} {shape : Shape} {declared : DeclaredShape}

theorem Typed.exists_assigns (hg : g.Typed) {n : GraphNode} (hn : g.nodes[slot]? = some n)
    (hop : n.op.isUpdate) : ∃ value shape declared, g.Assigns slot value shape declared := by
  obtain ⟨target, value, hassign⟩ := Op.exists_assignment hop
  obtain ⟨v, k, hv, hk, hvar, -⟩ := (hg.node hn).exists_assigned hassign
  obtain ⟨-, hv⟩ := before_eq_some_iff.1 hv
  obtain ⟨-, hk⟩ := before_eq_some_iff.1 hk
  obtain ⟨shape, hshape⟩ := (hg.closed_of_isVariable hv hvar).exists_concrete?
  exact ⟨value, shape, k.shape, ⟨n, target, v, hn, hassign, hv, hvar, hshape⟩, k, hk, rfl⟩

/-- The update has been registered because the declared shapes go together. -/
theorem Assigns.broadcast (h : g.Assigns slot value shape declared) (hg : g.Typed) :
    DeclaredShape.broadcast (Shape.declared shape) declared = some (Shape.declared shape) := by
  obtain ⟨⟨n, target, v, hn, hassign, hv, -, hshape⟩, k, hk, rfl⟩ := h
  obtain ⟨v', k', hv', hk', -, hfits⟩ := (hg.node hn).exists_assigned hassign
  obtain rfl := Option.some.inj (hv.symm.trans (before_eq_some_iff.1 hv').2)
  obtain rfl := Option.some.inj (hk.symm.trans (before_eq_some_iff.1 hk').2)
  obtain ⟨hdeclared, -⟩ := DeclaredShape.concrete?_eq_some_iff.1 hshape
  rwa [← hdeclared]

/-- A covered shape has no more axes than the variable, which has at most two. -/
theorem Assigns.length_le (h : g.Assigns slot value shape declared) (hg : g.Typed) {s : Shape}
    (hs : declared.Covers s) : shape.length ≤ 2 ∧ s.length ≤ shape.length := by
  obtain ⟨us, hus, hrev⟩ := Option.map_eq_some_iff.1 (h.broadcast hg)
  have hlength := length_combineKeeping hus
  have hsame := congrArg List.length hrev
  obtain ⟨⟨n, target, v, -, -, hv, hvar, hshape⟩, -⟩ := h
  obtain ⟨hdeclared, -⟩ := DeclaredShape.concrete?_eq_some_iff.1 hshape
  have hclosed := (hg.closed_of_isVariable hv hvar).length_le
  have hcovers := hs.length_eq
  rw [hdeclared] at hclosed
  simp only [Shape.declared, List.length_reverse, List.length_map] at hlength hsame hclosed
  omega

/-- A value without open axes fits. -/
theorem Assigns.broadcast_of_not_open (h : g.Assigns slot value shape declared) (hg : g.Typed)
    (hclosed : openAxis ∉ declared) {s : Shape} (hs : declared.Covers s) :
    Shape.broadcast shape s = some shape := by
  have hbroadcast := h.broadcast hg
  rw [hs.eq_declared hclosed, Shape.broadcast_declared] at hbroadcast
  obtain ⟨common, hcommon, heq⟩ := Option.map_eq_some_iff.1 hbroadcast
  rw [hcommon, Shape.declared_injective heq]

/-- What comes after a slot in a list of finished slots is finished without it. -/
theorem Finished.of_append {xs ys : List Nat} (h : g.Finished (xs ++ ys)) : g.Finished ys := by
  induction xs with
  | nil => exact h
  | cons x xs ih =>
    cases h with
    | cons rest _ _ _ => exact ih rest

end Graph

theorem Tensor.stretches_iff {S : Type} {t : Tensor S} {shape : Shape} :
    t.stretches shape ↔ Shape.Stretches t.shape shape := by
  simp only [stretches, Bool.and_eq_true, Bool.or_eq_true, beq_iff_eq]
  exact ⟨fun h => ⟨h.1, h.2⟩, fun h => ⟨h.rows, h.cols⟩⟩

namespace Setting

variable {S : Type} [Scalar S] {env : Setting S} {slot : Nat} {n : GraphNode}
  {ev ev' : Evaluation S} {failure : Failure}

theorem fitTo_of_not_stretches {shape : Shape} {t : Tensor S} (h : ¬Shape.Stretches t.shape shape) :
    fitTo shape t = .error (.fault (.cannotStretch t.shape shape)) := by
  rw [fitTo, if_neg (mt Tensor.stretches_iff.1 h)]

/-- A run fails at the first slot that fails. -/
theorem evaluateAll_eq_error_iff {slots : List Nat} :
    env.evaluateAll slots ev = .error failure ev' ↔
      ∃ before slot after ev₁, slots = before ++ slot :: after ∧
        env.evaluateAll before ev = .ok () ev₁ ∧
        env.evaluateSlot slot ev₁ = .error failure ev' := by
  induction slots generalizing ev with
  | nil =>
    constructor
    · intro h
      cases h
    · rintro ⟨before, slot, after, ev₁, hnil, -⟩
      simp at hnil
  | cons slot slots ih =>
    rw [evaluateAll, bind_eq_error_iff]
    constructor
    · -- either the first slot fails, or it succeeds and the failure is further on
      rintro (hslot | ⟨_, ev₁, hslot, hrest⟩)
      · exact ⟨[], slot, slots, ev, rfl, rfl, hslot⟩
      · obtain ⟨before, slot', after, ev₂, rfl, hbefore, hslot'⟩ := ih.1 hrest
        exact ⟨slot :: before, slot', after, ev₂, rfl, bind_eq_ok_iff.2 ⟨_, ev₁, hslot, hbefore⟩,
          hslot'⟩
    · rintro ⟨before, slot', after, ev₁, hslots, hbefore, hslot'⟩
      cases before with
      | nil =>
        obtain ⟨rfl, rfl⟩ := List.cons.inj hslots
        cases hbefore
        exact .inl hslot'
      | cons first before =>
        obtain ⟨rfl, rfl⟩ := List.cons.inj hslots
        obtain ⟨_, ev₂, hfirst, hbefore⟩ := bind_eq_ok_iff.1 hbefore
        exact .inr ⟨_, ev₂, hfirst, ih.2 ⟨before, slot', after, ev₁, rfl, hbefore, hslot'⟩⟩

/-- Evaluating an update is computing it. -/
theorem evaluateSlot_of_isUpdate (env : Setting S) (ev : Evaluation S)
    (hn : env.graph.nodes[slot]? = some n) (hop : n.op.isUpdate) :
    (∀ t, env.compute ev.known slot n.op = .ok t → ∃ ev', env.evaluateSlot slot ev = .ok () ev') ∧
    ∀ failure, env.compute ev.known slot n.op = .error failure →
      env.evaluateSlot slot ev = .error failure ev := by
  -- nothing is drawn or differentiated for an update
  have hdraw : env.drawNoise slot n.op ev = .ok () ev := by
    generalize n.op = op at hop
    cases op <;> first | rfl | cases hop
  have hdifferentiate : env.differentiate n.op ev = .ok () ev := by
    generalize n.op = op at hop
    cases op <;> first | rfl | cases hop
  have hget : (get : Evaluating S (Evaluation S)) ev = .ok ev ev := rfl
  unfold evaluateSlot
  rw [hn]
  constructor
  · intro t ht
    exact ⟨_, bind_eq_ok_iff.2 ⟨(), ev, hdraw, bind_eq_ok_iff.2 ⟨(), ev, hdifferentiate,
      bind_eq_ok_iff.2 ⟨ev, ev, hget, bind_eq_ok_iff.2 ⟨t, ev, lift_eq_ok_iff.2 ⟨ht, rfl⟩,
        bind_eq_ok_iff.2 ⟨_, _, recordAssignment_eq t, rfl⟩⟩⟩⟩⟩⟩
  · intro failure hfail
    refine (bind_of_ok hdraw).trans ((bind_of_ok hdifferentiate).trans
      ((bind_of_ok hget).trans (bind_of_error ?_)))
    rw [hfail]
    rfl

/-- Computing an update of a variable of some shape gives a value when its operand stretches to that
shape, and otherwise a fault. -/
theorem compute_of_assigns (env : Setting S) {known : Known S} {value : Nat} {shape : Shape}
    {declared : DeclaredShape} (h : env.graph.Assigns slot value shape declared)
    (hn : env.graph.nodes[slot]? = some n)
    (hcurrent : ∀ o ∈ n.op.operands, ∀ k, env.graph.nodes[o]? = some k →
      k.shape.Covers (known.value o).shape) :
    (Shape.Stretches (known.value value).shape shape →
      ∃ t, env.compute known slot n.op = .ok t) ∧
    (¬Shape.Stretches (known.value value).shape shape → env.compute known slot n.op =
      .error (.fault (.cannotStretch (known.value value).shape shape))) := by
  obtain ⟨⟨m, target, v, hm, hassign, hv, -, hshape⟩, -⟩ := h
  obtain rfl : m = n := Option.some.inj (hm.symm.trans hn)
  have hstatic : env.staticShape target = .ok shape := (staticShape_eq_ok_iff hv).2 hshape
  generalize m.op = op at hassign hcurrent
  cases op with
  | assign target' value' =>
    cases hassign
    simp only [compute, hstatic]
    exact ⟨fun hfits => ⟨_, fitTo_eq_ok_iff.2 ⟨Tensor.stretches_iff.2 hfits, rfl⟩⟩,
      fun hmisfits => fitTo_of_not_stretches hmisfits⟩
  | assignAdd target' value' =>
    cases hassign
    -- the variable has the shape that it is declared with
    have hvalue : (known.value target).shape = shape :=
      (DeclaredShape.covers_iff_of_concrete? hshape).1 (hcurrent target (by simp [Op.operands,
        Op.inputs]) v hv)
    simp only [compute, hvalue]
    constructor
    · intro hfits
      exact ⟨_, except_bind_eq_ok_iff.2
        ⟨_, fitTo_eq_ok_iff.2 ⟨Tensor.stretches_iff.2 hfits, rfl⟩, rfl⟩⟩
    · intro hmisfits
      exact except_bind_eq_error_iff.2 (.inl (fitTo_of_not_stretches hmisfits))
  | _ => cases hassign

end Setting

/-! ## Runs -/

namespace Engine

variable {e : Engine} {s : Session} {f : Function} {feeds : List (Node × Value)} {slot value : Nat}
  {shape : Shape} {declared : DeclaredShape} {ev : Evaluation Float32}

/-- A run of a function that has come to a slot: what stands before it in the schedule has been
evaluated. -/
def Arrives (e : Engine) (s : Session) (f : Function) (feeds : List (Node × Value)) (slot : Nat)
    (ev : Evaluation Float32) : Prop :=
  ∃ before after, e.graph.schedule ((f.outputs ++ f.updates).map (·.index)) =
      before ++ slot :: after ∧
    (e.setting s f.phase (feedTable feeds .empty)).evaluateAll before (.start s.streams) = .ok () ev

theorem lt_size_of_over (hf : f.Over e.graph) :
    ∀ t ∈ (f.outputs ++ f.updates).map (·.index), t < e.graph.size := by
  intro t ht
  obtain ⟨n, hn, rfl⟩ := List.mem_map.1 ht
  obtain ⟨found, hfound⟩ := hf.within n (List.mem_append_right _ hn)
  exact Graph.lt_size_of_getElem? hfound.node

/-- By then the slots that the slot needs have settled values. -/
theorem Arrives.exists_settled (h : e.Arrives s f feeds slot ev) (hsound : e.Sound)
    (hf : f.Over e.graph) : ∃ listed, e.graph.Finished listed ∧ e.graph.operands slot ⊆ listed ∧
      slot < e.graph.size ∧ Settled (e.setting s f.phase (feedTable feeds .empty)) listed ev := by
  obtain ⟨before, after, hschedule, hev⟩ := h
  -- a schedule lists what a slot needs before the slot itself
  have hfinished := hsound.typed.finished_schedule (lt_size_of_over hf)
  rw [hschedule, List.reverse_append, List.reverse_cons, List.append_assoc] at hfinished
  have hbefore : e.graph.Finished before.reverse := hfinished.of_append.of_append
  cases hfinished.of_append with
  | cons _ inside _ operands =>
    refine ⟨before.reverse, hbefore, operands, inside, ?_⟩
    exact settled_of_evaluateAll hbefore (by rwa [List.reverse_reverse])

/-- A run that has come to an update goes on when the value stretches to the variable, and ends in a
fault otherwise. -/
theorem Arrives.outcome (h : e.Arrives s f feeds slot ev) (hsound : e.Sound)
    (hs : e.session = some s) (hf : f.Over e.graph) (hfeeds : ∀ feed ∈ feeds, Admitted e.graph feed)
    (hassign : e.graph.Assigns slot value shape declared) :
    declared.Covers (ev.known.value value).shape ∧
    (Shape.broadcast shape (ev.known.value value).shape = some shape →
      ∃ ev', (e.setting s f.phase (feedTable feeds .empty)).evaluateSlot slot ev = .ok () ev') ∧
    (Shape.broadcast shape (ev.known.value value).shape ≠ some shape →
      (e.setting s f.phase (feedTable feeds .empty)).evaluateSlot slot ev =
        .error (.fault (.cannotStretch (ev.known.value value).shape shape)) ev) := by
  obtain ⟨listed, hfinished, hoperands, -, hsettled⟩ := h.exists_settled hsound hf
  obtain ⟨⟨n, target, v, hn, hop, -, -, -⟩, k, hk, hdeclared⟩ := id hassign
  rw [Graph.operands_eq hn] at hoperands
  have hcovers : ∀ o ∈ n.op.operands, ∀ k, e.graph.nodes[o]? = some k →
      k.shape.Covers (ev.known.value o).shape := fun o ho k hk =>
    hsettled.covers hsound.typed (hsound.fits hs (checked_feedTable hfeeds (checked_empty _)))
      hfinished (hoperands ho) hk
  have hvalue : declared.Covers (ev.known.value value).shape :=
    hdeclared ▸ hcovers value (Op.mem_operands_of_assignment hop) k hk
  obtain ⟨hlength, hlength'⟩ := hassign.length_le hsound.typed hvalue
  -- the update is decided by its operands, which have been evaluated and cover their declared
  -- shapes
  obtain ⟨hok, herror⟩ := (e.setting s f.phase (feedTable feeds .empty)).compute_of_assigns
    hassign hn hcovers
  obtain ⟨hevaluated, hfailed⟩ :=
    (e.setting s f.phase (feedTable feeds .empty)).evaluateSlot_of_isUpdate ev hn
      (Op.isUpdate_of_assignment hop)
  rw [ne_eq, Shape.broadcast_eq_self_iff hlength hlength']
  refine ⟨hvalue, fun hfits => ?_, fun hmisfits => hfailed _ (herror hmisfits)⟩
  obtain ⟨t, ht⟩ := hok hfits
  exact hevaluated t ht

/-- What becomes of the updates of a run, on a live engine and with feeds that may be fed. Every
update is of a variable of some shape, by a node of which the declared shape stretches to it. When
the run comes to the update, the value has a shape that is covered by the declared one. If that
shape stretches to the one of the variable, the update gets its value; if not, the run ends in a
fault, which is no report of the shapes. It always does when no axis of the value is left open. And
a run that ends in such a fault has come to an update with an open axis whose value does not stretch
to the variable. -/
theorem update_fits_or_faults (h : e.Reachable) (hs : e.session = some s) (hf : f.Over e.graph)
    (hfeeds : ∀ feed ∈ feeds, Admitted e.graph feed) :
    (∀ u ∈ f.updates, ∃ value shape declared, e.graph.Assigns u.index value shape declared) ∧
    (∀ slot value shape declared, e.graph.Assigns slot value shape declared →
      DeclaredShape.broadcast (Shape.declared shape) declared = some (Shape.declared shape) ∧
      ∀ ev, e.Arrives s f feeds slot ev →
        declared.Covers (ev.known.value value).shape ∧
        (openAxis ∉ declared → Shape.broadcast shape (ev.known.value value).shape = some shape) ∧
        (Shape.broadcast shape (ev.known.value value).shape = some shape →
          ∃ ev', (e.setting s f.phase (feedTable feeds .empty)).evaluateSlot slot ev =
            .ok () ev') ∧
        (Shape.broadcast shape (ev.known.value value).shape ≠ some shape →
          ∃ e', run f feeds e =
            .error (.fault (.cannotStretch (ev.known.value value).shape shape)) e')) ∧
    ∀ source target e', run f feeds e = .error (.fault (.cannotStretch source target)) e' →
      ∃ slot value declared ev, e.graph.Assigns slot value target declared ∧
        e.Arrives s f feeds slot ev ∧ openAxis ∈ declared ∧
        source = (ev.known.value value).shape ∧ Shape.broadcast target source ≠ some target := by
  have hsound := h.sound
  have hfails : ∀ failure, (∃ e', run f feeds e = .error failure e') ↔
      ∃ ev, (e.setting s f.phase (feedTable feeds .empty)).evaluate
        ((f.outputs ++ f.updates).map (·.index)) (.start s.streams) = .error failure ev := fun _ =>
    exists_run_eq_error_iff hs hf.graph hfeeds fun n hn => hf.within n (List.mem_append_right _ hn)
  refine ⟨fun u hu => ?_, fun slot value shape declared hassign => ?_,
    fun source target e' hrun => ?_⟩
  · -- binding the function has checked that it lists updates
    obtain ⟨found, hfound, hop⟩ := hf.update u hu
    exact hsound.typed.exists_assigns hfound.node hop
  · refine ⟨hassign.broadcast hsound.typed, fun ev harrives => ?_⟩
    obtain ⟨hcovers, hfits, hmisfits⟩ := harrives.outcome hsound hs hf hfeeds hassign
    refine ⟨hcovers, fun hclosed => hassign.broadcast_of_not_open hsound.typed hclosed hcovers,
      hfits, fun hne => (hfails _).2 ⟨ev, ?_⟩⟩
    -- the run does not get past the update
    obtain ⟨before, after, hschedule, hbefore⟩ := harrives
    exact Setting.evaluateAll_eq_error_iff.2
      ⟨before, slot, after, ev, hschedule, hbefore, hmisfits hne⟩
  · obtain ⟨ev', hev'⟩ := (hfails _).1 ⟨e', hrun⟩
    obtain ⟨before, slot, after, ev, hschedule, hbefore, hslot⟩ :=
      Setting.evaluateAll_eq_error_iff.1 hev'
    have harrives : e.Arrives s f feeds slot ev := ⟨before, after, hschedule, hbefore⟩
    obtain ⟨-, -, -, hlt, -⟩ := harrives.exists_settled hsound hf
    obtain ⟨n, hn⟩ := Graph.exists_node_of_lt hlt
    -- only updates end in this fault, so the slot that the run failed at holds one
    have hobstacle : (e.setting s f.phase (feedTable feeds .empty)).Obstacle slot n.op
        (.fault (.cannotStretch source target)) :=
      Setting.obstacle_of_evaluateSlot hsound.typed (hsound.stocked hs _ _) hn _ _ hslot
    have hop : n.op.isUpdate := by
      generalize n.op = op at hobstacle
      generalize hfault : Failure.fault (.cannotStretch source target) = failure at hobstacle
      cases hobstacle with
      | unstretched update => exact update
      | unfed | mismatched => cases hfault
      | @unsampled _ _ _ _ defect => cases defect <;> cases hfault
    obtain ⟨value, shape, declared, hassign⟩ := hsound.typed.exists_assigns hn hop
    obtain ⟨hcovers, hfits, hmisfits⟩ := harrives.outcome hsound hs hf hfeeds hassign
    by_cases hbroadcast : Shape.broadcast shape (ev.known.value value).shape = some shape
    · obtain ⟨_, hok⟩ := hfits hbroadcast
      cases hok.symm.trans hslot
    · cases (hmisfits hbroadcast).symm.trans hslot
      refine ⟨slot, value, declared, _, hassign, harrives, ?_, rfl, hbroadcast⟩
      by_contra hclosed
      exact hbroadcast (hassign.broadcast_of_not_open hsound.typed hclosed hcovers)

/-- An engine with weights of two rows, and a placeholder for any number of rows. -/
def fillable : Engine := built [.weights [2, 2] .zeros "w", .placeholder "x" [openAxis, 2]]

/-- The same engine with an update of the weights by the rows. -/
def filling : Engine := built
  [.weights [2, 2] .zeros "w", .placeholder "x" [openAxis, 2], .update ⟨0, 1⟩ ⟨0, 2⟩]

/-- Some rows for the placeholder. -/
def rowsFed (n : Nat) : List (Node × Value) := [(⟨0, 2⟩, .full [n, 2] 1)]

/-- What is fed is set as the weights. -/
def fillRows : Function := .ofNodes 0 [⟨0, 2⟩] [] [⟨0, 3⟩]

/-- Two rows become the weights, and three rows end the run in a fault, since they do not stretch to
the weights. -/
theorem filling_fits_or_faults : gives (run fillRows (rowsFed 2)) filling ∧
    ∃ e' s slot value declared ev, filling.session = some s ∧
      run fillRows (rowsFed 3) filling = .error (.fault (.cannotStretch [3, 2] [2, 2])) e' ∧
      filling.graph.Assigns slot value [2, 2] declared ∧
      filling.Arrives s fillRows (rowsFed 3) slot ev ∧ openAxis ∈ declared ∧
      [3, 2] = (ev.known.value value).shape ∧ Shape.broadcast [2, 2] [3, 2] ≠ some [2, 2] := by
  have hreachable : filling.Reachable := reachable_built _
  have hid : filling.graph.id = 0 := by decide +kernel
  obtain ⟨s, hs⟩ := Option.isSome_iff_exists.1
    (by decide +kernel : filling.session.isSome)
  obtain ⟨f, e₁, hbound⟩ := exists_of_gives (c := function [⟨0, 2⟩] [] [⟨0, 3⟩]) (e := filling)
    (by decide +kernel)
  have hf : fillRows.Over filling.graph := by
    have hover := over_of_function hbound
    obtain ⟨-, rfl⟩ := (leads_function _ _ _).of_eq_ok hbound
    rwa [hid] at hover
  have hfeeds : ∀ feed ∈ rowsFed 3, Admitted filling.graph feed := by decide +kernel
  obtain ⟨-, -, hfaults⟩ := update_fits_or_faults hreachable hs hf hfeeds
  have hfaulty : (match run fillRows (rowsFed 3) filling with
      | .error (.fault (.cannotStretch source target)) _ => source == [3, 2] && target == [2, 2]
      | _ => false) = true := by decide +kernel
  refine ⟨by decide +kernel, ?_⟩
  -- the failure is read off the evaluated run, and the theorem says where it comes from
  split at hfaulty
  · next source target e' hrun =>
    obtain ⟨rfl, rfl⟩ : source = [3, 2] ∧ target = [2, 2] := by simpa using hfaulty
    obtain ⟨slot, value, declared, ev, hassign, harrives, hopen, hsource, hmisfits⟩ :=
      hfaults _ _ e' hrun
    exact ⟨e', s, slot, value, declared, ev, hs, hrun, hassign, harrives, hopen, hsource, hmisfits⟩
  · cases hfaulty

/-- A value that does not stretch to its variable is not always reported as a mismatch of shapes,
though the update has been accepted and the value can be evaluated. -/
theorem not_always_reported :
    ¬ ∀ (e e₁ e' : Engine) (target value u : Node) (feeds : List (Node × Value))
      (failure : Failure), e.Reachable → e.session.isSome →
      (update target value e = .ok u e₁ ∨ updateAdd target value e = .ok u e₁) →
      (∀ feed ∈ feeds, Admitted e₁.graph feed) →
      gives (run (.ofNodes e₁.graph.id (feeds.map (·.1)) [value] []) feeds) e₁ →
      run (.ofNodes e₁.graph.id (feeds.map (·.1)) [] [u]) feeds e₁ = .error failure e' →
      ∃ label expected actual, failure = .error (.shapeMismatch label expected actual) := by
  intro h
  have hfaulty : (match update ⟨0, 1⟩ ⟨0, 2⟩ fillable with
      | .ok u e₁ => decide (∀ feed ∈ rowsFed 3, Admitted e₁.graph feed) &&
        gives (run (.ofNodes e₁.graph.id ((rowsFed 3).map (·.1)) [⟨0, 2⟩] []) (rowsFed 3)) e₁ &&
        (match run (.ofNodes e₁.graph.id ((rowsFed 3).map (·.1)) [] [u]) (rowsFed 3) e₁ with
        | .error (.fault _) _ => true
        | _ => false)
      | .error _ _ => false) = true := by decide +kernel
  -- the update is accepted and its value can be fetched, but running it ends in a fault
  split at hfaulty
  · next u e₁ hupdate =>
    obtain ⟨hchecks, hfault⟩ := (Bool.and_eq_true _ _).mp hfaulty
    obtain ⟨hfeeds, hgives⟩ := (Bool.and_eq_true _ _).mp hchecks
    split at hfault
    · next cause e' hrun =>
      obtain ⟨label, expected, actual, heq⟩ := h fillable e₁ e' ⟨0, 1⟩ ⟨0, 2⟩ u (rowsFed 3) _
        (reachable_built _) (by decide +kernel) (.inl hupdate) (of_decide_eq_true hfeeds) hgives
        hrun
      cases heq
    · cases hfault
  · cases hfaulty

end Engine
end TensorGraph
