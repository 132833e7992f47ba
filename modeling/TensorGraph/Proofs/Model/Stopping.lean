import TensorGraph.Proofs.Learning.Windows
import TensorGraph.Proofs.Model.Reaching
import TensorGraph.Proofs.Model.Training

/-!
# Whether training stops on its way

Whether a batch makes a step depends on its shapes and element types only. So a training run that
has made a step with one batch goes on with every later batch of the same length. It can stop after
its first step in one place, at the smaller batch of the rows that are left over in the first epoch:
losses that broadcast against each other for one length need not do so for another one.

## Main definitions

* `Program.Trained`: the steps of some windows have been made.
* `Program.Stopped`: a training run that failed at a window.

## Main results

* `Program.gives_trainBatch_of_resemble`: similar batches.
* `Model.training_stops_early_at_leftovers`: where a training run can stop.
-/

namespace TensorGraph

open Engine
open Value (Resembles)

/-- Drawing from streams leaves the variables as they are. -/
theorem Engine.Drained.stored?_eq {e e' : Engine} (h : Drained e e') (slot : Nat) :
    e'.stored? slot = e.stored? slot := by
  obtain ⟨streams, records, rfl⟩ := h
  rw [stored?, Option.bind_map]
  rfl

namespace Program

variable {p : Program} {e e' e₁ e₂ : Engine} {window : Nat × Nat}
  {windows windows' : List (Nat × Nat)}
  {features targets features' targets' results : List Value} {plan : TrainingPlan}

/-! ## Similar batches -/

/-- Similar batches pass the same checks. -/
theorem batchFeeds_of_resemble (hfeatures : List.Forall₂ Resembles features features')
    (htargets : List.Forall₂ Resembles targets targets')
    (h : p.batchFeeds features targets = .ok (p.batchBindings features targets)) :
    p.batchFeeds features' targets' = .ok (p.batchBindings features' targets') := by
  obtain ⟨_, hcheck, h⟩ := except_bind_eq_ok_iff.1 h
  obtain ⟨_, hcheck', h⟩ := except_bind_eq_ok_iff.1 h
  obtain ⟨_, hcount, -⟩ := except_bind_eq_ok_iff.1 h
  -- the checks count values and rows, in which similar batches agree
  unfold checkFeatures at hcheck
  unfold checkTargets at hcheck'
  rw [hfeatures.length_eq] at hcheck
  rw [htargets.length_eq] at hcheck'
  rw [← rowCount_congr (List.rel_append hfeatures htargets)] at hcount
  exact except_bind_eq_ok_iff.2 ⟨_, hcheck, except_bind_eq_ok_iff.2 ⟨_, hcheck',
    except_bind_eq_ok_iff.2 ⟨_, hcount, rfl⟩⟩⟩

theorem Reads.phase_eq (h : p.Reads e.graph) : p.trainFunction.phase = .train := by
  obtain ⟨updates, -, hfunction⟩ := h.trainFunction
  rw [hfunction]
  rfl

/-- A step runs the training function on the batch. -/
theorem Reads.exists_ran (h : p.Reads e.graph)
    (htrain : p.trainBatch features targets e = .ok results e') :
    ∃ s ev values, Ran e s p.trainFunction (p.batchBindings features targets) ev values e' := by
  obtain ⟨updates, -, hfunction⟩ := h.trainFunction
  obtain ⟨-, -, hran⟩ :=
    exists_ran_of_trainBatch (by rw [hfunction]; rfl) (by rw [hfunction]; rfl) htrain
  exact hran

/-- After a step with one batch, a similar batch makes a step on any sound engine over the same
graph that has a session. -/
theorem gives_trainBatch_of_resemble (hreads : p.Reads e.graph) (hsound : e.Sound)
    (h : p.trainBatch features targets e = .ok results e₁)
    (hfeatures : List.Forall₂ Resembles features features')
    (htargets : List.Forall₂ Resembles targets targets') (hsound' : e'.Sound)
    (hgraph : e'.graph = e.graph) (hactive : e'.session.isSome) :
    gives (p.trainBatch features' targets') e' := by
  obtain ⟨updates, -, htrain⟩ := hreads.trainFunction
  have hinputs : p.trainFunction.inputs = p.inputs ++ p.targets := by rw [htrain]; rfl
  have hid : p.trainFunction.graph = e.graph.id := by rw [htrain]; rfl
  obtain ⟨hfeeds, hnodup, s, ev, values, hran⟩ :=
    exists_ran_of_trainBatch hinputs (by rw [htrain]; rfl) h
  have hfeeds' := batchFeeds_of_resemble hfeatures htargets hfeeds
  obtain ⟨hlength, hlength', -⟩ := batchFeeds_eq_ok hfeeds'
  -- the first step has shown that no input occurs twice
  have hresolve : p.trainFunction.resolve (p.batchBindings features' targets') =
      .ok (p.batchBindings features' targets') := by
    rw [batchBindings_eq_zip hinputs hlength]
    refine Function.resolve_zip_of_nodup hnodup ?_
    rw [hinputs, List.length_append, List.length_append, hlength, hlength']
  have hsimilar : FeedsResemble (p.batchBindings features targets)
      (p.batchBindings features' targets') :=
    List.rel_append (feedsResemble_zip hfeatures) (feedsResemble_zip htargets)
  obtain ⟨values', e₂, hrun⟩ := exists_of_gives
    (hran.gives_of_resembles hsound hid hreads.steady hsimilar hsound' hgraph hactive)
  have hlift : lift (p.batchFeeds features' targets') e' =
      .ok (p.batchBindings features' targets') e' := by
    rw [hfeeds']
    rfl
  have hexecute : execute p.trainFunction (p.batchBindings features' targets') e' =
      .ok values' e₂ := by
    refine bind_eq_ok_iff.2 ⟨_, e', ?_, hrun⟩
    rw [hresolve]
    rfl
  exact gives_bind hlift (gives_bind hexecute rfl)

/-! ## Steps -/

/-- From one engine to another the steps of some windows are made, and records. -/
inductive Trained (p : Program) (features targets : List Value) :
    List (Nat × Nat) → Engine → Engine → Prop
  | done {e e' : Engine} (reported : Reported e e') : Trained p features targets [] e e'
  | step {window : Nat × Nat} {windows : List (Nat × Nat)} {e e₁ e₂ e' : Engine}
      {batchFeatures batchTargets results : List Value} (reported : Reported e e₁)
      (features_eq : sliceAll features window.1 window.2 = .ok batchFeatures)
      (targets_eq : sliceAll targets window.1 window.2 = .ok batchTargets)
      (trained : p.trainBatch batchFeatures batchTargets e₁ = .ok results e₂)
      (rest : Trained p features targets windows e₂ e') :
      Trained p features targets (window :: windows) e e'

/-- The batch of a window makes a step on an engine. -/
def Accepts (p : Program) (features targets : List Value) (window : Nat × Nat) (e : Engine) :
    Prop :=
  ∃ batchFeatures batchTargets, sliceAll features window.1 window.2 = .ok batchFeatures ∧
    sliceAll targets window.1 window.2 = .ok batchTargets ∧
    gives (p.trainBatch batchFeatures batchTargets) e

/-- Training that made the steps of some windows and failed at the next one, whose batch changes
nothing but streams and records. -/
def Stopped (p : Program) (features targets : List Value) (windows : List (Nat × Nat))
    (window : Nat × Nat) (e e' : Engine) : Prop :=
  ∃ e₁, p.Trained features targets windows e e₁ ∧ ¬p.Accepts features targets window e₁ ∧
    Drained e₁ e'

namespace Trained

theorem of_reported (hreported : Reported e e₁) (h : p.Trained features targets windows e₁ e') :
    p.Trained features targets windows e e' := by
  cases h with
  | done reported => exact .done (hreported.trans reported)
  | step reported features_eq targets_eq trained rest =>
    exact .step (hreported.trans reported) features_eq targets_eq trained rest

theorem append (h : p.Trained features targets windows e e₁)
    (h' : p.Trained features targets windows' e₁ e') :
    p.Trained features targets (windows ++ windows') e e' := by
  induction h with
  | done reported => exact h'.of_reported reported
  | step reported features_eq targets_eq trained _ ih =>
    exact .step reported features_eq targets_eq trained (ih h')

end Trained

theorem Stopped.append (h : p.Trained features targets windows e e₁)
    (h' : p.Stopped features targets windows' window e₁ e') :
    p.Stopped features targets (windows ++ windows') window e e' := by
  obtain ⟨e₂, htrained, hrejects, hdrained⟩ := h'
  exact ⟨e₂, h.append htrained, hrejects, hdrained⟩

/-- A batch that fails changes nothing but streams and records. -/
theorem drained_trainBatch (features targets : List Value) :
    Leads (p.trainBatch features targets) e (Drained e) fun _ _ => True :=
  leads_lift .refl fun _ _ =>
    leads_bind_iff.2 ((leads_execute _ _).mono fun _ _ _ => leads_pure trivial)

/-- Training on windows makes all their steps, or stops at one of them. -/
theorem leads_trainWindows (features targets : List Value) (windows : List (Nat × Nat))
    (total : Float32) :
    Leads (p.trainWindows features targets windows total) e
      (fun e' => ∃ done window rest, windows = done ++ window :: rest ∧
        p.Stopped features targets done window e e')
      fun _ e' => p.Trained features targets windows e e' := by
  induction windows generalizing e total with
  | nil => exact leads_pure (.done .refl)
  | cons window windows ih =>
    -- when the first window is rejected, nothing has been trained
    have hstop : ∀ e', ¬p.Accepts features targets window e → Drained e e' →
        ∃ done first rest, window :: windows = done ++ first :: rest ∧
          p.Stopped features targets done first e e' :=
      fun e' hrejects hdrained => ⟨[], window, windows, rfl, e, .done .refl, hrejects, hdrained⟩
    refine leads_bind_iff.2 ?_
    cases hfeatures : sliceAll features window.1 window.2 with
    | error err =>
      refine hstop e ?_ .refl
      rintro ⟨_, _, h, -⟩
      cases hfeatures.symm.trans h
    | ok batchFeatures =>
      refine leads_bind_iff.2 ?_
      cases htargets : sliceAll targets window.1 window.2 with
      | error err =>
        refine hstop e ?_ .refl
        rintro ⟨_, _, -, h, -⟩
        cases htargets.symm.trans h
      | ok batchTargets =>
        refine leads_bind_iff.2 ?_
        have hfails := p.drained_trainBatch (e := e) batchFeatures batchTargets
        unfold Leads at hfails ⊢
        cases htrain : p.trainBatch batchFeatures batchTargets e with
        | error failure e₁ =>
          rw [htrain] at hfails
          refine hstop e₁ ?_ hfails
          rintro ⟨_, _, h, h', hgives⟩
          obtain rfl := Except.ok.inj (hfeatures.symm.trans h)
          obtain rfl := Except.ok.inj (htargets.symm.trans h')
          rw [gives, htrain] at hgives
          cases hgives
        | ok losses e₁ =>
          have hfirst : p.Trained features targets [window] e e₁ :=
            .step .refl hfeatures htargets htrain (.done .refl)
          refine (ih _).imp ?_ fun _ e' hrest => hfirst.append hrest
          rintro e' ⟨done, first, rest, hsplit, hstopped⟩
          exact ⟨window :: done, first, rest, congrArg (window :: ·) hsplit,
            hstopped.append hfirst⟩

/-- Training for some epochs gives a loss for each of them and makes all their steps, or stops at
one of the windows. -/
theorem leads_trainEpochs (features targets : List Value) (plan : TrainingPlan)
    (windows : List (Nat × Nat)) (more epoch : Nat) :
    Leads (p.trainEpochs features targets plan windows more epoch) e
      (fun e' => ∃ done window rest,
        (List.replicate more windows).flatten = done ++ window :: rest ∧
        p.Stopped features targets done window e e')
      fun history e' => history.length = more ∧
        p.Trained features targets (List.replicate more windows).flatten e e' := by
  induction more generalizing e epoch with
  | zero => exact leads_pure ⟨rfl, .done .refl⟩
  | succ more ih =>
    rw [List.replicate_succ, List.flatten_cons]
    refine leads_bind_iff.2 ((leads_trainWindows features targets windows 0).imp ?_ ?_)
    · rintro e' ⟨done, window, rest, hsplit, hstopped⟩
      exact ⟨done, window, rest ++ (List.replicate more windows).flatten, by simp [hsplit],
        hstopped⟩
    intro total e₁ hepoch
    -- the rest starts from an engine that may have made one more record
    have hrest : ∀ e₂, Reported e₁ e₂ → ∀ loss : Float32,
        Leads (do return loss :: (← p.trainEpochs features targets plan windows more (epoch + 1)))
          e₂ (fun e' => ∃ done window rest,
            windows ++ (List.replicate more windows).flatten = done ++ window :: rest ∧
            p.Stopped features targets done window e e')
          fun history e' => history.length = more + 1 ∧
            p.Trained features targets (windows ++ (List.replicate more windows).flatten) e e' := by
      intro e₂ hreported loss
      have hepoch' : p.Trained features targets windows e e₂ := by
        simpa using hepoch.append (.done hreported)
      refine leads_bind_iff.2 ((ih (epoch + 1)).imp ?_ ?_)
      · rintro e' ⟨done, window, rest, hsplit, hstopped⟩
        exact ⟨windows ++ done, window, rest, by simp [hsplit], hstopped.append hepoch'⟩
      · rintro history e' ⟨hlength, hmore⟩
        exact leads_pure ⟨congrArg Nat.succ hlength, hepoch'.append hmore⟩
    dsimp only
    split
    · exact leads_bind_iff.2 (hrest _ (reported_report _) _)
    · exact hrest _ .refl _

/-! ## Windows of one length -/

/-- A step leaves the graph as it is, and a session. -/
theorem keeps_of_trainBatch (hreads : p.Reads e.graph)
    (h : p.trainBatch features targets e = .ok results e') :
    e'.graph = e.graph ∧ e'.session.isSome := by
  obtain ⟨s, ev, values, hran⟩ := hreads.exists_ran h
  exact ⟨hran.graph, by rw [hran.session]; rfl⟩

/-- Steps leave the graph as it is and the engine sound. -/
theorem Trained.keeps (h : p.Trained features targets windows e e') (hreads : p.Reads e.graph)
    (hsound : e.Sound) :
    e'.graph = e.graph ∧ e'.Sound ∧ (e.session.isSome → e'.session.isSome) := by
  induction h with
  | done reported =>
    have hsound' := reported.changes.sound hsound
    obtain ⟨records, rfl⟩ := reported
    exact ⟨rfl, hsound', id⟩
  | step reported _ _ trained _ ih =>
    -- each step needs what the program reads, which the records and steps before it keep
    have hreads' := hreads.extend reported.changes.extends
    have hsound' := reported.changes.sound hsound
    obtain ⟨hgraph, hactive⟩ := keeps_of_trainBatch hreads' trained
    obtain ⟨hgraph', hsound'', hactive'⟩ := ih (hgraph ▸ hreads')
      (p.preserves_sound_trainBatch _ _ _ _ _ hsound' trained)
    exact ⟨hgraph'.trans (hgraph.trans reported.graph_eq), hsound'', fun _ => hactive' hactive⟩

/-- After the step of one window every window of the same length can make its step. -/
theorem Trained.accepts (h : p.Trained features targets windows e e') (hreads : p.Reads e.graph)
    (hsound : e.Sound) {rows : Nat} (hfeatures : ∀ v ∈ features, v.rows = some rows)
    (htargets : ∀ v ∈ targets, v.rows = some rows) {earlier : Nat × Nat} (hmem : earlier ∈ windows)
    (hlength : window.2 = earlier.2) (hrange : window.1 + window.2 ≤ rows) :
    p.Accepts features targets window e' := by
  induction h with
  | done => cases hmem
  | step reported features_eq targets_eq trained rest ih =>
    have hreads₁ := hreads.extend reported.changes.extends
    have hsound₁ := reported.changes.sound hsound
    obtain ⟨hgraph, hactive⟩ := keeps_of_trainBatch hreads₁ trained
    have hreads₂ := hgraph ▸ hreads₁
    have hsound₂ := p.preserves_sound_trainBatch _ _ _ _ _ hsound₁ trained
    -- a window that was accepted first, or later on
    rcases List.mem_cons.1 hmem with rfl | hmem
    · obtain ⟨hgraph', hsound', hactive'⟩ := rest.keeps hreads₂ hsound₂
      obtain ⟨batchFeatures, hbatch⟩ := exists_sliceAll hfeatures hrange
      obtain ⟨batchTargets, hbatch'⟩ := exists_sliceAll htargets hrange
      rw [hlength] at hbatch hbatch'
      refine ⟨batchFeatures, batchTargets, hlength ▸ hbatch, hlength ▸ hbatch', ?_⟩
      exact gives_trainBatch_of_resemble hreads₁ hsound₁ trained
        (forall₂_of_sliceAll features_eq hbatch) (forall₂_of_sliceAll targets_eq hbatch') hsound'
        (hgraph'.trans hgraph) (hactive' hactive)
    · exact ih hreads₂ hsound₂ hmem

/-- Training by a plan trains on its windows. -/
theorem leads_trainWith_of_plan {rows : Nat}
    (hplan : p.planWindows features targets plan = .ok (rows, windows)) :
    Leads (p.trainWith features targets plan) e
      (fun e' => ∃ done window rest,
        (List.replicate plan.epochs windows).flatten = done ++ window :: rest ∧
        p.Stopped features targets done window e e')
      fun history e' => history.length = plan.epochs ∧
        p.Trained features targets (List.replicate plan.epochs windows).flatten e e' := by
  -- the report of rows that are dropped is a record in front of the training
  have hrest : ∀ e₁, Reported e e₁ →
      Leads (p.trainEpochs features targets plan windows plan.epochs 0) e₁
        (fun e' => ∃ done window rest,
          (List.replicate plan.epochs windows).flatten = done ++ window :: rest ∧
          p.Stopped features targets done window e e')
        fun history e' => history.length = plan.epochs ∧
          p.Trained features targets (List.replicate plan.epochs windows).flatten e e' := by
    intro e₁ hreported
    refine (leads_trainEpochs features targets plan windows plan.epochs 0).imp ?_ ?_
    · rintro e' ⟨done, window, rest, hsplit, hstopped⟩
      exact ⟨done, window, rest, hsplit, hstopped.append (.done hreported)⟩
    · rintro history e' ⟨hlength, htrained⟩
      exact ⟨hlength, htrained.of_reported hreported⟩
  unfold trainWith
  rw [hplan]
  refine leads_bind_iff.2 (leads_pure ?_)
  dsimp only
  split
  · exact leads_bind_iff.2 (hrest _ (reported_report _))
  · exact hrest _ .refl

/-- What a plan refuses changes nothing. -/
theorem leads_trainWith (features targets : List Value) (plan : TrainingPlan) :
    Leads (p.trainWith features targets plan) e
      (fun e' => e' = e ∨ ∃ rows windows done window rest,
        p.planWindows features targets plan = .ok (rows, windows) ∧
        (List.replicate plan.epochs windows).flatten = done ++ window :: rest ∧
        p.Stopped features targets done window e e')
      fun history e' => history.length = plan.epochs ∧ ∃ rows windows,
        p.planWindows features targets plan = .ok (rows, windows) ∧
        p.Trained features targets (List.replicate plan.epochs windows).flatten e e' := by
  cases hplan : p.planWindows features targets plan with
  | error err =>
    unfold trainWith
    rw [hplan]
    exact .inl rfl
  | ok planned =>
    obtain ⟨rows, windows⟩ := planned
    refine (leads_trainWith_of_plan hplan).imp ?_ ?_
    · rintro e' ⟨done, window, rest, hsplit, hstopped⟩
      exact .inr ⟨rows, windows, done, window, rest, rfl, hsplit, hstopped⟩
    · rintro history e' ⟨hlength, htrained⟩
      exact ⟨hlength, rows, windows, rfl, htrained⟩

/-- What a plan says about the data that it accepts. -/
theorem planWindows_eq_ok {rows : Nat}
    (h : p.planWindows features targets plan = .ok (rows, windows)) :
    (∀ v ∈ features ++ targets, v.rows = some rows) ∧ windows = plan.windows rows := by
  obtain ⟨_, -, h⟩ := except_bind_eq_ok_iff.1 h
  obtain ⟨_, -, h⟩ := except_bind_eq_ok_iff.1 h
  obtain ⟨counted, hcounted, h⟩ := except_bind_eq_ok_iff.1 h
  have hrows := rows_of_rowCount hcounted
  -- the checks of the plan itself
  dsimp only at h
  split at h
  · cases h
  split at h
  · cases h
  split at h
  · cases h
  cases h
  exact ⟨hrows, rfl⟩

end Program

namespace Model

/-- On every engine that a compiled model can find itself on, training by a plan either gives one
loss for every epoch and makes the steps of all windows of all epochs, or fails and makes no step at
all, so that nothing changes but streams and records, with one exception. When the rows that are
left over form a smaller batch, and all full batches before it have made their steps, training can
fail at this batch, in the first epoch. Then the steps are not taken back. -/
theorem training_stops_early_at_leftovers {m : Model} {e₀ e₁ e : Engine} {p : Program}
    (hsound : e₀.Sound) (hcompile : m.compile e₀ = .ok p e₁) (hchanges : Changes e₁ e)
    (features targets : List Value) (plan : TrainingPlan) :
    Leads (p.trainWith features targets plan) e
      (fun e' => Drained e e' ∨ ∃ rows windows window,
        p.planWindows features targets plan = .ok (rows, windows ++ [window]) ∧ windows ≠ [] ∧
        plan.partialBatch = .include ∧ 0 < rows % plan.batchSize ∧
        p.Stopped features targets windows window e e')
      fun history e' => history.length = plan.epochs ∧ ∃ rows windows,
        p.planWindows features targets plan = .ok (rows, windows) ∧
        p.Trained features targets (List.replicate plan.epochs windows).flatten e e' := by
  have hreads := (reads_of_compile hsound hcompile).extend hchanges.extends
  have hsound := hchanges.sound (sound_of_compile hsound hcompile)
  refine (Program.leads_trainWith features targets plan).imp ?_ fun _ _ h => h
  rintro e' (rfl | ⟨rows, windows, done, window, rest, hplan, hsplit, hstopped⟩)
  · exact .inl .refl
  obtain ⟨hrows, rfl⟩ := Program.planWindows_eq_ok hplan
  obtain ⟨e₂, htrained, hrejects, hdrained⟩ := hstopped
  have hwindow : window ∈ plan.windows rows :=
    TrainingPlan.mem_windows_of_split hsplit
  -- a window of the length of an earlier one would have been accepted
  have hnew : ∀ earlier ∈ done, earlier.2 ≠ window.2 := by
    intro earlier hearlier hlength
    obtain ⟨hfeatures, htargets⟩ := List.forall_mem_append.1 hrows
    exact hrejects (htrained.accepts hreads hsound hfeatures htargets hearlier hlength.symm
      (TrainingPlan.le_rows_of_mem_windows hwindow))
  rcases TrainingPlan.eq_windows_of_new_length hsplit hnew with rfl | ⟨hinclude, hrest, hwindows⟩
  · cases htrained with
    | done reported => exact .inl (reported.drained.trans hdrained)
  · by_cases hnil : done = []
    · subst hnil
      cases htrained with
      | done reported => exact .inl (reported.drained.trans hdrained)
    · exact .inr ⟨rows, done, window, hwindows ▸ hplan, hnil, hinclude, hrest, e₂, htrained,
        hrejects, hdrained⟩

/-- A model of one number and of three chances. The squared errors of a batch have one number for
every row, and the cross entropies have three. -/
def mixed : Model where
  network := ⟨0, #[⟨"x", .input (.singles none)⟩,
    ⟨"number", .dense (.ones 1 (some .linear) none Nat.one_pos) ⟨0, 0⟩⟩,
    ⟨"chances", .dense (.ones 3 (some .linear) none Dense.units_pos_three) ⟨0, 0⟩⟩]⟩
  inputs := [⟨0, 0⟩]
  outputs := [⟨0, 1⟩, ⟨0, 2⟩]
  losses := [.meanSquaredError, .binaryCrossEntropy]
  descent := .halves
  metrics := []

def mixedTargets : List Value := [.full [5, 1] 1, .full [5, 3] 1]

/-- Five rows leave a batch of two after one of three. -/
def inThrees : TrainingPlan := { epochs := 1, batchSize := 3, verbose := false }

/-- Losses of shapes `[3]` and `[3, 3]` broadcast, and those of shapes `[2]` and `[2, 3]` do not. So
training fails after one step, which has been counted. -/
theorem mixed_fails_at_leftovers :
    ∃ p e failure e', mixed.compile (.create 0 0) = .ok p e ∧
      p.trainWith [.full [5, 1] 1] mixedTargets inThrees e = .error failure e' ∧
      p.planWindows [.full [5, 1] 1] mixedTargets inThrees = .ok (5, [(0, 3)] ++ [(3, 2)]) ∧
      e.find? "SGD_Iterations" = some ⟨0, 27⟩ ∧
      (e.stored? 27).map (·.data) = some #[0] ∧ (e'.stored? 27).map (·.data) = some #[1] := by
  -- all facts about the run are decided at once, so that it is computed once
  obtain ⟨⟨p, e⟩, e₁, hrun, hfacts⟩ := exists_of_answer (c := mixed.compileKeeping)
    (e := .create 0 0)
    (f := fun r => decide (
      gives (r.1.trainWith [.full [5, 1] 1] mixedTargets inThrees) r.2 = false ∧
      (r.1.planWindows [.full [5, 1] 1] mixedTargets inThrees).toOption =
        some (5, [(0, 3), (3, 2)]) ∧
      r.2.find? "SGD_Iterations" = some ⟨0, 27⟩ ∧ (r.2.stored? 27).map (·.data) = some #[0] ∧
      ((r.2.after (r.1.trainWith [.full [5, 1] 1] mixedTargets inThrees)).stored? 27).map
        (·.data) = some #[1]))
    (b := true) (by decide +kernel)
  obtain ⟨hfails, hplan, hname, hbefore, hafter⟩ := of_decide_eq_true hfacts
  obtain ⟨_, _, hcompile, hrun⟩ := bind_eq_ok_iff.1 hrun
  cases hrun
  obtain ⟨failure, e', hfail⟩ := exists_of_not_gives hfails
  rw [after, hfail] at hafter
  refine ⟨p, e, failure, e', hcompile, hfail, ?_, hname, hbefore, hafter⟩
  cases hwindows : p.planWindows [.full [5, 1] 1] mixedTargets inThrees with
  | ok planned =>
    rw [hwindows] at hplan
    exact congrArg Except.ok (Option.some.inj hplan)
  | error err =>
    rw [hwindows] at hplan
    cases hplan

/-- The step before the rows that are left over stays made. -/
theorem mixed_keeps_first_step :
    ∃ p e failure e₁ e', mixed.compile (.create 0 0) = .ok p e ∧
      p.trainWith [.full [5, 1] 1] mixedTargets inThrees e = .error failure e' ∧
      p.Trained [.full [5, 1] 1] mixedTargets [(0, 3)] e e₁ ∧ Drained e₁ e' := by
  obtain ⟨p, e, failure, e', hcompile, hfail, hplan, -, hbefore, hafter⟩ := mixed_fails_at_leftovers
  have hleads := training_stops_early_at_leftovers (sound_create 0 0) hcompile .refl
    [.full [5, 1] 1] mixedTargets inThrees
  rw [Leads, hfail] at hleads
  obtain hdrained | ⟨rows, windows, window, hplan', -, -, -, e₁, htrained, -, hdrained⟩ := hleads
  · -- the counter would not have moved
    rw [hdrained.stored?_eq, hbefore] at hafter
    exact absurd hafter (by decide +kernel)
  · obtain ⟨rfl, hsplit⟩ := Prod.mk.inj (Except.ok.inj (hplan'.symm.trans hplan))
    obtain ⟨rfl, -⟩ := List.append_inj' hsplit rfl
    exact ⟨p, e, failure, e₁, e', hcompile, hfail, htrained, hdrained⟩

/-- Training that fails need not leave the variables as they were. -/
theorem training_not_all_or_nothing :
    ¬∀ (m : Model) (p : Program) (e₀ e e' : Engine) (features targets : List Value)
      (plan : TrainingPlan) (failure : Failure), e₀.Reachable → m.compile e₀ = .ok p e →
      p.trainWith features targets plan e = .error failure e' →
      ∀ slot, e'.stored? slot = e.stored? slot := by
  intro hall
  obtain ⟨p, e, failure, e', hcompile, hfail, -, -, hbefore, hafter⟩ := mixed_fails_at_leftovers
  rw [hall mixed p _ e e' _ _ _ failure (.create 0 0) hcompile hfail 27, hbefore] at hafter
  exact absurd hafter (by decide +kernel)

end Model
end TensorGraph
