import TensorGraph.Proofs.Model.Inference
import TensorGraph.Proofs.Model.Stopping
import TensorGraph.Proofs.Run.Integers

/-!
# Counting the steps of training

A compiled model keeps a counter. Every batch that makes a step adds one to it, on its own or as
part of a longer training, and nothing else changes it: neither a batch that fails, nor a question
to the model, nor a failure that ends a training later on. Single precision holds the counter, so it
counts up to `2 ^ 24`.

## Main definitions

* `Program.stepsOn`: how many windows make a step, one after the other.
* `Program.steps`: how many steps the uses of a program make.
* `Program.Tallies`: a variable counts the steps of a program.
* `Engine.Counted`: an engine on which so many steps have been counted.

## Main results

* `Engine.Counted.trainBatch`: a step is counted once.
* `Engine.Counted.use`: what a use of a program counts.
* `Model.iterations_counts_steps`: the counter of a compiled model reads the number of steps.
-/

namespace TensorGraph

open Engine
open Single (Representable)

/-! ## Counters in single precision -/

namespace Tensor

/-- An integer is one number, read exactly. -/
theorem ofValue_integer (n : Int64) :
    (ofValue (.integer n) : Tensor ℚ) = full [] (n.toInt : ℚ) := by
  refine eq_of_entries rfl fun i j hi hj => ?_
  obtain rfl : i = 0 := Nat.lt_one_iff.1 hi
  obtain rfl : j = 0 := Nat.lt_one_iff.1 hj
  rw [entry_full Nat.one_pos Nat.one_pos]
  simp only [entry, ofValue, Value.integer, Nat.zero_mul, Nat.add_zero, Array.getD_eq_getD_getElem?,
    Array.getElem?_map]
  rfl

theorem reads_integer {n : Int64} (h : Representable n.toInt) :
    (ofValue (.integer n) : Tensor Float32).Reads (full [] n.toInt) := by
  rw [← ofValue_integer]
  exact reads_ofValue rfl (Engine.representable_integer h)

/-- Adding one to a natural number is exact below `2 ^ 24`. -/
theorem Reads.succ {t : Tensor Float32} {n : Nat} (h : t.Reads (full [] n)) (hn : n < 2 ^ 24) :
    (t.add ((ofValue (.integer 1)).stretch t.shape)).Reads (full [] (n + 1 : Nat)) := by
  have hheld : Representable ((n + 1 : Nat) : ℤ) := Single.representable_of_natAbs_le (by omega)
  have hone := reads_integer (n := 1) (Single.representable_of_natAbs_le (by decide))
  have hshape : t.shape = (ofValue (.integer 1) : Tensor Float32).shape := h.shape
  rw [hshape, stretch_self]
  -- rounding does nothing, because the successor has a float of its own
  refine reads_of_entries hshape fun i j (hi : i < Shape.rows []) (hj : j < Shape.cols []) => ?_
  have hsum := Single.reads_add (h.entry i j) (hone.entry i j)
  rw [entry_full hi hj, entry_full hi hj] at hsum
  rw [entry_full hi hj, add,
    entry_combine_of_shape_eq rfl hshape.symm (h.shape ▸ hi) (h.shape ▸ hj)]
  have hcast : (n : ℚ) + ((1 : Int64).toInt : ℚ) = (n + 1 : Nat) := by push_cast; rfl
  rw [hcast] at hsum
  exact hsum (by exact_mod_cast hheld)

/-- What holds a natural number is fetched as that. -/
theorem Reads.toValue_eq {t : Tensor Float32} {n : Nat} (h : t.Reads (full [] n))
    (hn : n ≤ 2 ^ 24) : t.toValue .i64 = .integer (.ofNat n) := by
  have hint : (Int64.ofNat n).toInt = n := by
    rw [Int64.toInt_ofNat_of_lt (by omega)]
  have hnat : ((Int64.ofNat n).toInt : ℚ) = n := by rw [hint, Int.cast_natCast]
  have hheld := Engine.representable_integer (v := .ofNat n)
    (hint ▸ Single.representable_of_natAbs_le (by omega))
  refine eq_of_ofValue_eq (type_toValue _ _) rfl ?_
  rw [← hnat, ← ofValue_integer] at h
  exact ofValue_toValue h (whole_ofValue rfl hheld)

end Tensor

/-! ## The steps of a use -/

namespace Program

variable {p : Program} {g : Graph} {e e' : Engine} {features targets : List Value}
  {windows rest : List (Nat × Nat)} {window : Nat × Nat} {plan : TrainingPlan}
  {iterations count n : Nat}

/-- The batch of a window. -/
def trainWindow (p : Program) (features targets : List Value) (window : Nat × Nat) :
    Call (List Value) := do
  let batchFeatures ← lift (sliceAll features window.1 window.2)
  let batchTargets ← lift (sliceAll targets window.1 window.2)
  p.trainBatch batchFeatures batchTargets

/-- How many windows make a step, one after the other, until one fails. -/
def stepsOn (p : Program) (features targets : List Value) : List (Nat × Nat) → Engine → Nat
  | [], _ => 0
  | window :: windows, e =>
    match p.trainWindow features targets window e with
    | .ok _ e' => p.stepsOn features targets windows e' + 1
    | .error _ _ => 0

/-- How many steps a use makes. -/
def Use.steps (p : Program) : Use → Engine → Nat
  | trainBatch features targets, e => if gives (p.trainBatch features targets) e then 1 else 0
  | trainWith features targets plan, e =>
    match p.planWindows features targets plan with
    | .ok (_, windows) => p.stepsOn features targets (List.replicate plan.epochs windows).flatten e
    | .error _ => 0
  | predict _, _ | evaluate _ _, _ => 0

/-- How many steps several uses make, one after the other, whatever comes of them. -/
def steps (p : Program) : List Use → Engine → Nat
  | [], _ => 0
  | u :: us, e => u.steps p e + p.steps us (e.after (u.call p))

/-- A window whose batch makes a step. -/
theorem trainWindow_eq_ok_iff {results : List Value} :
    p.trainWindow features targets window e = .ok results e' ↔
      ∃ batchFeatures batchTargets, sliceAll features window.1 window.2 = .ok batchFeatures ∧
        sliceAll targets window.1 window.2 = .ok batchTargets ∧
        p.trainBatch batchFeatures batchTargets e = .ok results e' := by
  simp only [trainWindow, lift_bind_eq_ok_iff, exists_and_left]

theorem stepsOn_cons_of_ok {results : List Value}
    (h : p.trainWindow features targets window e = .ok results e') :
    p.stepsOn features targets (window :: windows) e =
      p.stepsOn features targets windows e' + 1 := by
  rw [stepsOn, h]

/-- Records do not matter to the number of steps. -/
theorem stepsOn_eq_of_twin (windows : List (Nat × Nat)) (h : Twin g e e') :
    p.stepsOn features targets windows e' = p.stepsOn features targets windows e := by
  induction windows generalizing e e' with
  | nil => rfl
  | cons window windows ih =>
    have hblind : Blind (Twin g) (p.trainWindow features targets window) :=
      (blind_lift _).bind fun _ => (blind_lift _).bind fun _ =>
        blind_trainBatch (fun feeds => blind_execute _ feeds) _ _
    have hagree := hblind e e' h
    unfold stepsOn
    revert hagree
    generalize p.trainWindow features targets window e = r
    generalize p.trainWindow features targets window e' = r'
    rintro (h | h)
    · exact congrArg (· + 1) (ih h)
    · rfl

/-- The steps of training that were made count first. -/
theorem Trained.stepsOn_append (h : p.Trained features targets windows e e')
    (rest : List (Nat × Nat)) :
    p.stepsOn features targets (windows ++ rest) e =
      windows.length + p.stepsOn features targets rest e' := by
  induction h with
  | done reported =>
    rw [List.nil_append, List.length_nil, Nat.zero_add]
    exact (stepsOn_eq_of_twin rest (.of_reported reported)).symm
  | @step window windows e e₁ e₂ e' _ _ _ reported features_eq targets_eq trained _ ih =>
    -- records in front of a step do not change how many steps follow
    have hwindow := trainWindow_eq_ok_iff.2 ⟨_, _, features_eq, targets_eq, trained⟩
    rw [← stepsOn_eq_of_twin _ (.of_reported reported), List.cons_append,
      stepsOn_cons_of_ok hwindow, ih, List.length_cons]
    omega

theorem Trained.stepsOn_eq (h : p.Trained features targets windows e e') :
    p.stepsOn features targets windows e = windows.length := by
  have hsteps := h.stepsOn_append []
  rwa [List.append_nil, stepsOn, Nat.add_zero] at hsteps

/-- Training that stopped at a window made the steps before it. -/
theorem Stopped.stepsOn_eq (h : p.Stopped features targets windows window e e')
    (rest : List (Nat × Nat)) :
    p.stepsOn features targets (windows ++ window :: rest) e = windows.length := by
  obtain ⟨e₁, htrained, hrejects, -⟩ := h
  rw [htrained.stepsOn_append]
  -- the engine has rejected this window, so no further step is made
  suffices p.stepsOn features targets (window :: rest) e₁ = 0 by rw [this, Nat.add_zero]
  unfold stepsOn
  split
  · next results e₂ hwindow =>
    obtain ⟨batchFeatures, batchTargets, hfeatures, htargets, htrain⟩ :=
      trainWindow_eq_ok_iff.1 hwindow
    refine absurd ⟨batchFeatures, batchTargets, hfeatures, htargets, ?_⟩ hrejects
    rw [gives, htrain]
  · rfl

/-! ## What is counted -/

/-- A variable counts the steps of a program: a step reaches one update of it, which adds one. -/
structure Tallies (p : Program) (g : Graph) (iterations count : Nat) : Prop where
  reads : p.Reads g
  counts : Descent.Counts g iterations count
  mem : count ∈ p.trainFunction.updates.map (·.index)
  only : ∀ u ∈ p.stepUpdates g, g.updated? u = some iterations → u = count

end Program

namespace Engine

variable {p : Program} {g : Graph} {e e' : Engine} {features targets results : List Value}
  {windows : List (Nat × Nat)} {iterations count n : Nat}

/-- A run that reaches one update of a counter, which adds one. -/
theorem Ran.stored?_of_counts {s : Session} {f : Function} {feeds : List (Node × Value)}
    {ev : Evaluation Float32} {values : List Value} (h : Ran e s f feeds ev values e')
    (hsound : e.Sound) (hcounts : Descent.Counts e.graph iterations count)
    (hmem : count ∈ f.updates.map (·.index))
    (honly : ∀ u ∈ e.graph.updates ((f.outputs ++ f.updates).map (·.index)),
      e.graph.updated? u = some iterations → u = count)
    {t : Tensor Float32} (ht : e.stored? iterations = some t) :
    e'.stored? iterations = some (t.add ((Tensor.ofValue (.integer 1)).stretch t.shape)) := by
  obtain ⟨one, hcount, hone⟩ := hcounts.update
  have hupdated : e.graph.updated? count = some iterations := Graph.updated?_of_op? hcount
  have hsettled := h.settled hsound
  have hfinished := h.finished hsound
  obtain ⟨m, hm, rfl⟩ := List.mem_map.1 hmem
  have hlisted := (h.mem_listed_iff hsound).2 ⟨m, List.mem_append_right _ hm, .refl⟩
  have hdelta := hfinished.mem_of_op? hlisted hcount (o := one)
    (by simp [Op.operands, Op.inputs])
  have hone := Except.ok.inj (hsettled.computed_op hdelta hone)
  have hadded := hsettled.recompute_eq hsound.typed hfinished (Nat.lt_succ_self one) hdelta
  -- what the update contributes is the sum of the value before the run and of one
  obtain ⟨node, hnode, hop⟩ := Option.map_eq_some_iff.1 hcount
  have hsum : (e.setting s f.phase (feedTable feeds .empty)).contribution ev.noise.get? m.index =
      some (t.add ((Tensor.ofValue (.integer 1)).stretch t.shape)) := by
    have hread : (e.setting s f.phase (feedTable feeds .empty)).graph.nodes[m.index]? = some node :=
      hnode
    have hcurrent : (e.setting s f.phase (feedTable feeds .empty)).store.get? iterations = some t :=
      (stored?_eq h.active _).symm.trans ht
    rw [Setting.contribution, hread, Option.bind_some, hop, Setting.contribute, hadded, ← hone,
      hcurrent]
    rfl
  rw [h.stored?_of_unique hsound hmem hupdated honly, ← hsum]
  exact (hsettled.contribution_eq hsound.typed hfinished hlisted hupdated).symm

/-- An engine over a graph, on which a number of steps has been counted. -/
structure Counted (g : Graph) (iterations : Nat) (e : Engine) (n : Nat) : Prop where
  graph : e.graph = g
  sound : e.Sound
  reads : ∃ t, e.stored? iterations = some t ∧ t.Reads (.full [] n)

namespace Counted

theorem drained (h : Counted g iterations e n) (hdrained : Drained e e') :
    Counted g iterations e' n := by
  have hsound := hdrained.changes.sound h.sound
  obtain ⟨t, ht, hreads⟩ := h.reads
  refine ⟨?_, hsound, t, (hdrained.stored?_eq iterations).trans ht, hreads⟩
  obtain ⟨streams, records, rfl⟩ := hdrained
  exact h.graph

/-- A step is counted once. -/
theorem trainBatch (h : Counted g iterations e n) (htallies : p.Tallies g iterations count)
    (hn : n < 2 ^ 24) (htrain : p.trainBatch features targets e = .ok results e') :
    Counted g iterations e' (n + 1) := by
  obtain ⟨rfl, hsound, t, ht, hreads⟩ := h
  obtain ⟨s, ev, values, hran⟩ := htallies.reads.exists_ran htrain
  exact ⟨hran.graph, p.preserves_sound_trainBatch _ _ _ _ _ hsound htrain, _,
    hran.stored?_of_counts hsound htallies.counts htallies.mem htallies.only ht, hreads.succ hn⟩

/-- The steps of a training are counted. -/
theorem trained (h : Counted g iterations e n) (htallies : p.Tallies g iterations count)
    (htrained : p.Trained features targets windows e e') (hn : n + windows.length ≤ 2 ^ 24) :
    Counted g iterations e' (n + windows.length) := by
  induction htrained generalizing n with
  | done reported => exact h.drained reported.drained
  | step reported _ _ trained _ ih =>
    rw [List.length_cons] at hn ⊢
    have hstep := (h.drained reported.drained).trainBatch htallies (by omega) trained
    have hrest := ih hstep (by omega)
    rwa [Nat.add_assoc, Nat.add_comm 1] at hrest

/-- What a use of a program counts, whether it succeeds or fails. -/
theorem use (h : Counted g iterations e n) (htallies : p.Tallies g iterations count)
    (u : Program.Use) (hn : n + u.steps p e ≤ 2 ^ 24) :
    Counted g iterations (e.after (u.call p)) (n + u.steps p e) := by
  have hreads : p.Reads e.graph := h.graph ▸ htallies.reads
  -- a question leaves only records, and these do not move the counter
  have hquestion : u.trains = false → u.steps p e = 0 →
      Counted g iterations (e.after (u.call p)) (n + u.steps p e) := by
    intro hu hzero
    rw [hzero]
    exact h.drained (Program.reported_of_asking h.sound.typed hreads hu).drained
  cases u with
  | predict | evaluate => exact hquestion rfl rfl
  | trainBatch features targets =>
    rw [Program.Use.call, after_bind_pure, after]
    rw [Program.Use.steps, gives] at hn ⊢
    cases htrain : p.trainBatch features targets e with
    | ok results e₁ =>
      rw [htrain] at hn
      exact h.trainBatch htallies hn htrain
    | error failure e₁ =>
      exact h.drained ((p.drained_trainBatch features targets).of_eq_error htrain)
  | trainWith features targets plan =>
    rw [Program.Use.call, after_bind_pure]
    rw [Program.Use.steps] at hn ⊢
    cases hplan : p.planWindows features targets plan with
    | error err =>
      refine h.drained ?_
      rw [after, Program.trainWith, hplan]
      exact .refl
    | ok planned =>
      obtain ⟨rows, windows⟩ := planned
      simp only [hplan] at hn ⊢
      -- a training that fails counts the windows before the one it stopped at
      refine Leads.after (R := fun e' => Counted g iterations e' _)
        ((Program.leads_trainWith_of_plan hplan).imp ?_ ?_)
      · rintro e' ⟨done, window, rest, hsplit, hstopped⟩
        rw [hsplit, hstopped.stepsOn_eq] at hn ⊢
        obtain ⟨e₁, htrained, -, hdrained⟩ := hstopped
        exact (h.trained htallies htrained hn).drained hdrained
      · rintro history e' ⟨-, htrained⟩
        rw [htrained.stepsOn_eq] at hn ⊢
        exact h.trained htallies htrained hn

/-- What several uses of a program count. -/
theorem perform (h : Counted g iterations e n) (htallies : p.Tallies g iterations count)
    (us : List Program.Use) (hn : n + p.steps us e ≤ 2 ^ 24) :
    Counted g iterations (p.perform us e).2 (n + p.steps us e) := by
  induction us generalizing e n with
  | nil => exact h
  | cons u us ih =>
    rw [Program.steps] at hn
    have hrest := ih (h.use htallies u (by omega)) (by omega)
    rw [Program.perform, Program.steps, ← Nat.add_assoc]
    split <;> exact hrest

end Counted

end Engine

namespace Model

variable {m : Model} {p : Program} {e₀ e : Engine}

/-- A compiled model has a counter of its steps, which begins at zero. -/
theorem exists_tallies (hsound : e₀.Sound) (hcompile : m.compile e₀ = .ok p e) :
    ∃ iterations count, p.Tallies e.graph iterations count ∧ Counted e.graph iterations e 0 := by
  obtain ⟨built, updates, trained, h⟩ := exists_compiled hcompile
  obtain ⟨iterations, count, ws, hlaid⟩ := h.exists_laid hsound
  have hold : ∀ t ∈ built.graph.trainable, t < built.graph.size := fun _ ht =>
    (h.builds buildable_sound hsound).indexed.lt_size_of_mem_trainable ht
  refine ⟨iterations, count,
    ⟨reads_of_compile hsound hcompile, hlaid.counts, ?_, fun u hu hupdated => ?_⟩,
    rfl, hlaid.grown.sound, _, hlaid.zero, ?_⟩
  · rw [hlaid.updates]
    exact List.mem_cons_self
  · exact hlaid.eq_count hold (h.mem_updates_of_stepUpdates hsound hlaid hu) hupdated
  · exact Tensor.reads_integer (n := 0) (Single.representable_of_natAbs_le (by decide))

/-- The counter of a compiled model counts the steps of training. However the model is used, and
whatever fails on the way, the counter reads the number of batches that have made a step, on their
own or in a training that may have failed later on, as long as these are at most `2 ^ 24`. -/
theorem iterations_counts_steps (h : e₀.Reachable) (hcompile : m.compile e₀ = .ok p e)
    (us : List Program.Use) (hsteps : p.steps us e ≤ 2 ^ 24) :
    ∃ handle e', (p.perform us e).2.find? "SGD_Iterations" = some handle ∧
      readVariable handle (p.perform us e).2 = .ok (.integer (.ofNat (p.steps us e))) e' := by
  obtain ⟨iterations, count, htallies, hzero⟩ := exists_tallies h.sound hcompile
  -- the counter reads zero after compiling, and every use moves it by its steps
  have hcounted := hzero.perform htallies us (by omega)
  rw [Nat.zero_add] at hcounted
  obtain ⟨hgraph, hsound, t, ht, hreads⟩ := hcounted
  have hcounts := hgraph.symm ▸ htallies.counts
  obtain ⟨node, hnode, hop, htype, -⟩ := hcounts.node
  obtain ⟨s, hs, ht⟩ := Option.bind_eq_some_iff.1 ht
  have hlocated : Located (p.perform us e).2.graph ((p.perform us e).2.graph.handle iterations)
      (iterations, node) := ⟨rfl, rfl, hnode⟩
  obtain ⟨e', hread⟩ := exists_readVariable hsound hs hlocated (by rw [hop]; rfl) ht
  rw [htype, hreads.toValue_eq hsteps] at hread
  exact ⟨_, e', find?_of_counts hsound hcounts, hread⟩

/-- Training that fails at the rows that are left over, and two questions after it. -/
def failingUses : List Program.Use :=
  [.trainWith [.full [5, 1] 1] mixedTargets inThrees, .predict [.full [1, 1] 1],
    .evaluate [.full [5, 1] 1] mixedTargets]

/-- The step that is made before training fails is counted. -/
theorem mixed_counts_failing_uses :
    ∃ p e failure e₁ handle e', mixed.compile (.create 0 0) = .ok p e ∧
      p.trainWith [.full [5, 1] 1] mixedTargets inThrees e = .error failure e₁ ∧
      p.steps failingUses e = 1 ∧
      (p.perform failingUses e).2.find? "SGD_Iterations" = some handle ∧
      readVariable handle (p.perform failingUses e).2 = .ok (.integer 1) e' := by
  obtain ⟨p, e, failure, e₁, hcompile, hfail, hplan, -, hbefore, hafter⟩ := mixed_fails_at_leftovers
  have hsteps : p.steps failingUses e = 1 := by
    have hleads := Program.leads_trainWith_of_plan (e := e) hplan
    rw [Leads, hfail] at hleads
    obtain ⟨windows, window, rest, hsplit, hstopped⟩ := hleads
    -- two windows are planned, and the counter tells which of them failed
    have hmade : windows.length = 1 := by
      have hlength := congrArg List.length hsplit
      simp only [inThrees, List.replicate_one, List.flatten_singleton, List.length_append,
        List.length_cons, List.length_nil] at hlength
      obtain _ | ⟨first, windows⟩ := windows
      · -- the counter would not have moved
        obtain ⟨e₂, ⟨hreported⟩, -, hdrained⟩ := hstopped
        rw [(hreported.drained.trans hdrained).stored?_eq, hbefore] at hafter
        exact absurd hafter (by decide +kernel)
      · rw [List.length_cons] at hlength ⊢
        omega
    rw [failingUses, Program.steps, Program.Use.steps, hplan]
    simp only [hsplit, hstopped.stepsOn_eq, hmade, Program.steps, Program.Use.steps]
  obtain ⟨handle, e', hname, hread⟩ := iterations_counts_steps (.create 0 0) hcompile failingUses
    (by rw [hsteps]; decide)
  exact ⟨p, e, failure, e₁, handle, e', hcompile, hfail, hsteps, hname, by rw [hread, hsteps]; rfl⟩

end Model

end TensorGraph
