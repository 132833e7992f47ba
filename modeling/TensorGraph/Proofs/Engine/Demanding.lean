import TensorGraph.Proofs.Engine.Ranging

/-!
# What a request asks to be evaluated

A request evaluates slots once or not at all. Before that it checks its arguments, and creating a
variable appends the node of the first value; afterwards assignments are committed, and a created
variable is registered. Only the evaluation draws from streams.

## Main definitions

* `Demand`: what a request asks to be evaluated.
* `Request.demand` and `Request.settle`: the parts of a request before and after its evaluation.
* `Engine.Unstirred`: an engine with further nodes at most, whose streams are where they were.

## Main results

* `Request.call_eq`: a request takes its two parts and the evaluation between them.
* `Request.leads_demand` and `Request.keeps_settle`: the two parts draw from no stream.
-/

namespace TensorGraph

/-- What a request asks to be evaluated. -/
structure Demand where
  phase : Phase
  feeds : SlotMap (Tensor Float32)
  targets : List Nat

namespace Engine

/-- A run before its evaluation. -/
def demandRun (f : Function) (feeds : List (Node × Value)) : Call Demand := do
  checkActive
  if f.graph ≠ (← currentGraph).id then refuse (.foreignFunction f.graph)
  let fed ← collectFeeds feeds .empty
  let outputs ← f.outputs.mapM locate
  let updates ← f.updates.mapM locate
  report (.running outputs.length updates.length f.phase)
  return ⟨f.phase, fed, (outputs ++ updates).map (·.1)⟩

/-- An execution before its evaluation. -/
def demandExecute (f : Function) (overrides : List (Node × Value)) : Call Demand := do
  demandRun f (← lift (f.resolve overrides))

/-- Creating a variable, before its first value is evaluated. -/
def demandVariable (shape : DeclaredShape) (initializer : Initializer) (name : String) :
    Call Demand := do
  checkActive
  checkShape shape false
  checkFresh name
  let (init, made) ← locate (← initializer.compile shape)
  if made.shape ≠ shape then
    refuse (.compilation (.initializerShape name made.shape shape))
  return ⟨.inference, .empty, [init]⟩

/-- Creating a variable, after its first value has been evaluated. -/
def settleVariable (shape : DeclaredShape) (name : String) (trainable : Bool) (d : Demand)
    (ev : Evaluation Float32) : Call Unit := do
  let init := d.targets.headD 0
  let node ← register ⟨.variable trainable (some init), shape, .f32, none⟩ (some name)
  commit [(node.index, ev.known.value init)]
  if trainable then train node.index
  report (.createdVariable name shape)

/-- Reading a variable, before it is evaluated. -/
def demandValue (n : Node) : Call Demand := do
  let (slot, node) ← locate n
  expectVariable slot node
  return ⟨.inference, .empty, [slot]⟩

end Engine

open Engine

namespace Request

/-- The part of a request before its evaluation, with what is evaluated then. A request that
evaluates nothing is made as a whole. -/
def demand : Request → Call (Option Demand)
  | weights shape initializer name | stateVariable shape initializer name =>
    some <$> demandVariable shape initializer name
  | run f feeds => some <$> demandRun f feeds
  | execute f overrides => some <$> demandExecute f overrides
  | executePositional f values => do
    if values.length ≠ f.inputs.length then
      refuse (.invalidArgument (.valueCount f.inputs.length values.length))
    some <$> demandExecute f (f.inputs.zip values)
  | readVariable handle => some <$> demandValue handle
  | r => do
    r.call
    return none

/-- The part of a request after its evaluation. -/
def settle : Request → Demand → Evaluation Float32 → Call Unit
  | weights shape _ name, d, ev => settleVariable shape name true d ev
  | stateVariable shape _ name, d, ev => settleVariable shape name false d ev
  | run _ _, _, ev | execute _ _, _, ev | executePositional _ _, _, ev =>
    commit ev.assignments.toList
  | _, _, _ => pure ()

/-- The evaluation of a request and what comes after it. -/
def conclude (r : Request) : Option Demand → Call Unit
  | none => pure ()
  | some d => evaluate d.phase d.feeds d.targets >>= r.settle d

/-- A run in its two parts. What it gives is left out, so only its commitment comes after the
evaluation. -/
theorem discard_run (f : Function) (feeds : List (Node × Value)) :
    discard (Engine.run f feeds) = demandRun f feeds >>= fun d =>
      evaluate d.phase d.feeds d.targets >>= fun ev => commit ev.assignments.toList := by
  simp only [discard_eq_bind, Engine.run, demandRun, bind_assoc]
  refine bind_congr fun _ => bind_congr fun g => ?_
  -- both sides ask whether the function is of this graph
  split <;> simp only [bind_assoc, pure_bind, bind_pure_unit]

/-- Executing a function evaluates what it demands and commits the assignments. -/
theorem discard_execute (f : Function) (overrides : List (Node × Value)) :
    discard (Engine.execute f overrides) = demandExecute f overrides >>= fun d =>
      evaluate d.phase d.feeds d.targets >>= fun ev => commit ev.assignments.toList := by
  have hrun := discard_run f
  simp only [discard_eq_bind] at hrun
  simp only [discard_eq_bind, Engine.execute, demandExecute, bind_assoc, hrun]

/-- Creating a variable evaluates what it demands and settles on the value. -/
theorem discard_createVariable (shape : DeclaredShape) (initializer : Initializer) (name : String)
    (trainable : Bool) :
    discard (createVariable shape initializer name trainable) =
      demandVariable shape initializer name >>= fun d =>
        evaluate d.phase d.feeds d.targets >>= settleVariable shape name trainable d := by
  simp only [discard_eq_bind, createVariable, demandVariable, bind_assoc]
  refine bind_congr fun _ => bind_congr fun _ => bind_congr fun _ => bind_congr fun handle =>
    bind_congr fun found => ?_
  -- both sides ask whether the node of the first value has the shape of the variable, and list the
  -- variable in the end if it is trained
  cases trainable <;> split <;> simp only [bind_assoc, pure_bind] <;> rfl

/-- A request that evaluates nothing demands nothing. -/
theorem demand_of_not_isEvaluating {r : Request} (h : r.isEvaluating = false) :
    r.demand = r.call >>= fun _ => pure none := by
  cases r with
  | weights | stateVariable | run | execute | executePositional | readVariable => cases h
  | _ => rfl

/-- A request takes its two parts and the evaluation between them. -/
theorem call_eq (r : Request) : r.call = r.demand >>= r.conclude := by
  cases h : r.isEvaluating with
  | false =>
    rw [demand_of_not_isEvaluating h, bind_assoc]
    exact bind_pure_unit.symm
  | true =>
    cases r with
    | run f feeds =>
      rw [call, discard_run, demand, bind_map_left]
      rfl
    | execute f overrides =>
      rw [call, discard_execute, demand, bind_map_left]
      rfl
    | executePositional f values =>
      have hexecute := discard_execute f (f.inputs.zip values)
      simp only [discard_eq_bind] at hexecute
      simp only [call, discard_eq_bind, Engine.executePositional, demand]
      -- both sides ask for one value for every input
      split
      · rfl
      · rw [hexecute, bind_map_left]
        rfl
    | weights shape initializer name | stateVariable shape initializer name =>
      rw [call, demand, bind_map_left]
      exact discard_createVariable shape initializer name _
    | readVariable handle =>
      simp only [call, discard_eq_bind, Engine.readVariable, demand, demandValue, bind_map_left,
        bind_assoc, pure_bind]
      rfl
    | _ => cases h

end Request

namespace Engine

variable {e e' e'' : Engine}

/-- An engine with further nodes at most, the streams of which are where they were. -/
structure Unstirred (e e' : Engine) : Prop where
  grown : e.graph.Extends e'.graph
  /-- A session that is still there is the one that was there, with its streams. -/
  streams : ∀ {s' : Session}, e'.session = some s' →
    ∃ s, e.session = some s ∧ s'.streams = s.streams

namespace Unstirred

theorem refl (e : Engine) : Unstirred e e := ⟨.refl _, fun hs => ⟨_, hs, rfl⟩⟩

/-- Streams stay where they are through one part after the other. -/
theorem trans (h : Unstirred e e') (h' : Unstirred e' e'') : Unstirred e e'' where
  grown := h.grown.trans h'.grown
  streams hs'' := by
    obtain ⟨s', hs', hstreams'⟩ := h'.streams hs''
    obtain ⟨s, hs, hstreams⟩ := h.streams hs'
    exact ⟨s, hs, hstreams'.trans hstreams⟩

instance : IsTrans Engine Unstirred := ⟨fun _ _ _ => trans⟩

end Unstirred

/-- Appending a node moves no stream. -/
theorem Appended.unstirred {n : GraphNode} {handle : Node} (h : Appended e n handle e') :
    Unstirred e e' := by
  refine ⟨Changes.extends (.single h.change), fun hs => ?_⟩
  rw [h.engine] at hs
  exact ⟨_, hs, rfl⟩

/-- Appending nodes moves no stream. -/
theorem AppendedAll.unstirred {ns : List GraphNode} {handles : List Node}
    (h : AppendedAll e ns handles e') : Unstirred e e' := by
  induction h with
  | nil => exact .refl _
  | cons head _ ih => exact head.unstirred.trans ih

theorem Reported.unstirred (h : Reported e e') : Unstirred e e' := by
  refine ⟨h.changes.extends, fun hs => ?_⟩
  rw [h.session_eq] at hs
  exact ⟨_, hs, rfl⟩

/-- Nothing is drawn where nothing is evaluated. -/
theorem Built.unstirred (h : Built e e') : Unstirred e e' := by
  cases h with
  | appended happended _ => exact happended.unstirred
  | @declared s hs name t =>
    refine ⟨Graph.extends_push .., fun hs' => ⟨s, hs, ?_⟩⟩
    cases hs'
    rfl
  | disposed _ => exact ⟨.refl _, nofun⟩

/-! ## The part before the evaluation -/

/-- What is asked for can be evaluated: it is in the graph. -/
def Demanded (e : Engine) (d : Demand) : Prop :=
  e.graph.Typed ∧ ∀ t ∈ d.targets, t < e.graph.size

/-- Before its evaluation a run makes records only. It asks for its outputs and updates, which are
in the graph, with its feeds. -/
theorem leads_demandRun (f : Function) (feeds : List (Node × Value)) :
    Leads (demandRun f feeds) e (Reported e) fun d e' => Reported e e' ∧
      d = ⟨f.phase, feedTable feeds .empty, (f.outputs ++ f.updates).map (·.index)⟩ ∧
      ∀ n ∈ f.outputs ++ f.updates, ∃ found, Located e.graph n found := by
  have h₀ := Reported.refl (e := e)
  refine leads_checkActive h₀ fun _ => leads_currentGraph (leads_unless h₀ fun _ => ?_)
  -- collecting the feeds can make records, and locating handles makes none
  refine leads_bind_iff.2 ((leads_collectFeeds feeds .empty).imp (fun _ h => h) ?_)
  rintro table _ ⟨⟨records, rfl⟩, rfl, -⟩
  have hreported : Reported e { e with journal := e.journal ++ records } := ⟨records, rfl⟩
  refine leads_bind_iff.2 ((leads_mapM_locate f.outputs hreported).mono ?_)
  rintro outputs _ ⟨rfl, houtputs⟩
  refine leads_bind_iff.2 ((leads_mapM_locate f.updates hreported).mono ?_)
  rintro updates _ ⟨rfl, hupdates⟩
  have hfound := List.rel_append houtputs hupdates
  refine ⟨hreported.trans (reported_report _), ?_, exists_of_located hfound⟩
  rw [map_fst_of_located hfound]

/-- A run draws from no stream before its evaluation. -/
theorem unstirred_demandRun (hsound : e.Sound) (f : Function) (feeds : List (Node × Value)) :
    Leads (demandRun f feeds) e (Unstirred e) fun d e' => Unstirred e e' ∧ Demanded e' d := by
  refine (leads_demandRun f feeds).imp (fun _ h => h.unstirred) ?_
  rintro _ e' ⟨hreported, rfl, hlocated⟩
  refine ⟨hreported.unstirred, ?_⟩
  rw [Demanded, hreported.graph_eq]
  exact ⟨hsound.typed, lt_size_of_located hlocated⟩

/-- Up to its evaluation an execution moves no stream, and what it demands is in the graph. -/
theorem leads_demandExecute (hsound : e.Sound) (f : Function) (overrides : List (Node × Value)) :
    Leads (demandExecute f overrides) e (Unstirred e) fun d e' =>
      Unstirred e e' ∧ Demanded e' d :=
  leads_lift (.refl e) fun feeds _ => unstirred_demandRun hsound f feeds

/-- The same for creating a variable. -/
theorem leads_demandVariable (hsound : e.Sound) (shape : DeclaredShape) (initializer : Initializer)
    (name : String) :
    Leads (demandVariable shape initializer name) e (Unstirred e) fun d e' =>
      Unstirred e e' ∧ Demanded e' d := by
  have h₀ := Unstirred.refl e
  refine leads_checkActive h₀ fun _ => leads_checkShape h₀ fun _ _ =>
    leads_checkFresh h₀ fun _ => ?_
  refine leads_bind_iff.2 (Leads.imp (appends_compile initializer shape) ?_ ?_)
  · rintro _ rfl
    exact h₀
  -- the initializer is the one node that is appended before the evaluation
  rintro init e₁ ⟨made, -, hmade⟩
  have h₁ := hmade.unstirred
  refine leads_locate h₁ fun slot n hn => leads_unless h₁ fun _ => ?_
  refine ⟨h₁, (hmade.change.sound hsound).typed, ?_⟩
  simpa using Graph.lt_size_of_getElem? hn

/-- The same for reading a value. -/
theorem leads_demandValue (hsound : e.Sound) (handle : Node) :
    Leads (demandValue handle) e (Unstirred e) fun d e' => Unstirred e e' ∧ Demanded e' d := by
  have h₀ := Unstirred.refl e
  refine leads_locate h₀ fun slot n hn => leads_expectVariable h₀ fun _ => ⟨h₀, hsound.typed, ?_⟩
  simpa using Graph.lt_size_of_getElem? hn

/-! ## The part after the evaluation -/

/-- Committing assignments moves no stream. -/
theorem keeps_commit (assignments : List (Nat × Tensor Float32)) :
    Keeps Unstirred (commit assignments) := by
  refine fun e => ⟨.refl _, fun hs' => ?_⟩
  obtain ⟨s, hs, rfl⟩ := Option.map_eq_some_iff.1 hs'
  exact ⟨s, hs, rfl⟩

/-- Settling on the first value of a variable moves no stream. -/
theorem keeps_settleVariable (shape : DeclaredShape) (name : String) (trainable : Bool) (d : Demand)
    (ev : Evaluation Float32) : Keeps Unstirred (settleVariable shape name trainable d ev) := by
  have hregister : Keeps Unstirred (register
      ⟨.variable trainable (some (d.targets.headD 0)), shape, .f32, none⟩ (some name)) := by
    refine fun e => leads_register (.refl e) fun _ _ => ?_
    exact ⟨Graph.extends_push .., fun hs => ⟨_, hs, rfl⟩⟩
  refine hregister.bind fun node => (keeps_commit _).bind fun _ e => leads_train_if ?_
  -- listing the variable touches neither nodes nor streams
  have hlisted : Unstirred e { e with
      graph := if trainable then e.graph.train node.index else e.graph } :=
    ⟨by split <;> exact ⟨rfl, id⟩, fun hs => ⟨_, hs, rfl⟩⟩
  exact hlisted.trans (reported_report _).unstirred

end Engine

/-! ## The two parts of a request -/

namespace Request

variable {e : Engine}

/-- A request draws from no stream before its evaluation, and then asks for slots of the graph. -/
theorem leads_demand (hsound : e.Sound) (r : Request) :
    Leads r.demand e (Unstirred e) fun d e' =>
      Unstirred e e' ∧ ∀ q, d = some q → Demanded e' q := by
  -- a request that evaluates passes its demand on
  have asked {c : Call Demand}
      (h : Leads c e (Unstirred e) fun d e' => Unstirred e e' ∧ Demanded e' d) :
      Leads (some <$> c) e (Unstirred e) fun d e' =>
        Unstirred e e' ∧ ∀ q, d = some q → Demanded e' q := by
    rw [← bind_pure_comp]
    refine leads_bind_iff.2 (h.mono fun d e' hd => leads_pure ⟨hd.1, ?_⟩)
    rintro _ ⟨⟩
    exact hd.2
  cases h : r.isEvaluating with
  | false =>
    rw [demand_of_not_isEvaluating h]
    refine leads_bind_iff.2 ((r.built h e).imp (fun _ hbuilt => hbuilt.unstirred) ?_)
    exact fun _ _ hbuilt => leads_pure ⟨hbuilt.unstirred, nofun⟩
  | true =>
    cases r with
    | weights shape initializer name | stateVariable shape initializer name =>
      exact asked (leads_demandVariable hsound shape initializer name)
    | run f feeds => exact asked (unstirred_demandRun hsound f feeds)
    | execute f overrides => exact asked (leads_demandExecute hsound f overrides)
    | executePositional f values =>
      rw [demand]
      exact leads_unless (.refl e) fun _ => asked (leads_demandExecute hsound f _)
    | readVariable handle => exact asked (leads_demandValue hsound handle)
    | _ => cases h

/-- A request draws from no stream after its evaluation. -/
theorem keeps_settle (r : Request) (d : Demand) (ev : Evaluation Float32) :
    Keeps Unstirred (r.settle d ev) := by
  cases r with
  | weights shape _ name | stateVariable shape _ name =>
    exact keeps_settleVariable shape name _ d ev
  | run | execute | executePositional => exact keeps_commit _
  | _ => exact fun e => leads_pure (.refl e)

end Request
end TensorGraph
