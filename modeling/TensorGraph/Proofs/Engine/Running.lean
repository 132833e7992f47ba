import TensorGraph.Proofs.Engine.Building
import TensorGraph.Proofs.Evaluation.Shapes

/-!
# Running calls make changes

The calls that evaluate nodes: making a variable, reading it, and running a function. A run that
gives values is described as a whole by `Engine.Ran`; a failing one only draws from streams and
makes records.

## Main definitions

* `Engine.setting`: what a run on an engine reads.
* `Engine.Drained`: an engine that has only drawn from streams and made records.
* `Engine.Ran`: a run of a function that gives values.

## Main results

* `Engine.leads_run`: where a run leads.
* `Engine.Ran.changes`: a run only makes changes.
-/

namespace TensorGraph

/-- The values of feeds by slot, later ones instead of earlier ones. -/
def feedTable (feeds : List (Node × Value)) (table : SlotMap (Tensor Float32)) :
    SlotMap (Tensor Float32) :=
  feeds.foldl (fun table feed => table.insert feed.1.index (.ofValue feed.2)) table

/-- The operation that an initializer compiles to. -/
def Initializer.op (shape : DeclaredShape) : Initializer → Op
  | .randomNormal mean stddev seed => .random (.normal mean stddev) seed
  | .randomUniform min max seed => .random (.uniform min max) seed
  | .truncatedNormal mean stddev seed => .random (.truncatedNormal mean stddev) seed
  | .zeros => .fill 0
  | .ones => .fill 1
  | .constant x => .constant (.full (shape.concrete?.getD []) x)

namespace Engine

variable {β : Type} {e e' : Engine} {s : Session} {R : Engine → Prop} {post : β → Engine → Prop}

/-- What a run on an engine reads. -/
def setting (e : Engine) (s : Session) (phase : Phase) (feeds : SlotMap (Tensor Float32)) :
    Setting Float32 :=
  { graph := e.graph, store := s.store, feeds := feeds, phase := phase, entropy := s.entropy }

/-- A value that may be fed into the node of a handle. -/
def Admitted (g : Graph) (feed : Node × Value) : Prop :=
  ∃ found, Located g feed.1 found ∧ feed.2.type = found.2.type ∧ feed.2.fits found.2.shape ∧
    0 ∉ feed.2.shape

/-- An engine that has made some more records. -/
def Reported (e e' : Engine) : Prop := ∃ records, e' = { e with journal := e.journal ++ records }

/-- Reporting is a change. -/
theorem Reported.changes (h : Reported e e') : Changes e e' := by
  obtain ⟨records, rfl⟩ := h
  exact .single (.report records)

theorem reported_report (r : Record) : Reported e { e with journal := e.journal.push r } :=
  ⟨#[r], by rw [Array.push_eq_append]⟩

theorem changes_report (r : Record) : Changes e { e with journal := e.journal.push r } :=
  (reported_report r).changes

/-- Reporting keeps the graph. -/
theorem Reported.graph_eq (h : Reported e e') : e'.graph = e.graph := by
  obtain ⟨records, rfl⟩ := h
  rfl

/-- It keeps the session, too. -/
theorem Reported.session_eq (h : Reported e e') : e'.session = e.session := by
  obtain ⟨records, rfl⟩ := h
  rfl

theorem Reported.refl : Reported e e := ⟨#[], by simp⟩

theorem Reported.trans {e'' : Engine} (h : Reported e e') (h' : Reported e' e'') :
    Reported e e'' := by
  obtain ⟨records, rfl⟩ := h
  obtain ⟨records', rfl⟩ := h'
  exact ⟨records ++ records', by simp⟩

/-- An engine that has drawn from streams and made records, and is the same in everything else. -/
def Drained (e e' : Engine) : Prop :=
  ∃ streams records, e' = { e with
    session := e.session.map fun s => { s with streams := streams }
    journal := e.journal ++ records }

/-- Records drain no stream. -/
theorem Reported.drained (h : Reported e e') : Drained e e' := by
  obtain ⟨records, rfl⟩ := h
  obtain ⟨graph, session, journal⟩ := e
  -- a session that is there keeps the streams that it has
  cases session with
  | none => exact ⟨.empty, records, rfl⟩
  | some s => exact ⟨s.streams, records, rfl⟩

theorem Drained.refl : Drained e e := Reported.refl.drained

theorem Drained.trans {e'' : Engine} (h : Drained e e') (h' : Drained e' e'') : Drained e e'' := by
  obtain ⟨streams, records, rfl⟩ := h
  obtain ⟨streams', records', rfl⟩ := h'
  refine ⟨streams', records ++ records', ?_⟩
  simp only [Option.map_map, Array.append_assoc]
  rfl

/-- What an evaluation leaves behind are the streams where it has left them. -/
theorem drained_absorb (hs : e.session = some s) (ev : Evaluation Float32) :
    Drained e (e.absorb s ev) :=
  ⟨ev.streams, ev.journal, by rw [hs]; rfl⟩

/-- Draining streams is a change. -/
theorem Drained.changes (h : Drained e e') : Changes e e' := by
  obtain ⟨streams, records, rfl⟩ := h
  obtain ⟨graph, session, journal⟩ := e
  cases session with
  | none => exact .single (.report records)
  | some s => exact .tail (.single (.draw rfl streams)) (.report records)

/-! ## Feeds and outputs -/

/-- Handles are found one by one. -/
theorem leads_mapM_locate (handles : List Node) (h₀ : R e) :
    Leads (handles.mapM locate) e R fun found e' =>
      e' = e ∧ List.Forall₂ (Located e.graph) handles found := by
  induction handles with
  | nil => exact leads_pure ⟨rfl, .nil⟩
  | cons handle handles ih =>
    rw [List.mapM_cons]
    refine leads_located h₀ fun found hfound => leads_bind_iff.2 (ih.mono ?_)
    rintro rest _ ⟨rfl, hrest⟩
    exact leads_pure ⟨rfl, .cons hfound hrest⟩

/-- A value that is fed has the type of its node, fits the declared shape and has no empty axis. -/
theorem leads_checkFeed {slot : Nat} {n : GraphNode} {value : Value} :
    Leads (checkFeed slot n value) e (Reported e) fun _ e' =>
      Reported e e' ∧ value.type = n.type ∧ value.fits n.shape ∧ 0 ∉ value.shape := by
  unfold checkFeed
  dsimp only
  refine leads_unless .refl fun htype => leads_unless .refl fun hfits =>
    leads_unless .refl fun hempty => ?_
  have hpos : 0 ∉ value.shape := by simpa using hempty
  split
  · exact ⟨⟨#[_], rfl⟩, not_not.1 htype, by simpa using hfits, hpos⟩
  · exact leads_pure ⟨.refl, not_not.1 htype, by simpa using hfits, hpos⟩

/-- Collected feeds are admitted, and collecting them only makes records. -/
theorem leads_collectFeeds (feeds : List (Node × Value)) (table : SlotMap (Tensor Float32)) :
    Leads (collectFeeds feeds table) e (Reported e) fun table' e' =>
      Reported e e' ∧ table' = feedTable feeds table ∧ ∀ feed ∈ feeds, Admitted e.graph feed := by
  induction feeds generalizing e table with
  | nil => exact leads_pure ⟨.refl, rfl, by simp⟩
  | cons feed feeds ih =>
    obtain ⟨handle, value⟩ := feed
    refine leads_located .refl fun found hfound => leads_bind_iff.2 (leads_checkFeed.mono ?_)
    rintro _ e₁ ⟨⟨records, rfl⟩, htype, hfits, hpos⟩
    -- the rest is collected into the table with this value, on an engine with the same graph
    have hrest := ih (table.insert found.1 (.ofValue value)) (e := { e with
      journal := e.journal ++ records })
    refine hrest.imp (fun _ h => .trans ⟨records, rfl⟩ h) ?_
    rintro table' e' ⟨hreported, rfl, hall⟩
    refine ⟨.trans ⟨records, rfl⟩ hreported, ?_, List.forall_mem_cons.2 ⟨?_, hall⟩⟩
    · rw [hfound.slot]
      rfl
    · exact ⟨found, hfound, htype, hfits, hpos⟩

/-- Fed values that have passed the checks of a run for the nodes in their slots. -/
def Checked (g : Graph) (table : SlotMap (Tensor Float32)) : Prop :=
  ∀ slot t, table.get? slot = some t → ∃ (n : GraphNode) (v : Value), g.nodes[slot]? = some n ∧
    t = .ofValue v ∧ v.type = n.type ∧ v.fits n.shape ∧ 0 ∉ v.shape

/-- Where nothing is fed there is nothing to check. -/
theorem checked_empty (g : Graph) : Checked g .empty := by
  intro slot t ht
  simp at ht

/-- A table of admitted feeds is checked. -/
theorem checked_feedTable {g : Graph} {feeds : List (Node × Value)}
    {table : SlotMap (Tensor Float32)} (hfeeds : ∀ feed ∈ feeds, Admitted g feed)
    (htable : Checked g table) : Checked g (feedTable feeds table) := by
  induction feeds generalizing table with
  | nil => exact htable
  | cons feed feeds ih =>
    obtain ⟨⟨found, hfound, htype, hfits, hpos⟩, hfeeds⟩ := List.forall_mem_cons.1 hfeeds
    -- a later value for the same slot takes the place of an earlier one
    refine ih hfeeds fun slot t ht => ?_
    by_cases hslot : slot = feed.1.index
    · subst hslot
      rw [SlotMap.get?_insert_self, Option.some.injEq] at ht
      exact ⟨found.2, feed.2, hfound.node, ht.symm, htype, hfits, hpos⟩
    · rw [SlotMap.get?_insert_of_ne _ _ hslot] at ht
      exact htable slot t ht

/-- On a sound engine, checked feeds and the variables of the session fit. -/
theorem Sound.fits (hsound : e.Sound) (hs : e.session = some s)
    {table : SlotMap (Tensor Float32)} (htable : Checked e.graph table) {phase : Phase} :
    (e.setting s phase table).Fits where
  fed {slot t} ht := by
    obtain ⟨n, v, hn, rfl, -, hfits, hpos⟩ := htable slot t ht
    refine ⟨n, hn, ?_⟩
    rw [Tensor.shape_ofValue]
    exact DeclaredShape.covers_of_admits hfits hpos
  stored ht := by
    obtain ⟨n, hn, -, hshape⟩ := (hsound.holds hs).shape ht
    exact ⟨n, hn, hshape⟩

/-! ## Evaluating and committing -/

/-- Without a session nothing is evaluated. -/
theorem evaluate_of_none (hs : e.session = none) (phase : Phase)
    (table : SlotMap (Tensor Float32)) (targets : List Nat) :
    evaluate phase table targets e = .error (.error .disposed) e := by
  rw [evaluate, hs]

/-- On a live engine an evaluation is that of the setting, and its streams are kept. -/
theorem evaluate_apply (hs : e.session = some s) (phase : Phase) (table : SlotMap (Tensor Float32))
    (targets : List Nat) :
    evaluate phase table targets e =
      match (e.setting s phase table).evaluate targets (.start s.streams) with
      | .ok () ev => .ok ev (e.absorb s ev)
      | .error failure ev => .error failure (e.absorb s ev) := by
  simp only [evaluate, hs]
  rfl

/-- An evaluation leaves its working state behind, whether it fails or not. -/
theorem after_evaluate (hs : e.session = some s) (phase : Phase)
    (table : SlotMap (Tensor Float32)) (targets : List Nat) :
    e.after (evaluate phase table targets) =
      e.absorb s (finalState ((e.setting s phase table).evaluate targets) (.start s.streams)) := by
  rw [after, evaluate_apply hs, finalState]
  cases (e.setting s phase table).evaluate targets (.start s.streams) <;> rfl

/-- An evaluation appends nothing. -/
theorem graph_after_evaluate (e : Engine) (phase : Phase) (table : SlotMap (Tensor Float32))
    (targets : List Nat) : (e.after (evaluate phase table targets)).graph = e.graph := by
  cases hs : e.session with
  | none => rw [after, evaluate_of_none hs]
  | some s =>
    rw [after_evaluate hs]
    rfl

/-- An evaluation that gives a result is one of a live engine. -/
theorem exists_of_evaluate {phase : Phase} {table : SlotMap (Tensor Float32)} {targets : List Nat}
    {ev : Evaluation Float32} (h : evaluate phase table targets e = .ok ev e') :
    ∃ s, e.session = some s ∧
      (e.setting s phase table).evaluate targets (.start s.streams) = .ok () ev := by
  cases hs : e.session with
  | none =>
    rw [evaluate_of_none hs] at h
    cases h
  | some s =>
    rw [evaluate_apply hs] at h
    split at h <;> cases h
    next hev => exact ⟨s, rfl, hev⟩

/-- What leads on from an evaluation, whether it fails or not. -/
theorem leads_evaluate {phase : Phase} {table : SlotMap (Tensor Float32)} {targets : List Nat}
    {f : Evaluation Float32 → Call β} (h₀ : R e)
    (hfail : ∀ s failure ev, e.session = some s →
      (e.setting s phase table).evaluate targets (.start s.streams) = .error failure ev →
      R (e.absorb s ev))
    (h : ∀ s ev, e.session = some s →
      (e.setting s phase table).evaluate targets (.start s.streams) = .ok () ev →
      Leads (f ev) (e.absorb s ev) R post) :
    Leads (evaluate phase table targets >>= f) e R post := by
  refine leads_bind_iff.2 ?_
  cases hs : e.session with
  | none =>
    rw [Leads, evaluate_of_none hs]
    exact h₀
  | some s =>
    simp only [Leads, evaluate_apply hs]
    -- the session absorbs what has been drawn and recorded, also when the evaluation fails
    cases hev : (e.setting s phase table).evaluate targets (.start s.streams) with
    | ok u ev => exact h s ev hs hev
    | error failure ev => exact hfail s failure ev hs hev

/-- Variables that are given values of their own shapes. -/
theorem changes_commit (hs : e.session = some s) {assignments : List (Nat × Tensor Float32)}
    (hfit : ∀ a ∈ assignments, ∃ n, e.graph.nodes[a.1]? = some n ∧ n.op.isVariable ∧
      n.shape.concrete? = some a.2.shape) :
    Changes e { e with session := some { s with
      store := assignments.foldl (fun vs (slot, t) => vs.insert slot t) s.store } } := by
  -- each assignment is a change of its own, and the later ones start from the store that it leaves
  induction assignments generalizing e s with
  | nil =>
    obtain ⟨graph, session, journal⟩ := e
    cases hs
    exact .refl
  | cons a assignments ih =>
    obtain ⟨⟨n, hn, hvar, hshape⟩, hfit⟩ := List.forall_mem_cons.1 hfit
    have hrest := ih
      (e := { e with session := some { s with store := s.store.insert a.1 a.2 } }) rfl hfit
    exact .head (.assign hs hn hvar hshape) hrest

/-! ## Functions -/

/-- A run of a function that gives values: the engine it started from with its session, the working
state after the evaluation, the values, and the engine that it leaves behind. -/
structure Ran (e : Engine) (s : Session) (f : Function) (feeds : List (Node × Value))
    (ev : Evaluation Float32) (values : List Value) (e' : Engine) : Prop where
  active : e.session = some s
  admitted : ∀ feed ∈ feeds, Admitted e.graph feed
  located : ∀ n ∈ f.outputs ++ f.updates, ∃ found, Located e.graph n found
  evaluated : (e.setting s f.phase (feedTable feeds .empty)).evaluate
    ((f.outputs ++ f.updates).map (·.index)) (.start s.streams) = .ok () ev
  values : List.Forall₂ (fun n v => ∃ node, e.graph.nodes[n.index]? = some node ∧
    v = (ev.known.value n.index).toValue node.type) f.outputs values
  graph : e'.graph = e.graph
  session : e'.session = some
    { s with
      store := ev.assignments.toList.foldl (fun vs (slot, t) => vs.insert slot t) s.store
      streams := ev.streams }
  journal : ∃ records, e'.journal = e.journal ++ records

/-- A node that is found stands in the slot of its handle. -/
theorem map_fst_of_located {g : Graph} {handles : List Node} {found : List (Nat × GraphNode)}
    (h : List.Forall₂ (Located g) handles found) : found.map (·.1) = handles.map (·.index) := by
  induction h with
  | nil => rfl
  | cons hhead _ ih => rw [List.map_cons, List.map_cons, hhead.slot, ih]

/-- Every handle of a list has been found. -/
theorem exists_of_located {g : Graph} {handles : List Node} {found : List (Nat × GraphNode)}
    (h : List.Forall₂ (Located g) handles found) : ∀ n ∈ handles, ∃ p, Located g n p := by
  induction h with
  | nil => simp
  | cons hhead _ ih => exact List.forall_mem_cons.2 ⟨⟨_, hhead⟩, ih⟩

/-- Handles of a graph name slots in use. -/
theorem lt_size_of_located {g : Graph} {handles : List Node}
    (h : ∀ n ∈ handles, ∃ found, Located g n found) :
    ∀ t ∈ handles.map (·.index), t < g.size := by
  refine List.forall_mem_map.2 fun n hn => ?_
  obtain ⟨found, hfound⟩ := h n hn
  exact Graph.lt_size_of_getElem? hfound.node

/-- The end of a run, from the values of its evaluation on. -/
def finishRun (outputs : List (Nat × GraphNode)) (ev : Evaluation Float32) :
    Call (List Value) := do
  commit ev.assignments.toList
  return outputs.map fun (slot, node) => (ev.known.value slot).toValue node.type

/-- A run leads where its evaluation leads, with what follows it, from an engine that has made some
records. -/
theorem leads_run_of {f : Function} {feeds : List (Node × Value)}
    {post : List Value → Engine → Prop} (h₀ : ∀ e₁, Reported e e₁ → R e₁)
    (h : ∀ e₁ outputs, Reported e e₁ → (∀ feed ∈ feeds, Admitted e.graph feed) →
      (∀ n ∈ f.outputs ++ f.updates, ∃ found, Located e.graph n found) →
      List.Forall₂ (Located e.graph) f.outputs outputs →
      Leads (evaluate f.phase (feedTable feeds .empty) ((f.outputs ++ f.updates).map (·.index)) >>=
        finishRun outputs) e₁ R post) :
    Leads (run f feeds) e R post := by
  have h₀' := h₀ e .refl
  refine leads_checkActive h₀' fun _ => leads_currentGraph (leads_unless h₀' fun _ => ?_)
  refine leads_bind_iff.2 ((leads_collectFeeds feeds .empty).imp h₀ ?_)
  rintro table _ ⟨⟨records, rfl⟩, rfl, hfeeds⟩
  have hreported : Reported e { e with journal := e.journal ++ records } := ⟨records, rfl⟩
  refine leads_bind_iff.2 ((leads_mapM_locate f.outputs (h₀ _ hreported)).mono ?_)
  rintro outputs _ ⟨rfl, houtputs⟩
  refine leads_bind_iff.2 ((leads_mapM_locate f.updates (h₀ _ hreported)).mono ?_)
  rintro updates _ ⟨rfl, hupdates⟩
  have hfound := List.rel_append houtputs hupdates
  rw [map_fst_of_located hfound]
  -- only the evaluation can still fail, and by then there is one more record
  exact leads_bind_iff.2 (h _ outputs (hreported.trans (reported_report _)) hfeeds
    (exists_of_located hfound) houtputs)

/-- A failing run only draws from streams and makes records, and one that gives values is as
described. -/
theorem leads_run (f : Function) (feeds : List (Node × Value)) :
    Leads (run f feeds) e (Drained e) fun values e' => ∃ s ev, Ran e s f feeds ev values e' := by
  refine leads_run_of (fun _ h => h.drained) fun e₁ outputs hreported hfeeds hlocated houtputs => ?_
  have hrunning := hreported.drained
  obtain ⟨records, rfl⟩ := hreported
  -- a failing evaluation drains the engine, and one that succeeds gives the values of the outputs
  refine leads_evaluate hrunning ?_ ?_
  · intro s _ ev hs _
    exact hrunning.trans (drained_absorb hs ev)
  · intro s ev hs hev
    refine ⟨s, ev, ?_⟩
    constructor
    case active => exact hs
    case admitted => exact hfeeds
    case located => exact hlocated
    case evaluated => exact hev
    case values =>
      refine List.forall₂_map_right_iff.2 (houtputs.imp fun n p hp => ?_)
      exact ⟨p.2, hp.node, by rw [← hp.slot]⟩
    case graph => rfl
    case session => rfl
    case journal =>
      refine ⟨records ++ ev.journal, ?_⟩
      simp only [absorb, Array.append_assoc]

namespace Ran

variable {f : Function} {feeds : List (Node × Value)} {ev : Evaluation Float32}
  {values : List Value}

/-- The fetched and the updating nodes are in the graph. -/
theorem lt_size (h : Ran e s f feeds ev values e') :
    ∀ t ∈ (f.outputs ++ f.updates).map (·.index), t < e.graph.size :=
  lt_size_of_located h.located

/-- What is fetched from a node is the value that its slot has in the evaluation. -/
theorem exists_value (h : Ran e s f feeds ev values e') {i : Nat} {n : Node}
    (hn : f.outputs[i]? = some n) :
    ∃ node, e.graph.nodes[n.index]? = some node ∧
      values[i]? = some ((ev.known.value n.index).toValue node.type) := by
  obtain ⟨v, hv, node, hnode, rfl⟩ := exists_of_forall₂ h.values hn
  exact ⟨node, hnode, hv⟩

/-- The evaluation of a run is settled. -/
theorem settled (h : Ran e s f feeds ev values e') (hsound : e.Sound) :
    Settled (e.setting s f.phase (feedTable feeds .empty))
      (e.graph.schedule ((f.outputs ++ f.updates).map (·.index))).reverse ev :=
  settled_of_evaluate hsound.typed h.lt_size h.evaluated

/-- The evaluation lists the slots that the fetched and the updating nodes reach. -/
theorem mem_listed_iff (h : Ran e s f feeds ev values e') (hsound : e.Sound) {t : Nat} :
    t ∈ (e.graph.schedule ((f.outputs ++ f.updates).map (·.index))).reverse ↔
      ∃ n ∈ f.outputs ++ f.updates, e.graph.Reaches n.index t := by
  rw [List.mem_reverse, hsound.typed.mem_schedule_iff h.lt_size]
  simp only [List.mem_map, exists_exists_and_eq_and]

/-- The evaluation lists the fetched nodes. -/
theorem mem_listed_of_output (h : Ran e s f feeds ev values e') (hsound : e.Sound) {i : Nat}
    {n : Node} (hn : f.outputs[i]? = some n) :
    n.index ∈ (e.graph.schedule ((f.outputs ++ f.updates).map (·.index))).reverse :=
  (h.mem_listed_iff hsound).2 ⟨n, List.mem_append_left _ (List.mem_of_getElem? hn), .refl⟩

/-- What a run evaluates is finished in order. -/
theorem finished (h : Ran e s f feeds ev values e') (hsound : e.Sound) :
    e.graph.Finished (e.graph.schedule ((f.outputs ++ f.updates).map (·.index))).reverse :=
  hsound.typed.finished_schedule h.lt_size

/-- What a run is fed has been checked. -/
theorem checked (h : Ran e s f feeds ev values e') :
    Checked e.graph (feedTable feeds .empty) :=
  checked_feedTable h.admitted (checked_empty e.graph)

/-- The assignments of a run give variables values of their own shapes. -/
theorem fits_assignments (h : Ran e s f feeds ev values e') (hsound : e.Sound) :
    ∀ a ∈ ev.assignments.toList, ∃ n, e.graph.nodes[a.1]? = some n ∧ n.op.isVariable ∧
      n.shape.concrete? = some a.2.shape := by
  intro a ha
  rw [(h.settled hsound).assignments, List.mem_filterMap] at ha
  obtain ⟨slot, hslot, hupdated⟩ := ha
  obtain ⟨target, htarget, rfl⟩ := Option.map_eq_some_iff.1 hupdated
  exact (h.settled hsound).shape_of_updated hsound.typed (hsound.fits h.active h.checked)
    (h.finished hsound) (List.mem_reverse.1 hslot) htarget

end Ran

/-- A run that gives values is one from the session of its engine. -/
theorem exists_ran {f : Function} {feeds : List (Node × Value)} {values : List Value}
    (hs : e.session = some s) (h : run f feeds e = .ok values e') :
    ∃ ev, Ran e s f feeds ev values e' := by
  obtain ⟨s', ev, hran⟩ := (leads_run f feeds).of_eq_ok h
  obtain rfl : s = s' := Option.some.inj (hs.symm.trans hran.active)
  exact ⟨ev, hran⟩

/-- A run of a function only makes changes. -/
theorem changing_run (f : Function) (feeds : List (Node × Value)) : Changing (run f feeds) := by
  intro e hsound
  refine (leads_run f feeds).imp (fun _ h => h.changes) ?_
  rintro values ⟨graph, session, journal⟩ ⟨s, ev, h⟩
  -- drawing from the streams, then the records, then one assignment after the other
  obtain ⟨records, hjournal⟩ := h.journal
  have hgraph := h.graph
  have hsession := h.session
  have hdraw : Changes e { e with
      session := some { s with streams := ev.streams }, journal := e.journal ++ records } :=
    .tail (.single (.draw h.active ev.streams)) (.report records)
  have hcommit := changes_commit (s := { s with streams := ev.streams })
    (e := { e with
      session := some { s with streams := ev.streams }, journal := e.journal ++ records }) rfl
    (h.fits_assignments hsound)
  simp only at hgraph hsession hjournal
  rw [hgraph, hsession, hjournal]
  exact hdraw.trans hcommit

/-- Executing a function runs it on the feeds that its inputs resolve to. -/
theorem leads_execute (f : Function) (overrides : List (Node × Value)) :
    Leads (execute f overrides) e (Drained e) fun values e' =>
      ∃ feeds s ev, f.resolve overrides = .ok feeds ∧ Ran e s f feeds ev values e' := by
  refine leads_lift .refl fun feeds hfeeds => (leads_run f feeds).mono ?_
  rintro values e' ⟨s, ev, hran⟩
  exact ⟨feeds, s, ev, hfeeds, hran⟩

/-- Values in order are fed to the inputs, one to each. -/
theorem leads_executePositional (f : Function) (values : List Value) :
    Leads (executePositional f values) e (Drained e) fun results e' =>
      values.length = f.inputs.length ∧ ∃ feeds s ev,
        f.resolve (f.inputs.zip values) = .ok feeds ∧ Ran e s f feeds ev results e' := by
  unfold executePositional
  refine leads_unless .refl fun hlength => ?_
  exact (leads_execute f _).mono fun _ _ h => ⟨not_not.1 hlength, h⟩

/-- Executing a function only makes changes. -/
theorem changing_execute (f : Function) (overrides : List (Node × Value)) :
    Changing (execute f overrides) :=
  fun e hsound => leads_lift .refl fun feeds _ => changing_run f feeds e hsound

theorem changing_executePositional (f : Function) (values : List Value) :
    Changing (executePositional f values) := by
  intro e hsound
  unfold executePositional
  refine leads_unless .refl fun _ => ?_
  exact changing_execute f _ e hsound

/-! ## Variables -/

/-- An initializer is one node. -/
theorem appends_compile (initializer : Initializer) (shape : DeclaredShape) :
    Appends (initializer.compile shape) e fun n => n.op = initializer.op shape := by
  cases initializer with
  | randomNormal mean stddev seed =>
    exact (appends_randomNormal shape mean stddev seed).imp fun _ h => h.1
  | randomUniform min max seed =>
    exact (appends_randomUniform shape min max seed).imp fun _ h => h.1
  | truncatedNormal mean stddev seed =>
    exact (appends_truncatedNormal shape mean stddev seed).imp fun _ h => h.1
  | zeros => exact (appends_fill shape 0).imp fun _ h => h.1
  | ones => exact (appends_fill shape 1).imp fun _ h => h.1
  | constant x =>
    unfold Initializer.compile Initializer.op
    cases shape.concrete? with
    | some dims => exact (appends_constant (.full dims x)).imp fun _ h => h.1
    | none => exact leads_refuse rfl

/-- What evaluating a node of closed shape without feeds gives has that shape. -/
theorem shape_of_evaluate (hsound : e.Sound) (hs : e.session = some s) {ev : Evaluation Float32}
    {phase : Phase} {slot : Nat} {n : GraphNode} (hn : e.graph.nodes[slot]? = some n)
    (hclosed : n.shape.Closed)
    (hev : (e.setting s phase .empty).evaluate [slot] (.start s.streams) = .ok () ev) :
    n.shape.concrete? = some (ev.known.value slot).shape := by
  have htargets : ∀ t ∈ [slot], t < e.graph.size := by
    simpa using Graph.lt_size_of_getElem? hn
  have hslot : slot ∈ (e.graph.schedule [slot]).reverse :=
    List.mem_reverse.2 ((hsound.typed.mem_schedule_iff htargets).2 ⟨slot, by simp, .refl⟩)
  have hcovers := (settled_of_evaluate hsound.typed htargets hev).covers hsound.typed
    (hsound.fits hs (checked_empty e.graph)) (hsound.typed.finished_schedule htargets) hslot hn
  -- a closed shape covers one shape only
  obtain ⟨shape, hshape⟩ := hclosed.exists_concrete?
  rw [DeclaredShape.covers_iff_of_concrete? hshape] at hcovers
  exact hcovers ▸ hshape

/-- A variable as a call has created it, with the node that makes its first value, the engine and
its session with that node, and the evaluation of the node. -/
structure Created (e : Engine) (n made : GraphNode) (init : Node) (e₁ : Engine) (s : Session)
    (ev : Evaluation Float32) (handle : Node) (e' : Engine) : Prop where
  appended : Appended e made init e₁
  op : ∃ trainable, n.op = .variable trainable (some init.index)
  shape : n.shape = made.shape
  type : n.type = .f32
  closed : made.shape.Closed
  fresh : ∀ name, n.name = some name → e₁.graph.find? name = none
  active : e₁.session = some s
  evaluated : (e₁.setting s .inference .empty).evaluate [init.index] (.start s.streams) = .ok () ev
  handle : handle = e₁.graph.handle e₁.graph.size
  graph : e'.graph = e₁.graph.declare n
  session : e'.session = some
    { s with
      store := s.store.insert e₁.graph.size (ev.known.value init.index)
      streams := ev.streams }
  journal : ∃ records, e'.journal = e₁.journal ++ records

/-- What creating a variable may leave behind when it fails: the node of the first value, which may
have been drawn from. -/
def Attempted (op : Op) (e e' : Engine) : Prop :=
  ∃ e₁, (e₁ = e ∨ ∃ made init, made.op = op ∧ Appended e made init e₁) ∧ Drained e₁ e'

theorem Attempted.refl (op : Op) (e : Engine) : Attempted op e e := ⟨e, .inl rfl, .refl⟩

/-- An attempt is a change, too. -/
theorem Attempted.changes {op : Op} (h : Attempted op e e') : Changes e e' := by
  obtain ⟨e₁, rfl | ⟨made, init, -, happended⟩, hdrained⟩ := h
  · exact hdrained.changes
  · exact .head happended.change hdrained.changes

/-- A variable that is to be trained is listed before its creation goes on. -/
theorem leads_train_if {f : Unit → Call β} {trainable : Bool} {slot : Nat}
    (h : Leads (f ()) { e with graph := if trainable then e.graph.train slot else e.graph } R
      post) :
    Leads (if trainable then train slot >>= f else f ()) e R post := by
  cases trainable <;> exact h

/-- A failing call may leave the node of the first value behind. -/
theorem leads_createVariable (shape : DeclaredShape) (initializer : Initializer) (name : String)
    (trainable : Bool) :
    Leads (createVariable shape initializer name trainable) e (Attempted (initializer.op shape) e)
      fun handle e' => ∃ made init e₁ s ev, made.op = initializer.op shape ∧
        Created e ⟨.variable trainable (some init.index), shape, .f32, some name⟩ made init e₁ s ev
          handle e' := by
  have h₀ : Attempted (initializer.op shape) e e := .refl _ e
  refine leads_checkActive h₀ fun _ => leads_checkShape h₀ fun _ hclosed =>
    leads_checkFresh h₀ fun _ => ?_
  -- the node of the initializer is registered and evaluated before the variable is
  refine leads_bind_iff.2 (Leads.imp (appends_compile initializer shape) ?_ ?_)
  · rintro _ rfl
    exact h₀
  rintro init e₁ ⟨made, hop, hmade⟩
  have hleft : ∀ {e'}, Drained e₁ e' → Attempted (initializer.op shape) e e' :=
    fun hdrained => ⟨e₁, .inr ⟨made, init, hop, hmade⟩, hdrained⟩
  have h₁ := hleft .refl
  refine leads_located h₁ fun found hfound => leads_unless h₁ fun hshape => ?_
  refine leads_evaluate h₁ (fun s _ ev hs _ => hleft (drained_absorb hs ev)) fun s ev hs hev => ?_
  refine leads_bind_iff.2 (leads_register (hleft (drained_absorb hs ev)) fun _ hfresh => ?_)
  refine leads_bind_iff.2 (leads_train_if ?_)
  obtain rfl : found.2 = made := Option.some.inj (hfound.node.symm.trans hmade.getElem?)
  obtain rfl := not_not.1 hshape
  rw [hfound.slot] at hev ⊢
  refine ⟨found.2, init, e₁, s, ev, hop, ?_⟩
  constructor
  case appended => exact hmade
  case op => exact ⟨trainable, rfl⟩
  case shape => rfl
  case type => rfl
  case closed => exact hclosed rfl
  case fresh => exact hfresh
  case active => exact hs
  case evaluated => exact hev
  case handle => rfl
  case graph => rfl
  case session => rfl
  case journal =>
    refine ⟨ev.journal ++ #[.createdVariable name found.2.shape], ?_⟩
    simp only [absorb, Array.push_eq_append, Array.append_assoc]

/-- Creating a variable appends the node of its first value and then the variable. -/
theorem Created.changes {n made : GraphNode} {init : Node} {e₁ : Engine} {s : Session}
    {ev : Evaluation Float32} {handle : Node} (h : Created e n made init e₁ s ev handle e')
    (hsound : e.Sound) : Changes e e' := by
  have h₁ : Changes e e₁ := .single h.appended.change
  have hinit := h.appended.getElem?
  have hvalue := shape_of_evaluate (h₁.sound hsound) h.active hinit h.closed h.evaluated
  obtain ⟨trainable, hop⟩ := h.op
  have htyped : n.op.Typed (e₁.graph.before e₁.graph.size) n.shape n.type := by
    rw [hop, h.shape, h.type]
    exact .stored (Graph.before_size hinit) h.closed
  -- the streams are drawn from, then the variable gets its value, then the records are made
  obtain ⟨records, hjournal⟩ := h.journal
  have hdraw := Change.draw h.active ev.streams
  have hdeclare := Change.declare
    (e := { e₁ with session := some { s with streams := ev.streams } })
    rfl htyped h.fresh (by rw [hop]; rfl) (h.shape ▸ hvalue)
  obtain ⟨graph, session, journal⟩ := e'
  obtain rfl := h.graph
  obtain rfl := h.session
  obtain rfl := hjournal
  exact ((h₁.tail hdraw).tail hdeclare).tail (.report records)

/-- Creating a variable only makes changes. -/
theorem changing_createVariable (shape : DeclaredShape) (initializer : Initializer) (name : String)
    (trainable : Bool) : Changing (createVariable shape initializer name trainable) := by
  refine fun e hsound => (leads_createVariable shape initializer name trainable).imp
    (fun _ h => h.changes) ?_
  rintro handle e' ⟨made, init, e₁, s, ev, -, hcreated⟩
  exact hcreated.changes hsound

/-- A counter is appended together with its first value. -/
theorem leads_declare (initial : Int64) (name : String) :
    Leads (counter initial name) e (e = ·) fun handle e' =>
      ∃ s, e.session = some s ∧ e.graph.find? name = none ∧
        handle = e.graph.handle e.graph.size ∧
        e' = { e with
          graph := e.graph.declare ⟨.variable false none, [], .i64, some name⟩
          session := some { s with
            store := s.store.insert e.graph.size (.ofValue (.integer initial)) } } := by
  refine leads_bind_iff.2 (leads_register rfl fun hactive hfresh => ?_)
  obtain ⟨graph, session, journal⟩ := e
  obtain ⟨s, rfl⟩ := Option.isSome_iff_exists.1 hactive
  exact ⟨s, rfl, hfresh name rfl, rfl, rfl⟩

theorem changing_counter (initial : Int64) (name : String) : Changing (counter initial name) := by
  refine fun e _ => (leads_declare initial name).imp ?_ ?_
  · rintro _ rfl
    exact .refl
  · rintro handle _ ⟨s, hs, hfresh, rfl, rfl⟩
    refine .single (.declare hs .counter (fun _ hname => ?_) rfl rfl)
    rwa [← Option.some.inj hname]

/-- Reading a variable drains nothing but streams. -/
theorem keeps_readVariable (handle : Node) : Keeps Drained (readVariable handle) := by
  intro e
  refine leads_locate .refl fun slot n hn => leads_expectVariable .refl fun _ => ?_
  exact leads_evaluate .refl (fun s _ ev hs _ => drained_absorb hs ev)
    fun s ev hs _ => leads_pure (drained_absorb hs ev)

theorem changing_readVariable (handle : Node) : Changing (readVariable handle) :=
  fun e _ => (keeps_readVariable handle e).imp (fun _ h => h.changes) fun _ _ h => h.changes

/-! ## Calls that look at nodes or end the session -/

/-- Whether a result is forgotten does not matter to what changes. -/
theorem Changing.discard {α : Type} {c : Call α} (hc : Changing c) : Changing (discard c) := by
  rw [discard_eq_bind]
  exact hc.bind fun _ _ _ => leads_pure .refl

/-- A call that leaves an engine as it is makes no changes. -/
theorem Keeps.changing {α : Type} {c : Call α} (hc : Keeps Eq c) : Changing c := by
  refine fun e _ => (hc e).imp ?_ ?_
  · rintro _ rfl
    exact .refl
  · rintro _ _ rfl
    exact .refl

/-- Binding a function looks at the graph. -/
theorem keeps_function (inputs outputs updates : List Node) :
    Keeps Eq (function inputs outputs updates) :=
  fun _ => (leads_function inputs outputs updates).imp (fun _ => id) fun _ _ => And.left

theorem keeps_shape (handle : Node) : Keeps Eq (shape handle) :=
  keeps_checkActive.bind fun _ => (keeps_locate handle).bind fun _ _ => leads_pure rfl

theorem keeps_type (handle : Node) : Keeps Eq (type handle) :=
  keeps_checkActive.bind fun _ => (keeps_locate handle).bind fun _ _ => leads_pure rfl

theorem keeps_initializer (handle : Node) : Keeps Eq (initializer handle) := by
  intro e
  refine leads_checkActive rfl fun _ => leads_locate rfl fun slot n _ => ?_
  dsimp only
  split
  · exact leads_currentGraph (leads_pure rfl)
  · exact leads_refuse rfl

/-- Ending the session is a change. -/
theorem changing_dispose : Changing dispose := by
  intro e _
  refine leads_get ?_
  split
  · exact (changes_report (.disposedSession e.graph.id)).tail .dispose
  · exact leads_pure .refl

end Engine
end TensorGraph
