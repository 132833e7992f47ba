import TensorGraph.Proofs.Evaluation.Conforming
import TensorGraph.Proofs.Run.Overrides

/-!
# Whether a run succeeds

Whether a run gives values depends on the element types and the shapes of what it is fed, and on the
graph of the engine, but neither on the numbers that are fed nor on those that the variables hold,
as long as no random node is evaluated.

## Main definitions

* `Value.Resembles`: values of one element type and one shape.

## Main results

* `Engine.gives_run`: what a run needs to give values.
* `Engine.exists_run_eq_error_iff`: when a run that has what it needs fails.
* `Engine.Ran.exists_conforming`: evaluating what a run has evaluated in another setting.
* `Engine.Ran.gives_of_resembles`: a run on similar feeds.
-/

namespace TensorGraph

/-- Values of one element type and one shape. -/
structure Value.Resembles (v v' : Value) : Prop where
  type : v'.type = v.type
  shape : v'.shape = v.shape

/-- Feeds of the same nodes, in order, with similar values. -/
abbrev FeedsResemble : List (Node × Value) → List (Node × Value) → Prop :=
  List.Forall₂ fun feed feed' => feed'.1 = feed.1 ∧ feed.2.Resembles feed'.2

/-- Values that resemble each other are feeds that do. -/
theorem feedsResemble_zip {inputs : List Node} {values values' : List Value}
    (h : List.Forall₂ Value.Resembles values values') :
    FeedsResemble (inputs.zip values) (inputs.zip values') := by
  induction h generalizing inputs with
  | nil =>
    rw [List.zip_nil_right]
    exact .nil
  | cons hvalue _ ih =>
    cases inputs with
    | nil => exact .nil
    | cons input inputs => exact .cons ⟨rfl, hvalue⟩ ih

/-- Similar feeds put tensors of the same shapes into the same slots. -/
theorem map_shape_feedTable {feeds feeds' : List (Node × Value)} (h : FeedsResemble feeds feeds')
    {table table' : SlotMap (Tensor Float32)}
    (htable : ∀ slot, (table'.get? slot).map (·.shape) = (table.get? slot).map (·.shape))
    (slot : Nat) : ((feedTable feeds' table').get? slot).map (·.shape) =
      ((feedTable feeds table).get? slot).map (·.shape) := by
  induction h generalizing table table' with
  | nil => exact htable slot
  | @cons feed feed' _ _ hfeed _ ih =>
    obtain ⟨hnode, hvalue⟩ := hfeed
    refine ih fun s => ?_
    dsimp only
    rw [hnode]
    -- both tables get a tensor of one shape in the same slot
    by_cases hs : s = feed.1.index
    · subst hs
      simp only [SlotMap.get?_insert_self, Option.map_some, Tensor.shape_ofValue, hvalue.shape]
    · rw [SlotMap.get?_insert_of_ne _ _ hs, SlotMap.get?_insert_of_ne _ _ hs, htable s]

namespace Engine

variable {α β : Type} {e e' e₁ : Engine} {f : Function} {feeds feeds' : List (Node × Value)}

theorem gives_of_eq {c : Call α} {a : α} (h : c e = .ok a e') : gives c e := by
  rw [gives, h]

/-- A call gives a value if its first part does and the rest from there. -/
theorem gives_bind {c : Call α} {g : α → Call β} {a : α} (h : c e = .ok a e₁)
    (hg : gives (g a) e₁) : gives (c >>= g) e := by
  obtain ⟨b, e', hb⟩ := exists_of_gives hg
  exact gives_of_eq (bind_eq_ok_iff.2 ⟨a, e₁, h, hb⟩)

/-- A value of the right type and a fitting shape passes the check of a feed. -/
theorem exists_checkFeed (slot : Nat) {n : GraphNode} {value : Value} (htype : value.type = n.type)
    (hfits : value.fits n.shape) (hpos : 0 ∉ value.shape) :
    ∃ e', checkFeed slot n value e = .ok () e' ∧ Reported e e' := by
  unfold checkFeed
  simp only [htype, ne_eq, not_true_eq_false, if_false, hfits, Bool.not_true, Bool.false_eq_true,
    List.contains_eq_mem, hpos, decide_false]
  split
  · exact ⟨_, rfl, reported_report _⟩
  · exact ⟨e, rfl, .refl⟩

/-- Admitted feeds are collected. -/
theorem exists_collectFeeds (h : ∀ feed ∈ feeds, Admitted e.graph feed)
    (table : SlotMap (Tensor Float32)) :
    ∃ e', collectFeeds feeds table e = .ok (feedTable feeds table) e' ∧ Reported e e' := by
  induction feeds generalizing e table with
  | nil => exact ⟨e, rfl, .refl⟩
  | cons feed feeds ih =>
    obtain ⟨⟨found, hfound, htype, hfits, hpos⟩, h⟩ := List.forall_mem_cons.1 h
    obtain ⟨e₁, hcheck, hreported⟩ := exists_checkFeed (e := e) found.1 htype hfits hpos
    -- a checked feed leaves at most a record behind
    have hsame := hreported
    obtain ⟨records, rfl⟩ := hsame
    obtain ⟨e', hrest, hreported'⟩ := ih
      (e := { e with journal := e.journal ++ records }) h (table.insert found.1 (.ofValue feed.2))
    refine ⟨e', bind_eq_ok_iff.2 ⟨_, _, hfound.locate_eq, bind_eq_ok_iff.2 ⟨_, _, hcheck, ?_⟩⟩,
      hreported.trans hreported'⟩
    rw [hrest, hfound.slot]
    rfl

/-- Handles of nodes in the graph are all located. -/
theorem exists_mapM_locate {handles : List Node}
    (h : ∀ n ∈ handles, ∃ found, Located e.graph n found) :
    ∃ found, handles.mapM locate e = .ok found e ∧
      found.map (·.1) = handles.map (·.index) := by
  induction handles with
  | nil => exact ⟨[], rfl, rfl⟩
  | cons handle handles ih =>
    obtain ⟨⟨found, hfound⟩, h⟩ := List.forall_mem_cons.1 h
    obtain ⟨rest, hrest, hslots⟩ := ih h
    refine ⟨found :: rest, ?_, by rw [List.map_cons, List.map_cons, hslots, hfound.slot]⟩
    exact mapM_cons_eq_ok_iff.2 ⟨_, _, _, hfound.locate_eq, hrest, rfl⟩

/-- An evaluation on a live engine gives what the setting gives. -/
theorem evaluate_eq_ok {s : Session} (hs : e.session = some s) {phase : Phase}
    {table : SlotMap (Tensor Float32)} {targets : List Nat} {ev : Evaluation Float32}
    (hev : (e.setting s phase table).evaluate targets (.start s.streams) = .ok () ev) :
    evaluate phase table targets e = .ok ev (e.absorb s ev) := by
  rw [evaluate_apply hs, hev]

/-- On a live engine a run whose feeds are admitted and whose nodes are there comes to its
evaluation, and only makes records before. -/
theorem exists_run_eq {s : Session} (hs : e.session = some s) (hgraph : f.graph = e.graph.id)
    (hfeeds : ∀ feed ∈ feeds, Admitted e.graph feed)
    (hlocated : ∀ n ∈ f.outputs ++ f.updates, ∃ found, Located e.graph n found) :
    ∃ e₁ outputs, Reported e e₁ ∧ run f feeds e =
      (evaluate f.phase (feedTable feeds .empty) ((f.outputs ++ f.updates).map (·.index)) >>=
        finishRun outputs) e₁ := by
  obtain ⟨_, hcollect, records, rfl⟩ := exists_collectFeeds hfeeds .empty
  obtain ⟨outputs, houtputs, hslots⟩ := exists_mapM_locate
    (e := { e with journal := e.journal ++ records })
    fun n hn => hlocated n (List.mem_append_left _ hn)
  obtain ⟨updates, hupdates, hslots'⟩ := exists_mapM_locate
    (e := { e with journal := e.journal ++ records })
    fun n hn => hlocated n (List.mem_append_right _ hn)
  have hreported : Reported e { e with journal := e.journal ++ records } := ⟨records, rfl⟩
  refine ⟨_, outputs, hreported.trans
    (reported_report (.running outputs.length updates.length f.phase)), ?_⟩
  -- the checks before the evaluation in the order in which they are made
  refine (bind_of_ok (checkActive_eq (by rw [hs]; rfl))).trans
    ((bind_of_ok (rfl : currentGraph e = .ok e.graph e)).trans ?_)
  simp only [ne_eq, hgraph, not_true_eq_false, if_false]
  refine (bind_of_ok hcollect).trans ((bind_of_ok houtputs).trans ((bind_of_ok hupdates).trans
    ((bind_of_ok rfl).trans ?_)))
  rw [List.map_append, hslots, hslots', ← List.map_append]
  rfl

/-- A run gives values when its feeds are admitted, its nodes are there and their evaluation gives a
result. -/
theorem gives_run {s : Session} (hs : e.session = some s) (hgraph : f.graph = e.graph.id)
    (hfeeds : ∀ feed ∈ feeds, Admitted e.graph feed)
    (hlocated : ∀ n ∈ f.outputs ++ f.updates, ∃ found, Located e.graph n found)
    {ev : Evaluation Float32}
    (hev : (e.setting s f.phase (feedTable feeds .empty)).evaluate
      ((f.outputs ++ f.updates).map (·.index)) (.start s.streams) = .ok () ev) :
    gives (run f feeds) e := by
  obtain ⟨_, outputs, ⟨records, rfl⟩, hrun⟩ := exists_run_eq hs hgraph hfeeds hlocated
  rw [gives, hrun]
  have heval := evaluate_eq_ok (e := { e with journal := e.journal ++ records }) hs hev
  exact gives_bind heval rfl

/-- It fails when their evaluation does, in the same way. -/
theorem exists_run_eq_error_iff {s : Session} (hs : e.session = some s)
    (hgraph : f.graph = e.graph.id) (hfeeds : ∀ feed ∈ feeds, Admitted e.graph feed)
    (hlocated : ∀ n ∈ f.outputs ++ f.updates, ∃ found, Located e.graph n found)
    {failure : Failure} :
    (∃ e', run f feeds e = .error failure e') ↔
      ∃ ev, (e.setting s f.phase (feedTable feeds .empty)).evaluate
        ((f.outputs ++ f.updates).map (·.index)) (.start s.streams) = .error failure ev := by
  obtain ⟨_, outputs, ⟨records, rfl⟩, hrun⟩ := exists_run_eq hs hgraph hfeeds hlocated
  have heval := evaluate_apply (e := { e with journal := e.journal ++ records }) hs f.phase
    (feedTable feeds .empty) ((f.outputs ++ f.updates).map (·.index))
  have hsetting : Engine.setting { e with journal := e.journal ++ records } s f.phase
    (feedTable feeds .empty) = e.setting s f.phase (feedTable feeds .empty) := rfl
  rw [hsetting] at heval
  rw [hrun]
  cases hev : (e.setting s f.phase (feedTable feeds .empty)).evaluate
      ((f.outputs ++ f.updates).map (·.index)) (.start s.streams) with
  | ok _ ev =>
    -- nothing fails once the evaluation has given a result
    rw [hev] at heval
    rw [bind_of_ok heval]
    constructor
    · rintro ⟨_, ⟨⟩⟩
    · rintro ⟨_, ⟨⟩⟩
  | error failure' ev =>
    rw [hev] at heval
    rw [bind_of_error heval]
    constructor
    · rintro ⟨_, ⟨⟩⟩
      exact ⟨ev, rfl⟩
    · rintro ⟨_, ⟨⟩⟩
      exact ⟨_, rfl⟩

/-- Sound engines over one graph hold tensors of the same shapes. -/
theorem Sound.map_shape_store {s s' : Session} (hsound : e.Sound) (hs : e.session = some s)
    (hsound' : e'.Sound) (hs' : e'.session = some s') (hgraph : e'.graph = e.graph) (slot : Nat) :
    (s'.store.get? slot).map (·.shape) = (s.store.get? slot).map (·.shape) := by
  have hholds := hsound.holds hs
  have hholds' := hgraph ▸ hsound'.holds hs'
  cases ht : s.store.get? slot with
  | none =>
    -- what is held is a variable, and the other engine would hold it, too
    rw [Option.map_none, Option.map_eq_none_iff]
    by_contra hsome
    obtain ⟨t', ht'⟩ := Option.ne_none_iff_exists'.1 hsome
    obtain ⟨n, hn, hvar, -⟩ := hholds'.shape ht'
    have hheld := hholds.isSome hn hvar
    rw [ht] at hheld
    cases hheld
  | some t =>
    obtain ⟨n, hn, hvar, hshape⟩ := hholds.shape ht
    obtain ⟨t', ht'⟩ := Option.isSome_iff_exists.1 (hholds'.isSome hn hvar)
    obtain ⟨n', hn', -, hshape'⟩ := hholds'.shape ht'
    obtain rfl := Option.some.inj (hn.symm.trans hn')
    rw [ht', Option.map_some, Option.map_some, ← hshape, ← hshape']

/-- A value may be fed if one that it resembles may. -/
theorem Admitted.of_resembles {g : Graph} {feed feed' : Node × Value} (h : Admitted g feed)
    (hnode : feed'.1 = feed.1) (hvalue : feed.2.Resembles feed'.2) : Admitted g feed' := by
  obtain ⟨found, hfound, htype, hfits, hpos⟩ := h
  refine ⟨found, hnode ▸ hfound, hvalue.type.trans htype, ?_, ?_⟩
  · rw [Value.fits, hvalue.shape]
    exact hfits
  · rw [hvalue.shape]
    exact hpos

/-- The same for all feeds of a run. -/
theorem forall_admitted_of_resemble {g : Graph} (h : FeedsResemble feeds feeds')
    (hfeeds : ∀ feed ∈ feeds, Admitted g feed) : ∀ feed ∈ feeds', Admitted g feed := by
  induction h with
  | nil => simp
  | cons hfeed _ ih =>
    obtain ⟨hhead, htail⟩ := List.forall_mem_cons.1 hfeeds
    exact List.forall_mem_cons.2 ⟨hhead.of_resembles hfeed.1 hfeed.2, ih htail⟩

/-- What a run has evaluated without a random node can be evaluated in every conforming setting,
too, and the values have the same shapes. -/
theorem Ran.exists_conforming {S : Type} [Scalar S] {s : Session} {ev : Evaluation Float32}
    {values : List Value} (h : Ran e s f feeds ev values e₁) (hsound : e.Sound)
    (hsteady : ∀ n ∈ f.outputs ++ f.updates, e.graph.ReachesOnly Op.Steady n.index)
    {env : Setting S} (hconforms : (e.setting s f.phase (feedTable feeds .empty)).Conforms env)
    (streams : SlotMap Stream) :
    ∃ ev', env.evaluate ((f.outputs ++ f.updates).map (·.index)) (.start streams) = .ok () ev' ∧
      ∀ slot ∈ e.graph.schedule ((f.outputs ++ f.updates).map (·.index)),
        (ev'.known.value slot).shape = (ev.known.value slot).shape := by
  have hslots := List.forall_mem_map.2 hsteady
  -- nothing that the run reaches draws, so shapes decide whether it can be evaluated
  obtain ⟨ev', hev', hshapes⟩ := (h.settled hsound).exists_conforming hconforms hsound.typed
    (hsound.fits h.active h.checked) (h.finished hsound)
    (fun slot hslot n hn =>
      (Graph.ReachesOnly.of_mem_schedule hsound.typed hslots slot (List.mem_reverse.1 hslot)).op hn)
    streams
  rw [List.reverse_reverse] at hev'
  refine ⟨ev', ?_, fun slot hslot => hshapes slot (List.mem_reverse.2 hslot)⟩
  rw [Setting.evaluate, hconforms.graph]
  exact hev'

/-- When a function has been run and evaluates no random node, it can be run on similar feeds, too,
on any sound engine over the same graph that has a session. -/
theorem Ran.gives_of_resembles {s : Session} {ev : Evaluation Float32} {values : List Value}
    (h : Ran e s f feeds ev values e₁) (hsound : e.Sound) (hfunction : f.graph = e.graph.id)
    (hsteady : ∀ n ∈ f.outputs ++ f.updates, e.graph.ReachesOnly Op.Steady n.index)
    (hfeeds : FeedsResemble feeds feeds') (hsound' : e'.Sound) (hgraph : e'.graph = e.graph)
    (hactive : e'.session.isSome) : gives (run f feeds') e' := by
  obtain ⟨s', hs'⟩ := Option.isSome_iff_exists.1 hactive
  -- similar feeds and variables of the same declarations have the same shapes
  have hconforms : (e.setting s f.phase (feedTable feeds .empty)).Conforms
      (e'.setting s' f.phase (feedTable feeds' .empty)) :=
    ⟨hgraph, map_shape_feedTable hfeeds fun _ => rfl,
      hsound.map_shape_store h.active hsound' hs' hgraph⟩
  obtain ⟨ev', hev', -⟩ := h.exists_conforming hsound hsteady hconforms s'.streams
  exact gives_run hs' (hgraph ▸ hfunction) (hgraph ▸ forall_admitted_of_resemble hfeeds h.admitted)
    (hgraph ▸ h.located) hev'

end Engine
end TensorGraph
