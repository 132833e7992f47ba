import TensorGraph.Proofs.Derivative.Reading
import TensorGraph.Proofs.Run.Commitment

/-!
# Increments of one variable

An increment computes the sum of its variable at the start of a run and its delta, and assigns that
sum. Several increments of one variable in a run all start from the same value, and their sums are
assigned one after the other. So the variable ends up with the delta of the last increment only, and
those of the others are lost. A variable with a single increment gets its delta, whatever the order
in which a function lists its increments.

## Main definitions

* `Engine.Increments`: functions that update by increments only.
* `Setting.raised`: a variable with some nodes added to it.
* `Setting.KeepsLast`: what becomes of variables when increments are committed.

## Main results

* `Engine.run_keeps_last_increment`: what a run leaves of its increments.
* `Engine.increments_not_summed`: two increments of which one is lost.
-/

namespace TensorGraph

/-- The node that an operation adds to a variable. -/
def Op.delta? (target : Nat) : Op → Option Nat
  | assignAdd t delta => if t = target then some delta else none
  | _ => none

namespace Graph

/-- The slot holds an increment of a variable. -/
def IsIncrement (g : Graph) (slot : Nat) : Prop :=
  ∃ n target delta, g.nodes[slot]? = some n ∧ n.op = .assignAdd target delta

/-- The nodes that increments add to a variable, in the order of the increments. -/
def deltas (g : Graph) (target : Nat) (increments : List Nat) : List Nat :=
  increments.filterMap fun u => (g.nodes[u]?).bind fun n => n.op.delta? target

variable {g : Graph} {target u : Nat}

/-- Increments are collected one batch after the other. -/
theorem deltas_append (us vs : List Nat) :
    g.deltas target (us ++ vs) = g.deltas target us ++ g.deltas target vs :=
  List.filterMap_append

/-- One update contributes its increment of the target, if it has one. -/
theorem deltas_singleton {n : GraphNode} (hn : g.nodes[u]? = some n) :
    g.deltas target [u] = (n.op.delta? target).toList := by
  rw [deltas, List.filterMap_cons, hn, Option.bind_some, List.filterMap_nil]
  cases n.op.delta? target <;> rfl

/-- An increment updates a variable. -/
theorem IsIncrement.isSome_updated? (h : g.IsIncrement u) : (g.updated? u).isSome := by
  obtain ⟨n, target, delta, hn, hop⟩ := h
  rw [updated?, hn, Option.bind_some, hop]
  rfl

/-- When all increments of a variable are the same, there is at most one of them. -/
theorem deltas_eq_last {increments : List Nat} (hnodup : increments.Nodup)
    (hsame : ∀ u ∈ increments, ∀ v ∈ increments, g.updated? u = some target →
      g.updated? v = some target → u = v) :
    (g.deltas target increments).getLast?.toList = g.deltas target increments := by
  have hupdated : ∀ u delta, ((g.nodes[u]?).bind fun n => n.op.delta? target) = some delta →
      g.updated? u = some target := by
    intro u delta hdelta
    obtain ⟨n, hn, hop⟩ := Option.bind_eq_some_iff.1 hdelta
    rw [updated?, hn, Option.bind_some]
    generalize n.op = op at hop
    cases op with
    | assignAdd t delta' =>
      simp only [Op.delta?, Option.ite_none_right_eq_some] at hop
      rw [Op.updated?, hop.1]
    | _ => cases hop
  -- no two increments add to the variable
  have hpairwise : (g.deltas target increments).Pairwise fun _ _ => False := by
    refine List.pairwise_filterMap.2 (hnodup.imp_of_mem fun hu hv hne d hd d' hd' => ?_)
    exact hne (hsame _ hu _ hv (hupdated _ d hd) (hupdated _ d' hd'))
  rcases hdeltas : g.deltas target increments with _ | ⟨d, _ | ⟨d', ds⟩⟩
  · rfl
  · rfl
  · rw [hdeltas] at hpairwise
    exact ((List.pairwise_cons.1 hpairwise).1 d' List.mem_cons_self).elim

end Graph

/-- Variables after the assignments of an evaluation have been made. -/
def Evaluation.commit {S : Type} (ev : Evaluation S) (store : SlotMap (Tensor S)) :
    SlotMap (Tensor S) :=
  ev.assignments.toList.foldl (fun vs (slot, t) => vs.insert slot t) store

namespace Setting

variable {S : Type} [Scalar S] {env : Setting S} {noise : Nat → Option (Tensor S)} {target : Nat}

/-- The evaluation of some slots, when it gives a result. -/
def result? (env : Setting S) (asked : List Nat) (streams : SlotMap Stream) :
    Option (Evaluation S) :=
  match env.evaluate asked (.start streams) with
  | .ok _ ev => some ev
  | .error _ _ => none

/-- The result of a run is the working state that it ends in. -/
theorem result?_eq_some_iff {asked : List Nat} {streams : SlotMap Stream} {ev : Evaluation S} :
    env.result? asked streams = some ev ↔ env.evaluate asked (.start streams) = .ok () ev := by
  unfold result?
  cases env.evaluate asked (.start streams) <;> simp

/-- The value of a variable at the start of a run with the values of some nodes added to it, each
stretched to the shape of the variable. -/
def raised (env : Setting S) (noise : Nat → Option (Tensor S)) (target : Nat) (deltas : List Nat) :
    Option (Tensor S) := do
  let start ← env.store.get? target
  let added ← deltas.mapM fun delta => env.recompute noise (delta + 1) delta
  return added.foldl (fun sum t => sum.add (t.stretch start.shape)) start

/-- Without increments a variable keeps its value. -/
theorem raised_nil : env.raised noise target [] = env.store.get? target := by
  cases h : env.store.get? target <;> simp [raised, h]

/-- An increment contributes the variable with its delta added. -/
theorem contribute_assignAdd (delta : Nat) :
    env.contribute noise (.assignAdd target delta) = env.raised noise target [delta] := by
  cases h : env.store.get? target <;> cases h' : env.recompute noise (delta + 1) delta <;>
    simp [contribute, raised, h, h']

/-- What becomes of the variables when the increments of a run are committed. -/
structure KeepsLast (env : Setting S) (noise : Nat → Option (Tensor S)) (increments : List Nat)
    (store : SlotMap (Tensor S)) : Prop where
  /-- A variable has its first value and what its last increment adds. -/
  last : ∀ target, store.get? target =
    env.raised noise target (env.graph.deltas target increments).getLast?.toList
  /-- Nothing is added to a variable without increments, and everything to one with a single
  increment. -/
  summed : ∀ target, (∀ u ∈ increments, ∀ v ∈ increments, env.graph.updated? u = some target →
      env.graph.updated? v = some target → u = v) →
    store.get? target = env.raised noise target (env.graph.deltas target increments)
  /-- No variable loses its value. -/
  held : ∀ target, (env.store.get? target).isSome → (store.get? target).isSome

/-- Increments that are applied in order leave what the last one of a variable adds. -/
theorem get?_foldl_apply_increments {increments : List Nat}
    (hincrements : ∀ u ∈ increments, env.graph.IsIncrement u)
    (hcontributes : ∀ u ∈ increments, (env.contribution noise u).isSome) :
    (increments.foldl (env.apply noise) env.store).get? target =
      env.raised noise target (env.graph.deltas target increments).getLast?.toList := by
  -- the induction takes the last increment off, which decides
  induction increments using List.reverseRecOn with
  | nil => exact raised_nil.symm
  | append_singleton us u ih =>
    obtain ⟨n, t, delta, hn, hop⟩ := hincrements u (by simp)
    obtain ⟨sum, hsum⟩ := Option.isSome_iff_exists.1 (hcontributes u (by simp))
    have hupdated : env.graph.updated? u = some t := by
      rw [Graph.updated?, hn, Option.bind_some, hop, Op.updated?]
    rw [List.foldl_append, List.foldl_cons, List.foldl_nil, apply_eq hupdated hsum,
      Graph.deltas_append, Graph.deltas_singleton hn, hop, Op.delta?]
    by_cases htarget : t = target
    · rw [contribution, hn, Option.bind_some, hop, contribute_assignAdd, htarget] at hsum
      rw [htarget, SlotMap.get?_insert_self, if_pos rfl, Option.toList_some, List.getLast?_concat,
        Option.toList_some, hsum]
    · rw [SlotMap.get?_insert_of_ne _ _ (Ne.symm htarget), if_neg htarget, Option.toList_none,
        List.append_nil]
      exact ih (fun v hv => hincrements v (List.mem_append_left _ hv))
        fun v hv => hcontributes v (List.mem_append_left _ hv)

/-- Applying updates keeps variables that have values. -/
theorem isSome_get?_foldl_apply {updates : List Nat} {store : SlotMap (Tensor S)}
    (h : (store.get? target).isSome) :
    ((updates.foldl (env.apply noise) store).get? target).isSome := by
  induction updates generalizing store with
  | nil => exact h
  | cons u updates ih =>
    -- an update inserts a value or does nothing
    refine ih ?_
    unfold apply
    split
    · next t _ _ _ =>
      by_cases htarget : target = t
      · rw [htarget, SlotMap.get?_insert_self]
        rfl
      · rwa [SlotMap.get?_insert_of_ne _ _ htarget]
    · exact h

/-- Of several increments of one variable the last one is what is kept. -/
theorem Commits.keepsLast {increments : List Nat} {store : SlotMap (Tensor S)}
    (h : env.Commits noise increments store) (hnodup : increments.Nodup)
    (hincrements : ∀ u ∈ increments, env.graph.IsIncrement u) :
    env.KeepsLast noise increments store := by
  have hlast : ∀ target, store.get? target =
      env.raised noise target (env.graph.deltas target increments).getLast?.toList := by
    intro target
    rw [h.applied, get?_foldl_apply_increments hincrements h.contributes]
  refine ⟨hlast, fun target hsame => ?_, fun target hheld => ?_⟩
  · rw [hlast, Graph.deltas_eq_last hnodup hsame]
  · rw [h.applied]
    exact isSome_get?_foldl_apply hheld

end Setting

namespace Engine

variable {e e' : Engine} {s : Session} {f : Function} {feeds : List (Node × Value)}
  {values : List Value}

/-- Functions that update by increments only: they list increments, and reach no other updates than
those that they list. -/
structure Increments (e : Engine) (f : Function) : Prop where
  listed : ∀ n ∈ f.updates, e.graph.IsIncrement n.index
  reached : ∀ n ∈ f.outputs ++ f.updates, ∀ u, e.graph.Reaches n.index u →
    (e.graph.updated? u).isSome → ∃ m ∈ f.updates, m.index = u

/-- The updates that such a function reaches are the increments that it lists. -/
theorem Increments.mem_updates_iff (h : e.Increments f) (hsound : e.Sound)
    (htargets : ∀ t ∈ (f.outputs ++ f.updates).map (·.index), t < e.graph.size) {u : Nat} :
    u ∈ e.graph.updates ((f.outputs ++ f.updates).map (·.index)) ↔
      ∃ n ∈ f.updates, n.index = u := by
  rw [hsound.typed.mem_updates_iff htargets]
  constructor
  · rintro ⟨⟨t, ht, hreached⟩, hupdated⟩
    obtain ⟨n, hn, rfl⟩ := List.mem_map.1 ht
    exact h.reached n hn u hreached hupdated
  · rintro ⟨n, hn, rfl⟩
    exact ⟨⟨n.index, List.mem_map_of_mem (List.mem_append_right _ hn), .refl⟩,
      (h.listed n hn).isSome_updated?⟩

/-- After a run of a function that updates by increments only, every variable has its value from
the start of the run and what its last increment adds to that. The increments are those that the
function lists, each of them once, in the order in which evaluation finishes them. A variable with a
single increment has everything added to it that should be, but of several increments only the last
one counts. The same holds in exact arithmetic, as it does for numbers of any kind. -/
theorem run_keeps_last_increment (h : e.Reachable) (hs : e.session = some s)
    (hf : e.Increments f) (hrun : run f feeds e = .ok values e') :
    let targets := (f.outputs ++ f.updates).map (·.index)
    let increments := e.graph.updates targets
    increments.Nodup ∧ (∀ u, u ∈ increments ↔ ∃ n ∈ f.updates, n.index = u) ∧
    (∃ ev s', (e.setting s f.phase (feedTable feeds .empty)).evaluate targets
        (.start s.streams) = .ok () ev ∧ e'.session = some s' ∧
      (e.setting s f.phase (feedTable feeds .empty)).KeepsLast ev.noise.get? increments s'.store) ∧
    ∀ {S : Type} [Scalar S] (env : Setting S) (streams : SlotMap Stream) (ev : Evaluation S),
      env.graph = e.graph → env.evaluate targets (.start streams) = .ok () ev →
      env.KeepsLast ev.noise.get? increments (ev.commit env.store) := by
  intro targets increments
  obtain ⟨ev, hran⟩ := exists_ran hs hrun
  have hnodup : increments.Nodup := e.graph.nodup_updates targets
  have hmem := fun u => hf.mem_updates_iff h.sound hran.lt_size (u := u)
  have hincrements : ∀ u ∈ increments, e.graph.IsIncrement u := by
    intro u hu
    obtain ⟨n, hn, rfl⟩ := (hmem u).1 hu
    exact hf.listed n hn
  refine ⟨hnodup, hmem, ⟨ev, _, hran.evaluated, hran.session,
    (hran.commits h.sound).keepsLast hnodup hincrements⟩, fun env streams ev hgraph hev => ?_⟩
  -- in exact arithmetic, too, an evaluation commits its updates in the order of the schedule
  have hcommits := Setting.commits_of_evaluate (hgraph ▸ h.sound.typed) (hgraph ▸ hran.lt_size) hev
  rw [hgraph] at hcommits
  exact hcommits.keepsLast hnodup (by rwa [hgraph])

/-- An engine with a counter, and two increments of it by one and by ten. -/
def raising : Engine := built
  [.counter 5 "n", .constant (.integer 1) none, .constant (.integer 10) none,
    .updateAdd ⟨0, 0⟩ ⟨0, 1⟩, .updateAdd ⟨0, 0⟩ ⟨0, 2⟩]

theorem reachable_raising : raising.Reachable := reachable_built _

/-- Both increments are made. -/
def raiseTwice : Function := .ofNodes 0 [] [] [⟨0, 3⟩, ⟨0, 4⟩]

theorem raising_updates : raising.graph.updates [3, 4] = [3, 4] := by decide +kernel

/-- They add one and ten to the counter. -/
theorem raising_deltas : raising.graph.deltas 0 (raising.graph.updates [3, 4]) = [1, 2] := by
  decide +kernel

/-- A function that raises a counter twice only increments. -/
theorem increments_raiseTwice : raising.Increments raiseTwice where
  listed := by
    have hlisted : ∀ n ∈ raiseTwice.updates, (raising.graph.nodes[n.index]?).any fun n =>
        match n.op with
        | .assignAdd _ _ => true
        | _ => false := by decide +kernel
    intro n hn
    obtain ⟨m, hm, hop⟩ := (Option.any_eq_true _ _).1 (hlisted n hn)
    split at hop
    · next target delta heq => exact ⟨m, target, delta, hm, heq⟩
    · cases hop
  reached n hn u hreached hupdated := by
    -- what is reached and updates is among the updates of the schedule
    have hsize : ∀ t ∈ [3, 4], t < raising.graph.size := by decide +kernel
    have hmem := (reachable_raising.sound.typed.mem_updates_iff hsize).2
      ⟨⟨n.index, List.mem_map_of_mem (f := (·.index)) hn, hreached⟩, hupdated⟩
    rw [raising_updates] at hmem
    rcases List.mem_pair.1 hmem with rfl | rfl
    · exact ⟨⟨0, 3⟩, by decide, rfl⟩
    · exact ⟨⟨0, 4⟩, by decide, rfl⟩

/-- The counter is fifteen afterwards: ten has been added to it, but not one. -/
theorem raising_keeps_ten : ∃ s s' values e' ev, raising.session = some s ∧
    run raiseTwice [] raising = .ok values e' ∧ e'.session = some s' ∧
    (raising.setting s .inference .empty).evaluate [3, 4] (.start s.streams) = .ok () ev ∧
    s'.store.get? 0 = (raising.setting s .inference .empty).raised ev.noise.get? 0 [2] ∧
    (s'.store.get? 0).map (·.data) = some #[15] := by
  have hdata : ((raising.after (run raiseTwice [])).session.bind fun s => s.store.get? 0).map
      (·.data) = some #[15] := by decide +kernel
  obtain ⟨values, e', hrun⟩ := exists_of_gives (c := run raiseTwice []) (e := raising)
    (by decide +kernel)
  obtain ⟨s, ev₀, hran⟩ := (leads_run _ _).of_eq_ok hrun
  obtain ⟨-, -, ⟨ev, s', hev, hs', hkeeps⟩, -⟩ :=
    run_keeps_last_increment reachable_raising hran.active increments_raiseTwice hrun
  rw [Engine.after, hrun] at hdata
  dsimp only at hdata
  rw [hs', Option.bind_some] at hdata
  -- of the two increments, the ten is the one that is kept
  have hlast := hkeeps.last 0
  have hdeltas := congrArg (fun deltas => deltas.getLast?.toList) raising_deltas
  exact ⟨s, s', values, e', ev, hran.active, hrun, hs', hev,
    hlast.trans (congrArg (Setting.raised _ _ 0) hdeltas), hdata⟩

/-- Listed the other way round, one is added and ten is lost. -/
example : (answer (run (.ofNodes 0 [] [] [⟨0, 4⟩, ⟨0, 3⟩]) [] >>= fun _ => readVariable ⟨0, 0⟩)
    raising).toOption.map (·.agrees (.integer 6)) = some true := by decide +kernel

/-- Increments of a variable do not always add up, even in exact arithmetic. -/
theorem increments_not_summed :
    ¬ ∀ (e e' : Engine) (s : Session) (f : Function) (feeds : List (Node × Value))
      (values : List Value) (streams : SlotMap Stream) (ev : Evaluation ℚ), e.Reachable →
      e.session = some s → e.Increments f → run f feeds e = .ok values e' →
      let env := (e.setting s f.phase (feedTable feeds .empty)).exactly ℚ
      let targets := (f.outputs ++ f.updates).map (·.index)
      env.evaluate targets (.start streams) = .ok () ev →
      ∀ target, (ev.commit env.store).get? target =
        env.raised ev.noise.get? target (e.graph.deltas target (e.graph.updates targets)) := by
  intro h
  obtain ⟨values, e', hrun⟩ := exists_of_gives (c := run raiseTwice []) (e := raising)
    (by decide +kernel)
  obtain ⟨s, ev₀, hran⟩ := (leads_run _ _).of_eq_ok hrun
  -- exact arithmetic keeps ten over five as well, where the sum of both increments is sixteen
  have hdiffers : (raising.session.bind fun s =>
      let env := (raising.setting s .inference .empty).exactly ℚ
      (env.result? [3, 4] .empty).map fun ev =>
        (((ev.commit env.store).get? 0).map (·.data),
          (env.raised ev.noise.get? 0 [1, 2]).map (·.data))) = some (some #[15], some #[16]) := by
    decide +kernel
  rw [hran.active, Option.bind_some] at hdiffers
  obtain ⟨ev, hev, hdiffers⟩ := Option.map_eq_some_iff.1 hdiffers
  obtain ⟨hfifteen, hsixteen⟩ := Prod.mk.inj hdiffers
  have hsum := h raising e' s raiseTwice [] values .empty ev reachable_raising hran.active
    increments_raiseTwice hrun (Setting.result?_eq_some_iff.1 hev) 0
  have hdeltas : raising.graph.deltas 0 (raising.graph.updates
      ((raiseTwice.outputs ++ raiseTwice.updates).map (·.index))) = [1, 2] := raising_deltas
  rw [hdeltas] at hsum
  have hboth := hfifteen.symm.trans ((congrArg (Option.map (·.data)) hsum).trans hsixteen)
  exact absurd hboth (by decide +kernel)

end Engine
end TensorGraph
