import TensorGraph.Proofs.Engine.Reachable

/-!
# What executing a function binds its inputs to

Executing a function walks its inputs in order and binds each to its override, or else to its
default; a run then gathers the bindings by slot, where a later one takes the place of an earlier
one. An override is used up by the first place its input has among the inputs. So it counts for an
input that is listed once, while an input that is listed more than once ends up bound to its
default.

## Main definitions

* `Function.withDefaults`: a function with several defaults.
* `Function.binding?`: what a node is bound to.

## Main results

* `Function.lastBinding?_resolve`: the bindings that a function resolves its inputs to.
* `Engine.execute_evaluates_bindings`: executing a function evaluates the graph with these.
-/

namespace TensorGraph

namespace Function

variable {f f' : Function} {inputs : List Node} 
  {bindings overrides added feeds : List (Node × Value)} {n m : Node}

/-! ## The last binding of a node -/

/-- A later binding counts before an earlier one. -/
theorem lastBinding?_append (bindings bindings' : List (Node × Value)) (n : Node) :
    lastBinding? (bindings ++ bindings') n =
      (lastBinding? bindings' n).or (lastBinding? bindings n) := by
  rw [lastBinding?, List.reverse_append, List.find?_append, Option.map_or]
  rfl

theorem lastBinding?_singleton (n m : Node) (v : Value) :
    lastBinding? [(m, v)] n = if m = n then some v else none := by
  by_cases h : m = n <;> simp [lastBinding?, h]

theorem lastBinding?_cons (binding : Node × Value) (bindings : List (Node × Value)) (n : Node) :
    lastBinding? (binding :: bindings) n =
      (lastBinding? bindings n).or (if binding.1 = n then some binding.2 else none) := by
  rw [← lastBinding?_singleton]
  exact lastBinding?_append [binding] bindings n

/-- Leaving out the bindings of one node keeps those of the others. -/
theorem lastBinding?_filter (bindings : List (Node × Value)) (n m : Node) :
    lastBinding? (bindings.filter (·.1 ≠ m)) n =
      if n = m then none else lastBinding? bindings n := by
  induction bindings with
  | nil => simp [lastBinding?]
  | cons binding bindings ih =>
    by_cases hm : binding.1 = m <;> by_cases hn : n = m <;>
      simp_all [lastBinding?_cons, eq_comm]

theorem isSome_lastBinding?_iff :
    (lastBinding? bindings n).isSome ↔ n ∈ bindings.map (·.1) := by
  rw [lastBinding?, Option.isSome_map, List.find?_isSome]
  simp

/-! ## Defaults -/

/-- The function with defaults added one after the other. -/
def withDefaults (f : Function) (defaults : List (Node × Value)) : Except Error Function :=
  defaults.foldlM (fun f binding => f.withDefault binding.1 binding.2) f

/-- Adding a default changes the defaults only, and the default counts from there on. -/
theorem withDefault_eq_ok {v : Value} (h : f.withDefault n v = .ok f') :
    ∃ kept, f' = { f with defaults := kept } ∧
      ∀ m, lastBinding? kept m = (lastBinding? [(n, v)] m).or (lastBinding? f.defaults m) := by
  unfold withDefault at h
  split at h
  · cases h
    refine ⟨_, rfl, fun m => ?_⟩
    -- a default that was there before is dropped, which only matters for other nodes
    rw [lastBinding?_append, lastBinding?_filter, lastBinding?_singleton]
    by_cases hm : m = n <;> simp [hm]
  · cases h

/-- Of several defaults for a node the one that was added last counts. -/
theorem withDefaults_eq_ok (h : f.withDefaults added = .ok f') :
    ∃ kept, f' = { f with defaults := kept } ∧
      ∀ m, lastBinding? kept m = (lastBinding? added m).or (lastBinding? f.defaults m) := by
  induction added generalizing f with
  | nil =>
    cases h
    exact ⟨_, rfl, fun _ => rfl⟩
  | cons binding added ih =>
    obtain ⟨f₁, hfirst, hrest⟩ := except_bind_eq_ok_iff.1 h
    obtain ⟨first, rfl, hdefaults⟩ := withDefault_eq_ok hfirst
    obtain ⟨kept, rfl, hkept⟩ := ih hrest
    -- the bindings added later shadow this one, and this one shadows those before
    refine ⟨kept, rfl, fun m => ?_⟩
    rw [hkept, hdefaults, ← Option.or_assoc, ← lastBinding?_append]
    rfl

/-! ## Resolving inputs -/

/-- What a node is bound to: an input that is listed once to its override, or else to its default,
and an input that is listed more often to its default. -/
def binding? (inputs : List Node) (defaults overrides : List (Node × Value)) (n : Node) :
    Option Value :=
  if n ∈ inputs then
    if 1 < inputs.count n then lastBinding? defaults n
    else (lastBinding? overrides n).or (lastBinding? defaults n)
  else none

/-- Every input is bound, in order and as often as it is listed. -/
theorem map_fst_of_resolveInputs (h : f.resolveInputs inputs overrides = .ok feeds) :
    feeds.map (·.1) = inputs := by
  induction inputs generalizing overrides feeds with
  | nil =>
    cases h
    rfl
  | cons input inputs ih =>
    simp only [resolveInputs] at h
    -- an input without override and default ends the resolution
    split at h
    · cases h
    · obtain ⟨rest, hrest, hfeeds⟩ := except_bind_eq_ok_iff.1 h
      cases hfeeds
      rw [List.map_cons, ih hrest]

theorem lastBinding?_resolveInputs (h : f.resolveInputs inputs overrides = .ok feeds) (n : Node) :
    lastBinding? feeds n = binding? inputs f.defaults overrides n := by
  induction inputs generalizing overrides feeds with
  | nil =>
    cases h
    rfl
  | cons input inputs ih =>
    simp only [resolveInputs] at h
    split at h
    · cases h
    · next value hvalue =>
      obtain ⟨rest, hrest, hfeeds⟩ := except_bind_eq_ok_iff.1 h
      cases hfeeds
      rw [lastBinding?_cons, ih hrest]
      by_cases hinput : input = n
      · subst hinput
        by_cases hmem : input ∈ inputs
        · -- a later place finds the override used up, and its binding counts
          have hsome : (lastBinding? rest input).isSome :=
            isSome_lastBinding?_iff.2 (map_fst_of_resolveInputs hrest ▸ hmem)
          have hcount := List.count_pos_iff.2 hmem
          rw [ih hrest] at hsome
          simp only [binding?, hmem, lastBinding?_filter, if_true, Option.none_or,
            ite_self] at hsome ⊢
          obtain ⟨v, hv⟩ := Option.isSome_iff_exists.1 hsome
          simp [hv, hcount]
        · simp [binding?, hmem, List.count_eq_zero_of_not_mem hmem, hvalue]
      · have hne : n ≠ input := fun heq => hinput heq.symm
        simp only [binding?, lastBinding?_filter, hinput, hne, List.count_cons_of_ne hinput,
          List.mem_cons, false_or, if_false, Option.or_none]

/-- The bindings that a function resolves its inputs to. -/
theorem lastBinding?_resolve (h : f.resolve overrides = .ok feeds) (n : Node) :
    lastBinding? feeds n = binding? f.inputs f.defaults overrides n := by
  unfold resolve at h
  split at h
  · cases h
  · exact lastBinding?_resolveInputs h n

/-! ## Functions without defaults -/

/-- Without defaults no input can be listed twice, since its override is used up by then. -/
theorem nodup_of_resolveInputs (hdefaults : f.defaults = [])
    (h : f.resolveInputs inputs overrides = .ok feeds) : inputs.Nodup := by
  induction inputs generalizing overrides feeds with
  | nil => exact .nil
  | cons input inputs ih =>
    simp only [resolveInputs] at h
    split at h
    · cases h
    · obtain ⟨rest, hrest, -⟩ := except_bind_eq_ok_iff.1 h
      refine List.nodup_cons.2 ⟨fun hmem => ?_, ih hrest⟩
      -- a second mention would find neither the override nor a default
      have hsome : (lastBinding? rest input).isSome :=
        isSome_lastBinding?_iff.2 (map_fst_of_resolveInputs hrest ▸ hmem)
      rw [lastBinding?_resolveInputs hrest, hdefaults, binding?, if_pos hmem, lastBinding?_filter,
        if_pos rfl] at hsome
      split at hsome <;> cases hsome

/-- One override for every input, in order, binds the inputs to just these. -/
theorem resolveInputs_zip (hnodup : inputs.Nodup) {values : List Value}
    (hlength : values.length = inputs.length) :
    f.resolveInputs inputs (inputs.zip values) = .ok (inputs.zip values) := by
  induction inputs generalizing values with
  | nil => rfl
  | cons input inputs ih =>
    obtain ⟨value, values, rfl⟩ := List.exists_cons_of_length_eq_add_one hlength
    obtain ⟨hinput, hnodup⟩ := List.nodup_cons.1 hnodup
    -- no later override is for this input
    have hne : ∀ binding ∈ inputs.zip values, binding.1 ≠ input := by
      rintro binding hbinding rfl
      exact hinput (List.of_mem_zip hbinding).1
    have hrest : lastBinding? (inputs.zip values) input = none := by
      rw [← Option.not_isSome_iff_eq_none, isSome_lastBinding?_iff, List.mem_map]
      rintro ⟨binding, hbinding, heq⟩
      exact hne binding hbinding heq
    have hfilter : ((input :: inputs).zip (value :: values)).filter (·.1 ≠ input) =
        inputs.zip values := by
      rw [List.zip_cons_cons, List.filter_cons_of_neg (by simp), List.filter_eq_self]
      exact fun binding hbinding => decide_eq_true (hne binding hbinding)
    rw [resolveInputs, hfilter, List.zip_cons_cons, lastBinding?_cons, hrest, if_pos rfl,
      Option.none_or, Option.some_or]
    simp only [ih hnodup (Nat.succ.inj hlength)]
    rfl

/-- Overriding every input of a function that has no input twice, in order. -/
theorem resolve_zip_of_nodup (hnodup : f.inputs.Nodup) {values : List Value}
    (hlength : values.length = f.inputs.length) :
    f.resolve (f.inputs.zip values) = .ok (f.inputs.zip values) := by
  unfold resolve
  split
  · -- every override is for an input
    next n _ hstray =>
    have hinput := (List.of_mem_zip (List.mem_of_find?_eq_some hstray)).1
    simpa [hinput] using List.find?_some hstray
  · exact resolveInputs_zip hnodup hlength

/-- A function without defaults that can be resolved has no input twice. -/
theorem nodup_of_resolve (hdefaults : f.defaults = []) (h : f.resolve overrides = .ok feeds) :
    f.inputs.Nodup := by
  unfold resolve at h
  split at h
  · cases h
  · exact nodup_of_resolveInputs hdefaults h

/-- Overriding every input of a function without defaults, in order. -/
theorem resolve_zip (hdefaults : f.defaults = []) {values : List Value}
    (hlength : values.length = f.inputs.length)
    (h : f.resolve (f.inputs.zip values) = .ok feeds) : feeds = f.inputs.zip values := by
  rw [resolve_zip_of_nodup (nodup_of_resolve hdefaults h) hlength] at h
  exact (Except.ok.inj h).symm

end Function

/-- A table of feeds holds the last binding of every handle. -/
theorem get?_feedTable {g : Graph} {feeds : List (Node × Value)} {table : SlotMap (Tensor Float32)}
    (h : ∀ feed ∈ feeds, feed.1.graph = g.id) (slot : Nat) :
    (feedTable feeds table).get? slot =
      ((Function.lastBinding? feeds (g.handle slot)).map .ofValue).or (table.get? slot) := by
  induction feeds generalizing table with
  | nil => rfl
  | cons feed feeds ih =>
    obtain ⟨hfeed, hfeeds⟩ := List.forall_mem_cons.1 h
    have hstep := @ih (table.insert feed.1.index (.ofValue feed.2)) hfeeds
    rw [feedTable, List.foldl_cons, ← feedTable, hstep, Function.lastBinding?_cons,
      Option.map_or, Option.or_assoc]
    congr 1
    -- handles of one graph are the same when their slots are
    obtain ⟨⟨graph, index⟩, value⟩ := feed
    obtain rfl : graph = g.id := hfeed
    by_cases hslot : slot = index
    · simp [hslot, Graph.handle]
    · simp [SlotMap.get?_insert_of_ne _ _ hslot, Graph.handle, Ne.symm hslot]

namespace Engine

variable {e e' e₀ e₁ : Engine} {inputs outputs updates : List Node}
  {added overrides : List (Node × Value)} {f₀ f : Function} {phase : Phase} {values : List Value}

/-- Executing a function evaluates its outputs and updates with every input bound to its override or
default, and fetches the outputs from there. -/
theorem execute_evaluates_bindings (hfunction : function inputs outputs updates e₀ = .ok f₀ e₁)
    (hdefaults : f₀.withDefaults added = .ok f)
    (hexecute : execute (f.withPhase phase) overrides e = .ok values e') :
    ∃ s table ev, e.session = some s ∧
      (∀ slot, table.get? slot =
        (Function.binding? inputs added overrides (e.graph.handle slot)).map .ofValue) ∧
      (e.setting s phase table).evaluate ((outputs ++ updates).map (·.index)) (.start s.streams) =
        .ok () ev ∧
      List.Forall₂ (fun n v => ∃ node, e.graph.nodes[n.index]? = some node ∧
        v = (ev.known.value n.index).toValue node.type) outputs values := by
  obtain ⟨rfl, rfl⟩ := (leads_function inputs outputs updates).of_eq_ok hfunction
  obtain ⟨kept, rfl, hkept⟩ := Function.withDefaults_eq_ok hdefaults
  obtain ⟨feeds, s, ev, hfeeds, hran⟩ := (leads_execute _ _).of_eq_ok hexecute
  refine ⟨s, feedTable feeds .empty, ev, hran.active, fun slot => ?_, hran.evaluated, hran.values⟩
  have hgraph : ∀ feed ∈ feeds, feed.1.graph = e.graph.id := by
    intro feed hfeed
    obtain ⟨found, hfound, -⟩ := hran.admitted feed hfeed
    exact hfound.graph
  -- a bound function has no defaults, so those that count are the added ones
  have hdefault : Function.lastBinding? kept (e.graph.handle slot) =
      Function.lastBinding? added (e.graph.handle slot) := by
    rw [hkept]
    exact Option.or_none
  have hbinding := Function.lastBinding?_resolve hfeeds (e.graph.handle slot)
  rw [get?_feedTable hgraph, SlotMap.get?_empty, Option.or_none, hbinding]
  simp only [Function.binding?, Function.withPhase, Function.ofNodes, hdefault]

/-- An engine with two vectors and their sum. -/
def summing : Engine :=
  built [.placeholder "x" [1], .placeholder "y" [1], .binary .add ⟨0, 0⟩ ⟨0, 1⟩ none]

/-- The function that fetches the sum, with a default for each of the vectors. -/
def summingDefaults : Function :=
  { Function.ofNodes 0 [⟨0, 0⟩, ⟨0, 1⟩] [⟨0, 2⟩] [] with
    defaults := [(⟨0, 0⟩, .vector #[2]), (⟨0, 1⟩, .vector #[3])] }

/-- The first vector is bound to its override and the second one to its default. -/
theorem summing_binds_override :
    ∃ values e' s table ev,
      execute summingDefaults [(⟨0, 0⟩, .vector #[20])] summing = .ok values e' ∧
      summing.session = some s ∧ table.get? 0 = some (.ofValue (.vector #[20])) ∧
      table.get? 1 = some (.ofValue (.vector #[3])) ∧
      (summing.setting s .inference table).evaluate [2] (.start s.streams) = .ok () ev ∧
      values.length = 1 := by
  obtain ⟨f₀, e₁, hfunction⟩ := exists_of_gives
    (c := function [⟨0, 0⟩, ⟨0, 1⟩] [⟨0, 2⟩] []) (e := summing) (by decide +kernel)
  obtain ⟨rfl, rfl⟩ := (leads_function _ _ _).of_eq_ok hfunction
  obtain ⟨values, e', hexecute⟩ := exists_of_gives
    (c := execute summingDefaults [(⟨0, 0⟩, .vector #[20])]) (e := summing) (by decide +kernel)
  have hid : summing.graph.id = 0 := by decide +kernel
  have hdefaults : (Function.ofNodes summing.graph.id [⟨0, 0⟩, ⟨0, 1⟩] [⟨0, 2⟩] []).withDefaults
      summingDefaults.defaults = .ok summingDefaults := by
    rw [hid]
    rfl
  obtain ⟨s, table, ev, hs, htable, hev, hvalues⟩ :=
    execute_evaluates_bindings hfunction hdefaults hexecute
  have hget := fun slot => htable slot
  simp only [Graph.handle, hid] at hget
  exact ⟨values, e', s, table, ev, hexecute, hs, hget 0, hget 1, hev, hvalues.length_eq.symm⟩

/-- The function that fetches the first vector, which it lists twice, with a default for it. -/
def repeating : Function :=
  { Function.ofNodes 0 [⟨0, 0⟩, ⟨0, 0⟩] [⟨0, 0⟩] [] with defaults := [(⟨0, 0⟩, .vector #[2])] }

/-- An input that is listed twice keeps its default although it is overridden. Evaluating the graph
with the override fetches another value. -/
theorem repeated_input_keeps_default :
    ∃ f₀ v e' ev e'', function [⟨0, 0⟩, ⟨0, 0⟩] [⟨0, 0⟩] [] summing = .ok f₀ summing ∧
      f₀.withDefaults [(⟨0, 0⟩, .vector #[2])] = .ok repeating ∧
      execute repeating [(⟨0, 0⟩, .vector #[20])] summing = .ok [v] e' ∧ v.toNumbers = #[2] ∧
      evaluate .inference (SlotMap.empty.insert 0 (.ofValue (.vector #[20]))) [0] summing =
        .ok ev e'' ∧
      ((ev.known.value 0).toValue .f32).toNumbers = #[20] := by
  obtain ⟨f₀, e₁, hfunction⟩ := exists_of_gives
    (c := function [⟨0, 0⟩, ⟨0, 0⟩] [⟨0, 0⟩] []) (e := summing) (by decide +kernel)
  obtain ⟨rfl, rfl⟩ := (leads_function _ _ _).of_eq_ok hfunction
  have hid : summing.graph.id = 0 := by decide +kernel
  obtain ⟨values, e', hexecute, hvalues⟩ := exists_of_answer
    (c := execute repeating [(⟨0, 0⟩, .vector #[20])]) (e := summing)
    (f := fun values => values.map Value.toNumbers) (b := [#[2]]) (by decide +kernel)
  obtain ⟨v, rfl, hv⟩ := List.map_eq_singleton_iff.1 hvalues
  obtain ⟨ev, e'', hev, hnumbers⟩ := exists_of_answer
    (c := evaluate .inference (SlotMap.empty.insert 0 (.ofValue (.vector #[20]))) [0])
    (e := summing) (f := fun ev => ((ev.known.value 0).toValue .f32).toNumbers) (b := #[20])
    (by decide +kernel)
  rw [hid] at hfunction
  exact ⟨_, v, e', ev, e'', hfunction, rfl, hexecute, hv, hev, hnumbers⟩

end Engine
end TensorGraph
