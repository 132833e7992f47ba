import TensorGraph.Proofs.Engine.Initial
import TensorGraph.Proofs.Evaluation.Exact
import TensorGraph.Proofs.Run.Commitment
import TensorGraph.Proofs.Run.Succeeding

/-!
# Runs on integers

The session holds integers in single precision, like all its numbers. A ledger has the values that
the integer variables have in exact arithmetic. While single precision can hold every value that a
run evaluates, and every sum on the way to it, the run fetches the exact values, and the variables
go on holding what the ledger has when exact arithmetic makes the same updates in it. An integer
beyond `2 ^ 24` that single precision does not hold is rounded as soon as it enters the session.

## Main definitions

* `Engine.Tracks`: a variable holds the integers that a ledger has for it.
* `Engine.ideal`: what a run reads in exact arithmetic.
* `Engine.Integral`: functions over integers, all of whose values can be held.

## Main results

* `Engine.Ran.exists_fetched`: a run over integers fetches what exact arithmetic gives.
* `Engine.Ran.tracks`: it leaves the session in step with the ledger.
* `Engine.integers_exact_while_held`: integers are exact while single precision holds them.
-/

namespace TensorGraph

open Single (Representable)

/-- The tensor in a slot holds the 64-bit integers that the ledger has there. -/
def SlotMap.Tracks (store : SlotMap (Tensor Float32)) (ledger : SlotMap (Tensor ℚ)) (slot : Nat) :
    Prop :=
  ∃ t u, store.get? slot = some t ∧ ledger.get? slot = some u ∧ t.Reads u ∧ u.Whole

namespace Setting

variable {env : Setting Float32} {env' : Setting ℚ} {store : SlotMap (Tensor Float32)}
  {ledger : SlotMap (Tensor ℚ)} {slot : Nat}

theorem tracks_insert {t : Tensor Float32} {q : Tensor ℚ} {target : Nat} (hread : t.Reads q)
    (hwhole : q.Whole) (h : slot = target ∨ store.Tracks ledger slot) :
    (store.insert target t).Tracks (ledger.insert target q) slot := by
  by_cases hslot : slot = target
  · subst hslot
    exact ⟨t, q, SlotMap.get?_insert_self _ _ _, SlotMap.get?_insert_self _ _ _, hread, hwhole⟩
  · obtain ⟨v, u, hv, hu, hholds⟩ := h.resolve_left hslot
    refine ⟨v, u, ?_, ?_, hholds⟩
    · rw [SlotMap.get?_insert_of_ne _ _ hslot, hv]
    · rw [SlotMap.get?_insert_of_ne _ _ hslot, hu]

/-- Updates that contribute the same integers to the variables and to the ledger keep the variables
in step with it, and bring those in step that they change. -/
theorem tracks_foldl {noise : Nat → Option (Tensor Float32)} {noise' : Nat → Option (Tensor ℚ)}
    {updates : List Nat} (hgraph : env'.graph = env.graph)
    (hupdates : ∀ u ∈ updates, ∃ target t q, env.graph.updated? u = some target ∧
      env.contribution noise u = some t ∧ env'.contribution noise' u = some q ∧ t.Reads q ∧ q.Whole)
    (h : store.Tracks ledger slot ∨ ∃ u ∈ updates, env.graph.updated? u = some slot) :
    (updates.foldl (env.apply noise) store).Tracks
      (updates.foldl (env'.apply noise') ledger) slot := by
  induction updates generalizing store ledger with
  | nil => exact h.resolve_right (by simp)
  | cons u updates ih =>
    rw [List.forall_mem_cons] at hupdates
    obtain ⟨⟨target, t, q, htarget, ht, hq, hread, hwhole⟩, hupdates⟩ := hupdates
    rw [List.foldl_cons, List.foldl_cons, apply_eq htarget ht,
      apply_eq (by rw [hgraph, htarget]) hq]
    refine ih hupdates ?_
    -- the slot is changed now, or later, or it was in step before
    rcases h with hbefore | ⟨v, hv, hslot⟩
    · exact .inl (tracks_insert hread hwhole (.inr hbefore))
    · rcases List.mem_cons.1 hv with rfl | hv
      · rw [htarget, Option.some.injEq] at hslot
        exact .inl (tracks_insert hread hwhole (.inl hslot.symm))
      · exact .inr ⟨v, hv, hslot⟩

/-- A recomputed update is what it contributes. -/
theorem contribution_eq_valueOf {S : Type} [Scalar S] (env : Setting S) (hg : env.graph.Typed)
    {u target : Nat} {t : Tensor S} (hupdated : env.graph.updated? u = some target)
    (ht : env.valueOf u = some t) : env.contribution (fun _ => none) u = some t := by
  obtain ⟨n, hn, hop⟩ := Option.bind_eq_some_iff.1 hupdated
  obtain ⟨hoperands, hcompute⟩ := (valueOf_eq_some_iff hg hn).1 ht
  -- an update has a value only if its operands have, and these are what is recomputed
  have hvalue : ∀ o ∈ n.op.operands, env.valueOf o = some (env.recomputed.value o) := by
    intro o ho
    obtain ⟨v, hv⟩ := Option.isSome_iff_exists.1 (hoperands o ho)
    rw [hv, recomputed_value hv]
  rw [contribution, hn, Option.bind_some]
  refine (hg.node hn).contribute_eq (by rw [hop]; rfl) hvalue (fun o ho v hv hvar => ?_) hcompute
  have hv := (Graph.before_eq_some_iff.1 hv).2
  exact store_of_compute hvar ((valueOf_eq_some_iff hg hv).1 (hvalue o ho)).2

end Setting

namespace Engine

variable {e e' : Engine} {s : Session} {f : Function} {feeds : List (Node × Value)}
  {values : List Value} {ev : Evaluation Float32} {ledger : SlotMap (Tensor ℚ)} {handle : Node}
  {n : GraphNode} {t : Tensor Float32}

/-- The variable in a slot holds the 64-bit integers that the ledger has for it. -/
def Tracks (e : Engine) (ledger : SlotMap (Tensor ℚ)) (slot : Nat) : Prop :=
  ∃ s, e.session = some s ∧ s.store.Tracks ledger slot

/-- What a run reads in exact arithmetic when its variables are those of a ledger. Nothing is fed,
since what is fed are no integers. -/
def ideal (e : Engine) (ledger : SlotMap (Tensor ℚ)) : Setting ℚ where
  graph := e.graph
  store := ledger
  feeds := .empty
  phase := .inference
  entropy := 0

/-- Functions that fetch and update integers, and that reach values which single precision holds
only. -/
structure Integral (e : Engine) (ledger : SlotMap (Tensor ℚ)) (f : Function) : Prop where
  /-- The function is one over nodes of integers. -/
  type : ∀ n ∈ f.outputs ++ f.updates, e.graph.IsInteger n.index
  /-- The variables that it reaches are in step with the ledger. -/
  tracks : ∀ n ∈ f.outputs ++ f.updates, ∀ slot v, e.graph.Reaches n.index slot →
    e.graph.nodes[slot]? = some v → v.op.isVariable → e.Tracks ledger slot
  /-- Single precision holds what exact arithmetic gives. -/
  held : ∀ n ∈ f.outputs ++ f.updates, ∀ slot, e.graph.Reaches n.index slot →
    (e.ideal ledger).Held slot

/-! ## Reading nodes without operands -/

theorem compute_variable {env : Setting Float32} {slot : Nat} (hn : env.graph.nodes[slot]? = some n)
    (hvar : n.op.isVariable) (hclosed : n.shape.Closed) (ht : env.store.get? slot = some t)
    (known : Known Float32) : env.compute known slot n.op = .ok t := by
  obtain ⟨shape, hshape⟩ := hclosed.exists_concrete?
  have hstatic := (Setting.staticShape_eq_ok_iff hn).2 hshape
  cases hop : n.op with
  | «variable» trainable init =>
    simp only [Setting.compute, ht, hstatic]
    rfl
  | _ => simp [hop, Op.isVariable] at hvar

/-- The current value of a variable is the one in the session. -/
theorem exists_readVariable (hsound : e.Sound) (hs : e.session = some s)
    (hlocated : Located e.graph handle (handle.index, n)) (hvar : n.op.isVariable)
    (ht : s.store.get? handle.index = some t) :
    ∃ e', readVariable handle e = .ok (t.toValue n.type) e' := by
  have hn := hlocated.node
  have hsteady : n.op.Steady ∧ n.op.operands = [] := by
    revert hvar
    cases n.op <;> simp [Op.isVariable, Op.Steady, Op.isRandom, Op.operands]
  -- a variable is a leaf, so its evaluation looks it up in the store
  obtain ⟨ev, hev, rfl⟩ := (e.setting s .inference .empty).exists_evaluate_leaf
    hn hsteady.1 hsteady.2
    (fun known => compute_variable hn hvar (hsound.typed.closed_of_isVariable hn hvar) ht known)
    s.streams
  refine ⟨e.absorb s ev, bind_eq_ok_iff.2 ⟨_, e, hlocated.locate_eq, ?_⟩⟩
  have hexpect : expectVariable handle.index n e = .ok () e := by simp [expectVariable, hvar]
  exact bind_eq_ok_iff.2 ⟨(), e, hexpect, bind_eq_ok_iff.2 ⟨ev, _, evaluate_eq_ok hs hev, rfl⟩⟩

/-- A node without operands is fetched alone. -/
theorem exists_fetch (hs : e.session = some s)
    (hlocated : Located e.graph handle (handle.index, n)) (hsteady : n.op.Steady)
    (hleaf : n.op.operands = [])
    (ht : ∀ known, (e.setting s .inference .empty).compute known handle.index n.op = .ok t) :
    ∃ e', run (.ofNodes e.graph.id [] [handle] []) [] e = .ok [t.toValue n.type] e' := by
  obtain ⟨ev, hev, rfl⟩ := (e.setting s .inference .empty).exists_evaluate_leaf
    hlocated.node hsteady hleaf ht s.streams
  have hnodes : ∀ m ∈ [handle] ++ [], ∃ found, Located e.graph m found := by
    intro m hm
    obtain rfl := List.mem_singleton.1 hm
    exact ⟨_, hlocated⟩
  have hgives : gives (run (.ofNodes e.graph.id [] [handle] []) []) e :=
    gives_run hs rfl (by simp) hnodes hev
  obtain ⟨values, e', hrun⟩ := exists_of_gives hgives
  obtain ⟨ev', hran⟩ := exists_ran hs hrun
  -- both evaluations are the same
  obtain rfl : ev' = ev := by
    have := hran.evaluated.symm.trans hev
    cases this
    rfl
  have hvalues : List.Forall₂ _ [handle] values := hran.values
  obtain _ | ⟨⟨node, hnode, rfl⟩, hrest⟩ := hvalues
  cases hrest
  obtain rfl := Option.some.inj (hlocated.node.symm.trans hnode)
  exact ⟨e', hrun⟩

/-! ## Runs -/

namespace Ran

/-- The values of a run over integers are those of exact arithmetic. -/
theorem exists_reads (h : Ran e s f feeds ev values e') (hsound : e.Sound)
    (hintegral : e.Integral ledger f) {m : Node} (hm : m ∈ f.outputs ++ f.updates) {slot : Nat}
    (hslot : e.graph.Reaches m.index slot) :
    ∃ u, (e.ideal ledger).valueOf slot = some u ∧ (ev.known.value slot).Reads u ∧ u.Whole := by
  -- what the run evaluates lies within what the outputs and updates reach
  have hheld : ∀ s ∈ (e.graph.schedule ((f.outputs ++ f.updates).map (·.index))).reverse,
      (e.ideal ledger).Held s := by
    intro s hs
    obtain ⟨m, hm, hreached⟩ := (h.mem_listed_iff hsound).1 hs
    exact hintegral.held m hm s hreached
  have hstore : ∀ s' ∈ (e.graph.schedule ((f.outputs ++ f.updates).map (·.index))).reverse,
      ∀ n : GraphNode, e.graph.nodes[s']? = some n → n.op.isVariable →
      ∀ v, s.store.get? s' = some v → ∃ u, ledger.get? s' = some u ∧ v.Reads u := by
    intro s' hs' n hn hvar v hv
    obtain ⟨m, hm, hreached⟩ := (h.mem_listed_iff hsound).1 hs'
    obtain ⟨s'', hs'', t, u, ht, hu, hread, -⟩ := hintegral.tracks m hm s' n hreached hn hvar
    obtain rfl := Option.some.inj (h.active.symm.trans hs'')
    obtain rfl := Option.some.inj (hv.symm.trans ht)
    exact ⟨u, hu, hread⟩
  have hgraph : (e.ideal ledger).graph =
      (e.setting s f.phase (feedTable feeds .empty)).graph := rfl
  obtain ⟨u, hu, hread⟩ := (h.settled hsound).exists_reads hsound.typed (h.finished hsound) hgraph
    hstore hheld ((h.mem_listed_iff hsound).2 ⟨m, hm, hslot⟩)
    (hsound.typed.isInteger_of_reaches hslot (hintegral.type m hm))
  exact ⟨u, hu, hread, (hintegral.held m hm slot hslot).whole hu⟩

/-- A run over integers fetches what exact arithmetic gives. -/
theorem exists_fetched (h : Ran e s f feeds ev values e') (hsound : e.Sound)
    (hintegral : e.Integral ledger f) {i : Nat} {m : Node} (hm : f.outputs[i]? = some m) :
    ∃ v, values[i]? = some v ∧ v.type = .i64 ∧
      (e.ideal ledger).valueOf m.index = some (.ofValue v) := by
  have hmem := List.mem_append_left f.updates (List.mem_of_getElem? hm)
  obtain ⟨node, hnode, hvalue⟩ := h.exists_value hm
  obtain ⟨u, hu, hread, hwhole⟩ := h.exists_reads hsound hintegral hmem .refl
  obtain ⟨node', hnode', htype⟩ := hintegral.type m hmem
  obtain rfl := Option.some.inj (hnode.symm.trans hnode')
  rw [htype] at hvalue
  exact ⟨_, hvalue, Tensor.type_toValue _ _, by rw [hu, Tensor.ofValue_toValue hread hwhole]⟩

/-- After a run over integers the session is in step with the ledger in which exact arithmetic has
made the same updates. -/
theorem tracks (h : Ran e s f feeds ev values e') (hsound : e.Sound)
    (hintegral : e.Integral ledger f) :
    ∃ ledger', (e.ideal ledger).Commits (fun _ => none)
        (e.graph.updates ((f.outputs ++ f.updates).map (·.index))) ledger' ∧
      ∀ slot, e.Tracks ledger slot ∨
          (∃ u ∈ e.graph.updates ((f.outputs ++ f.updates).map (·.index)),
            e.graph.updated? u = some slot) →
        e'.Tracks ledger' slot := by
  -- each update contributes a number that the ledger holds exactly
  have hupdates : ∀ u ∈ e.graph.updates ((f.outputs ++ f.updates).map (·.index)),
      ∃ target t q, e.graph.updated? u = some target ∧
        (e.setting s f.phase (feedTable feeds .empty)).contribution ev.noise.get? u = some t ∧
        (e.ideal ledger).contribution (fun _ => none) u = some q ∧ t.Reads q ∧ q.Whole := by
    intro u hu
    obtain ⟨⟨m, hm, hreached⟩, hupdated⟩ := (h.mem_updates_iff hsound).1 hu
    obtain ⟨target, htarget⟩ := Option.isSome_iff_exists.1 hupdated
    obtain ⟨q, hq, hread, hwhole⟩ := h.exists_reads hsound hintegral hm hreached
    have hmem := (h.mem_listed_iff hsound).2 ⟨m, hm, hreached⟩
    refine ⟨target, _, q, htarget, (h.settled hsound).contribution_eq hsound.typed
      (h.finished hsound) hmem htarget, ?_, hread, hwhole⟩
    exact (e.ideal ledger).contribution_eq_valueOf hsound.typed htarget hq
  refine ⟨_, Setting.commits_foldl fun u hu => ?_, fun slot hslot => ⟨_, h.session, ?_⟩⟩
  · obtain ⟨target, t, q, -, -, hq, -⟩ := hupdates u hu
    rw [hq]
    rfl
  · rw [(h.commits hsound).applied]
    refine Setting.tracks_foldl rfl hupdates (hslot.imp_left ?_)
    rintro ⟨s', hs', htracks⟩
    obtain rfl := Option.some.inj (h.active.symm.trans hs')
    exact htracks

end Ran

/-- A variable that is in step with a ledger is read as what the ledger has. -/
theorem Tracks.exists_readVariable (h : e.Tracks ledger handle.index) (hsound : e.Sound)
    (hlocated : Located e.graph handle (handle.index, n)) (hvar : n.op.isVariable)
    (htype : n.type = .i64) :
    ∃ v e', readVariable handle e = .ok v e' ∧ v.type = .i64 ∧
      ledger.get? handle.index = some (.ofValue v) := by
  obtain ⟨s, hs, t, u, ht, hu, hread, hwhole⟩ := h
  obtain ⟨e', he'⟩ := Engine.exists_readVariable hsound hs hlocated hvar ht
  rw [htype] at he'
  exact ⟨_, e', he', Tensor.type_toValue _ _, by rw [hu, Tensor.ofValue_toValue hread hwhole]⟩

/-- What an integer variable is given first. -/
theorem representable_integer {v : Int64} (h : Representable v.toInt) :
    ∀ q ∈ (Tensor.ofValue (.integer v) : Tensor ℚ).data, Representable q := by
  intro q hq
  obtain ⟨n, hn, rfl⟩ := Array.mem_map.1 hq
  obtain rfl : n = v := by simpa using hn
  exact h

/-- The session is in step with a ledger in which a new integer variable is entered. -/
theorem tracks_counter {v : Int64} {name : String} (h : counter v name e = .ok handle e')
    (hheld : Representable v.toInt) {slot : Nat}
    (hslot : slot = handle.index ∨ e.Tracks ledger slot) :
    e'.Tracks (ledger.insert handle.index (.ofValue (.integer v))) slot := by
  obtain ⟨s, hs, -, rfl, rfl⟩ := (leads_declare v name).of_eq_ok h
  have helement := representable_integer hheld
  refine ⟨_, rfl, Setting.tracks_insert (Tensor.reads_ofValue rfl helement)
    (Tensor.whole_ofValue rfl helement) (hslot.imp_right ?_)⟩
  rintro ⟨s', hs', htracks⟩
  obtain rfl := Option.some.inj (hs.symm.trans hs')
  exact htracks

/-- A new integer variable and its first value. -/
theorem exists_of_counter {v : Int64} {name : String} (h : counter v name e = .ok handle e') :
    ∃ s n, e'.session = some s ∧ Located e'.graph handle (handle.index, n) ∧
      n.op = .variable false none ∧ n.type = .i64 ∧
      s.store.get? handle.index = some (.ofValue (.integer v)) := by
  obtain ⟨s, -, -, rfl, rfl⟩ := (leads_declare v name).of_eq_ok h
  exact ⟨_, _, rfl, ⟨rfl, rfl, Graph.getElem?_push_eq_some_iff.2 (.inr ⟨rfl, rfl⟩)⟩, rfl, rfl,
    SlotMap.get?_insert_self _ _ _⟩

/-- A new integer variable is read and fetched as the integer that it was created with. -/
theorem counter_exact {v : Int64} {name : String} (hsound : e.Sound)
    (h : counter v name e = .ok handle e') (hheld : Representable v.toInt) :
    (∃ e'', readVariable handle e' = .ok (.integer v) e'') ∧
      ∃ e'', run (.ofNodes e'.graph.id [] [handle] []) [] e' = .ok [.integer v] e'' := by
  have hsound' := (changing_counter v name).preserves_sound e handle e' hsound h
  obtain ⟨s, n, hs, hlocated, hop, htype, hstored⟩ := exists_of_counter h
  have hvar : n.op.isVariable := by rw [hop]; rfl
  have hvalue := Tensor.toValue_ofValue rfl (representable_integer hheld)
  rw [← htype] at hvalue
  -- reading and fetching both evaluate the new node alone
  constructor
  · obtain ⟨e'', hread⟩ := exists_readVariable hsound' hs hlocated hvar hstored
    exact ⟨e'', by rw [hread, hvalue]⟩
  · have hclosed := hsound'.typed.closed_of_isVariable hlocated.node hvar
    obtain ⟨e'', hfetch⟩ := exists_fetch hs hlocated (by rw [hop]; rfl) (by rw [hop]; rfl)
      (compute_variable hlocated.node hvar hclosed hstored)
    exact ⟨e'', by rw [hfetch, hvalue]⟩

/-- A constant of integers is fetched as it is. -/
theorem constant_exact {v : Value} {name : Option String} (h : constant v name e = .ok handle e')
    (htype : v.type = .i64) (hheld : ∀ q ∈ (Tensor.ofValue v : Tensor ℚ).data, Representable q) :
    ∃ e'', run (.ofNodes e'.graph.id [] [handle] []) [] e' = .ok [v] e'' := by
  obtain ⟨n, ⟨hop, -⟩, happended⟩ := (appends_constant v).of_eq_ok h
  have hlocated : Located e'.graph handle (handle.index, n) :=
    ⟨by rw [happended.handle, happended.engine]; rfl, rfl, happended.getElem?⟩
  obtain ⟨s, hs⟩ : ∃ s, e'.session = some s := by
    rw [happended.engine]
    exact Option.isSome_iff_exists.1 happended.active
  -- a constant is declared with the type of its value
  have hinteger : n.type = .i64 := by
    have htyped := happended.typed
    rw [hop] at htyped
    generalize n.shape = shape at htyped
    generalize n.type = type at htyped
    cases htyped
    exact htype
  obtain ⟨e'', hfetch⟩ := exists_fetch hs hlocated (by rw [hop]; rfl) (by rw [hop]; rfl)
    (t := .ofValue v) fun known => by rw [hop]; rfl
  refine ⟨e'', ?_⟩
  rw [hfetch, hinteger, Tensor.toValue_ofValue htype hheld]

/-- Integers are exact while single precision holds them. A new integer variable is read and fetched
as the integer it was created with, and a constant of integers is fetched as it is. A run over
integers fetches what exact arithmetic gives, and afterwards the variables hold what exact
arithmetic gives them, however often that is repeated. -/
theorem integers_exact_while_held (h : e.Reachable) :
    (∀ (v : Int64) (name : String) (handle : Node) (e' : Engine),
      counter v name e = .ok handle e' → Representable v.toInt →
      (∃ e'', readVariable handle e' = .ok (.integer v) e'') ∧
      (∃ e'', run (.ofNodes e'.graph.id [] [handle] []) [] e' = .ok [.integer v] e'') ∧
      ∀ ledger slot, slot = handle.index ∨ e.Tracks ledger slot →
        e'.Tracks (ledger.insert handle.index (.ofValue (.integer v))) slot) ∧
    (∀ (v : Value) (name : Option String) (handle : Node) (e' : Engine),
      constant v name e = .ok handle e' → v.type = .i64 →
      (∀ q ∈ (Tensor.ofValue v : Tensor ℚ).data, Representable q) →
      ∃ e'', run (.ofNodes e'.graph.id [] [handle] []) [] e' = .ok [v] e'') ∧
    ∀ (f : Function) (feeds : List (Node × Value)) (values : List Value) (e' : Engine)
      (ledger : SlotMap (Tensor ℚ)), run f feeds e = .ok values e' → e.Integral ledger f →
      values.length = f.outputs.length ∧
      (∀ (i : Nat) (m : Node), f.outputs[i]? = some m → ∃ v, values[i]? = some v ∧ v.type = .i64 ∧
        (e.ideal ledger).valueOf m.index = some (.ofValue v)) ∧
      ∃ ledger', (e.ideal ledger).Commits (fun _ => none)
          (e.graph.updates ((f.outputs ++ f.updates).map (·.index))) ledger' ∧
        (∀ slot, e.Tracks ledger slot ∨
            (∃ u ∈ e.graph.updates ((f.outputs ++ f.updates).map (·.index)),
              e.graph.updated? u = some slot) →
          e'.Tracks ledger' slot) ∧
        ∀ (handle : Node) (n : GraphNode), Located e'.graph handle (handle.index, n) →
          n.op.isVariable → n.type = .i64 → e'.Tracks ledger' handle.index →
          ∃ v e'', readVariable handle e' = .ok v e'' ∧ v.type = .i64 ∧
            ledger'.get? handle.index = some (.ofValue v) := by
  refine ⟨fun v name handle e' hcounter hheld => ?_,
    fun v name handle e' hconstant htype hheld => ?_,
    fun f feeds values e' ledger hrun hintegral => ?_⟩
  · obtain ⟨hread, hfetch⟩ := counter_exact h.sound hcounter hheld
    exact ⟨hread, hfetch, fun ledger slot hslot => tracks_counter hcounter hheld hslot⟩
  · exact constant_exact hconstant htype hheld
  · -- one run keeps the session in step with the ledger, from which the next one starts
    obtain ⟨s, ev, hran⟩ := (leads_run f feeds).of_eq_ok hrun
    have hsound := (changing_run f feeds).preserves_sound e values e' h.sound hrun
    obtain ⟨ledger', hcommits, htracks⟩ := hran.tracks h.sound hintegral
    refine ⟨hran.values.length_eq.symm, fun i m hm => hran.exists_fetched h.sound hintegral hm,
      ledger', hcommits, htracks, fun handle n hlocated hvar htype htracked => ?_⟩
    exact htracked.exists_readVariable hsound hlocated hvar htype

/-- An engine that multiplies a counter with three integers, adds up the products and adds their sum
to the counter. -/
def tallying : Engine :=
  built [.counter 5 "total", .constant ⟨[3], .integers #[1, -2, 3], rfl⟩ none,
    .binary .multiply ⟨0, 0⟩ ⟨0, 1⟩ none, .reduceSum ⟨0, 2⟩ none, .updateAdd ⟨0, 0⟩ ⟨0, 3⟩]

theorem reachable_tallying : tallying.Reachable := reachable_built _

/-- The products and their sum are fetched, and the counter is updated. -/
def tally : Function := .ofNodes 0 [] [⟨0, 2⟩, ⟨0, 3⟩] [⟨0, 4⟩]

/-- The counter is five at first. -/
def talliedLedger : SlotMap (Tensor ℚ) := SlotMap.empty.insert 0 (.ofValue (.integer 5))

/-- The integers in the slots. -/
def tallied : Nat → Array Int64
  | 0 => #[5]
  | 1 => #[1, -2, 3]
  | 2 => #[5, -10, 15]
  | 3 => #[10]
  | _ => #[15]

/-- What the evaluation of the tally shows. -/
structure TallyEvaluated : Prop where
  /-- The slots hold the integers. -/
  data : ∀ slot < 5, ((tallying.ideal talliedLedger).valueOf slot).map (·.data) =
    some ((tallied slot).map fun n => (n.toInt : ℚ))
  /-- The integers are small. -/
  small : ∀ slot < 5, (tallied slot).all (·.toInt.natAbs ≤ 2 ^ 24)
  /-- All nodes have integers. -/
  types : ∀ slot < 5, (tallying.graph.nodes[slot]?).map (·.type) = some .i64
  /-- The counter is the only variable. -/
  variable_eq : ∀ slot < 5, (tallying.graph.nodes[slot]?).any (·.op.isVariable) → slot = 0
  /-- The counter is stored in single precision. -/
  stored : (tallying.session.bind fun s => s.store.get? 0).map (fun t => (t.shape, t.data)) =
    some ((Tensor.ofValue (.integer 5) : Tensor Float32).shape,
      (Tensor.ofValue (.integer 5) : Tensor Float32).data)
  /-- Only the products are added up. -/
  reduced_eq : ∀ (slot : Nat) (n : GraphNode) (x : Nat),
    tallying.graph.nodes[slot]? = some n → n.op = .reduceSum x → x = 2
  /-- The products are a row of three. -/
  products : ((tallying.ideal talliedLedger).valueOf 2).map
    (fun u => (u.rows, u.cols, u.entry 0 0, u.entry 0 1, u.entry 0 2)) = some (1, 3, 5, -10, 15)
  /-- The run has an answer. -/
  gives : gives (run tally []) tallying

theorem tallyEvaluated : TallyEvaluated where
  data := by decide +kernel
  small := by decide +kernel
  types := by decide +kernel
  variable_eq := by decide +kernel
  stored := by decide +kernel
  reduced_eq slot n x hn hop := by
    have hall : tallying.graph.nodes.all fun n =>
        match n.op with
        | .reduceSum x => x == 2
        | _ => true := by decide +kernel
    have hx := Array.all_eq_true_iff_forall_mem.1 hall n (Array.mem_of_getElem? hn)
    simpa [hop] using hx
  products := by decide +kernel
  gives := by decide +kernel

theorem elements_tallied {slot : Nat} (hslot : slot < 5) {v : Value} (htype : v.type = .i64)
    (h : (tallying.ideal talliedLedger).valueOf slot = some (.ofValue v)) :
    v.elements = .integers (tallied slot) := by
  have hdata := tallyEvaluated.data slot hslot
  rw [h, Option.map_some, Option.some.injEq] at hdata
  exact Tensor.elements_of_data_ofValue htype hdata

theorem tracks_tallying : tallying.Tracks talliedLedger 0 := by
  obtain ⟨t, ht, hdata⟩ := Option.map_eq_some_iff.1 tallyEvaluated.stored
  obtain ⟨s, hs, ht⟩ := Option.bind_eq_some_iff.1 ht
  have hheld := representable_integer (v := 5) (Single.representable_of_natAbs_le (by decide))
  refine ⟨s, hs, t, _, ht, SlotMap.get?_insert_self _ _ _, ?_, Tensor.whole_ofValue rfl hheld⟩
  obtain ⟨shape, data, hsize⟩ := t
  obtain ⟨rfl, rfl⟩ := Prod.mk.inj hdata
  exact Tensor.reads_ofValue rfl hheld

theorem held_tallying {slot : Nat} (hslot : slot < 5) :
    (tallying.ideal talliedLedger).Held slot where
  whole {u} hu := by
    have hdata := tallyEvaluated.data slot hslot
    rw [hu, Option.map_some, Option.some.injEq] at hdata
    refine Tensor.whole_of_natAbs_le fun q hq => ?_
    rw [hdata] at hq
    obtain ⟨n, hn, rfl⟩ := Array.mem_map.1 hq
    have hsmall := Array.all_eq_true_iff_forall_mem.1 (tallyEvaluated.small slot hslot) n hn
    exact ⟨n, of_decide_eq_true hsmall, rfl⟩
  sums {n x u} hn hop hu := by
    obtain rfl : x = 2 := tallyEvaluated.reduced_eq slot n x hn hop
    have hvalue := tallyEvaluated.products
    rw [hu, Option.map_some, Option.some.injEq] at hvalue
    simp only [Prod.mk.injEq] at hvalue
    obtain ⟨hrows, hcols, hfirst, hsecond, hthird⟩ := hvalue
    refine Tensor.sumsHeld_of_sum_natAbs_le (n := fun _ j => [5, -10, 15].getD j 0)
      (fun i hi j hj => ?_) (by rw [hrows, hcols]; decide)
    -- the products are a row of three numbers
    obtain rfl : i = 0 := by omega
    obtain rfl | rfl | rfl : j = 0 ∨ j = 1 ∨ j = 2 := by omega
    · simpa using hfirst
    · simpa using hsecond
    · simpa using hthird

theorem integral_tally : tallying.Integral talliedLedger tally := by
  have hslot : ∀ n ∈ tally.outputs ++ tally.updates, ∀ slot,
      tallying.graph.Reaches n.index slot → slot < 5 := by
    intro n hn slot hreached
    have hindex : ∀ n ∈ tally.outputs ++ tally.updates, n.index < 5 := by decide
    have hle := reachable_tallying.sound.typed.le_of_reaches hreached
    exact Nat.lt_of_le_of_lt hle (hindex n hn)
  -- the tally reaches five slots, for which everything has been evaluated
  constructor
  case type =>
    intro n hn
    have htypes := tallyEvaluated.types n.index (hslot n hn _ .refl)
    obtain ⟨node, hnode, htype⟩ := Option.map_eq_some_iff.1 htypes
    exact ⟨node, hnode, htype⟩
  case tracks =>
    intro n hn slot v hreached hv hvar
    obtain rfl := tallyEvaluated.variable_eq slot (hslot n hn slot hreached)
      (by simpa [hv] using hvar)
    exact tracks_tallying
  case held => exact fun n hn slot hreached => held_tallying (hslot n hn slot hreached)

/-- The products and their sum are fetched, and the counter is fifteen afterwards. -/
theorem tallying_exact :
    (∃ handle e' e'', counter 7 "epochs" tallying = .ok handle e' ∧
      readVariable handle e' = .ok (.integer 7) e'') ∧
    (∃ handle e' e'', constant (.integer 3) none tallying = .ok handle e' ∧
      run (.ofNodes e'.graph.id [] [handle] []) [] e' = .ok [.integer 3] e'') ∧
    ∃ values e' v e'', run tally [] tallying = .ok values e' ∧
      values.map (·.elements) = [.integers #[5, -10, 15], .integers #[10]] ∧
      readVariable ⟨0, 0⟩ e' = .ok v e'' ∧ v.elements = .integers #[15] := by
  obtain ⟨hcounter, hconstant, hrun⟩ := integers_exact_while_held reachable_tallying
  refine ⟨?_, ?_, ?_⟩
  · obtain ⟨handle, e', he'⟩ := exists_of_gives
      (show gives (counter 7 "epochs") tallying by decide +kernel)
    obtain ⟨⟨e'', hread⟩, -, -⟩ := hcounter 7 "epochs" handle e' he'
      (Single.representable_of_natAbs_le (by decide))
    exact ⟨handle, e', e'', he', hread⟩
  · obtain ⟨handle, e', he'⟩ := exists_of_gives
      (show gives (constant (.integer 3) none) tallying by decide +kernel)
    obtain ⟨e'', hfetch⟩ := hconstant (.integer 3) none handle e' he' rfl
      (representable_integer (Single.representable_of_natAbs_le (by decide)))
    exact ⟨handle, e', e'', he', hfetch⟩
  · obtain ⟨values, e', he'⟩ := exists_of_gives tallyEvaluated.gives
    obtain ⟨hlength, hfetched, ledger', hcommits, htracks, hread⟩ :=
      hrun tally [] values e' talliedLedger he' integral_tally
    obtain ⟨v, hv, htype, hproducts⟩ := hfetched 0 ⟨0, 2⟩ rfl
    obtain ⟨w, hw, htype', hsum⟩ := hfetched 1 ⟨0, 3⟩ rfl
    have hvalues : values.map (·.elements) = [.integers (tallied 2), .integers (tallied 3)] := by
      obtain _ | ⟨v', _ | ⟨w', _ | ⟨_, _⟩⟩⟩ := values <;> cases hlength
      cases hv
      cases hw
      rw [List.map_cons, List.map_cons, elements_tallied (by decide) htype hproducts,
        elements_tallied (by decide) htype' hsum, List.map_nil]
    -- the update of the counter is the only one
    have hupdates : tallying.graph.updates [2, 3, 4] = [] ++ 4 :: [] := by decide +kernel
    have htarget : tallying.graph.updated? 4 = some 0 := by decide +kernel
    have hlast := hcommits.last hupdates htarget (by simp)
    have hsound := reachable_tallying.sound
    obtain ⟨t, ht, -⟩ := Option.map_eq_some_iff.1 (tallyEvaluated.data 4 (by decide))
    rw [(tallying.ideal talliedLedger).contribution_eq_valueOf hsound.typed htarget ht] at hlast
    -- the variable is read as it is after this update
    obtain ⟨s, ev, hran⟩ := (leads_run _ _).of_eq_ok he'
    have hnode : (tallying.graph.nodes[0]?).map (fun n => (n.op.isVariable, n.type)) =
        some (true, .i64) := by decide +kernel
    obtain ⟨n, hn, hnode⟩ := Option.map_eq_some_iff.1 hnode
    obtain ⟨hvar, hinteger⟩ := Prod.mk.inj hnode
    have hlocated : Located e'.graph ⟨0, 0⟩ (0, n) := by
      rw [hran.graph]
      exact ⟨by decide +kernel, rfl, hn⟩
    obtain ⟨x, e'', hx, hxtype, hcounted⟩ := hread ⟨0, 0⟩ n hlocated hvar hinteger
      (htracks 0 (.inl tracks_tallying))
    obtain rfl := Option.some.inj (hlast.symm.trans hcounted)
    exact ⟨values, e', x, e'', he', hvalues, hx, elements_tallied (by decide) hxtype ht⟩

/-- Not every integer variable is read as the integer that it was created with: single precision has
no number between `2 ^ 24` and `2 ^ 24 + 2`. -/
theorem counters_not_always_exact :
    ¬ ∀ (e e' : Engine) (v : Int64) (name : String) (handle : Node), e.Reachable →
      counter v name e = .ok handle e' → ∃ e'', readVariable handle e' = .ok (.integer v) e'' := by
  intro h
  -- the first odd integer beyond the mantissa is read as its even neighbour
  have hrounds : (answer (counter 16777217 "v" >>= readVariable) (create 0 0)).toOption.map
      (·.agrees (.integer 16777217)) = some false := by decide +kernel
  obtain ⟨v, e', hread, hdiffers⟩ := exists_of_answer hrounds
  obtain ⟨handle, e₁, hcounter, hread⟩ := bind_eq_ok_iff.1 hread
  obtain ⟨e'', hexact⟩ := h (create 0 0) e₁ 16777217 "v" handle (.create 0 0) hcounter
  obtain ⟨rfl, -⟩ := EStateM.Result.ok.inj (hread.symm.trans hexact)
  have hagrees : (Value.integer 16777217).agrees (.integer 16777217) = true := by decide
  rw [hagrees] at hdiffers
  cases hdiffers

end Engine
end TensorGraph
