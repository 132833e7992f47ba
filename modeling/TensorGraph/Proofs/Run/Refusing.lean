import TensorGraph.Proofs.Engine.Disposal
import TensorGraph.Proofs.Evaluation.Conforming

/-!
# Why runs fail

A run looks at the session, at the graph of the function, at every feed, and at every output and
update, before it evaluates anything. From there on only the evaluation can fail. On a sound engine
every variable has a value, and every declared shape that an evaluation asks for is closed. So it
fails for one of four reasons: a placeholder is not fed, the shapes of two operands do not go
together, a value does not stretch to the variable that it is for, or a distribution cannot be
sampled.

## Main definitions

* `FailsBy`: a program fails with a failure of a kind, if at all.
* `Setting.Obstacle`: why a node has no value.
* `Engine.FeedRefusal` and `Engine.Refusal`: why a feed is refused, and why a run fails.

## Main results

* `Setting.obstacle_of_evaluate`: evaluating targets fails for an obstacle at a slot they reach.
* `Engine.refusal_of_run`: a run on a sound engine fails for one of these reasons.
-/

namespace TensorGraph

/-! ## Failures of a kind -/

variable {σ α β : Type}

/-- From a state a program fails with a failure of a kind, if it fails. -/
def FailsBy (K : Failure → Prop) (c : EStateM Failure σ α) (s : σ) : Prop :=
  ∀ f t, c s = .error f t → K f

namespace FailsBy

variable {K : Failure → Prop} {s : σ}

/-- Failures of one kind are of every wider kind. -/
theorem imp {c : EStateM Failure σ α} (h : FailsBy K c s) {K' : Failure → Prop}
    (hK : ∀ f, K f → K' f) : FailsBy K' c s :=
  fun f t hfail => hK f (h f t hfail)

theorem pure (a : α) : FailsBy K (pure a) s := nofun

theorem throw {f : Failure} (h : K f) : FailsBy K (throw f : EStateM Failure σ α) s := by
  rintro _ _ ⟨⟩
  exact h

theorem modify (f : σ → σ) : FailsBy K (modify f) s := nofun

/-- A program that succeeds does not fail. -/
theorem of_succeeds {c : EStateM Failure σ α} (h : Succeeds c) : FailsBy K c s := by
  intro f t hfail
  obtain ⟨a, u, hok⟩ := h s
  cases hok.symm.trans hfail

/-- One program after the other fails by what either of them may fail by. -/
theorem bind {c : EStateM Failure σ α} {f : α → EStateM Failure σ β} (hc : FailsBy K c s)
    (hf : ∀ a t, c s = .ok a t → FailsBy K (f a) t) : FailsBy K (c >>= f) s := by
  intro failure t h
  rcases bind_eq_error_iff.1 h with hfirst | ⟨a, u, hfirst, hrest⟩
  · exact hc _ _ hfirst
  · exact hf a u hfirst _ _ hrest

theorem get_bind {f : σ → EStateM Failure σ β} (h : FailsBy K (f s) s) :
    FailsBy K (get >>= f) s := h

/-- A branch may use its condition. -/
theorem ite {p : Prop} [Decidable p] {c d : EStateM Failure σ α} (hc : p → FailsBy K c s)
    (hd : ¬p → FailsBy K d s) : FailsBy K (if p then c else d) s := by
  split
  · next h => exact hc h
  · next h => exact hd h

end FailsBy

/-! ## Evaluations -/

namespace Setting

/-- Why a node with an operation has no value. -/
inductive Obstacle {S : Type} (env : Setting S) (slot : Nat) : Op → Failure → Prop
  /-- A placeholder that is not fed. -/
  | unfed (absent : env.feeds.get? slot = none) :
    Obstacle env slot .placeholder (.error (.unresolvedInput (env.graph.label slot)))
  /-- Two operands whose shapes do not go together. -/
  | mismatched {op : Op} {expected : DeclaredShape} {actual : Shape}
      (operands : op.operands.length = 2) :
    Obstacle env slot op (.error (.shapeMismatch (env.graph.label slot) expected actual))
  /-- A value that does not stretch to the variable that it is for. -/
  | unstretched {op : Op} {source target : Shape} (update : op.isUpdate) :
    Obstacle env slot op (.fault (.cannotStretch source target))
  /-- Samples that are not drawn. -/
  | unsampled {sampler : Sampler} {seed : Option UInt64} {count : Nat} {stream : Stream}
      {defect : SamplingDefect} (refused : (sampler.draw count stream).1 = .error defect) :
    Obstacle env slot (.random sampler seed) defect.failure

/-- A setting with a value for every variable of its graph. -/
def Stocked {S : Type} (env : Setting S) : Prop :=
  ∀ {slot : Nat} {n : GraphNode}, env.graph.nodes[slot]? = some n → n.op.isVariable →
    (env.store.get? slot).isSome

variable {S : Type} {env : Setting S} {slot : Nat} {n : GraphNode} {f : Failure}
  {ev : Evaluation S}

/-- A computation without a state fails by its own errors. -/
theorem failsBy_lift {K : Failure → Prop} {r : Except Failure α}
    (h : ∀ f, r = .error f → K f) : FailsBy K (lift r : Evaluating S α) ev := by
  cases r with
  | ok a => exact .pure a
  | error f => exact .throw (h f rfl)

/-- A node whose shape is closed has a shape in every run. -/
theorem exists_staticShape (hn : env.graph.nodes[slot]? = some n) (hclosed : n.shape.Closed) :
    ∃ shape, env.staticShape slot = .ok shape := by
  obtain ⟨shape, hshape⟩ := hclosed.exists_concrete?
  exact ⟨shape, (staticShape_eq_ok_iff hn).2 hshape⟩

variable {op : Op}

/-- Two operands that cannot be broadcast are an obstacle. -/
theorem obstacle_of_commonShape {a b : Tensor S} (hop : op.operands.length = 2)
    (h : env.commonShape slot a b = .error f) : env.Obstacle slot op f := by
  unfold commonShape at h
  split at h <;> cases h
  exact .mismatched hop

variable [Scalar S]

/-- A value that does not fit into a variable is an obstacle. -/
theorem obstacle_of_fitTo {shape : Shape} {t : Tensor S} (hop : op.isUpdate)
    (h : fitTo shape t = .error f) : env.Obstacle slot op f := by
  unfold fitTo at h
  split at h <;> cases h
  exact .unstretched hop

/-- Computing a node fails for an obstacle at the node. -/
theorem obstacle_of_compute (hg : env.graph.Typed) (hstocked : env.Stocked)
    (hn : env.graph.nodes[slot]? = some n) {known : Known S}
    (h : env.compute known slot n.op = .error f) : env.Obstacle slot n.op f := by
  have htyped := hg.node hn
  -- a shape that a node is asked for is closed, by the typing rule of the node
  have hstatic : ∀ {s : Nat} {k : GraphNode}, env.graph.nodes[s]? = some k → k.shape.Closed →
      env.staticShape s ≠ .error f := by
    intro s k hk hclosed herr
    obtain ⟨shape, hshape⟩ := exists_staticShape hk hclosed
    cases hshape.symm.trans herr
  obtain ⟨op, shape, type, name⟩ := n
  cases op with
  | placeholder =>
    simp only [compute] at h
    split at h <;> cases h
    next hfed => exact .unfed hfed
  | «variable» trainable init =>
    obtain ⟨t, ht⟩ := Option.isSome_iff_exists.1 (hstocked hn rfl)
    simp only [compute, ht] at h
    exact absurd (except_map_eq_error_iff.1 h) (hstatic hn (hg.closed_of_isVariable hn rfl))
  | random sampler seed =>
    rcases except_bind_eq_error_iff.1 h with hshape | ⟨shape, -, ⟨⟩⟩
    cases htyped with
    | random closed => exact absurd hshape (hstatic hn closed)
  | fill x =>
    cases htyped with
    | fill closed => exact absurd (except_map_eq_error_iff.1 h) (hstatic hn closed)
  | dot left right =>
    simp only [compute, product] at h
    split at h <;> cases h
    exact .mismatched rfl
  | biasAdd input bias =>
    simp only [compute, biased] at h
    split at h <;> cases h
    exact .mismatched rfl
  | binary | sigmoidCrossEntropy =>
    rcases except_bind_eq_error_iff.1 h with h | ⟨shape, -, ⟨⟩⟩
    exact obstacle_of_commonShape rfl h
  | softmaxCrossEntropy logits labels =>
    simp only [compute] at h
    split at h <;> cases h
    exact .mismatched rfl
  | assign target value =>
    rcases except_bind_eq_error_iff.1 h with hshape | ⟨shape, -, hfit⟩
    · cases htyped with
      | assign found _ isVariable =>
        obtain ⟨-, htarget⟩ := Graph.before_eq_some_iff.1 found
        exact absurd hshape (hstatic htarget (hg.closed_of_isVariable htarget isVariable))
    · exact obstacle_of_fitTo rfl hfit
  | assignAdd target delta =>
    rcases except_bind_eq_error_iff.1 h with h | ⟨shape, -, ⟨⟩⟩
    exact obstacle_of_fitTo rfl h
  | dropout input rate seed =>
    simp only [compute] at h
    split at h <;> cases h
  | constant | unary | clip | cast | mean | reduceSum | gradient => cases h

/-- Drawing for a node fails for an obstacle at the node. -/
theorem obstacle_of_drawNoise (hg : env.graph.Typed) (hn : env.graph.nodes[slot]? = some n) :
    FailsBy (env.Obstacle slot n.op) (env.drawNoise slot n.op) ev := by
  have htyped := hg.node hn
  obtain ⟨op, shape, type, name⟩ := n
  -- a random node has a closed shape, so only its sampler can fail
  cases op with
  | random sampler seed =>
    cases htyped with
    | random closed =>
      obtain ⟨shape, hshape⟩ := exists_staticShape hn closed
      refine FailsBy.bind (failsBy_lift fun _ h => by cases hshape.symm.trans h) fun _ ev₁ _ =>
        FailsBy.get_bind ?_
      dsimp only
      refine FailsBy.bind (.modify _) fun _ ev₂ _ => ?_
      split
      · exact .modify _
      · next hdefect => exact .throw (.unsampled hdefect)
  | dropout input rate seed =>
    refine .ite (fun _ => .get_bind (.get_bind ?_)) fun _ => .pure ()
    dsimp only
    exact .bind (.modify _) fun _ _ _ => .modify _
  | _ => exact .pure ()

/-- A slot of a typed graph without a value has one of the known obstacles. -/
theorem obstacle_of_evaluateSlot (hg : env.graph.Typed) (hstocked : env.Stocked)
    (hn : env.graph.nodes[slot]? = some n) :
    FailsBy (env.Obstacle slot n.op) (env.evaluateSlot slot) ev := by
  unfold evaluateSlot
  rw [hn]
  refine (obstacle_of_drawNoise hg hn).bind fun _ ev₁ _ =>
    FailsBy.bind (.of_succeeds (env.succeeds_differentiate n.op)) fun _ ev₂ _ => .get_bind ?_
  refine (failsBy_lift fun _ h => obstacle_of_compute hg hstocked hn h).bind fun t ev₃ _ => ?_
  exact FailsBy.bind (.of_succeeds fun _ => ⟨(), _, recordAssignment_eq t⟩) fun _ _ _ => .modify _

/-- Evaluating targets fails for an obstacle at a slot that they reach. -/
theorem obstacle_of_evaluate (hg : env.graph.Typed) (hstocked : env.Stocked) {targets : List Nat}
    (htargets : ∀ t ∈ targets, t < env.graph.size) :
    FailsBy (fun f => ∃ t ∈ targets, ∃ slot n, env.graph.Reaches t slot ∧
      env.graph.nodes[slot]? = some n ∧ env.Obstacle slot n.op f) (env.evaluate targets) ev := by
  have hreached := fun slot => (hg.mem_schedule_iff htargets (s := slot)).1
  unfold evaluate
  -- the induction is on the slots of the schedule, all of which the targets reach
  generalize env.graph.schedule targets = slots at hreached
  induction slots generalizing ev with
  | nil => exact .pure ()
  | cons slot slots ih =>
    obtain ⟨t, ht, hslot⟩ := hreached slot List.mem_cons_self
    obtain ⟨n, hn⟩ := Graph.exists_node_of_lt
      (Nat.lt_of_le_of_lt (hg.le_of_reaches hslot) (htargets t ht))
    refine FailsBy.bind ((obstacle_of_evaluateSlot hg hstocked hn).imp fun f h => ?_)
      fun _ ev₁ _ => ih fun s hs => hreached s (List.mem_cons_of_mem _ hs)
    exact ⟨t, ht, slot, n, hslot, hn, h⟩

end Setting

/-! ## Runs -/

namespace Engine

/-- Why a value cannot be fed into the node of a handle. -/
inductive FeedRefusal (g : Graph) (feed : Node × Value) : Failure → Prop
  /-- The handle is not one of the graph. -/
  | unknown (missing : ∀ found, ¬Located g feed.1 found) :
    FeedRefusal g feed (.error (.unknownNode feed.1))
  /-- The value has another element type. -/
  | mistyped {slot : Nat} {n : GraphNode} (located : Located g feed.1 (slot, n))
      (different : feed.2.type ≠ n.type) :
    FeedRefusal g feed (.error (.typeMismatch (n.label slot) n.type feed.2.type))
  /-- The value has a shape that the node does not allow. -/
  | misshapen {slot : Nat} {n : GraphNode} (located : Located g feed.1 (slot, n))
      (unfit : feed.2.fits n.shape = false) :
    FeedRefusal g feed (.error (.shapeMismatch (n.label slot) n.shape feed.2.shape))
  /-- The value has an axis without elements. -/
  | empty {slot : Nat} {n : GraphNode} (located : Located g feed.1 (slot, n))
      (empty : 0 ∈ feed.2.shape) :
    FeedRefusal g feed (.error (.invalidData (.emptyAxis (n.label slot) feed.2.shape)))

/-- A value that may be fed is not refused. -/
theorem FeedRefusal.not_admitted {g : Graph} {feed : Node × Value} {failure : Failure}
    (h : FeedRefusal g feed failure) : ¬Admitted g feed := by
  rintro ⟨found, hfound, htype, hfits, hpos⟩
  have hsame : ∀ {slot : Nat} {n : GraphNode}, Located g feed.1 (slot, n) → n = found.2 :=
    fun hlocated => Option.some.inj (hlocated.node.symm.trans hfound.node)
  cases h with
  | unknown missing => exact missing _ hfound
  | mistyped located different => exact different (htype.trans (hsame located ▸ rfl))
  | misshapen located unfit =>
    rw [hsame located, hfits] at unfit
    cases unfit
  | empty _ empty => exact hpos empty

/-- Why a run of a function on some feeds fails. -/
inductive Refusal (e : Engine) (f : Function) (feeds : List (Node × Value)) : Failure → Prop
  /-- The session has ended. -/
  | disposed (ended : e.session = none) : Refusal e f feeds (.error .disposed)
  /-- The function is over another graph. -/
  | foreign (different : f.graph ≠ e.graph.id) :
    Refusal e f feeds (.error (.foreignFunction f.graph))
  /-- A feed is refused. -/
  | feed {feed : Node × Value} {failure : Failure} (mem : feed ∈ feeds)
      (refused : FeedRefusal e.graph feed failure) : Refusal e f feeds failure
  /-- An output or an update is not one of the graph. -/
  | unknown {n : Node} (mem : n ∈ f.outputs ++ f.updates)
      (missing : ∀ found, ¬Located e.graph n found) : Refusal e f feeds (.error (.unknownNode n))
  /-- Something that the outputs and the updates need has no value. -/
  | evaluation {s : Session} {n : Node} {slot : Nat} {k : GraphNode} {failure : Failure}
      (active : e.session = some s) (mem : n ∈ f.outputs ++ f.updates)
      (reached : e.graph.Reaches n.index slot) (node : e.graph.nodes[slot]? = some k)
      (obstacle : (e.setting s f.phase (feedTable feeds .empty)).Obstacle slot k.op failure) :
    Refusal e f feeds failure

variable {e : Engine} {f : Function} {feeds : List (Node × Value)} {failure : Failure}

/-- A check that refuses under a condition, in the middle of a call. -/
theorem failsBy_unless {K : Failure → Prop} {p : Prop} [Decidable p] {err : Error}
    {c : Unit → Call α} (herr : p → K (.error err)) (hc : ¬p → FailsBy K (c ()) e) :
    FailsBy K (if p then refuse err >>= c else c ()) e :=
  .ite (fun hp => .bind (.throw (herr hp)) fun _ _ h => nomatch h) hc

/-- Locating a handle fails only when it is not one of the graph. -/
theorem refusal_of_locate (n : Node) :
    FailsBy (fun failure => failure = .error (.unknownNode n) ∧ ∀ found, ¬Located e.graph n found)
      (locate n) e := by
  refine FailsBy.get_bind ?_
  split
  · exact .pure _
  · next hnone =>
    refine .throw ⟨rfl, fun found hfound => ?_⟩
    have hslot := slot?_eq_some_iff.2
      ⟨hfound.graph, Graph.lt_size_of_getElem? hfound.node, rfl⟩
    simp [hslot, hfound.node] at hnone

/-- A list of handles is refused for one that is not in the graph. -/
theorem refusal_of_mapM_locate (ns : List Node) :
    FailsBy (fun failure => ∃ n ∈ ns, failure = .error (.unknownNode n) ∧
      ∀ found, ¬Located e.graph n found) (ns.mapM locate) e := by
  induction ns with
  | nil => exact .pure []
  | cons n ns ih =>
    rw [List.mapM_cons]
    refine FailsBy.bind ((refusal_of_locate n).imp fun _ h => ⟨n, List.mem_cons_self, h⟩)
      fun found e₁ hfound => ?_
    -- locating changes nothing, so the rest is looked up in the same engine
    obtain ⟨rfl, -⟩ := located_of_locate hfound
    refine FailsBy.bind (ih.imp ?_) fun _ _ _ => .pure _
    rintro _ ⟨m, hm, h⟩
    exact ⟨m, List.mem_cons_of_mem _ hm, h⟩

/-- A value is refused for its type, its shape or the node it is fed into. -/
theorem refusal_of_checkFeed {g : Graph} {feed : Node × Value} {found : Nat × GraphNode}
    (hfound : Located g feed.1 found) :
    FailsBy (FeedRefusal g feed) (checkFeed found.1 found.2 feed.2) e := by
  unfold checkFeed
  refine failsBy_unless (.mistyped hfound) fun _ =>
    failsBy_unless (fun hfits => .misshapen hfound ?_) fun _ =>
      failsBy_unless (fun hempty => .empty hfound ?_) fun _ =>
        .ite (fun _ => .modify _) fun _ => .pure ()
  · simpa using hfits
  · simpa using hempty

/-- A list of feeds is refused for one of them. -/
theorem refusal_of_collectFeeds (feeds : List (Node × Value)) (table : SlotMap (Tensor Float32)) :
    FailsBy (fun failure => ∃ feed ∈ feeds, FeedRefusal e.graph feed failure)
      (collectFeeds feeds table) e := by
  induction feeds generalizing e table with
  | nil => exact .pure table
  | cons feed feeds ih =>
    refine FailsBy.bind ((refusal_of_locate feed.1).imp ?_) fun found e₁ hlocate => ?_
    · rintro _ ⟨rfl, hmissing⟩
      exact ⟨feed, List.mem_cons_self, .unknown hmissing⟩
    obtain ⟨rfl, hfound⟩ := located_of_locate hlocate
    refine FailsBy.bind ((refusal_of_checkFeed hfound).imp fun _ h =>
      ⟨feed, List.mem_cons_self, h⟩) fun _ e₂ hcheck => ?_
    -- a check may make a record, and leaves the graph as it is
    obtain ⟨hreported, -⟩ := leads_checkFeed.of_eq_ok hcheck
    rw [← hreported.graph_eq]
    refine (ih (table.insert found.1 (.ofValue feed.2))).imp ?_
    rintro _ ⟨other, hother, h⟩
    exact ⟨other, List.mem_cons_of_mem _ hother, h⟩

/-- What is fed is found in the table. -/
theorem isSome_get?_feedTable {slot : Nat} {table : SlotMap (Tensor Float32)}
    (h : (table.get? slot).isSome ∨ ∃ feed ∈ feeds, feed.1.index = slot) :
    ((feedTable feeds table).get? slot).isSome := by
  induction feeds generalizing table with
  | nil => simpa [feedTable] using h
  | cons feed feeds ih =>
    -- a feed fills its own slot and leaves the others
    refine ih ?_
    by_cases hslot : feed.1.index = slot
    · subst hslot
      rw [SlotMap.get?_insert_self]
      exact .inl rfl
    · rw [SlotMap.get?_insert_of_ne _ _ (Ne.symm hslot)]
      simpa [hslot] using h

/-- The variables of a sound engine have values. -/
theorem Sound.stocked (hsound : e.Sound) {s : Session} (hs : e.session = some s) (phase : Phase)
    (table : SlotMap (Tensor Float32)) : (e.setting s phase table).Stocked :=
  (hsound.holds hs).isSome

/-- A run on a sound engine fails for one of these reasons. -/
theorem refusal_of_run (hsound : e.Sound) : FailsBy (Refusal e f feeds) (run f feeds) e := by
  refine FailsBy.bind ?_ fun _ e₁ hactive => ?_
  · refine .get_bind (.ite (fun hnone => .throw (.disposed ?_)) fun _ => .pure ())
    exact Option.isNone_iff_eq_none.1 hnone
  obtain rfl := (keeps_checkActive e).of_eq_ok hactive
  refine FailsBy.get_bind (failsBy_unless .foreign fun _ => ?_)
  refine FailsBy.bind ((refusal_of_collectFeeds feeds .empty).imp ?_) fun table e₁ hcollected => ?_
  · rintro _ ⟨feed, hfeed, hrefused⟩
    exact .feed hfeed hrefused
  obtain ⟨⟨records, rfl⟩, rfl, -⟩ := (leads_collectFeeds feeds .empty).of_eq_ok hcollected
  refine FailsBy.bind ((refusal_of_mapM_locate f.outputs).imp ?_) fun outputs e₂ hok => ?_
  · rintro _ ⟨n, hn, rfl, hmissing⟩
    exact .unknown (List.mem_append_left _ hn) hmissing
  obtain ⟨rfl, houtputs⟩ := (leads_mapM_locate (R := fun _ => True) f.outputs trivial).of_eq_ok hok
  refine FailsBy.bind ((refusal_of_mapM_locate f.updates).imp ?_) fun updates e₂ hok => ?_
  · rintro _ ⟨n, hn, rfl, hmissing⟩
    exact .unknown (List.mem_append_right _ hn) hmissing
  obtain ⟨rfl, hupdates⟩ := (leads_mapM_locate (R := fun _ => True) f.updates trivial).of_eq_ok hok
  refine FailsBy.bind (.modify _) fun _ e₂ hreport => FailsBy.bind ?_ fun ev e₃ _ =>
    .bind (.modify _) fun _ _ _ => .pure _
  cases hreport
  have htargets : (outputs ++ updates).map (·.1) = (f.outputs ++ f.updates).map (·.index) := by
    rw [List.map_append, List.map_append, map_fst_of_located houtputs, map_fst_of_located hupdates]
  have hlocated : ∀ n ∈ f.outputs ++ f.updates, ∃ found, Located e.graph n found := by
    intro n hn
    rcases List.mem_append.1 hn with hn | hn
    · exact exists_of_located houtputs n hn
    · exact exists_of_located hupdates n hn
  rw [htargets]
  -- from here on only the evaluation can fail, and it starts from the session of the engine
  intro failure e₃ hfail
  cases hs : e.session with
  | none =>
    have hnone := checkActive_disposed (e := e) (by rw [isDisposed, hs]; rfl)
    cases hnone.symm.trans hactive
  | some s =>
    rw [evaluate_apply (e := { e with
      journal := (e.journal ++ records).push (.running outputs.length updates.length f.phase) })
      hs] at hfail
    split at hfail <;> cases hfail
    next hev =>
    have htyped : (e.setting s f.phase (feedTable feeds .empty)).graph.Typed := hsound.typed
    have hsize : ∀ t ∈ (f.outputs ++ f.updates).map (·.index), t < e.graph.size := by
      intro t ht
      obtain ⟨n, hn, rfl⟩ := List.mem_map.1 ht
      obtain ⟨found, hfound⟩ := hlocated n hn
      exact Graph.lt_size_of_getElem? hfound.node
    obtain ⟨t, ht, slot, node, hreached, hnode, h⟩ :=
      Setting.obstacle_of_evaluate htyped (hsound.stocked hs _ _) hsize _ _ hev
    obtain ⟨n, hn, rfl⟩ := List.mem_map.1 ht
    exact .evaluation hs hn hreached hnode h

end Engine
end TensorGraph
