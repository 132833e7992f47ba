import TensorGraph.Proofs.Model.Reaching

/-!
# What a step evaluates

The updates of a step need the gradients of the objective and with them the objective. So a batch
evaluates the sum of the losses whenever there is a weight to train, also on an engine that has run
other functions before the model was compiled. Compiling gradient descent adds no weights.

## Main results

* `Descent.yields_objective`: the updates of gradient descent need the objective.
* `Model.Compiled.needs_objective`: a compiled model adds up its losses for a step.
-/

namespace TensorGraph

namespace Graph

variable {g g' : Graph} {a b : Nat} {op : Op}

theorem Extends.op? (h : g.Extends g') (hop : g.op? a = some op) : g'.op? a = some op := by
  obtain ⟨n, hn, rfl⟩ := Option.map_eq_some_iff.1 hop
  exact op?_of_getElem? (h.node hn)

/-- What is needed goes on being needed when nodes are appended. -/
theorem Reaches.extend (h : g.Reaches a b) (hg : g.Extends g') : g'.Reaches a b := by
  refine Relation.ReflTransGen.mono (fun slot o ho => ?_) _ _ h
  -- a slot with an operand holds a node
  cases hn : g.nodes[slot]? with
  | none => simp [operands, hn] at ho
  | some n =>
    rw [operands_eq hn] at ho
    rwa [operands_eq (hg.node hn)]

theorem reaches_of_op? (hop : g.op? a = some op) (hb : b ∈ op.operands) : g.Reaches a b := by
  obtain ⟨n, hn, rfl⟩ := Option.map_eq_some_iff.1 hop
  exact .single (by rwa [operands_eq hn])

end Graph

namespace Engine

variable {e e' : Engine} {ts : List Nat}

theorem Appended.extends {n : GraphNode} {handle : Node} (h : Appended e n handle e') :
    e.graph.Extends e'.graph := by
  obtain rfl := h.engine
  exact Graph.extends_push _ _

/-- Appending a node with a known operation trains no further variable. -/
theorem Appends.yields_op {c : Call Node} {P : GraphNode → Prop} {op : Op} (hc : Appends c e P)
    (hop : ∀ n, P n → n.op = op) (hts : e.graph.trainable = ts) :
    Yields (fun g n => g.trainable = ts ∧ g.op? n.index = some op) c e := by
  refine Leads.imp hc (fun _ _ => trivial) ?_
  rintro handle e' ⟨n, hn, happended⟩
  have hnode := Graph.op?_of_getElem? happended.getElem?
  rw [hop n hn] at hnode
  exact ⟨happended.extends, happended.trainable.trans hts, hnode⟩

theorem yields_stateVariable (shape : DeclaredShape) (initializer : Initializer) (name : String)
    (hts : e.graph.trainable = ts) :
    Yields (fun g _ => g.trainable = ts) (stateVariable shape initializer name) e := by
  refine (leads_createVariable shape initializer name false).imp (fun _ _ => trivial) ?_
  rintro handle e' ⟨made, init, e₁, s, ev, -, hcreated⟩
  refine ⟨?_, (hcreated.trainable rfl).trans hts⟩
  rw [hcreated.graph]
  exact hcreated.appended.extends.trans (Graph.extends_push _ _)

end Engine

namespace Descent

open Engine

variable {e : Engine} {ts : List Nat}

/-- The accumulators are as many as the weights, and are not trained. -/
theorem yields_untrained_accumulators (k : Nat) (weights : List Node)
    (hts : e.graph.trainable = ts) :
    Yields (fun g accumulators => g.trainable = ts ∧ accumulators.length = weights.length)
      (accumulators k weights) e := by
  induction weights generalizing k e with
  | nil => exact .pure ⟨hts, rfl⟩
  | cons weight weights ih =>
    have hshape : Yields (fun g _ => g.trainable = ts) (Engine.shape weight) e := by
      refine (keeps_shape weight e).imp (fun _ _ => trivial) ?_
      rintro shape _ rfl
      exact ⟨.refl _, hts⟩
    refine hshape.bind fun shape e₁ _ hts₁ => (yields_stateVariable shape .zeros _ hts₁).bind
      fun accumulator e₂ _ hts₂ => (ih (k + 1) hts₂).bind fun rest e₃ _ ⟨hts₃, hlength⟩ => ?_
    -- state variables are not trained, so the list is the one at the beginning
    exact .pure ⟨hts₃, congrArg Nat.succ hlength⟩

/-- Every weight has a derivative, which needs the loss. -/
theorem yields_derivatives (loss : Node) (weights : List Node) (hts : e.graph.trainable = ts) :
    Yields (fun g gradients => g.trainable = ts ∧
      List.Forall₂ (fun _ n => g.Reaches n.index loss.index) weights gradients)
      (gradients loss weights) e := by
  refine (leads_gradients loss weights).imp (fun _ _ => trivial) ?_
  rintro handles e' ⟨ns, happended, hops⟩
  have hnodes := happended.op? (fun weight : Node => .gradient loss.index weight.index)
    (hops.imp fun _ _ hn => hn.1)
  exact ⟨happended.changes.extends, happended.trainable.trans hts,
    hnodes.imp fun _ _ hop => Graph.reaches_of_op? hop List.mem_cons_self⟩

/-- A step needs its gradient. -/
theorem yields_needing_step (rate momentum weight gradient accumulator : Node)
    (hts : e.graph.trainable = ts) :
    Yields (fun g updates => g.trainable = ts ∧ ∃ u ∈ updates, g.Reaches u.index gradient.index)
      (step rate momentum weight gradient accumulator) e := by
  refine ((appends_binary .multiply rate gradient).yields_op (fun _ hn => hn.1) hts).bind
    fun scaled e₁ _ ⟨hts₁, hscaled⟩ => ?_
  refine ((appends_binary .multiply momentum accumulator).yields_op (fun _ hn => hn.1) hts₁).bind
    fun decayed e₂ h₂ ⟨hts₂, _⟩ => ?_
  refine ((appends_binary .subtract decayed scaled).yields_op (fun _ hn => hn.1) hts₂).bind
    fun velocity e₃ h₃ ⟨hts₃, hvelocity⟩ => ?_
  refine ((appends_update accumulator velocity).yields_op (fun _ hn => hn.1) hts₃).bind
    fun ofAccumulator e₄ h₄ ⟨hts₄, hupdate⟩ => ?_
  refine ((appends_binary .add weight velocity).yields_op (fun _ hn => hn.1) hts₄).bind
    fun moved e₅ h₅ ⟨hts₅, _⟩ => ?_
  refine ((appends_update weight moved).yields_op (fun _ hn => hn.1) hts₅).bind
    fun ofWeight e₆ h₆ ⟨hts₆, _⟩ => ?_
  -- the accumulator takes the velocity, which has the scaled gradient in it
  have hscaled₆ := ((((h₂.trans h₃).trans h₄).trans h₅).trans h₆).op? hscaled
  have hvelocity₆ := ((h₄.trans h₅).trans h₆).op? hvelocity
  have hupdate₆ := (h₅.trans h₆).op? hupdate
  have hreaches : e₆.graph.Reaches ofAccumulator.index gradient.index :=
    ((Graph.reaches_of_op? hupdate₆ (b := velocity.index) (by simp [Op.operands])).trans
      (Graph.reaches_of_op? hvelocity₆ (b := scaled.index)
        (by simp [Op.operands, Op.inputs]))).trans
        (Graph.reaches_of_op? hscaled₆ (by simp [Op.operands, Op.inputs]))
  exact .pure ⟨hts₆, ofAccumulator, List.mem_cons_self, hreaches⟩

/-- The steps of several weights need their gradients. -/
theorem yields_needing_steps (rate momentum : Node) (parts : List (Node × Node × Node))
    (hts : e.graph.trainable = ts) :
    Yields (fun g updates => g.trainable = ts ∧
      ∀ part ∈ parts, ∃ u ∈ updates, g.Reaches u.index part.2.1.index)
      (steps rate momentum parts) e := by
  induction parts generalizing e with
  | nil => exact .pure ⟨hts, by simp⟩
  | cons part parts ih =>
    refine (yields_needing_step rate momentum part.1 part.2.1 part.2.2 hts).bind
      fun updates e₁ _ ⟨hts₁, u, hu, hneeds⟩ => ?_
    refine (ih hts₁).bind fun rest e₂ h₂ ⟨hts₂, hrest⟩ => .pure ⟨hts₂, ?_⟩
    refine List.forall_mem_cons.2 ⟨⟨u, List.mem_append_left _ hu, hneeds.extend h₂⟩,
      fun part hpart => ?_⟩
    obtain ⟨u, hu, hneeds⟩ := hrest part hpart
    exact ⟨u, List.mem_append_right _ hu, hneeds⟩

/-- Gradient descent trains no further variable, and if it trains any, its updates need the loss. -/
theorem yields_objective (d : Descent) (loss : Node) (weights : List Node)
    (hts : e.graph.trainable = ts) :
    Yields (fun g updates => g.trainable = ts ∧
      (weights ≠ [] → ∃ u ∈ updates, g.Reaches u.index loss.index)) (d.compile loss weights) e := by
  have hcounter : Yields (fun g _ => g.trainable = ts) (counter 0 "SGD_Iterations") e :=
    leads_bind_iff.2 (leads_register trivial fun _ _ =>
      ⟨Graph.extends_push _ _, hts⟩)
  refine hcounter.bind fun iterations e₁ _ hts₁ => ?_
  refine ((appends_constant _).yields_op (fun _ hn => hn.1) hts₁).bind fun rate e₂ _ ⟨hts₂, _⟩ => ?_
  refine ((appends_constant _).yields_op (fun _ hn => hn.1) hts₂).bind
    fun momentum e₃ _ ⟨hts₃, _⟩ => ?_
  refine ((appends_constant _).yields_op (fun _ hn => hn.1) hts₃).bind fun one e₄ _ ⟨hts₄, _⟩ => ?_
  refine (yields_untrained_accumulators 0 weights hts₄).bind
    fun accumulators e₅ _ ⟨hts₅, hlength⟩ => ?_
  refine (yields_derivatives loss weights hts₅).bind
    fun gradients e₆ _ ⟨hts₆, hgradients⟩ => ?_
  refine ((appends_updateAdd iterations one).yields_op (fun _ hn => hn.1) hts₆).bind
    fun count e₇ h₇ ⟨hts₇, _⟩ => ?_
  refine (yields_needing_steps rate momentum _ hts₇).bind
    fun trained e₈ h₈ ⟨hts₈, htrained⟩ => ?_
  have hreport : Yields (fun g _ => g.trainable = ts)
      (report (.compiledUpdates (trained.length + 1) weights.length)) e₈ := ⟨.refl _, hts₈⟩
  refine hreport.bind fun _ e₉ h₉ hts₉ => .pure ⟨hts₉, fun hne => ?_⟩
  -- the first weight is paired with its gradient
  obtain ⟨weight, weights, rfl⟩ := List.exists_cons_of_ne_nil hne
  obtain _ | ⟨hgradient, _⟩ := hgradients
  obtain ⟨accumulator, accumulators, rfl⟩ := List.exists_cons_of_length_eq_add_one hlength
  obtain ⟨u, hu, hneeds⟩ := htrained (weight, _, accumulator) List.mem_cons_self
  have hloss := hgradient.extend (h₇.trans (h₈.trans h₉))
  exact ⟨u, List.mem_cons_of_mem _ hu, (hneeds.extend h₉).trans hloss⟩

end Descent

open Engine in
/-- A compiled model adds up its losses, and if there are weights to train, its updates need the
sum. -/
theorem Model.Compiled.needs_objective {m : Model} {e e' built trained : Engine} {p : Program}
    {updates : List Node} (h : m.Compiled e p built updates trained e') :
    e'.graph.AddsUp (p.losses.map (·.index)) p.objective.index ∧
      (e'.trainableWeights ≠ [] →
        ∃ u ∈ p.trainFunction.updates, e'.graph.Reaches u.index p.objective.index) := by
  obtain ⟨hext, htrainable, hneeds⟩ :=
    (m.descent.yields_objective p.objective built.trainableWeights rfl).of_eq_ok h.trains
  rw [h.reported.graph_eq]
  -- the sum was made before the updates, whose nodes only extend the graph
  refine ⟨h.objective.mono fun _ _ => hext.op?, fun hne => ?_⟩
  have hweights : built.trainableWeights ≠ [] := by
    rw [trainableWeights, h.reported.graph_eq, htrainable] at hne
    simpa [trainableWeights] using hne
  rw [h.trainFunction]
  exact hneeds hweights

end TensorGraph
