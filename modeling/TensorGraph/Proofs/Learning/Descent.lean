import TensorGraph.Learning.Descent
import TensorGraph.Proofs.Engine.Growing

/-!
# The nodes of gradient descent

Compiling gradient descent lays down a counter, one accumulator for every weight and the nodes of
one step, connected by position: gradient, accumulator and updates of a weight stand in the same
place of their lists. No two updates of a step change the same variable, and a step needs no other
updates, whatever else has been done with the engine.

## Main definitions

* `Descent.Wiring`: the slots of the step of one weight.
* `Descent.Wiring.Present`: the slots hold the operations of the step.
* `Descent.Counts`: a variable counts the steps.
* `Descent.Accumulates`: a variable is the accumulator of a weight.
* `Descent.Laid`: what compiling gradient descent lays down.

## Main results

* `Descent.leads_compile`: compiling gradient descent.
* `Descent.Laid.eq_count`, `Descent.Laid.eq_ofWeight` and `Descent.Laid.eq_ofAccumulator`: the only
  update of a variable.
* `Descent.Laid.mem_updates_of_reaches`: the updates need no others.
-/

namespace TensorGraph.Descent

open Engine

variable {e e' : Engine} {d : Descent} {g : Graph}

/-- The slots of the step of one weight. -/
structure Wiring where
  rate : Nat
  momentum : Nat
  weight : Nat
  gradient : Nat
  accumulator : Nat
  /-- The rate times the gradient. -/
  scaled : Nat
  /-- The momentum times the accumulator. -/
  decayed : Nat
  velocity : Nat
  moved : Nat
  ofAccumulator : Nat
  ofWeight : Nat

namespace Wiring

/-- The updates of a step. -/
def updates (w : Wiring) : List Nat := [w.ofAccumulator, w.ofWeight]

/-- The slots hold the operations of the step of one weight against an objective. -/
structure Present (w : Wiring) (d : Descent) (g : Graph) (objective : Nat) : Prop where
  rate : g.op? w.rate = some (.constant (.scalar d.learningRate))
  momentum : g.op? w.momentum = some (.constant (.scalar d.momentum))
  gradient : g.op? w.gradient = some (.gradient objective w.weight)
  scaled : g.op? w.scaled = some (.binary .multiply w.rate w.gradient)
  decayed : g.op? w.decayed = some (.binary .multiply w.momentum w.accumulator)
  velocity : g.op? w.velocity = some (.binary .subtract w.decayed w.scaled)
  ofAccumulator : g.op? w.ofAccumulator = some (.assign w.accumulator w.velocity)
  moved : g.op? w.moved = some (.binary .add w.weight w.velocity)
  ofWeight : g.op? w.ofWeight = some (.assign w.weight w.moved)

theorem Present.mono {w : Wiring} {objective : Nat} (h : w.Present d e.graph objective)
    (hgrown : Grown e e') : w.Present d e'.graph objective where
  rate := hgrown.op? h.rate
  momentum := hgrown.op? h.momentum
  gradient := hgrown.op? h.gradient
  scaled := hgrown.op? h.scaled
  decayed := hgrown.op? h.decayed
  velocity := hgrown.op? h.velocity
  ofAccumulator := hgrown.op? h.ofAccumulator
  moved := hgrown.op? h.moved
  ofWeight := hgrown.op? h.ofWeight

end Wiring

/-! ## Steps -/

theorem leads_step (h : e.Sound) {objective : Nat} {rate momentum weight gradient : Node}
    (accumulator : Node)
    (hrate : e.graph.op? rate.index = some (.constant (.scalar d.learningRate)))
    (hmomentum : e.graph.op? momentum.index = some (.constant (.scalar d.momentum)))
    (hgradient : e.graph.op? gradient.index = some (.gradient objective weight.index)) :
    Leads (step rate momentum weight gradient accumulator) e (fun _ => True) fun updates e' =>
      ∃ w : Wiring, w.weight = weight.index ∧ w.accumulator = accumulator.index ∧
        updates.map (·.index) = w.updates ∧ Grown e e' ∧
        w.Present d e'.graph objective := by
  refine leads_bind_grown h (appends_binary .multiply rate gradient) (fun _ hn => hn.1)
    fun scaled e₁ h₁ hscaled => ?_
  refine leads_bind_grown h₁.sound (appends_binary .multiply momentum accumulator)
    (fun _ hn => hn.1) fun decayed e₂ h₂ hdecayed => ?_
  refine leads_bind_grown h₂.sound (appends_binary .subtract decayed scaled)
    (fun _ hn => hn.1) fun velocity e₃ h₃ hvelocity => ?_
  refine leads_bind_grown h₃.sound (appends_update accumulator velocity) (fun _ hn => hn.1)
    fun ofAccumulator e₄ h₄ hofAccumulator => ?_
  refine leads_bind_grown h₄.sound (appends_binary .add weight velocity) (fun _ hn => hn.1)
    fun moved e₅ h₅ hmoved => ?_
  refine leads_bind_grown h₅.sound (appends_update weight moved) (fun _ hn => hn.1)
    fun ofWeight e₆ h₆ hofWeight => ?_
  -- the first three nodes are what the step computes, the last three assign it
  have hold := ((h₁.trans h₂).trans h₃)
  have hnew := ((h₄.trans h₅).trans h₆)
  exact leads_pure ⟨⟨rate.index, momentum.index, weight.index, gradient.index, accumulator.index,
    scaled.index, decayed.index, velocity.index, moved.index, ofAccumulator.index, ofWeight.index⟩,
    rfl, rfl, rfl, hold.trans hnew,
    { rate := hnew.op? (hold.op? hrate)
      momentum := hnew.op? (hold.op? hmomentum)
      gradient := hnew.op? (hold.op? hgradient)
      scaled := hnew.op? (h₃.op? (h₂.op? hscaled))
      decayed := hnew.op? (h₃.op? hdecayed)
      velocity := hnew.op? hvelocity
      ofAccumulator := (h₅.trans h₆).op? hofAccumulator
      moved := h₆.op? hmoved
      ofWeight := hofWeight }⟩

/-- The steps of several weights, each with its gradient and accumulator. -/
theorem leads_steps (h : e.Sound) {objective : Nat} {rate momentum : Node}
    (hrate : e.graph.op? rate.index = some (.constant (.scalar d.learningRate)))
    (hmomentum : e.graph.op? momentum.index = some (.constant (.scalar d.momentum)))
    {parts : List (Node × Node × Node)} (hparts : ∀ part ∈ parts,
      e.graph.op? part.2.1.index = some (.gradient objective part.1.index)) :
    Leads (steps rate momentum parts) e (fun _ => True) fun updates e' =>
      ∃ ws : List Wiring, ws.map (fun w => (w.weight, w.accumulator)) =
          parts.map (fun part => (part.1.index, part.2.2.index)) ∧
        updates.map (·.index) = ws.flatMap Wiring.updates ∧
        Grown e e' ∧ ∀ w ∈ ws, w.Present d e'.graph objective := by
  induction parts generalizing e with
  | nil => exact leads_pure ⟨[], rfl, rfl, .refl h, by simp⟩
  | cons part parts ih =>
    obtain ⟨weight, gradient, accumulator⟩ := part
    obtain ⟨hgradient, hparts⟩ := List.forall_mem_cons.1 hparts
    refine leads_bind_iff.2 ((leads_step h accumulator hrate hmomentum hgradient).mono ?_)
    rintro updates e₁ ⟨w, hweight, haccumulator, hupdates, h₁, hpresent⟩
    -- what the other steps need is still there
    refine leads_bind_iff.2 ((ih h₁.sound (h₁.op? hrate) (h₁.op? hmomentum)
      fun part hpart => h₁.op? (hparts part hpart)).mono ?_)
    rintro rest e₂ ⟨ws, hws, hrest, h₂, hpresents⟩
    refine leads_pure ⟨w :: ws, ?_, ?_, h₁.trans h₂, ?_⟩
    · rw [List.map_cons, List.map_cons, hws, hweight, haccumulator]
    · rw [List.map_append, hupdates, hrest, List.flatMap_cons]
    · exact List.forall_mem_cons.2 ⟨hpresent.mono h₂, hpresents⟩

/-! ## Accumulators -/

/-- A variable is the accumulator with a number, that of a weight: it has the shape of the weight
and holds zeros. -/
def Accumulates (e : Engine) (k weight accumulator : Nat) : Prop :=
  ∃ v n shape, e.graph.nodes[weight]? = some v ∧ e.graph.nodes[accumulator]? = some n ∧
    n.name = some ("SGD_Momentum_" ++ NumberText.natural k) ∧ n.shape = v.shape ∧
    v.shape.concrete? = some shape ∧ e.stored? accumulator = some (.full shape 0)

theorem Accumulates.mono {k weight accumulator : Nat} (h : Accumulates e k weight accumulator)
    (hgrown : Grown e e') : Accumulates e' k weight accumulator := by
  obtain ⟨v, n, shape, hv, hn, hname, hsame, hshape, hzeros⟩ := h
  refine ⟨v, n, shape, hgrown.changes.getElem? hv, hgrown.changes.getElem? hn, hname, hsame,
    hshape, ?_⟩
  rw [hgrown.kept _ (Graph.lt_size_of_getElem? hn), hzeros]

theorem leads_accumulator (h : e.Sound) (k : Nat) (weight : Node) {β : Type}
    {f : Node → Call β} {post : β → Engine → Prop}
    (hrest : ∀ handle e₁, Grown e e₁ → e.graph.size ≤ handle.index →
      handle.index < e₁.graph.size → Accumulates e₁ k weight.index handle.index →
      Leads (f handle) e₁ (fun _ => True) post) :
    Leads (do
      let shape ← Engine.shape weight
      let accumulator ← stateVariable shape .zeros ("SGD_Momentum_" ++ NumberText.natural k)
      f accumulator) e (fun _ => True) post := by
  refine leads_bind_iff.2 (leads_checkActive trivial fun _ =>
    leads_located trivial fun found hfound => ?_)
  refine leads_pure (leads_bind_iff.2 ((leads_createVariable _ _ _ _).imp (fun _ _ => trivial) ?_))
  rintro handle e₁ ⟨made, init, e₂, s, ev, hop, hcreated⟩
  have hgrown := hcreated.grown h (hop ▸ Initializer.isSource_op _ _) rfl
  have hnode := hcreated.getElem?
  obtain ⟨shape, hshape, hzeros⟩ := hcreated.exists_full h (x := 0) hop
  -- a new accumulator has the shape of its weight and is filled with zeros
  refine hrest handle e₁ hgrown hcreated.size_le (Graph.lt_size_of_getElem? hnode) ?_
  refine ⟨found.2, _, shape, hgrown.changes.getElem? hfound.node, hnode, rfl, rfl, ?_, ?_⟩
  · rw [← hshape, ← hcreated.shape]
  · rw [hcreated.stored?_self, hzeros]

/-- The accumulators of several weights. -/
theorem leads_accumulators (h : e.Sound) (k : Nat) (weights : List Node) :
    Leads (accumulators k weights) e (fun _ => True) fun handles e' =>
      Grown e e' ∧ handles.length = weights.length ∧
        (handles.map (·.index)).Pairwise (· < ·) ∧ (∀ a ∈ handles, e.graph.size ≤ a.index) ∧
        ∀ i weight accumulator, weights[i]? = some weight → handles[i]? = some accumulator →
          Accumulates e' (k + i) weight.index accumulator.index := by
  induction weights generalizing e k with
  | nil => exact leads_pure ⟨.refl h, rfl, .nil, by simp, by simp⟩
  | cons weight weights ih =>
    refine leads_accumulator h k weight fun handle e₁ h₁ hge hlt hhead => ?_
    refine leads_bind_iff.2 ((ih h₁.sound (k + 1)).mono ?_)
    rintro handles e₂ ⟨h₂, hlength, hsorted, hall, htail⟩
    -- every later accumulator has a larger number than this one
    refine leads_pure ⟨h₁.trans h₂, congrArg Nat.succ hlength, ?_, ?_, ?_⟩
    · refine List.pairwise_cons.2 ⟨?_, hsorted⟩
      simp only [List.forall_mem_map]
      exact fun a ha => Nat.lt_of_lt_of_le hlt (hall a ha)
    · exact List.forall_mem_cons.2 ⟨hge, fun a ha => Nat.le_trans h₁.changes.size_le (hall a ha)⟩
    · rintro (_ | i) v a hv ha
      · cases hv
        cases ha
        exact hhead.mono h₂
      · have hlater := htail i v a hv ha
        rwa [Nat.add_right_comm] at hlater

/-! ## The whole descent -/

/-- The derivatives of a loss by several weights. -/
theorem leads_derivatives (h : e.Sound) (objective : Node) (weights : List Node) :
    Leads (gradients objective weights) e (fun _ => True) fun handles e' =>
      Grown e e' ∧ List.Forall₂ (fun weight handle =>
        e'.graph.op? handle.index = some (.gradient objective.index weight.index))
          weights handles := by
  refine (leads_gradients objective weights).imp (fun _ _ => trivial) ?_
  rintro handles e' ⟨ns, happended, hns⟩
  have hops := happended.op? (fun weight : Node => .gradient objective.index weight.index)
    (hns.imp fun _ _ hn => hn.1)
  exact ⟨happended.grown h, hops⟩

/-- Weights and gradients that stand in the same places are paired. -/
theorem op?_of_mem_zip {objective : Nat} {weights gradients accumulators : List Node}
    (h : List.Forall₂ (fun weight gradient =>
      g.op? gradient.index = some (.gradient objective weight.index)) weights gradients)
    {part : Node × Node × Node} (hpart : part ∈ weights.zip (gradients.zip accumulators)) :
    g.op? part.2.1.index = some (.gradient objective part.1.index) := by
  obtain ⟨weight, gradient, accumulator⟩ := part
  obtain ⟨i, hi⟩ := List.mem_iff_getElem?.1 hpart
  obtain ⟨hweight, hrest⟩ := List.getElem?_zip_eq_some.1 hi
  obtain ⟨hgradient, -⟩ := List.getElem?_zip_eq_some.1 hrest
  obtain ⟨handle, hhandle, hop⟩ := exists_of_forall₂ h hweight
  obtain rfl : gradient = handle := Option.some.inj (hgradient.symm.trans hhandle)
  exact hop

/-- Steps of weights with their accumulators list both in order. -/
theorem Wiring.map_of_zip {ws : List Wiring} {weights gradients accumulators : List Node}
    (hgradients : gradients.length = weights.length)
    (haccumulators : accumulators.length = weights.length)
    (h : ws.map (fun w => (w.weight, w.accumulator)) =
      (weights.zip (gradients.zip accumulators)).map
        fun part => (part.1.index, part.2.2.index)) :
    ws.map (·.weight) = weights.map (·.index) ∧
      ws.map (·.accumulator) = accumulators.map (·.index) := by
  have hlength : (gradients.zip accumulators).length = weights.length := by
    rw [List.length_zip, hgradients, haccumulators, Nat.min_self]
  have hfirst : (weights.zip (gradients.zip accumulators)).map Prod.fst = weights :=
    List.map_fst_zip (Nat.le_of_eq hlength.symm)
  have hrest : (weights.zip (gradients.zip accumulators)).map Prod.snd =
      gradients.zip accumulators := List.map_snd_zip (Nat.le_of_eq hlength)
  have hlast : (gradients.zip accumulators).map Prod.snd = accumulators :=
    List.map_snd_zip (Nat.le_of_eq (haccumulators.trans hgradients.symm))
  -- both lists are parts of the zipped one, which is as long as each of them
  constructor
  · have hws := congrArg (List.map Prod.fst) h
    rw [List.map_map, List.map_map] at hws
    rw [← hfirst, List.map_map]
    exact hws
  · have hws := congrArg (List.map Prod.snd) h
    rw [List.map_map, List.map_map] at hws
    rw [← hlast, ← hrest, List.map_map, List.map_map]
    exact hws

/-- A variable of integers counts the steps: one update adds one to it. -/
structure Counts (g : Graph) (iterations count : Nat) : Prop where
  node : ∃ n, g.nodes[iterations]? = some n ∧ n.op = .variable false none ∧ n.type = .i64 ∧
    n.name = some "SGD_Iterations"
  update : ∃ one, g.op? count = some (.assignAdd iterations one) ∧
    g.op? one = some (.constant (.integer 1))

/-- What compiling gradient descent lays down for some weights against an objective: the counter
with its update, and the steps. -/
structure Laid (d : Descent) (e : Engine) (objective : Nat) (weights updates : List Nat)
    (e' : Engine) (iterations count : Nat) (ws : List Wiring) : Prop where
  grown : Grown e e'
  updates : updates = count :: ws.flatMap Wiring.updates
  weights : ws.map (·.weight) = weights
  counts : Counts e'.graph iterations count
  zero : e'.stored? iterations = some (.ofValue (.integer 0))
  present : ∀ w ∈ ws, w.Present d e'.graph objective
  /-- Counter and accumulators are new variables, each in a slot of its own. -/
  new : e.graph.size ≤ iterations
  sorted : (iterations :: ws.map (·.accumulator)).Pairwise (· < ·)
  accumulates : ∀ i w, ws[i]? = some w → Accumulates e' i w.weight w.accumulator

theorem leads_compile (h : e.Sound) (d : Descent) (objective : Node) (weights : List Node) :
    Leads (d.compile objective weights) e (fun _ => True) fun updates e' =>
      ∃ iterations count ws, d.Laid e objective.index (weights.map (·.index))
        (updates.map (·.index)) e' iterations count ws := by
  refine leads_bind_iff.2 ((leads_counter h 0 "SGD_Iterations").mono ?_)
  rintro iterations e₁ ⟨h₁, hnew, n, hn, hop, htype, hname, hzero⟩
  refine leads_bind_grown h₁.sound (appends_constant _) (fun _ hn => hn.1)
    fun rate e₂ h₂ hrate => ?_
  refine leads_bind_grown h₂.sound (appends_constant _) (fun _ hn => hn.1)
    fun momentum e₃ h₃ hmomentum => ?_
  refine leads_bind_grown h₃.sound (appends_constant _) (fun _ hn => hn.1)
    fun one e₄ h₄ hone => ?_
  refine leads_bind_iff.2 ((leads_accumulators h₄.sound 0 weights).mono ?_)
  rintro accumulators e₅ ⟨h₅, hlength, hsorted, hge, haccumulates⟩
  refine leads_bind_iff.2 ((leads_derivatives h₅.sound objective weights).mono ?_)
  rintro gradients e₆ ⟨h₆, hgradients⟩
  refine leads_bind_grown h₆.sound (appends_updateAdd iterations one) (fun _ hn => hn.1)
    fun count e₇ h₇ hcount => ?_
  refine leads_bind_iff.2 ((leads_steps h₇.sound
    ((((h₃.trans h₄).trans h₅).trans (h₆.trans h₇)).op? hrate)
    (((h₄.trans h₅).trans (h₆.trans h₇)).op? hmomentum)
    fun part hpart => h₇.op? (op?_of_mem_zip hgradients hpart)).mono ?_)
  rintro trained e₈ ⟨ws, hws, htrained, h₈, hpresent⟩
  -- nothing is appended after the steps, so what each part found is still there
  have h₉ := (reported_report (.compiledUpdates (trained.length + 1) weights.length)).grown h₈.sound
  obtain ⟨hweights, haccumulators⟩ := Wiring.map_of_zip hgradients.length_eq.symm hlength hws
  have h₅₉ := ((h₆.trans h₇).trans h₈).trans h₉
  have h₁₉ := ((h₂.trans h₃).trans (h₄.trans h₅)).trans h₅₉
  refine ⟨iterations.index, count.index, ws, ?_⟩
  constructor
  case grown => exact h₁.trans h₁₉
  case updates => rw [List.map_cons, htrained]
  case weights => exact hweights
  case counts =>
    exact ⟨⟨n, h₁₉.changes.getElem? hn, hop, htype, hname⟩, one.index,
      (h₈.trans h₉).op? hcount, (h₅.trans h₅₉).op? hone⟩
  case zero => exact (h₁₉.kept _ (Graph.lt_size_of_getElem? hn)).trans hzero
  case present => exact fun w hw => (hpresent w hw).mono h₉
  case new => exact hnew
  case sorted =>
    rw [haccumulators]
    refine List.pairwise_cons.2 ⟨?_, hsorted⟩
    simp only [List.forall_mem_map]
    intro a ha
    exact Nat.lt_of_lt_of_le (Graph.lt_size_of_getElem? hn)
      (Nat.le_trans ((h₂.trans h₃).trans h₄).changes.size_le (hge a ha))
  case accumulates =>
    intro i w hw
    have hweight := congrArg (·[i]?) hweights
    have haccumulator := congrArg (·[i]?) haccumulators
    simp only [List.getElem?_map, hw, Option.map_some] at hweight haccumulator
    obtain ⟨weight, hi, hwi⟩ := Option.map_eq_some_iff.1 hweight.symm
    obtain ⟨accumulator, hj, hwj⟩ := Option.map_eq_some_iff.1 haccumulator.symm
    rw [← hwi, ← hwj, ← Nat.zero_add i]
    exact (haccumulates i weight accumulator hi hj).mono h₅₉

/-! ## The updates of a step -/

/-- A variable that is updated needs no other node. -/
theorem passive_of_updated? (hg : g.Typed) {u target : Nat} (h : g.updated? u = some target) :
    g.ReachesOnly Op.Passive target := by
  obtain ⟨v, hv, hvar⟩ := hg.exists_of_updated? h
  exact .leaf hv (Op.passive_of_isVariable hvar) (Op.operands_of_isVariable hvar)

/-- What a step gives its weight and its accumulator needs no updates, if the objective does not. -/
theorem Wiring.Present.passive {w : Wiring} {objective : Nat} (h : w.Present d g objective)
    (hg : g.Typed) (hobjective : g.ReachesOnly Op.Passive objective) :
    g.ReachesOnly Op.Passive w.velocity ∧ g.ReachesOnly Op.Passive w.moved := by
  have hweight := passive_of_updated? hg (Graph.updated?_of_op? h.ofWeight)
  have haccumulator := passive_of_updated? hg (Graph.updated?_of_op? h.ofAccumulator)
  have happly : ∀ {s op a b}, g.op? s = some (.binary op a b) → g.ReachesOnly Op.Passive a →
      g.ReachesOnly Op.Passive b → g.ReachesOnly Op.Passive s := by
    intro s op a b hop ha hb
    exact .of_op? hop ⟨rfl, rfl⟩ (by simp [Op.operands, Op.inputs, ha, hb])
  have hconstant : ∀ {s v}, g.op? s = some (.constant v) → g.ReachesOnly Op.Passive s :=
    fun hop => .of_op? hop ⟨rfl, rfl⟩ (by simp [Op.operands, Op.inputs])
  have hgradient : g.ReachesOnly Op.Passive w.gradient :=
    .of_op? h.gradient ⟨rfl, rfl⟩ (by simp [Op.operands, Op.inputs, hobjective, hweight])
  -- the velocity is made of constants, the accumulator and the gradient; the moved weight is made
  -- of the weight and the velocity
  have hvelocity := happly h.velocity (happly h.decayed (hconstant h.momentum) haccumulator)
    (happly h.scaled (hconstant h.rate) hgradient)
  exact ⟨hvelocity, happly h.moved hweight hvelocity⟩

namespace Laid

variable {objective iterations count : Nat} {weights updates : List Nat} {ws : List Wiring}
  {w : Wiring} {u target : Nat}

theorem mem_updates_iff (h : d.Laid e objective weights updates e' iterations count ws) :
    u ∈ updates ↔ u = count ∨ ∃ w ∈ ws, u = w.ofAccumulator ∨ u = w.ofWeight := by
  rw [h.updates, List.mem_cons, List.mem_flatMap]
  simp only [Wiring.updates, List.mem_cons, List.not_mem_nil, or_false]

/-- The variables that the updates change. -/
theorem target_of_mem (h : d.Laid e objective weights updates e' iterations count ws)
    (hu : u ∈ updates) (htarget : e'.graph.updated? u = some target) :
    (u = count ∧ target = iterations) ∨ ∃ w ∈ ws, (u = w.ofAccumulator ∧ target = w.accumulator) ∨
      (u = w.ofWeight ∧ target = w.weight) := by
  have hsame : ∀ {op : Op}, e'.graph.op? u = some op → op.updated? = some target := fun hop =>
    (Graph.updated?_of_op? hop).symm.trans htarget
  rcases h.mem_updates_iff.1 hu with rfl | ⟨w, hw, rfl | rfl⟩
  · obtain ⟨one, hop, -⟩ := h.counts.update
    exact .inl ⟨rfl, (Option.some.inj (hsame hop)).symm⟩
  · exact .inr ⟨w, hw, .inl ⟨rfl, (Option.some.inj (hsame (h.present w hw).ofAccumulator)).symm⟩⟩
  · exact .inr ⟨w, hw, .inr ⟨rfl, (Option.some.inj (hsame (h.present w hw).ofWeight)).symm⟩⟩

/-- Accumulators are new variables. -/
theorem le_accumulator (h : d.Laid e objective weights updates e' iterations count ws)
    (hw : w ∈ ws) :
    e.graph.size ≤ w.accumulator ∧ iterations ≠ w.accumulator := by
  have hlt := (List.pairwise_cons.1 h.sorted).1 w.accumulator (List.mem_map_of_mem hw)
  exact ⟨Nat.le_trans h.new (Nat.le_of_lt hlt), Nat.ne_of_lt hlt⟩

theorem weight_lt (h : d.Laid e objective weights updates e' iterations count ws)
    (hold : ∀ t ∈ weights, t < e.graph.size) (hw : w ∈ ws) : w.weight < e.graph.size :=
  hold _ (h.weights ▸ List.mem_map_of_mem hw)

/-- The only update of the counter is the one that counts. -/
theorem eq_count (h : d.Laid e objective weights updates e' iterations count ws)
    (hold : ∀ t ∈ weights, t < e.graph.size) (hmem : u ∈ updates)
    (hu : e'.graph.updated? u = some iterations) : u = count := by
  rcases h.target_of_mem hmem hu with ⟨rfl, -⟩ | ⟨w, hw, ⟨-, heq⟩ | ⟨-, heq⟩⟩
  · rfl
  · exact absurd heq (h.le_accumulator hw).2
  · have hlt := h.weight_lt hold hw
    exact absurd h.new (by omega)

/-- The only update of a weight is that of its step. -/
theorem eq_ofWeight (h : d.Laid e objective weights updates e' iterations count ws)
    (hnodup : weights.Nodup) (hold : ∀ t ∈ weights, t < e.graph.size) (hw : w ∈ ws)
    (hmem : u ∈ updates) (hu : e'.graph.updated? u = some w.weight) : u = w.ofWeight := by
  have hlt := h.weight_lt hold hw
  rcases h.target_of_mem hmem hu with ⟨-, heq⟩ | ⟨w', hw', ⟨-, heq⟩ | ⟨rfl, heq⟩⟩
  · exact absurd h.new (by omega)
  · exact absurd (h.le_accumulator hw').1 (by omega)
  · rw [List.inj_on_of_nodup_map (h.weights ▸ hnodup) hw hw' heq]

/-- The only update of an accumulator is that of its step. -/
theorem eq_ofAccumulator (h : d.Laid e objective weights updates e' iterations count ws)
    (hold : ∀ t ∈ weights, t < e.graph.size) (hw : w ∈ ws) (hmem : u ∈ updates)
    (hu : e'.graph.updated? u = some w.accumulator) : u = w.ofAccumulator := by
  have hge := h.le_accumulator hw
  rcases h.target_of_mem hmem hu with ⟨-, heq⟩ | ⟨w', hw', ⟨rfl, heq⟩ | ⟨-, heq⟩⟩
  · exact absurd heq.symm hge.2
  · rw [List.inj_on_of_nodup_map (List.pairwise_cons.1 h.sorted).2.nodup hw hw' heq]
  · have hlt := h.weight_lt hold hw'
    exact absurd hge.1 (by omega)

/-- The updates need passive operations only, when the objective does. -/
theorem passive_of_mem_operands (h : d.Laid e objective weights updates e' iterations count ws)
    (hobjective : e'.graph.ReachesOnly Op.Passive objective) (hu : u ∈ updates) {o : Nat}
    (ho : o ∈ e'.graph.operands u) : e'.graph.ReachesOnly Op.Passive o := by
  have hoperands : ∀ {op : Op}, e'.graph.op? u = some op → o ∈ op.operands := by
    intro op hop
    obtain ⟨n, hn, rfl⟩ := Option.map_eq_some_iff.1 hop
    rwa [Graph.operands_eq hn] at ho
  have htyped := h.grown.sound.typed
  -- an update is the count or assigns an accumulator or a weight
  rcases h.mem_updates_iff.1 hu with rfl | ⟨w, hw, rfl | rfl⟩
  · obtain ⟨one, hop, hone⟩ := h.counts.update
    have hiterations := passive_of_updated? htyped (Graph.updated?_of_op? hop)
    have hmem := hoperands hop
    simp only [Op.operands, Op.inputs, List.mem_cons, List.not_mem_nil, or_false] at hmem
    rcases hmem with rfl | rfl
    · exact hiterations
    · exact .of_op? hone ⟨rfl, rfl⟩ (by simp [Op.operands, Op.inputs])
  · obtain rfl : o = w.velocity := by
      simpa [Op.operands] using hoperands (h.present w hw).ofAccumulator
    exact ((h.present w hw).passive htyped hobjective).1
  · obtain rfl : o = w.moved := by simpa [Op.operands] using hoperands (h.present w hw).ofWeight
    exact ((h.present w hw).passive htyped hobjective).2

/-- The updates need no other updates. -/
theorem mem_updates_of_reaches (h : d.Laid e objective weights updates e' iterations count ws)
    (hobjective : e'.graph.ReachesOnly Op.Passive objective) {v : Nat} (hv : v ∈ updates)
    (hreached : e'.graph.Reaches v u) (hu : (e'.graph.updated? u).isSome) : u ∈ updates := by
  rcases Relation.ReflTransGen.cases_head hreached with rfl | ⟨o, ho, hrest⟩
  · exact hv
  · have hnone := (h.passive_of_mem_operands hobjective hv ho).updated?_of_reaches hrest
    rw [hnone] at hu
    cases hu

end Laid

end TensorGraph.Descent
