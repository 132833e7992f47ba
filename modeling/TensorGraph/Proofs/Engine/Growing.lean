import TensorGraph.Proofs.Engine.Initial

/-!
# Growing an engine

Some calls only add to an engine: new nodes, none of them trained, and variables for some of them.
What was in the engine before stays as it was.

## Main definitions

* `Graph.op?`: the operation in a slot.
* `Engine.stored?`: the value of a variable.
* `Engine.Grown`: an engine to which such calls have added.

## Main results

* `Engine.leads_bind_grown`: calls that start with appending a node with a known operation.
* `Engine.Created.grown`: creating a variable that is not trained.
-/

namespace TensorGraph

/-- A passive operation updates no variable. -/
theorem Op.Passive.updated?_eq {op : Op} (h : op.Passive) : op.updated? = none := by
  cases op with
  | assign | assignAdd => cases h.2
  | _ => rfl

namespace Graph

/-- The operation in a slot. -/
def op? (g : Graph) (slot : Nat) : Option Op := (g.nodes[slot]?).map (·.op)

theorem op?_of_getElem? {g : Graph} {slot : Nat} {n : GraphNode} (h : g.nodes[slot]? = some n) :
    g.op? slot = some n.op := by
  rw [op?, h, Option.map_some]

theorem updated?_of_op? {g : Graph} {slot : Nat} {op : Op} (h : g.op? slot = some op) :
    g.updated? slot = op.updated? := by
  obtain ⟨n, hn, rfl⟩ := Option.map_eq_some_iff.1 h
  rw [updated?, hn, Option.bind_some]

/-- A slot with a known operation reaches what its operands reach. -/
theorem ReachesOnly.of_op? {P : Op → Prop} {g : Graph} {slot : Nat} {op : Op}
    (hop : g.op? slot = some op) (hP : P op) (hoperands : ∀ o ∈ op.operands, g.ReachesOnly P o) :
    g.ReachesOnly P slot := by
  obtain ⟨n, hn, rfl⟩ := Option.map_eq_some_iff.1 hop
  exact .intro hn hP hoperands

/-- What reaches only passive operations reaches no update. -/
theorem ReachesOnly.updated?_of_reaches {g : Graph} {a b : Nat} (h : g.ReachesOnly Op.Passive a)
    (hb : g.Reaches a b) : g.updated? b = none := by
  obtain ⟨node, op, -⟩ := h.of_reaches hb
  rw [updated?, node, Option.bind_some, op.updated?_eq]

/-- What an update changes is a variable. -/
theorem Typed.exists_of_updated? {g : Graph} (hg : g.Typed) {u target : Nat}
    (h : g.updated? u = some target) : ∃ v, g.nodes[target]? = some v ∧ v.op.isVariable := by
  obtain ⟨n, hn, hop⟩ := Option.bind_eq_some_iff.1 h
  obtain ⟨v, hv, hvar, -⟩ := (hg.node hn).exists_updated hop
  exact ⟨v, (before_eq_some_iff.1 hv).2, hvar⟩

end Graph

namespace Engine

variable {e e' e'' : Engine} {n : GraphNode} {handle : Node}

/-- The value of the variable in a slot. -/
def stored? (e : Engine) (slot : Nat) : Option (Tensor Float32) :=
  e.session.bind fun s => s.store.get? slot

/-- The value of a variable is what the session stores. -/
theorem stored?_eq {s : Session} (hs : e.session = some s) (slot : Nat) :
    e.stored? slot = s.store.get? slot := by
  rw [stored?, hs, Option.bind_some]

/-- The slots in use stay in use. -/
theorem Changes.size_le (h : Changes e e') : e.graph.size ≤ e'.graph.size := by
  by_contra hlt
  obtain ⟨n, hn⟩ := Graph.exists_node_of_lt (Nat.lt_of_not_le hlt)
  exact Nat.lt_irrefl _ (Graph.lt_size_of_getElem? (h.getElem? hn))

/-- An engine with new nodes, none of which is trained. Old variables keep their values. -/
structure Grown (e e' : Engine) : Prop where
  sound : e'.Sound
  /-- If no function has been run, the new variables hold their first values, too. -/
  initialized : e.Initialized → e'.Initialized
  changes : Changes e e'
  trainable : e'.graph.trainable = e.graph.trainable
  kept : ∀ slot < e.graph.size, e'.stored? slot = e.stored? slot

namespace Grown

theorem refl (h : e.Sound) : Grown e e where
  sound := h
  initialized := id
  changes := .refl
  trainable := rfl
  kept _ _ := rfl

/-- Engines grow step by step. -/
theorem trans (h : Grown e e') (h' : Grown e' e'') : Grown e e'' where
  sound := h'.sound
  initialized hi := h'.initialized (h.initialized hi)
  changes := h.changes.trans h'.changes
  trainable := h'.trainable.trans h.trainable
  kept slot hslot :=
    (h'.kept slot (Nat.lt_of_lt_of_le hslot h.changes.size_le)).trans (h.kept slot hslot)

/-- Operations stay in their slots. -/
theorem op? (h : Grown e e') {slot : Nat} {op : Op} (hop : e.graph.op? slot = some op) :
    e'.graph.op? slot = some op := by
  obtain ⟨n, hn, rfl⟩ := Option.map_eq_some_iff.1 hop
  exact Graph.op?_of_getElem? (h.changes.getElem? hn)

end Grown

/-- Appending a node lists none as trained. -/
theorem Appended.trainable (happended : Appended e n handle e') :
    e'.graph.trainable = e.graph.trainable := by
  obtain rfl := happended.engine
  rfl

/-- An engine grows by a node that is appended. -/
theorem Appended.grown (h : e.Sound) (happended : Appended e n handle e') : Grown e e' := by
  refine ⟨happended.change.sound h, fun hi => hi.append happended, .single happended.change,
    happended.trainable, ?_⟩
  obtain rfl := happended.engine
  exact fun _ _ => rfl

/-- A sequence of calls that starts with appending a node with a known operation. -/
theorem leads_bind_grown {c : Call Node} {P : GraphNode → Prop} {op : Op} (h : e.Sound)
    (hc : Appends c e P) (hop : ∀ n, P n → n.op = op) {β : Type} {f : Node → Call β}
    {post : β → Engine → Prop}
    (hrest : ∀ handle e₁, Grown e e₁ → e₁.graph.op? handle.index = some op →
      Leads (f handle) e₁ (fun _ => True) post) :
    Leads (c >>= f) e (fun _ => True) post := by
  refine leads_bind_iff.2 (Leads.imp hc (fun _ _ => trivial) ?_)
  rintro handle e₁ ⟨n, hn, happended⟩
  have hnode := Graph.op?_of_getElem? happended.getElem?
  rw [hop n hn] at hnode
  exact hrest handle e₁ (happended.grown h) hnode

section Created

variable {made : GraphNode} {init : Node} {e₁ : Engine} {s : Session} {ev : Evaluation Float32}

/-- A new variable holds the value that its initializer made. -/
theorem Created.stored?_self (h : Created e n made init e₁ s ev handle e') :
    e'.stored? handle.index = some (ev.known.value init.index) := by
  rw [stored?_eq h.session, h.handle, Graph.handle, SlotMap.get?_insert_self]

/-- A new variable is in the slot after its initializer. -/
theorem Created.getElem? (h : Created e n made init e₁ s ev handle e') :
    e'.graph.nodes[handle.index]? = some n := by
  rw [h.graph, h.handle]
  exact Graph.getElem?_declare_eq_some_iff.2 (.inr ⟨rfl, rfl⟩)

/-- A variable that is created comes after all nodes. -/
theorem Created.size_le (h : Created e n made init e₁ s ev handle e') :
    e.graph.size ≤ handle.index := by
  rw [h.handle]
  exact Changes.size_le (.single h.appended.change)

/-- What the initializer made, when it fills a shape with one number. -/
theorem Created.exists_full (h : Created e n made init e₁ s ev handle e') (hsound : e.Sound)
    {x : Float32} (hop : made.op = .fill x) :
    ∃ shape, made.shape.concrete? = some shape ∧ ev.known.value init.index = .full shape x := by
  have htyped := (h.appended.change.sound hsound).typed
  have hmade := h.appended.getElem?
  have htargets : ∀ t ∈ [init.index], t < e₁.graph.size := by
    simpa using Graph.lt_size_of_getElem? hmade
  have hlisted : init.index ∈ (e₁.graph.schedule [init.index]).reverse :=
    List.mem_reverse.2 ((htyped.mem_schedule_iff htargets).2 ⟨init.index, by simp, .refl⟩)
  -- the evaluation that the variable was created from has computed the initializer
  have hcomputed := (settled_of_evaluate htyped htargets h.evaluated).computed hlisted hmade
  rw [hop] at hcomputed
  obtain ⟨shape, hshape, hvalue⟩ := except_map_eq_ok_iff.1 hcomputed
  exact ⟨shape, (Setting.staticShape_eq_ok_iff hmade).1 hshape, hvalue.symm⟩

/-- Creating a variable leaves the values of the others. -/
theorem Created.stored?_of_lt (h : Created e n made init e₁ s ev handle e') {slot : Nat}
    (hslot : slot < e.graph.size) : e'.stored? slot = e.stored? slot := by
  have hactive := h.active
  obtain ⟨-, -, -, -, -, rfl⟩ := h.appended
  -- appending the initializer leaves the session alone
  have hs : e.session = some s := hactive
  have hne : slot ≠ (e.graph.push made).size :=
    Nat.ne_of_lt (Nat.lt_trans hslot (Graph.lt_size_push e.graph made))
  rw [stored?_eq h.session, stored?_eq hs]
  exact SlotMap.get?_insert_of_ne _ _ hne

/-- A variable that is not trained is not listed with those that are. -/
theorem Created.trainable (h : Created e n made init e₁ s ev handle e')
    (hn : n.op.isTrainable = false) : e'.graph.trainable = e.graph.trainable := by
  rw [h.graph, Graph.declare_of_not_isTrainable hn, Graph.trainable_push, h.appended.trainable]

/-- Creating a variable that is not trained. -/
theorem Created.grown (h : e.Sound) (hcreated : Created e n made init e₁ s ev handle e')
    (hsource : made.op.isSource) (hn : n.op.isTrainable = false) : Grown e e' where
  sound := (hcreated.changes h).sound h
  initialized hi := hi.create hcreated hsource
  changes := hcreated.changes h
  trainable := hcreated.trainable hn
  kept _ hslot := hcreated.stored?_of_lt hslot

end Created

/-- Declaring a variable without an initializer. -/
theorem Initialized.declare {s : Session} {t : Tensor Float32} (h : e.Initialized)
    (hs : e.session = some s) {trainable : Bool} (hop : n.op = .variable trainable none)
    (hsound : Sound { e with
      graph := e.graph.declare n
      session := some { s with store := s.store.insert e.graph.size t } }) :
    Initialized { e with
      graph := e.graph.declare n
      session := some { s with store := s.store.insert e.graph.size t } } := by
  refine ⟨hsound, ?_, ?_⟩
  · rintro _ slot ⟨⟩ hdrawn
    exact Nat.lt_trans (h.drawn hs hdrawn) (Graph.lt_size_declare e.graph n)
  · rintro _ slot m trainable init ⟨⟩ hm hop'
    -- a variable with an initializer is an earlier node, since the declared one has none
    rcases Graph.getElem?_declare_eq_some_iff.1 hm with hold | ⟨-, rfl⟩
    · obtain ⟨made, t, hmade, hsource, ht, hmakes⟩ := h.made hs hold hop'
      have hmade' := (Graph.extends_declare e.graph n).node hmade
      have hslot := Nat.ne_of_lt (Graph.lt_size_of_getElem? hold)
      exact ⟨made, t, hmade', hsource, (SlotMap.get?_insert_of_ne _ _ hslot).trans ht,
        hmakes.transfer hmade hmade' rfl hsource⟩
    · rw [hop] at hop'
      cases hop'

/-- Declaring a variable that is not trained and has no initializer. -/
theorem grown_declare {s : Session} {t : Tensor Float32} (h : e.Sound)
    (hs : e.session = some s) (htyped : n.op.Typed (e.graph.before e.graph.size) n.shape n.type)
    (hfresh : ∀ name, n.name = some name → e.graph.find? name = none)
    (hop : n.op = .variable false none) (hshape : n.shape.concrete? = some t.shape) :
    Grown e { e with
      graph := e.graph.declare n
      session := some { s with store := s.store.insert e.graph.size t } } := by
  have hdeclare := Change.declare hs htyped hfresh (by rw [hop]; rfl) hshape
  have hsound := hdeclare.sound h
  refine ⟨hsound, fun hi => hi.declare hs hop hsound, .single hdeclare, ?_, fun slot hslot => ?_⟩
  · -- neither the weights nor the values of earlier variables change
    exact congrArg (·.trainable) (Graph.declare_of_not_isTrainable (by rw [hop]; rfl))
  · have hkept : (s.store.insert e.graph.size t).get? slot = s.store.get? slot :=
      SlotMap.get?_insert_of_ne _ _ (Nat.ne_of_lt hslot)
    rw [stored?_eq hs, ← hkept]
    rfl

/-- A new counter is a variable of integers and holds its first value. -/
theorem leads_counter (h : e.Sound) (initial : Int64) (name : String) :
    Leads (counter initial name) e (fun _ => True) fun handle e' =>
      Grown e e' ∧ e.graph.size ≤ handle.index ∧ ∃ n, e'.graph.nodes[handle.index]? = some n ∧
        n.op = .variable false none ∧ n.type = .i64 ∧ n.name = some name ∧
        e'.stored? handle.index = some (.ofValue (.integer initial)) := by
  refine (leads_declare initial name).imp (fun _ _ => trivial) ?_
  rintro handle _ ⟨s, hs, hfresh, rfl, rfl⟩
  have hname : ∀ s, some name = some s → e.graph.find? s = none := by
    rintro _ ⟨⟩
    exact hfresh
  refine ⟨grown_declare h hs .counter hname rfl rfl, Nat.le_refl _, _,
    Graph.getElem?_declare_eq_some_iff.2 (.inr ⟨rfl, rfl⟩), rfl, rfl, rfl, ?_⟩
  rw [stored?, Option.bind_some]
  exact SlotMap.get?_insert_self _ _ _

/-- Making records. -/
theorem Reported.grown (hreported : Reported e e') (h : e.Sound) : Grown e e' := by
  refine ⟨hreported.changes.sound h, fun hi => hi.report hreported, hreported.changes, ?_, ?_⟩ <;>
    obtain ⟨records, rfl⟩ := hreported
  · rfl
  · exact fun _ _ => rfl

/-! ## Several nodes -/

namespace AppendedAll

variable {α : Type} {as : List α} {ns : List GraphNode} {handles : List Node}

/-- Nodes that are not variables leave the trained variables as they are. -/
theorem trainable (happended : AppendedAll e ns handles e') :
    e'.graph.trainable = e.graph.trainable := by
  induction happended with
  | nil => rfl
  | cons head _ ih => exact ih.trans head.trainable

/-- Nodes that are appended one after the other are in their slots. -/
theorem op? (happended : AppendedAll e ns handles e') (op : α → Op)
    (hops : List.Forall₂ (fun a n => n.op = op a) as ns) :
    List.Forall₂ (fun a handle => e'.graph.op? handle.index = some (op a)) as handles := by
  induction happended generalizing as with
  | nil =>
    cases hops
    exact .nil
  | cons head tail ih =>
    obtain _ | ⟨hn, hops⟩ := hops
    have hnode := Graph.op?_of_getElem? (tail.changes.getElem? head.getElem?)
    exact .cons (hn ▸ hnode) (ih hops)

/-- Nodes that are appended one after the other. -/
theorem grown (happended : AppendedAll e ns handles e') (h : e.Sound) : Grown e e' := by
  induction happended with
  | nil => exact .refl h
  | cons head _ ih => exact (head.grown h).trans (ih (head.grown h).sound)

end AppendedAll

end Engine
end TensorGraph
