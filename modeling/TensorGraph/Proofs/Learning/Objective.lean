import TensorGraph.Learning.Objective
import TensorGraph.Proofs.Engine.Growing
import TensorGraph.Proofs.Evaluation.Recomputation

/-!
# The sum of the losses

Training minimizes one quantity, the sum of the losses. Losses are added from left to right by
additions of two at a time, each of which stretches its operands to a common shape.

## Main definitions

* `Tensor.addUp`: tensors added from left to right.
* `Graph.AddsUp`: a slot that holds the last of such additions.

## Main results

* `Engine.leads_aggregate`: adding losses up appends such additions.
* `Settled.addUp_eq`: the value of the last addition is the sum of the values of the losses.
-/

namespace TensorGraph

namespace Tensor

/-- Two tensors added entry by entry, when they stretch to a common shape. -/
def plus? (t u : Tensor Float32) : Option (Tensor Float32) :=
  (Shape.broadcast t.shape u.shape).map fun shape => .combine shape (· + ·) t u

/-- Tensors added from left to right. -/
def addUp : List (Tensor Float32) → Option (Tensor Float32)
  | [] => none
  | first :: rest => rest.foldlM plus? first

/-- The last loss is added to the sum of the others. -/
theorem addUp_append_singleton {ts : List (Tensor Float32)} {total : Tensor Float32}
    (h : addUp ts = some total) (t : Tensor Float32) : addUp (ts ++ [t]) = total.plus? t := by
  cases ts with
  | nil => cases h
  | cons first rest =>
    rw [addUp] at h
    rw [List.cons_append, addUp, List.foldlM_append, h]
    exact bind_pure (total.plus? t)

end Tensor

namespace Graph

variable {g g' : Graph} {losses : List Nat} {total : Nat}

/-- A slot holds the sum of some losses: the first one itself, or the addition of the last one to
the sum of the others. -/
inductive AddsUp (g : Graph) : List Nat → Nat → Prop
  | single (loss : Nat) : AddsUp g [loss] loss
  | add {losses : List Nat} {sum loss total : Nat} (others : AddsUp g losses sum)
      (op : g.op? total = some (.binary .add sum loss)) : AddsUp g (losses ++ [loss]) total

/-- A sum of losses is one in every graph with the same operations. -/
theorem AddsUp.mono (h : g.AddsUp losses total)
    (hop : ∀ slot op, g.op? slot = some op → g'.op? slot = some op) : g'.AddsUp losses total := by
  induction h with
  | single loss => exact .single loss
  | add _ hsum ih => exact .add ih (hop _ _ hsum)

/-- A sum stays one when the graph grows. -/
theorem AddsUp.extend (h : g.AddsUp losses total) (hg : g.Extends g') : g'.AddsUp losses total := by
  refine h.mono fun slot op hop => ?_
  obtain ⟨n, hn, rfl⟩ := Option.map_eq_some_iff.1 hop
  exact op?_of_getElem? (hg.node hn)

/-- The operands of an evaluated operation have been evaluated. -/
theorem Finished.mem_of_op? {listed : List Nat} (h : g.Finished listed) {slot o : Nat} {op : Op}
    (hslot : slot ∈ listed) (hop : g.op? slot = some op) (ho : o ∈ op.operands) : o ∈ listed := by
  obtain ⟨n, hn, rfl⟩ := Option.map_eq_some_iff.1 hop
  exact h.mem_of_mem_operands hslot hn ho

end Graph

namespace Engine

variable {e e' : Engine}

/-- Building keeps a sum of losses. -/
theorem buildable_addsUp (losses : List Nat) (total : Nat) :
    Buildable fun e => e.graph.AddsUp losses total where
  append h happended _ := by
    obtain rfl := happended.engine
    exact h.extend (Graph.extends_push _ _)
  create h hcreated _ := by
    obtain rfl := hcreated.appended.engine
    rw [hcreated.graph]
    exact (h.extend (Graph.extends_push _ _)).extend (Graph.extends_declare _ _)
  report h hreported := by
    obtain ⟨records, rfl⟩ := hreported
    exact h

namespace Buildable

variable {I : Engine → Prop}

/-- A function of two arguments keeps what building keeps. -/
theorem binary (hI : Buildable I) (op : BinaryOp) (left right : Node) (name : Option String) :
    Preserves I (Engine.binary op left right name) :=
  hI.appends (fun _ => appends_binary op left right) fun _ _ h => by rw [h.1]; rfl

/-- Adding losses up appends sums. -/
theorem aggregate (hI : Buildable I) (losses : List Node) :
    Preserves I (Engine.aggregate losses) := by
  cases losses with
  | nil => exact .throw _
  | cons first rest => exact .foldlM (fun total loss => hI.binary .add total loss none) rest first

end Buildable

/-- Adding further losses to a sum. -/
theorem leads_addAll {added : List Nat} {sum : Node} (h : e.graph.AddsUp added sum.index)
    (losses : List Node) :
    Leads (losses.foldlM (fun total loss => add total loss none) sum) e (fun _ => True)
      fun total e' => e'.graph.AddsUp (added ++ losses.map (·.index)) total.index := by
  induction losses generalizing added sum e with
  | nil =>
    refine leads_pure ?_
    rwa [List.map_nil, List.append_nil]
  | cons loss losses ih =>
    refine leads_bind_iff.2 (Leads.imp (appends_binary .add sum loss) (fun _ _ => trivial) ?_)
    rintro total e₁ ⟨n, ⟨hop, -⟩, happended⟩
    have hsum := Graph.op?_of_getElem? happended.getElem?
    rw [hop] at hsum
    obtain rfl := happended.engine
    -- the new node adds the loss to what has been added before
    have hstep := ih (.add (h.extend (Graph.extends_push _ n)) hsum)
    rwa [List.append_assoc] at hstep

/-- Adding losses up makes a slot for their sum. -/
theorem leads_aggregate (losses : List Node) :
    Leads (aggregate losses) e (fun _ => True) fun total e' =>
      e'.graph.AddsUp (losses.map (·.index)) total.index := by
  cases losses with
  | nil => exact leads_refuse trivial
  | cons first rest => exact leads_addAll (.single first.index) rest

end Engine

namespace Settled

variable {listed : List Nat}

/-- An evaluated slot holds what its operation computes. -/
theorem computed_op {S : Type} [Scalar S] {env : Setting S} {e : Evaluation S}
    (h : Settled env listed e) {slot : Nat} {op : Op} (hslot : slot ∈ listed)
    (hop : env.graph.op? slot = some op) :
    env.compute e.known slot op = .ok (e.known.value slot) := by
  obtain ⟨n, hn, rfl⟩ := Option.map_eq_some_iff.1 hop
  exact h.computed hslot hn

variable {env : Setting Float32} {e : Evaluation Float32}

/-- An evaluated addition holds the sum of its operands. -/
theorem plus?_eq (h : Settled env listed e) {slot a b : Nat} (hslot : slot ∈ listed)
    (hop : env.graph.op? slot = some (.binary .add a b)) :
    (e.known.value a).plus? (e.known.value b) = some (e.known.value slot) := by
  obtain ⟨shape, hcommon, heq⟩ := except_bind_eq_ok_iff.1 (h.computed_op hslot hop)
  rw [Tensor.plus?, Setting.commonShape_eq_ok_iff.1 hcommon]
  exact congrArg some (Except.ok.inj heq)

/-- When a sum of losses has been evaluated, the losses have been, and its value is their sum. -/
theorem addUp_eq (h : Settled env listed e) (hlisted : env.graph.Finished listed)
    {losses : List Nat} {total : Nat} (hsum : env.graph.AddsUp losses total)
    (htotal : total ∈ listed) :
    (∀ loss ∈ losses, loss ∈ listed) ∧
      Tensor.addUp (losses.map e.known.value) = some (e.known.value total) := by
  induction hsum with
  | single loss => exact ⟨List.forall_mem_singleton.2 htotal, rfl⟩
  | add _ hop ih =>
    -- the sum so far is an operand of the node, so it has been evaluated before
    obtain ⟨hlosses, hvalue⟩ := ih (hlisted.mem_of_op? htotal hop List.mem_cons_self)
    have hloss := hlisted.mem_of_op? htotal hop (List.mem_cons_of_mem _ List.mem_cons_self)
    refine ⟨List.forall_mem_append.2 ⟨hlosses, List.forall_mem_singleton.2 hloss⟩, ?_⟩
    rw [List.map_append, List.map_singleton, Tensor.addUp_append_singleton hvalue]
    exact h.plus?_eq htotal hop

end Settled

end TensorGraph
