import TensorGraph.Proofs.Engine.Accepting
import TensorGraph.Proofs.Engine.Reachable

/-!
# Derivatives by a list of variables

The derivatives of a loss by some variables are appended one by one, and each variable is looked at
only when its turn comes. So when every handle of the list names a variable of numbers, there is one
new node for each of them, in the order of the list. A handle that does not ends the call there, and
what has been appended for the handles before it stays in the graph.

## Main definitions

* `Graph.Varies`: a handle that a loss can be differentiated by.
* `Engine.derivative`: the node of a derivative.

## Main results

* `Engine.mapM_gradient_eq`: the derivatives by variables, all of which are appended.
* `Engine.gradients_append_until_refused`: what the call appends, and what it leaves when it fails.
-/

namespace TensorGraph

/-- A handle of a graph that names a variable of numbers. -/
structure Graph.Varies (g : Graph) (target : Node) (v : GraphNode) : Prop where
  holds : g.Holds target v
  isVariable : v.op.isVariable
  type : v.type = .f32

/-- A list of handles that starts with those of some variables of numbers and goes on with one of
something else. -/
def Graph.StopsAfter (g : Graph) (targets : List Node) (found : List (Node × GraphNode)) : Prop :=
  ∃ bad after, targets = found.map (·.1) ++ bad :: after ∧
    (∀ p ∈ found, g.Varies p.1 p.2) ∧ ∀ v, ¬g.Varies bad v

/-- A list of handles goes through variables up to its end or up to a handle of something else. -/
theorem Graph.exists_varies (g : Graph) (targets : List Node) :
    ∃ found : List (Node × GraphNode),
      (targets = found.map (·.1) ∧ ∀ p ∈ found, g.Varies p.1 p.2) ∨ g.StopsAfter targets found := by
  induction targets with
  | nil => exact ⟨[], .inl ⟨rfl, by simp⟩⟩
  | cons target targets ih =>
    -- the list goes on while its entries are variables and stops at the first other one
    by_cases htarget : ∃ v, g.Varies target v
    · obtain ⟨v, hv⟩ := htarget
      obtain ⟨found, ⟨rfl, hfound⟩ | ⟨bad, after, rfl, hfound, hbad⟩⟩ := ih
      · exact ⟨(target, v) :: found, .inl ⟨rfl, List.forall_mem_cons.2 ⟨hv, hfound⟩⟩⟩
      · exact ⟨(target, v) :: found, .inr ⟨bad, after, rfl,
          List.forall_mem_cons.2 ⟨hv, hfound⟩, hbad⟩⟩
    · exact ⟨[], .inr ⟨target, targets, rfl, by simp, fun v hv => htarget ⟨v, hv⟩⟩⟩

/-- A node that is no variable adds nothing to differentiate by. -/
theorem Graph.varies_push_iff {g : Graph} {n v : GraphNode} {target : Node}
    (hn : n.op.isVariable = false) : (g.push n).Varies target v ↔ g.Varies target v := by
  constructor
  · rintro ⟨⟨hgraph, hnode⟩, hvar, htype⟩
    rcases getElem?_push_eq_some_iff.1 hnode with hold | ⟨-, rfl⟩
    · exact ⟨⟨hgraph, hold⟩, hvar, htype⟩
    · rw [hn] at hvar
      cases hvar
  · rintro ⟨hheld, hvar, htype⟩
    exact ⟨hheld.extend (extends_push g n), hvar, htype⟩

namespace Engine

variable {e e' : Engine} {loss target : Node} {found : List (Node × GraphNode)}

/-- An engine with further nodes. -/
def pushAll (e : Engine) (ns : List GraphNode) : Engine := ns.foldl push e

@[simp] theorem pushAll_nil (e : Engine) : e.pushAll [] = e := rfl

@[simp] theorem pushAll_push (e : Engine) (n : GraphNode) (ns : List GraphNode) :
    (e.push n).pushAll ns = e.pushAll (n :: ns) := rfl

/-- The derivative of a loss by a variable. It has the shape of the variable. -/
def derivative (loss target : Node) (v : GraphNode) : GraphNode :=
  ⟨.gradient loss.index target.index, v.shape, .f32, none⟩

/-- The derivatives by some variables, with their nodes. -/
def derivatives (loss : Node) (found : List (Node × GraphNode)) : List GraphNode :=
  found.map fun p => derivative loss p.1 p.2

/-- The handles of the next nodes. -/
def nextHandles (e : Engine) (count : Nat) : List Node :=
  (List.range' e.graph.size count).map e.graph.handle

/-- Derivatives are no variables, so what can be differentiated by stays the same. -/
theorem varies_pushAll_iff {v : GraphNode} (loss : Node) (found : List (Node × GraphNode)) :
    (e.pushAll (derivatives loss found)).graph.Varies target v ↔ e.graph.Varies target v := by
  induction found generalizing e with
  | nil => rw [derivatives, List.map_nil, pushAll_nil]
  | cons p found ih =>
    rw [derivatives, List.map_cons, ← pushAll_push]
    exact ih.trans (Graph.varies_push_iff rfl)

theorem nextHandles_succ (e : Engine) (n : GraphNode) (count : Nat) :
    e.nextHandles (count + 1) = e.graph.handle e.graph.size :: (e.push n).nextHandles count := by
  have hsize : (e.push n).graph.size = e.graph.size + 1 := by simp [push, Graph.push, Graph.size]
  rw [nextHandles, nextHandles, List.range'_succ, List.map_cons, hsize]
  rfl

/-- A derivative is only appended by a variable on a live engine. -/
theorem leads_gradient (slot : Nat) (target : Node) :
    Leads (gradient slot target) e (e = ·) fun _ _ =>
      e.session.isSome ∧ ∃ v, e.graph.Varies target v :=
  leads_located rfl fun x hx => leads_expectVariable rfl fun hvar => leads_expectFloat rfl
    fun htype => leads_register rfl fun hactive _ =>
      ⟨hactive, x.2, ⟨hx.graph, hx.node⟩, hvar, htype⟩

theorem gradient_refused (slot : Nat) (target : Node)
    (h : ¬(e.session.isSome ∧ ∃ v, e.graph.Varies target v)) :
    ∃ failure, gradient slot target e = .error failure e := by
  cases hresult : gradient slot target e with
  | ok handle e' => exact absurd ((leads_gradient slot target).of_eq_ok hresult) h
  | error failure e' =>
    obtain rfl := (leads_gradient slot target).of_eq_error hresult
    exact ⟨failure, rfl⟩

section Lists

variable (hactive : e.session.isSome) (hfound : ∀ p ∈ found, e.graph.Varies p.1 p.2)
include hactive hfound

/-- The derivatives by variables are all appended, one after the other. -/
theorem mapM_gradient_eq (loss : Node) (rest : List Node) :
    (found.map (·.1) ++ rest).mapM (gradient loss.index) e =
      (rest.mapM (gradient loss.index) >>= fun handles =>
        pure (e.nextHandles found.length ++ handles)) (e.pushAll (derivatives loss found)) := by
  -- induction on the variables: each is looked at in the graph with the derivatives before it
  induction found generalizing e with
  | nil =>
    simp only [derivatives, List.map_nil, pushAll_nil, nextHandles, List.length_nil,
      List.range'_zero, List.nil_append, bind_pure]
  | cons p found ih =>
    obtain ⟨hp, hfound⟩ := List.forall_mem_cons.1 hfound
    have hhead := gradient_eq hactive loss.index hp.holds hp.isVariable hp.type
    have htail := ih (e := e.push (derivative loss p.1 p.2)) hactive
      fun q hq => (Graph.varies_push_iff rfl).2 (hfound q hq)
    rw [List.map_cons, List.cons_append, List.mapM_cons, bind_of_ok hhead, derivatives,
      List.map_cons, ← pushAll_push, List.length_cons, nextHandles_succ e (derivative loss p.1 p.2)]
    refine (bind_of_eq htail).trans ?_
    rw [bind_assoc]
    rfl

/-- When every handle is that of a variable, so are the derivatives. -/
theorem mapM_gradient_of_varies (loss : Node) :
    (found.map (·.1)).mapM (gradient loss.index) e =
      .ok (e.nextHandles found.length) (e.pushAll (derivatives loss found)) := by
  have h := mapM_gradient_eq hactive hfound loss []
  rw [List.append_nil] at h
  rw [h, List.mapM_nil, pure_bind, List.append_nil]
  rfl

/-- The first handle that is not that of a variable ends the list. -/
theorem mapM_gradient_refused (loss : Node) {bad : Node} (hbad : ∀ v, ¬e.graph.Varies bad v)
    (after : List Node) : ∃ failure,
      (found.map (·.1) ++ bad :: after).mapM (gradient loss.index) e =
        .error failure (e.pushAll (derivatives loss found)) := by
  -- the derivatives before it do not make the bad handle a variable
  have hstays : ¬((e.pushAll (derivatives loss found)).session.isSome ∧
      ∃ v, (e.pushAll (derivatives loss found)).graph.Varies bad v) := by
    rintro ⟨-, v, hv⟩
    exact hbad v ((varies_pushAll_iff loss found).1 hv)
  obtain ⟨failure, hfail⟩ := gradient_refused loss.index bad hstays
  refine ⟨failure, (mapM_gradient_eq hactive hfound loss _).trans (bind_of_error ?_)⟩
  rw [List.mapM_cons]
  exact bind_of_error hfail

end Lists

section Losses

variable {targets : List Node}

/-- A loss that is a node of numbers is differentiated by one variable after the other. -/
theorem gradients_eq (targets : List Node) {n : GraphNode} (hloss : e.graph.Holds loss n)
    (htype : n.type = .f32) :
    gradients loss targets e = targets.mapM (gradient loss.index) e :=
  (bind_of_ok hloss.locate_eq).trans (expectFloat_apply htype)

/-- With any other loss nothing happens. -/
theorem gradients_refused (targets : List Node)
    (hloss : ¬∃ n, e.graph.Holds loss n ∧ n.type = .f32) :
    ∃ failure, gradients loss targets e = .error failure e := by
  have hleads : Leads (gradients loss targets) e (e = ·) fun _ _ => False :=
    leads_located rfl fun x hx => leads_expectFloat rfl fun htype =>
      absurd ⟨x.2, ⟨hx.graph, hx.node⟩, htype⟩ hloss
  cases hresult : gradients loss targets e with
  | ok handles e' => exact (hleads.of_eq_ok hresult).elim
  | error failure e' =>
    obtain rfl := hleads.of_eq_error hresult
    exact ⟨failure, rfl⟩

/-- Once the session has ended nothing is appended, but an empty list asks for nothing. -/
theorem mapM_gradient_disposed (hended : ¬e.session.isSome) (hne : targets ≠ []) (slot : Nat) :
    ∃ failure, targets.mapM (gradient slot) e = .error failure e := by
  obtain ⟨target, targets, rfl⟩ := List.exists_cons_of_ne_nil hne
  obtain ⟨failure, hfail⟩ := gradient_refused slot target fun h => hended h.1
  rw [List.mapM_cons]
  exact ⟨failure, bind_of_error hfail⟩

/-- On a live engine and for a loss of numbers, an entry that is not a variable of numbers leaves
behind the nodes for all entries before it. -/
theorem gradients_of_stopsAfter {n : GraphNode} (hactive : e.session.isSome)
    (hloss : e.graph.Holds loss n) (htype : n.type = .f32)
    (hstops : e.graph.StopsAfter targets found) :
    ∃ failure, gradients loss targets e = .error failure (e.pushAll (derivatives loss found)) := by
  obtain ⟨bad, after, rfl, hfound, hbad⟩ := hstops
  rw [gradients_eq _ hloss htype]
  exact mapM_gradient_refused hactive hfound loss hbad after

end Losses

/-- The derivatives by a list of variables are appended, or some of them, or none. -/
theorem leads_gradients_derivatives (e : Engine) (loss : Node) (targets : List Node) :
    Leads (gradients loss targets) e
      (fun e' => e' = e ∨ ∃ found, e.graph.StopsAfter targets found ∧
        e' = e.pushAll (derivatives loss found))
      fun handles e' => ∃ found : List (Node × GraphNode), targets = found.map (·.1) ∧
        (∀ p ∈ found, e.graph.Varies p.1 p.2) ∧ handles = e.nextHandles targets.length ∧
        e' = e.pushAll (derivatives loss found) := by
  -- the loss is checked first, then each variable when its turn comes
  by_cases hloss : ∃ n, e.graph.Holds loss n ∧ n.type = .f32
  case neg =>
    obtain ⟨failure, hfail⟩ := gradients_refused targets hloss
    exact leads_of_eq_error hfail (.inl rfl)
  obtain ⟨n, hheld, htype⟩ := hloss
  have heq := gradients_eq targets hheld htype
  by_cases hactive : e.session.isSome
  · obtain ⟨found, ⟨rfl, hfound⟩ | hstops⟩ := e.graph.exists_varies targets
    · exact leads_of_eq_ok (heq.trans (mapM_gradient_of_varies hactive hfound loss))
        ⟨found, rfl, hfound, by rw [List.length_map], rfl⟩
    · obtain ⟨failure, hfail⟩ := gradients_of_stopsAfter hactive hheld htype hstops
      exact leads_of_eq_error hfail (.inr ⟨found, hstops, rfl⟩)
  · -- no variable is looked at for an empty list, so nobody asks for the session
    by_cases hempty : targets = []
    · subst hempty
      exact leads_of_eq_ok heq ⟨[], rfl, by simp, rfl, (pushAll_nil e).symm⟩
    · obtain ⟨failure, hfail⟩ := mapM_gradient_disposed hactive hempty loss.index
      exact leads_of_eq_error (heq.trans hfail) (.inl rfl)

/-- If the derivatives of a loss by a list of variables are given, one new node for every entry has
been appended, in the order of the list and with the shape of its variable, and nothing else has
changed. If they are not given, then nothing has changed or the nodes for the entries before the
first one that is not a variable of numbers have been appended; on a live engine and for a loss of
numbers such an entry always leaves them behind. -/
theorem gradients_append_until_refused (e : Engine) (loss : Node) (targets : List Node) :
    (∀ handles e', gradients loss targets e = .ok handles e' →
      ∃ found : List (Node × GraphNode), targets = found.map (·.1) ∧
        (∀ p ∈ found, e.graph.Varies p.1 p.2) ∧ handles = e.nextHandles targets.length ∧
        e' = e.pushAll (derivatives loss found)) ∧
    (∀ failure e', gradients loss targets e = .error failure e' →
      e' = e ∨ ∃ found, e.graph.StopsAfter targets found ∧
        e' = e.pushAll (derivatives loss found)) ∧
    ∀ found n, e.session.isSome → e.graph.Holds loss n → n.type = .f32 →
      e.graph.StopsAfter targets found → ∃ failure,
        gradients loss targets e = .error failure (e.pushAll (derivatives loss found)) := by
  have hleads := leads_gradients_derivatives e loss targets
  exact ⟨fun handles e' hgiven => hleads.of_eq_ok hgiven,
    fun failure e' hfail => hleads.of_eq_error hfail,
    fun found n hactive hloss htype hstops => gradients_of_stopsAfter hactive hloss htype hstops⟩

/-- An engine with weights, a placeholder and the sum of the weights. -/
def weighing : Engine :=
  built [.weights [2] .zeros "w", .placeholder "x" [2], .reduceSum ⟨0, 1⟩ (some "sum")]

/-- The derivatives of the sum by the weights and the placeholder are refused for the latter, and
the derivative by the weights stays. -/
theorem gradients_not_all_or_nothing : ∃ (e : Engine) (loss : Node) (targets : List Node)
    (err : Error) (e' : Engine), e.Reachable ∧
      gradients loss targets e = .error (.error err) e' ∧ e'.graph.nodes ≠ e.graph.nodes := by
  have hrefused : (match gradients ⟨0, 3⟩ [⟨0, 1⟩, ⟨0, 2⟩] weighing with
      | .error (.error _) e' => e'.graph.nodes.size != weighing.graph.nodes.size
      | _ => false) = true := by decide +kernel
  split at hrefused
  · next err e' heq =>
    refine ⟨weighing, _, _, err, e', reachable_built _, heq, fun hnodes => ?_⟩
    rw [hnodes] at hrefused
    simp at hrefused
  · cases hrefused

end Engine
end TensorGraph
