import TensorGraph.Evaluation.Run
import TensorGraph.Proofs.Graph.Finishing

/-!
# What evaluating a node reads

Computing a node reads what is known of its operands and of the node itself. Differentiating a loss
reads what is known of the slots that the loss reaches, and gives derivatives by such slots only.

## Main results

* `Setting.compute_congr`: the value of a node depends on what it reads.
* `Op.mem_operands_of_mem_pullback` and `Op.pullback_congr`: the same for handing sensitivities on.
* `Graph.sensitivities_congr` and `Graph.sensitivities_forall`: the same for a whole sweep.
-/

namespace TensorGraph

variable {S : Type} [Scalar S]

namespace Graph

theorem operands_eq {g : Graph} {slot : Nat} {n : GraphNode} (h : g.nodes[slot]? = some n) :
    g.operands slot = n.op.operands := by
  simp [operands, h]

theorem label_eq {g : Graph} {slot : Nat} {n : GraphNode} (h : g.nodes[slot]? = some n) :
    g.label slot = n.label slot := by
  simp [label, h]

/-- Only a node without operands is evaluated for it. -/
theorem schedule_leaf {g : Graph} {slot : Nat} {n : GraphNode} (hn : g.nodes[slot]? = some n)
    (hleaf : n.op.operands = []) : g.schedule [slot] = [slot] := by
  simp [schedule, visit, operands_eq hn, hleaf]

/-- The operands of a node that is reached are reached. -/
theorem Reaches.operand {g : Graph} {a s o : Nat} {n : GraphNode} (h : g.Reaches a s)
    (hn : g.nodes[s]? = some n) (ho : o ∈ n.op.operands) : g.Reaches a o :=
  h.tail (by rwa [operands_eq hn])

/-- The operands of a listed node are listed. -/
theorem Finished.mem_of_mem_operands {g : Graph} {listed : List Nat} {s o : Nat} {n : GraphNode}
    (h : g.Finished listed) (hs : s ∈ listed) (hn : g.nodes[s]? = some n)
    (ho : o ∈ n.op.operands) : o ∈ listed :=
  h.operands_subset hs (by rwa [operands_eq hn])

end Graph

/-- The value of a node depends on the values of its operands, on what the node drew, and for a
gradient on the derivative that is known. -/
theorem Setting.compute_congr (env : Setting S) {known known' : Known S} {slot : Nat} {op : Op}
    (hvalue : ∀ o ∈ op.operands, known.value o = known'.value o)
    (hnoise : known.noise slot = known'.noise slot)
    (hsensitivity : ∀ loss target, op = .gradient loss target →
      known.sensitivity loss target = known'.sensitivity loss target) :
    env.compute known slot op = env.compute known' slot op := by
  cases op <;>
    simp only [Op.operands, Op.inputs, List.forall_mem_cons, List.not_mem_nil, false_imp_iff,
      implies_true, and_true] at hvalue
  case gradient loss target =>
    simp only [compute, hvalue, hsensitivity loss target rfl]
  all_goals simp only [compute, hvalue, hnoise]

namespace Op

/-- Sensitivities are handed on to operands. -/
theorem mem_operands_of_mem_pullback {op : Op} {known : Known S} {slot : Nat} {g : Tensor S}
    {c : Nat × Tensor S} (h : c ∈ op.pullback known slot g) : c.1 ∈ op.operands := by
  cases op <;> simp only [pullback, List.mem_cons, List.not_mem_nil, or_false] at h <;>
    simp only [operands, inputs, List.mem_cons, List.not_mem_nil, or_false]
  case dropout input rate seed => split at h <;> simp_all
  case sigmoidCrossEntropy => rcases h with rfl | rfl <;> simp
  case softmaxCrossEntropy => rcases h with rfl | rfl <;> simp
  case dot => rcases h with rfl | rfl <;> simp
  case biasAdd => rcases h with rfl | rfl <;> simp
  case binary => rcases h with rfl | rfl <;> simp
  all_goals rw [h]

/-- What is handed on depends on the values of the node and its operands and on what the node
drew. -/
theorem pullback_congr {op : Op} {known known' : Known S} {slot : Nat} {g : Tensor S}
    (hvalue : ∀ o ∈ op.operands, known.value o = known'.value o)
    (hself : known.value slot = known'.value slot)
    (hnoise : known.noise slot = known'.noise slot) :
    op.pullback known slot g = op.pullback known' slot g := by
  cases op <;>
    simp only [operands, inputs, List.forall_mem_cons, List.not_mem_nil, false_imp_iff,
      implies_true, and_true] at hvalue <;>
    simp only [pullback, hvalue, hself, hnoise]

end Op

namespace Graph

variable {g : Graph}

/-- A contribution is added to what has reached its slot. -/
theorem get?_receive (reached : SlotMap (Tensor S)) (c : Nat × Tensor S) (s : Nat) :
    (receive reached c).get? s =
      if s = c.1 then some (((reached.get? c.1).map (·.add c.2)).getD c.2) else reached.get? s := by
  obtain ⟨slot, t⟩ := c
  simp only [receive]
  by_cases hs : s = slot
  · subst hs
    cases reached.get? s <;> simp
  · cases h : reached.get? slot <;> simp [SlotMap.get?_insert_of_ne _ _ hs, hs]

section Sweep

variable {known known' : Known S} {Q : Nat → Tensor S → Prop} {P : Nat → Prop}

/-- What has reached the slots keeps a property that all contributions have and that adding keeps.
-/
theorem forall_foldl_receive (hadd : ∀ {s t u}, Q s t → Q s u → Q s (t.add u))
    {cs : List (Nat × Tensor S)} (hcs : ∀ c ∈ cs, Q c.1 c.2) {reached : SlotMap (Tensor S)}
    (hreached : ∀ {s t}, reached.get? s = some t → Q s t) :
    ∀ {s t}, (cs.foldl receive reached).get? s = some t → Q s t := by
  induction cs generalizing reached with
  | nil => exact hreached
  | cons c cs ih =>
    obtain ⟨hc, hcs⟩ := List.forall_mem_cons.1 hcs
    refine ih hcs fun {s t} ht => ?_
    -- the slot of the contribution holds it or the sum with it, and other slots are left alone
    rw [get?_receive] at ht
    split at ht
    · next hs =>
      subst hs
      cases hold : reached.get? c.1 with
      | none =>
        simp only [hold, Option.map_none, Option.getD_none, Option.some.injEq] at ht
        exact ht ▸ hc
      | some u =>
        simp only [hold, Option.map_some, Option.getD_some, Option.some.injEq] at ht
        exact ht ▸ hadd (hreached hold) hc
    · exact hreached ht

/-- A sweep keeps a property of what reaches the slots that handing on and adding keep. -/
theorem sweep_forall (hadd : ∀ {s t u}, Q s t → Q s u → Q s (t.add u))
    (hstep : ∀ {s n t}, g.nodes[s]? = some n → Q s t → ∀ c ∈ n.op.pullback known s t, Q c.1 c.2)
    {bound : Nat} {reached : SlotMap (Tensor S)}
    (hreached : ∀ {s t}, reached.get? s = some t → Q s t) :
    ∀ {s t}, (g.sweep known bound reached).get? s = some t → Q s t := by
  -- the sweep goes down from its bound, and each slot hands on what has reached it
  induction bound generalizing reached with
  | zero => exact hreached
  | succ slot ih =>
    rw [sweep]
    split
    · next t n ht hn =>
      exact ih (forall_foldl_receive hadd (hstep hn (hreached ht)) hreached)
    · exact ih hreached

/-- Sensitivities stay within a set of slots that contains the operands of its members. -/
private theorem within_of_mem_pullback (hclosed : ∀ {s o}, P s → o ∈ g.operands s → P o)
    {slot : Nat} {n : GraphNode} {t : Tensor S} (hn : g.nodes[slot]? = some n) (hslot : P slot) :
    ∀ c ∈ n.op.pullback known slot t, P c.1 := by
  intro c hc
  refine hclosed hslot ?_
  rw [operands_eq hn]
  exact Op.mem_operands_of_mem_pullback hc

/-- A sweep depends on what is known within a set of slots that contains the operands of its
members. -/
theorem sweep_congr (hclosed : ∀ {s o}, P s → o ∈ g.operands s → P o)
    (hvalue : ∀ s, P s → known.value s = known'.value s)
    (hnoise : ∀ s, P s → known.noise s = known'.noise s) {bound : Nat}
    {reached : SlotMap (Tensor S)} (hreached : ∀ {s t}, reached.get? s = some t → P s) :
    g.sweep known bound reached = g.sweep known' bound reached := by
  induction bound generalizing reached with
  | zero => rfl
  | succ slot ih =>
    rw [sweep, sweep]
    split
    · -- the node and its operands lie within the set, so the same is handed on
      next t n ht hn =>
      have hslot : P slot := hreached ht
      have hoperands : ∀ o ∈ n.op.operands, known.value o = known'.value o := by
        intro o ho
        exact hvalue o (hclosed hslot (by rwa [operands_eq hn]))
      rw [Op.pullback_congr hoperands (hvalue slot hslot) (hnoise slot hslot)]
      exact ih (forall_foldl_receive (Q := fun s _ => P s) (fun h _ => h)
        (within_of_mem_pullback hclosed hn hslot) hreached)
    · exact ih hreached

end Sweep

omit [Scalar S] in
/-- At the start of a sweep only the loss is reached. -/
theorem eq_of_start {loss s : Nat} {t u : Tensor S}
    (h : (SlotMap.empty.insert loss t).get? s = some u) : s = loss ∧ u = t := by
  by_cases hs : s = loss
  · subst hs
    rw [SlotMap.get?_insert_self, Option.some.injEq] at h
    exact ⟨rfl, h.symm⟩
  · simp [SlotMap.get?_insert_of_ne _ _ hs] at h

/-- A property of what reaches the slots that the loss reaches: handing on and adding keep it. -/
theorem sensitivities_forall {known : Known S} {loss : Nat} {Q : Nat → Tensor S → Prop}
    (hstart : Q loss (.full (known.value loss).shape 1))
    (hadd : ∀ {s t u}, Q s t → Q s u → Q s (t.add u))
    (hstep : ∀ {s n t}, g.Reaches loss s → g.nodes[s]? = some n → Q s t →
      ∀ c ∈ n.op.pullback known s t, Q c.1 c.2) {s : Nat} {t : Tensor S}
    (h : (g.sensitivities known loss).get? s = some t) : g.Reaches loss s ∧ Q s t := by
  -- along with the property, the sweep keeps to the slots that the loss reaches
  refine sweep_forall (Q := fun s t => g.Reaches loss s ∧ Q s t) ?_ ?_ ?_ h
  · exact fun ht hu => ⟨ht.1, hadd ht.2 hu.2⟩
  · intro s n t hn ht c hc
    exact ⟨within_of_mem_pullback (fun hs ho => .tail hs ho) hn ht.1 c hc,
      hstep ht.1 hn ht.2 c hc⟩
  · intro s t ht
    obtain ⟨rfl, rfl⟩ := eq_of_start ht
    exact ⟨.refl, hstart⟩

/-- Derivatives are by slots that the loss reaches. -/
theorem reaches_of_sensitivity {known : Known S} {loss s : Nat} {t : Tensor S}
    (h : (g.sensitivities known loss).get? s = some t) : g.Reaches loss s :=
  (sensitivities_forall (Q := fun _ _ => True) trivial (fun _ _ => trivial)
    (fun _ _ _ _ _ => trivial) h).1

/-- The derivatives of a loss depend on what is known of the slots that it reaches. -/
theorem sensitivities_congr {known known' : Known S} {loss : Nat}
    (hvalue : ∀ s, g.Reaches loss s → known.value s = known'.value s)
    (hnoise : ∀ s, g.Reaches loss s → known.noise s = known'.noise s) :
    g.sensitivities known loss = g.sensitivities known' loss := by
  rw [sensitivities, sensitivities, hvalue loss .refl]
  exact sweep_congr (P := g.Reaches loss) (fun hs ho => hs.tail ho) hvalue hnoise
    fun ht => (eq_of_start ht).1 ▸ .refl

end Graph
end TensorGraph
