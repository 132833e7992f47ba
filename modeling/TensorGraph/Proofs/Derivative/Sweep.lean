import TensorGraph.Proofs.Derivative.Pairing
import TensorGraph.Proofs.Evaluation.Locality

/-!
# Sweeps and slopes

While a sweep hands sensitivities on, the sum of what has reached the slots below its bound, paired
with the slopes of their values, stays what it was at the start, since handing on is adjoint to
moving slopes forward. Only the variable that moves keeps what reaches it. So in the end the pairing
of its sensitivity with its slope is the slope of the summed loss.

## Main definitions

* `Graph.pairAt`: what has reached a slot, paired with the slope of its value.
* `Graph.Moving`: the slots that a loss reaches, with slopes that only one of them starts.

## Main results

* `Graph.sum_pairAt_foldl_receive`: what receiving contributions adds.
* `Graph.Moving.sum_pairAt`: the invariant of a sweep.
* `Graph.Moving.total_slope`: the slope of the summed loss.
-/

open Finset

namespace TensorGraph.Graph

variable {K : Type} [Field K] [LinearOrder K] [Elementary K]

/-- What has reached a slot, paired with the slope of its value. -/
def pairAt (slope : Nat → Tensor K) (reached : SlotMap (Tensor K)) (s : Nat) : K :=
  match reached.get? s with
  | some t => t.pair (slope s)
  | none => 0

variable {slope : Nat → Tensor K} {shape : Nat → Shape} {reached : SlotMap (Tensor K)} {s : Nat}

theorem pairAt_eq {t : Tensor K} (h : reached.get? s = some t) :
    pairAt slope reached s = t.pair (slope s) := by
  simp only [pairAt, h]

theorem pairAt_eq_zero (h : reached.get? s = none) : pairAt slope reached s = 0 := by
  simp only [pairAt, h]

/-- Receiving a contribution adds its pairing at its slot. -/
theorem pairAt_receive {c : Nat × Tensor K}
    (hshape : ∀ t, reached.get? c.1 = some t → t.shape = c.2.shape) (s : Nat) :
    pairAt slope (receive reached c) s =
      pairAt slope reached s + if s = c.1 then c.2.pair (slope c.1) else 0 := by
  have hget := get?_receive reached c s
  by_cases hs : s = c.1
  · subst hs
    rw [if_pos rfl] at hget
    rw [pairAt_eq hget, if_pos rfl]
    -- what reaches a slot first is kept as it is, and what follows is added to it
    cases hold : reached.get? c.1 with
    | none => rw [pairAt_eq_zero hold, zero_add]; rfl
    | some t => rw [pairAt_eq hold, ← Tensor.pair_add (hshape t hold)]; rfl
  · rw [if_neg hs] at hget
    rw [if_neg hs, add_zero, pairAt, hget, ← pairAt]

/-- What receiving contributions below a bound adds to the sum below the bound. -/
theorem sum_pairAt_foldl_receive {bound : Nat} {cs : List (Nat × Tensor K)}
    (hcs : ∀ c ∈ cs, c.1 < bound ∧ c.2.shape = shape c.1)
    (hreached : ∀ {s t}, reached.get? s = some t → t.shape = shape s) :
    ∑ s ∈ range bound, pairAt slope (cs.foldl receive reached) s =
      ∑ s ∈ range bound, pairAt slope reached s + (cs.map fun c => c.2.pair (slope c.1)).sum := by
  -- one contribution after the other, all of them to slots below the bound
  induction cs generalizing reached with
  | nil => simp
  | cons c cs ih =>
    obtain ⟨⟨hlt, hshape⟩, hcs⟩ := List.forall_mem_cons.1 hcs
    have hfirst : ∀ d ∈ [c], d.2.shape = shape d.1 := List.forall_mem_singleton.2 hshape
    have hkept : ∀ {s t}, (receive reached c).get? s = some t → t.shape = shape s :=
      forall_foldl_receive (Q := fun s t => t.shape = shape s) (fun ht _ => ht) hfirst hreached
    have hone : ∀ s, pairAt slope (receive reached c) s = _ :=
      pairAt_receive fun t ht => (hreached ht).trans hshape.symm
    rw [List.foldl_cons, ih hcs hkept, List.map_cons, List.sum_cons, ← add_assoc]
    simp only [hone, sum_add_distrib, sum_ite_eq', mem_range, hlt, if_true]

/-- Slots without contributions keep what has reached them. -/
theorem get?_foldl_receive_of_ne {cs : List (Nat × Tensor K)} (h : ∀ c ∈ cs, s ≠ c.1) :
    (cs.foldl receive reached).get? s = reached.get? s := by
  induction cs generalizing reached with
  | nil => rfl
  | cons c cs ih =>
    obtain ⟨hc, hcs⟩ := List.forall_mem_cons.1 h
    rw [List.foldl_cons, ih hcs, get?_receive, if_neg hc]

variable {g : Graph} {known : Known K}

/-- A node hands on to earlier slots. -/
theorem Typed.lt_of_mem_pullback (hg : g.Typed) {n : GraphNode} (hn : g.nodes[s]? = some n)
    {t : Tensor K} {c : Nat × Tensor K} (hc : c ∈ n.op.pullback known s t) : c.1 < s := by
  refine hg.lt_of_mem_operands ?_
  rw [operands_eq hn]
  exact Op.mem_operands_of_mem_pullback hc

/-- A sweep leaves what has reached the slots from its bound on. -/
theorem get?_sweep_of_le (hg : g.Typed) {bound : Nat} (hs : bound ≤ s) :
    (g.sweep known bound reached).get? s = reached.get? s := by
  -- operands have smaller numbers, so nothing is handed up to the bound again
  induction bound generalizing reached with
  | zero => rfl
  | succ slot ih =>
    rw [sweep]
    split
    · next t n ht hn =>
      rw [ih (by omega)]
      refine get?_foldl_receive_of_ne fun c hc => ?_
      have hlt := hg.lt_of_mem_pullback hn hc
      omega
    · exact ih (by omega)

/-- The slots that a loss reaches, with slopes of their values. A slope at the target is its own;
all other slots that hand on do so adjointly to how their slopes come about. -/
structure Moving (g : Graph) (known : Known K) (slope : Nat → Tensor K) (loss target : Nat) :
    Prop where
  /-- There is a node in every slot. -/
  node : ∀ {s : Nat}, g.Reaches loss s → ∃ n, g.nodes[s]? = some n
  /-- What is handed on has the shapes of the values. -/
  shape : ∀ {s : Nat} {n : GraphNode} {t : Tensor K}, g.Reaches loss s → g.nodes[s]? = some n →
    t.shape = (known.value s).shape →
    ∀ c ∈ n.op.pullback known s t, c.2.shape = (known.value c.1).shape
  /-- Handing on is adjoint to moving forward. -/
  adjoint : ∀ {s : Nat} {n : GraphNode} {t : Tensor K}, g.Reaches loss s → g.nodes[s]? = some n →
    s ≠ target → t.shape = (known.value s).shape →
    ((n.op.pullback known s t).map fun c => c.2.pair (slope c.1)).sum = t.pair (slope s)
  /-- The target hands nothing on. -/
  target : ∀ {n : GraphNode} (t : Tensor K), g.nodes[target]? = some n →
    n.op.pullback known target t = []

namespace Moving

variable {loss target : Nat}

/-- The sum below the bound of a sweep is what ends up at the target. -/
theorem sum_pairAt (hg : g.Typed) (h : g.Moving known slope loss target) {bound : Nat}
    (hreached : ∀ {s t}, reached.get? s = some t →
      g.Reaches loss s ∧ t.shape = (known.value s).shape) :
    ∑ s ∈ range bound, pairAt slope reached s =
      if target < bound then pairAt slope (g.sweep known bound reached) target else 0 := by
  induction bound generalizing reached with
  | zero => rfl
  | succ slot ih =>
    rw [sum_range_succ, sweep]
    cases ht : reached.get? slot with
    | none =>
      rw [pairAt_eq_zero ht, add_zero, ih hreached]
      -- the bound only excludes a target that nothing has reached
      by_cases htarget : slot = target
      · subst htarget
        rw [if_neg (lt_irrefl _), if_pos (Nat.lt_succ_self _)]
        exact (pairAt_eq_zero (by rwa [get?_sweep_of_le hg le_rfl])).symm
      · exact if_congr (by omega) rfl rfl
    | some t =>
      obtain ⟨hreaches, hshape⟩ := hreached ht
      obtain ⟨n, hn⟩ := h.node hreaches
      have hoperand : ∀ c ∈ n.op.pullback known slot t, g.Reaches loss c.1 := fun c hc =>
        hreaches.operand hn (Op.mem_operands_of_mem_pullback hc)
      have hcs : ∀ c ∈ n.op.pullback known slot t,
          c.1 < slot ∧ c.2.shape = (known.value c.1).shape := fun c hc =>
        ⟨hg.lt_of_mem_pullback hn hc, h.shape hreaches hn hshape c hc⟩
      have hkept : ∀ {s u}, ((n.op.pullback known slot t).foldl receive reached).get? s = some u →
          g.Reaches loss s ∧ u.shape = (known.value s).shape :=
        forall_foldl_receive (Q := fun s u => g.Reaches loss s ∧ u.shape = (known.value s).shape)
          (fun hu _ => hu) (fun c hc => ⟨hoperand c hc, (hcs c hc).2⟩) hreached
      have hsum : ∑ s ∈ range slot, pairAt slope _ s = _ :=
        sum_pairAt_foldl_receive hcs fun hu => (hreached hu).2
      simp only [hn]
      by_cases htarget : slot = target
      · -- the target keeps what has reached it, and hands nothing on
        subst htarget
        have hnone := h.target t hn
        rw [hnone, List.foldl_nil, ih hreached, if_neg (lt_irrefl _), zero_add,
          if_pos (Nat.lt_succ_self _)]
        rw [pairAt, pairAt, get?_sweep_of_le hg le_rfl]
      · -- what stood at the slot is now spread over its operands, which are below it
        rw [pairAt_eq ht, ← h.adjoint hreaches hn htarget hshape, ← hsum, ih hkept]
        exact if_congr (by omega) rfl rfl

/-- The slope of the summed loss is the sensitivity of the target, paired with its slope. -/
theorem total_slope (hg : g.Typed) (h : g.Moving known slope loss target)
    (hshape : (slope loss).shape = (known.value loss).shape) :
    (slope loss).total = pairAt slope (g.sensitivities known loss) target := by
  let start : SlotMap (Tensor K) := SlotMap.empty.insert loss (.full (known.value loss).shape 1)
  have hstart : ∀ {s t}, start.get? s = some t →
      g.Reaches loss s ∧ t.shape = (known.value s).shape := by
    intro s t ht
    obtain ⟨rfl, rfl⟩ := eq_of_start ht
    exact ⟨.refl, rfl⟩
  -- paired with ones, the slope of the loss is summed
  have hones : (slope loss).total = pairAt slope start loss := by
    rw [pairAt_eq (SlotMap.get?_insert_self _ _ _), Tensor.total_eq_sum, hshape]
    refine Shape.sum_congr fun i j hi hj => ?_
    rw [Tensor.entry_full hi hj]
    exact (one_mul _).symm
  have hsum : ∑ s ∈ range (loss + 1), pairAt slope start s = pairAt slope start loss := by
    refine sum_eq_single_of_mem loss (self_mem_range_succ loss) fun s _ hs => pairAt_eq_zero ?_
    rw [SlotMap.get?_insert_of_ne _ _ hs, SlotMap.get?_empty]
  rw [hones, ← hsum, h.sum_pairAt hg hstart]
  -- a target beyond the loss is not reached, and the loss does not move with it
  by_cases htarget : target < loss + 1
  · rw [if_pos htarget]
    rfl
  · rw [if_neg htarget, eq_comm]
    refine pairAt_eq_zero ?_
    rw [sensitivities, get?_sweep_of_le hg (by omega), SlotMap.get?_insert_of_ne _ _ (by omega),
      SlotMap.get?_empty]

end Moving
end TensorGraph.Graph
