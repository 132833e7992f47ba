import Mathlib.Data.List.Nodup
import Mathlib.Logic.Relation
import TensorGraph.Proofs.Graph.Typing

/-!
# The order in which evaluations finish

A plain recursive evaluation of a slot evaluates the operands from left to right, each of them anew,
and then finishes the slot itself. The schedule of some targets is the order in which such a
recursion first finishes every slot: a slot that is needed again has been finished before.

## Main definitions

* `Graph.Reaches`: the slots that evaluating a slot needs.
* `Graph.trail`: the slots that plain recursion finishes, in order and with repetition.
* `Graph.Finished`: lists in which every slot stands once and in front of its operands.

## Main results

* `Graph.Typed.schedule_eq`: the schedule is the trail of the targets without repetitions.
* `Graph.Typed.finished_schedule`: read from its end, the schedule lists every slot once and in
  front of its operands.
* `Graph.Typed.mem_schedule_iff`: the schedule lists the slots that the targets reach.
-/

namespace TensorGraph

/-! ## Lists without repetitions -/

section EraseDups

variable {α : Type} [BEq α] [LawfulBEq α]

/-- Erasing repetitions leaves none. -/
theorem nodup_eraseDups (l : List α) : l.eraseDups.Nodup := by
  -- erasing recurs on the tail without the head, which is no longer than the tail
  induction h : l.length using Nat.strongRecOn generalizing l with
  | ind n ih =>
    cases l with
    | nil => simp
    | cons a l =>
      rw [List.eraseDups_cons, List.nodup_cons]
      refine ⟨by simp [List.mem_eraseDups], ih _ ?_ _ rfl⟩
      have := List.length_filter_le (fun b => !b == a) l
      simp only [List.length_cons] at h
      omega

/-- A list without repetitions is left as it is. -/
theorem eraseDups_of_nodup {l : List α} (h : l.Nodup) : l.eraseDups = l := by
  induction l with
  | nil => rfl
  | cons a l ih =>
    obtain ⟨ha, hl⟩ := List.nodup_cons.1 h
    have hfilter : l.filter (fun b => !b == a) = l := by
      refine List.filter_eq_self.2 fun b hb => ?_
      have hne : b ≠ a := fun hba => ha (hba ▸ hb)
      simpa using hne
    rw [List.eraseDups_cons, hfilter, ih hl]

/-- Elements that have been listed before add nothing. -/
theorem eraseDups_append_of_subset {xs ys : List α} (hxs : xs.Nodup) (h : ys ⊆ xs) :
    (xs ++ ys).eraseDups = xs := by
  have hnil : ys.removeAll xs = [] := by
    refine List.filter_eq_nil_iff.2 fun y hy => ?_
    simpa using h hy
  rw [List.eraseDups_append, hnil, List.eraseDups_nil, List.append_nil, eraseDups_of_nodup hxs]

/-- A new element stays at the end. -/
theorem eraseDups_append_singleton {xs : List α} {y : α} (h : y ∉ xs) :
    (xs ++ [y]).eraseDups = xs.eraseDups ++ [y] := by
  have hkeep : [y].removeAll xs = [y] := by
    refine List.filter_eq_self.2 fun z hz => ?_
    rw [List.mem_singleton.1 hz]
    simpa using h
  rw [List.eraseDups_append, hkeep, eraseDups_of_nodup (List.nodup_singleton y)]

/-- Repetitions in the first part may be erased beforehand. -/
theorem eraseDups_eraseDups_append (xs ys : List α) :
    (xs.eraseDups ++ ys).eraseDups = (xs ++ ys).eraseDups := by
  have hremove : ys.removeAll xs.eraseDups = ys.removeAll xs := by
    refine List.filter_congr fun y _ => ?_
    have hiff : y ∈ xs.eraseDups ↔ y ∈ xs := List.mem_eraseDups
    simp only [List.elem_eq_contains, List.contains_eq_mem, hiff]
  rw [List.eraseDups_append, List.eraseDups_append, hremove,
    eraseDups_of_nodup (nodup_eraseDups xs)]

end EraseDups

namespace Graph

/-- Evaluating the first slot needs the second one. -/
def Reaches (g : Graph) : Nat → Nat → Prop := Relation.ReflTransGen fun a b => b ∈ g.operands a

/-- The slots that a plain recursive evaluation of a slot finishes, in the order in which it
finishes them and with repetition. It descends at most `depth` levels. -/
def trail (g : Graph) : Nat → Nat → List Nat
  | 0, _ => []
  | depth + 1, slot => (g.operands slot).flatMap (trail g depth) ++ [slot]

/-- Lists in which every slot stands once and in front of its operands. -/
inductive Finished (g : Graph) : List Nat → Prop
  | nil : Finished g []
  | cons {slot : Nat} {listed : List Nat} (rest : Finished g listed) (inside : slot < g.size)
      (fresh : slot ∉ listed) (operands : g.operands slot ⊆ listed) : Finished g (slot :: listed)

namespace Finished

variable {g : Graph} {listed : List Nat}

theorem nodup (h : g.Finished listed) : listed.Nodup := by
  induction h with
  | nil => exact List.nodup_nil
  | cons _ _ fresh _ ih => exact List.nodup_cons.2 ⟨fresh, ih⟩

theorem lt_size (h : g.Finished listed) {s : Nat} (hs : s ∈ listed) : s < g.size := by
  induction h with
  | nil => cases hs
  | cons _ inside _ _ ih =>
    rcases List.mem_cons.1 hs with rfl | hs
    · exact inside
    · exact ih hs

/-- The operands of a listed slot are listed. -/
theorem operands_subset (h : g.Finished listed) {s : Nat} (hs : s ∈ listed) :
    g.operands s ⊆ listed := by
  induction h with
  | nil => cases hs
  | cons rest _ _ operands ih =>
    rcases List.mem_cons.1 hs with rfl | hs
    · exact List.subset_cons_of_subset _ operands
    · exact List.subset_cons_of_subset _ (ih hs)

/-- Whatever a listed slot reaches is listed. -/
theorem mem_of_reaches (h : g.Finished listed) {s t : Nat} (hs : s ∈ listed)
    (hst : g.Reaches s t) : t ∈ listed := by
  induction hst with
  | refl => exact hs
  | tail _ hstep ih => exact h.operands_subset ih hstep

/-- The trail of a listed slot is listed. -/
theorem trail_subset (h : g.Finished listed) {s : Nat} (hs : s ∈ listed) (depth : Nat) :
    g.trail depth s ⊆ listed := by
  induction depth generalizing s with
  | zero => simp [trail]
  | succ depth ih =>
    intro t ht
    simp only [trail, List.mem_append, List.mem_flatMap, List.mem_singleton] at ht
    rcases ht with ⟨o, ho, ht⟩ | rfl
    · exact ih (h.operands_subset hs ho) ht
    · exact hs

end Finished

/-! ## Plain recursion -/

/-- Plain recursion from a slot finishes only slots that it reaches. -/
theorem reaches_of_mem_trail {g : Graph} {depth slot s : Nat} (h : s ∈ g.trail depth slot) :
    g.Reaches slot s := by
  induction depth generalizing slot with
  | zero => cases h
  | succ depth ih =>
    simp only [trail, List.mem_append, List.mem_flatMap, List.mem_singleton] at h
    rcases h with ⟨o, ho, hs⟩ | rfl
    · exact .head ho (ih hs)
    · exact .refl

namespace Typed

variable {g : Graph}

/-- A slot reaches itself and earlier slots. -/
theorem le_of_reaches (hg : g.Typed) {a b : Nat} (h : g.Reaches a b) : b ≤ a := by
  induction h with
  | refl => exact Nat.le_refl _
  | tail _ hstep ih => exact Nat.le_trans (Nat.le_of_lt (hg.lt_of_mem_operands hstep)) ih

/-- Deep enough recursion finishes every slot that it reaches. -/
theorem mem_trail_of_reaches (hg : g.Typed) {depth slot s : Nat} (hdepth : slot < depth)
    (h : g.Reaches slot s) : s ∈ g.trail depth slot := by
  induction depth generalizing slot with
  | zero => omega
  | succ depth ih =>
    simp only [trail, List.mem_append, List.mem_flatMap, List.mem_singleton]
    rcases Relation.ReflTransGen.cases_head h with rfl | ⟨o, ho, hos⟩
    · exact .inr rfl
    · -- the first step goes to an earlier slot, for which one level less is enough
      have := hg.lt_of_mem_operands ho
      exact .inl ⟨o, ho, ih (by omega) hos⟩

/-- Visiting some slots one after the other appends what their recursion finishes first, provided
that visiting one slot does. -/
private theorem foldl_visit (depth : Nat) {slots : List Nat}
    (hvisit : ∀ {listed : List Nat} {slot : Nat}, slot ∈ slots → g.Finished listed →
      g.Finished (g.visit depth listed slot) ∧
        (g.visit depth listed slot).reverse = (listed.reverse ++ g.trail depth slot).eraseDups)
    {listed : List Nat} (h : g.Finished listed) :
    g.Finished (slots.foldl (g.visit depth) listed) ∧
      (slots.foldl (g.visit depth) listed).reverse =
        (listed.reverse ++ slots.flatMap (g.trail depth)).eraseDups := by
  induction slots generalizing listed with
  | nil =>
    refine ⟨h, ?_⟩
    have hnodup : listed.reverse.Nodup := List.nodup_reverse.2 h.nodup
    simp [eraseDups_of_nodup hnodup]
  | cons slot slots ih =>
    -- duplicates may be erased before the rest is appended or afterwards
    obtain ⟨hfinished, heq⟩ := hvisit List.mem_cons_self h
    obtain ⟨hfold, hfoldEq⟩ := ih (fun hs => hvisit (List.mem_cons_of_mem _ hs)) hfinished
    refine ⟨hfold, ?_⟩
    rw [List.foldl_cons, hfoldEq, heq, eraseDups_eraseDups_append, List.flatMap_cons,
      List.append_assoc]

/-- Visiting a slot appends what its recursion finishes first. -/
theorem visit_spec (hg : g.Typed) {depth slot : Nat} {listed : List Nat} (hdepth : slot < depth)
    (hslot : slot < g.size) (h : g.Finished listed) :
    g.Finished (g.visit depth listed slot) ∧
      (g.visit depth listed slot).reverse = (listed.reverse ++ g.trail depth slot).eraseDups := by
  induction depth generalizing slot listed with
  | zero => omega
  | succ depth ih =>
    rw [visit]
    split
    · -- a slot that has been finished before adds nothing
      next hmem =>
      refine ⟨h, (eraseDups_append_of_subset (List.nodup_reverse.2 h.nodup) ?_).symm⟩
      exact fun s hs => List.mem_reverse.2 (h.trail_subset hmem (depth + 1) hs)
    · -- the operands are visited first; none of them can finish the slot itself
      next hmem =>
      have hoperands : ∀ {listed : List Nat} {o : Nat}, o ∈ g.operands slot → g.Finished listed →
          g.Finished (g.visit depth listed o) ∧
            (g.visit depth listed o).reverse = (listed.reverse ++ g.trail depth o).eraseDups := by
        intro listed o ho hlisted
        have := hg.lt_of_mem_operands ho
        exact ih (by omega) (by omega) hlisted
      obtain ⟨hfold, hfoldEq⟩ := foldl_visit depth hoperands h
      -- what the operands need are earlier slots
      have hearlier : ∀ s ∈ (g.operands slot).flatMap (g.trail depth), s < slot := by
        intro s hs
        obtain ⟨o, ho, hs⟩ := List.mem_flatMap.1 hs
        exact Nat.lt_of_le_of_lt (hg.le_of_reaches (reaches_of_mem_trail hs))
          (hg.lt_of_mem_operands ho)
      have hfresh : slot ∉ listed.reverse ++ (g.operands slot).flatMap (g.trail depth) := by
        simp only [List.mem_append, List.mem_reverse, not_or]
        exact ⟨hmem, fun hs => Nat.lt_irrefl _ (hearlier slot hs)⟩
      have hmemFold : ∀ {s : Nat}, s ∈ (g.operands slot).foldl (g.visit depth) listed ↔
          s ∈ listed.reverse ++ (g.operands slot).flatMap (g.trail depth) := by
        intro s
        rw [← List.mem_reverse, hfoldEq, List.mem_eraseDups]
      refine ⟨.cons hfold hslot (fun hs => hfresh (hmemFold.1 hs)) fun o ho => ?_, ?_⟩
      · have hlt := hg.lt_of_mem_operands ho
        refine hmemFold.2 (List.mem_append_right _ (List.mem_flatMap.2 ⟨o, ho, ?_⟩))
        exact hg.mem_trail_of_reaches (by omega) .refl
      · rw [List.reverse_cons, hfoldEq, trail, ← List.append_assoc,
          eraseDups_append_singleton hfresh]

end Typed

/-- The slots that plain recursion finishes from some targets, evaluated one after the other. -/
def trailOf (g : Graph) (targets : List Nat) : List Nat :=
  targets.flatMap fun slot => g.trail (slot + 1) slot

namespace Typed

variable {g : Graph} {targets : List Nat}

private theorem foldl_schedule (hg : g.Typed) (htargets : ∀ t ∈ targets, t < g.size) :
    g.Finished (g.schedule targets).reverse ∧
      g.schedule targets = (g.trailOf targets).eraseDups := by
  -- the induction needs the schedule to go on from any list of finished slots
  suffices h : ∀ listed : List Nat, g.Finished listed →
      g.Finished (targets.foldl (fun listed slot => g.visit (slot + 1) listed slot) listed) ∧
      (targets.foldl (fun listed slot => g.visit (slot + 1) listed slot) listed).reverse =
        (listed.reverse ++ g.trailOf targets).eraseDups by
    have hnil := h [] .nil
    rw [schedule, List.reverse_reverse]
    simpa using hnil
  induction targets with
  | nil =>
    intro listed h
    have hnodup : listed.reverse.Nodup := List.nodup_reverse.2 h.nodup
    simp [trailOf, eraseDups_of_nodup hnodup, h]
  | cons t targets ih =>
    intro listed h
    obtain ⟨ht, htargets⟩ := List.forall_mem_cons.1 htargets
    obtain ⟨hfinished, heq⟩ := hg.visit_spec (Nat.lt_succ_self t) ht h
    obtain ⟨hfold, hfoldEq⟩ := ih htargets _ hfinished
    refine ⟨hfold, ?_⟩
    rw [List.foldl_cons, hfoldEq, heq, eraseDups_eraseDups_append, List.append_assoc]
    rfl

/-- Read from its end, a schedule lists every slot once and in front of its operands. -/
theorem finished_schedule (hg : g.Typed) (htargets : ∀ t ∈ targets, t < g.size) :
    g.Finished (g.schedule targets).reverse :=
  (hg.foldl_schedule htargets).1

/-- The schedule is the order in which plain recursion first finishes every slot. -/
theorem schedule_eq (hg : g.Typed) (htargets : ∀ t ∈ targets, t < g.size) :
    g.schedule targets = (g.trailOf targets).eraseDups :=
  (hg.foldl_schedule htargets).2

/-- The schedule lists the slots that the targets reach. -/
theorem mem_schedule_iff (hg : g.Typed) (htargets : ∀ t ∈ targets, t < g.size) {s : Nat} :
    s ∈ g.schedule targets ↔ ∃ t ∈ targets, g.Reaches t s := by
  rw [hg.schedule_eq htargets, List.mem_eraseDups, trailOf, List.mem_flatMap]
  constructor
  · rintro ⟨t, ht, hs⟩
    exact ⟨t, ht, reaches_of_mem_trail hs⟩
  · rintro ⟨t, ht, hs⟩
    exact ⟨t, ht, hg.mem_trail_of_reaches (Nat.lt_succ_self t) hs⟩

theorem mem_schedule_singleton_iff (hg : g.Typed) {slot s : Nat} (hslot : slot < g.size) :
    s ∈ g.schedule [slot] ↔ g.Reaches slot s := by
  rw [hg.mem_schedule_iff (List.forall_mem_singleton.2 hslot)]
  simp only [List.mem_singleton, exists_eq_left]

end Typed
end Graph
end TensorGraph
