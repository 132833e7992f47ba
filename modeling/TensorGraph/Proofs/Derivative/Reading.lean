import Mathlib.Analysis.Complex.Trigonometric
import Mathlib.Analysis.SpecialFunctions.Log.Basic
import TensorGraph.Proofs.Derivative.Runs
import TensorGraph.Proofs.Evaluation.Conforming

/-!
# Exact readings

What a run in single precision reads can be read as exact numbers: every variable and everything fed
stays as it is, and no operation rounds. The real numbers have all functions that evaluating graphs
needs; where only polynomials are evaluated, the rationals give the same values and can be computed
with.

## Main definitions

* `Setting.exactly`: the exact reading of what a run reads.
* `Setting.evaluated?`: the value of a slot in an evaluation.

## Main results

* `Setting.conforms_exactly` and `Setting.conforms_move`: a reading, and moving a variable of it,
  keep all shapes.
* `Setting.under_exactly`: the real reading is the rational one.
* `Setting.total_exactly`: the real value of a polynomial is the rational one.
-/

open DualNumber

namespace TensorGraph

/-- The real numbers with their functions. -/
noncomputable instance : Elementary ℝ where
  exp := Real.exp
  log := Real.log
  tanh := Real.tanh
  ofSingle x := (Elementary.ofSingle x : ℚ)

/-- Rationals are real numbers. -/
theorem Scalar.hom_ratCast : Hom ((↑) : ℚ → ℝ) where
  zero := Rat.cast_zero
  add := Rat.cast_add
  sub := Rat.cast_sub
  mul := Rat.cast_mul
  div := Rat.cast_div
  neg := Rat.cast_neg
  ofSingle _ := rfl
  ofInt := Rat.cast_intCast

namespace Setting

variable {K : Type} [Elementary K]

/-- What a run in single precision reads, as exact numbers. -/
def exactly (K : Type) [Elementary K] (env : Setting Float32) : Setting K where
  graph := env.graph
  store := env.store.mapSlots fun _ t => t.under Elementary.ofSingle
  feeds := env.feeds.mapSlots fun _ t => t.under Elementary.ofSingle
  phase := env.phase
  entropy := env.entropy

theorem conforms_exactly (env : Setting Float32) : env.Conforms (env.exactly K) where
  graph := rfl
  feeds slot := by
    rw [exactly, SlotMap.get?_mapSlots, Option.map_map]
    rfl
  store slot := by
    rw [exactly, SlotMap.get?_mapSlots, Option.map_map]
    rfl

theorem conforms_move [Field K] [LinearOrder K] (env : Setting K) (target : Nat) (d : Tensor K) :
    env.Conforms (env.move target d) where
  graph := rfl
  feeds slot := by
    rw [move, SlotMap.get?_mapSlots, Option.map_map]
    rfl
  store slot := by
    rw [move, SlotMap.get?_mapSlots, Option.map_map]
    refine congrArg (Option.map · (env.store.get? slot)) (funext fun t => ?_)
    -- the variable that moves keeps its shape, too
    dsimp only [Function.comp_apply]
    split <;> rfl

/-- The real reading is the rational one. -/
theorem under_exactly (env : Setting Float32) :
    Under ((↑) : ℚ → ℝ) (env.exactly ℚ) (env.exactly ℝ) where
  graph := rfl
  feeds slot := by
    simp only [exactly, SlotMap.get?_mapSlots, Option.map_map, Function.comp_def,
      Tensor.under_under]
    rfl
  store slot := by
    simp only [exactly, SlotMap.get?_mapSlots, Option.map_map, Function.comp_def,
      Tensor.under_under]
    rfl

/-! ## Computing with rationals -/

section Evaluated

variable {S : Type} [Scalar S] {env : Setting S} {asked : List Nat} {streams : SlotMap Stream}
  {ev : Evaluation S}

/-- The value of a slot in an evaluation that gives a result. -/
def evaluated? (env : Setting S) (asked : List Nat) (streams : SlotMap Stream) (slot : Nat) :
    Option (Tensor S) :=
  match env.evaluate asked (.start streams) with
  | .ok _ ev => ev.values.get? slot
  | .error _ _ => none

theorem evaluated?_eq (h : env.evaluate asked (.start streams) = .ok () ev) (slot : Nat) :
    env.evaluated? asked streams slot = ev.values.get? slot := by
  rw [evaluated?, h]

end Evaluated

/-- Where only polynomials are evaluated, a sum of real entries is that of the rational entries. -/
theorem total_exactly {env : Setting Float32} {ev : Evaluation ℝ} {listed : List Nat}
    (hg : env.graph.Typed) (hsettled : Settled (env.exactly ℝ) listed ev)
    (hlisted : env.graph.Finished listed) {slot : Nat} (hslot : slot ∈ listed)
    (hop : ∀ s ∈ env.graph.schedule [slot], (env.graph.nodes[s]?).all (·.op.isPolynomial)) {x : ℚ}
    (hx : ((env.exactly ℚ).evaluated? [slot] .empty slot).map (·.total) = some x) :
    (ev.known.value slot).total = x := by
  -- the schedule of the slot lists exactly what it reaches
  have hpolynomial : ∀ s n, env.graph.Reaches slot s → env.graph.nodes[s]? = some n →
      n.op.isPolynomial := by
    intro s n hreaches hn
    have hs := hop s ((hg.mem_schedule_singleton_iff (hlisted.lt_size hslot)).2 hreaches)
    rwa [hn] at hs
  -- embedding the rationals takes their evaluation to the one over the reals
  obtain ⟨e, he, hunder⟩ := exists_evaluate_under Scalar.hom_ratCast (under_exactly env) hg hsettled
    hlisted hslot hpolynomial .empty
  rw [evaluated?_eq he] at hx
  obtain ⟨t, ht, rfl⟩ := Option.map_eq_some_iff.1 hx
  rw [← hunder slot .refl, Evaluation.known_value_eq ht, Tensor.under_total Scalar.hom_ratCast]

end Setting
end TensorGraph
