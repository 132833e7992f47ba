import TensorGraph.Proofs.Shape.Covering

/-!
# Stretching several shapes

Shapes are ordered by stretching: a size of one and a missing axis lie below every size, and, among
declared sizes, an open axis lies above one and below every other size. Shapes need not have a
common one, but whether several do, and which one it is, does not depend on the order in which they
are stretched to each other.

## Main definitions

* `Joins`: partial operations that do not depend on the order of their operands.
* `Joins.Bounded`: operations for which elements below a common one are joined.
* `Shape.broadcastAll` and `DeclaredShape.broadcastAll`: the common shape of several shapes.

## Main results

* `Joins.foldlM_perm`: joining the elements of a list in any order.
* `Joins.exists_foldlM_iff`: elements are joined when there is one that all of them lie below.
* `Joins.combineAligned`: joining lists axis by axis.
* `Shape.joins_broadcast` and `DeclaredShape.joins_broadcast`: stretching.
-/

namespace TensorGraph

/-- A partial operation that does not depend on the order of its operands, nor, with two of them
joined to a third one after the other, on which one comes first. -/
structure Joins {α : Type} (join : α → α → Option α) : Prop where
  comm : ∀ x y, join x y = join y x
  swap : ∀ x y z, (join x y).bind (join · z) = (join x z).bind (join · y)

namespace Joins

variable {α : Type} {join : α → α → Option α}

/-- The elements of a list may be joined in any order. -/
theorem foldlM_perm (h : Joins join) {xs ys : List α} (hperm : xs.Perm ys) (a : α) :
    xs.foldlM join a = ys.foldlM join a := by
  induction hperm generalizing a with
  | nil => rfl
  | cons x _ ih =>
    rw [List.foldlM_cons, List.foldlM_cons]
    exact congrArg _ (funext ih)
  | swap x y xs =>
    -- the two joins that trade places are one computation, which the rest of the list follows
    have hassoc : ∀ x y, (y :: x :: xs).foldlM join a =
        ((join a y).bind (join · x)).bind fun b => xs.foldlM join b := fun x y => by
      rw [Option.bind_assoc]
      rfl
    rw [hassoc, hassoc, h.swap]
  | trans _ _ ih ih' => rw [ih, ih']

theorem combineKeeping_nil (xs : List α) : combineKeeping join xs [] = some xs := by
  cases xs <;> rfl

/-- Joining three lists joins their heads and their tails. -/
theorem combineKeeping_cons_bind (x y z : α) (xs ys zs : List α) :
    (combineKeeping join (x :: xs) (y :: ys)).bind (combineKeeping join · (z :: zs)) =
      ((join x y).bind (join · z)).bind fun head =>
        ((combineKeeping join xs ys).bind (combineKeeping join · zs)).map (head :: ·) := by
  simp only [TensorGraph.combineKeeping]
  -- either side fails as soon as a join of heads or of tails fails
  cases join x y with
  | none => rfl
  | some head =>
    cases combineKeeping join xs ys with
    | none => cases h : join head z <;> simp [h]
    | some tail =>
      simp only [Option.bind_eq_bind, Option.bind_some, Option.pure_def, TensorGraph.combineKeeping]
      cases join head z with
      | none => rfl
      | some last => simp only [Option.bind_some, Option.map_eq_bind, Function.comp_def]

/-- Combining lists does not depend on their order if joining does not. -/
theorem combineKeeping_comm (h : Joins join) (xs ys : List α) :
    combineKeeping join xs ys = combineKeeping join ys xs := by
  induction xs generalizing ys with
  | nil => exact (combineKeeping_nil ys).symm
  | cons x xs ih =>
    cases ys with
    | nil => rfl
    | cons y ys => simp only [TensorGraph.combineKeeping, h.comm x y, ih ys]

/-- The second and the third of three lists can be exchanged if elements can. -/
theorem combineKeeping_swap (h : Joins join) (xs ys zs : List α) :
    (combineKeeping join xs ys).bind (combineKeeping join · zs) =
      (combineKeeping join xs zs).bind (combineKeeping join · ys) := by
  have hnil : ∀ r : Option (List α), r.bind (combineKeeping join · []) = r := fun r => by
    simp only [combineKeeping_nil, Option.bind_fun_some]
  induction xs generalizing ys zs with
  | nil => exact h.combineKeeping_comm ys zs
  | cons x xs ih =>
    match ys, zs with
    -- a list that has ended joins without effect
    | [], zs => exact (hnil _).symm
    | ys, [] => exact hnil _
    | y :: ys, z :: zs => rw [combineKeeping_cons_bind, combineKeeping_cons_bind, h.swap, ih]

/-- Joining lists element by element from their ends. -/
theorem combineAligned (h : Joins join) : Joins (combineAligned join) where
  comm xs ys := congrArg _ (h.combineKeeping_comm xs.reverse ys.reverse)
  swap xs ys zs := by
    have hbind : ∀ xs ys zs : List α,
        (TensorGraph.combineAligned join xs ys).bind (TensorGraph.combineAligned join · zs) =
          ((combineKeeping join xs.reverse ys.reverse).bind
            (combineKeeping join · zs.reverse)).map List.reverse := fun xs ys zs => by
      simp only [TensorGraph.combineAligned, Option.bind_map, Option.map_bind, Function.comp_def,
        List.reverse_reverse]
    rw [hbind, hbind, h.combineKeeping_swap]

/-! ### Bounds -/

/-- Elements are joined when they have a common bound, which is then one of what they are joined
to. -/
structure Bounded (join : α → α → Option α) : Prop where
  self : ∀ x, join x x = some x
  exists_join : ∀ {x y bound}, join x bound = some bound → join y bound = some bound →
    ∃ z, join x y = some z ∧ join z bound = some bound

/-- What is joined is bounded by what it is joined to. -/
theorem le_join (h : Joins join) (hself : ∀ x, join x x = some x) {x y z : α}
    (hz : join x y = some z) : join x z = some z := by
  have hswap := h.swap x y x
  rw [hz, hself, Option.bind_some, Option.bind_some, hz] at hswap
  rw [h.comm]
  exact hswap

/-- Whatever joins into a second element joins into what that joins into. -/
theorem le_trans (h : Joins join) {x y z : α} (hxy : join x y = some y) (hyz : join y z = some z) :
    join x z = some z := by
  have hswap := h.swap y x z
  rw [h.comm y x, hxy, hyz, Option.bind_some, Option.bind_some, hyz] at hswap
  rw [h.comm]
  exact hswap.symm

/-- The elements of a list are joined when they have a common bound. -/
theorem exists_foldlM_iff (h : Joins join) (hbounded : Bounded join) {xs : List α} {a : α} :
    (∃ r, xs.foldlM join a = some r) ↔
      ∃ bound, join a bound = some bound ∧ ∀ x ∈ xs, join x bound = some bound := by
  constructor
  · -- the result is the bound: it is above the join of the first two, and so above each of them
    rintro ⟨r, hr⟩
    refine ⟨r, ?_⟩
    induction xs generalizing a with
    | nil =>
      cases hr
      exact ⟨hbounded.self _, by simp⟩
    | cons x xs ih =>
      rw [List.foldlM_cons] at hr
      obtain ⟨b, hb, hr⟩ := Option.bind_eq_some_iff.1 hr
      obtain ⟨hbr, hall⟩ := ih hr
      have hx : join x b = some b := h.le_join hbounded.self (h.comm a x ▸ hb)
      exact ⟨h.le_trans (h.le_join hbounded.self hb) hbr,
        List.forall_mem_cons.2 ⟨h.le_trans hx hbr, hall⟩⟩
  · -- every join stays below the bound, so the next one exists as well
    rintro ⟨bound, ha, hall⟩
    induction xs generalizing a with
    | nil => exact ⟨a, rfl⟩
    | cons x xs ih =>
      obtain ⟨hx, hall⟩ := List.forall_mem_cons.1 hall
      obtain ⟨b, hb, hbound⟩ := hbounded.exists_join ha hx
      obtain ⟨r, hr⟩ := ih hbound hall
      rw [List.foldlM_cons, hb]
      exact ⟨r, hr⟩

/-- The heads and the tails of two lists. -/
theorem combineKeeping_cons_eq_some_iff {x y : α} {xs ys zs : List α} :
    combineKeeping join (x :: xs) (y :: ys) = some zs ↔
      ∃ z rest, join x y = some z ∧ combineKeeping join xs ys = some rest ∧ zs = z :: rest := by
  simp only [TensorGraph.combineKeeping]
  cases join x y <;> cases combineKeeping join xs ys <;> simp [eq_comm]

/-- Lists have bounds where their elements have. -/
theorem bounded_combineKeeping (h : Bounded join) : Bounded (combineKeeping join) where
  self xs := by
    induction xs with
    | nil => rfl
    | cons x xs ih => exact combineKeeping_cons_eq_some_iff.2 ⟨x, xs, h.self x, ih, rfl⟩
  exists_join {xs ys bound} hxs hys := by
    induction xs generalizing ys bound with
    | nil => exact ⟨ys, rfl, hys⟩
    | cons x xs ih =>
      match ys, bound with
      -- an axis that only one list has is kept, so it is below the bound already
      | [], bound => exact ⟨x :: xs, rfl, hxs⟩
      | y :: ys, [] => cases hxs
      | y :: ys, b :: bound =>
        obtain ⟨_, _, hx, hxs, heq⟩ := combineKeeping_cons_eq_some_iff.1 hxs
        obtain ⟨_, _, hy, hys, heq'⟩ := combineKeeping_cons_eq_some_iff.1 hys
        cases heq
        cases heq'
        obtain ⟨z, hz, hzb⟩ := h.exists_join hx hy
        obtain ⟨zs, hzs, hzsb⟩ := ih hxs hys
        exact ⟨z :: zs, combineKeeping_cons_eq_some_iff.2 ⟨z, zs, hz, hzs, rfl⟩,
          combineKeeping_cons_eq_some_iff.2 ⟨b, bound, hzb, hzsb, rfl⟩⟩

/-- A list is bounded by another one when it is from their ends. -/
theorem combineAligned_eq_some_iff {xs ys zs : List α} :
    TensorGraph.combineAligned join xs ys = some zs ↔
      combineKeeping join xs.reverse ys.reverse = some zs.reverse := by
  simp only [TensorGraph.combineAligned, Option.map_eq_some_iff]
  constructor
  · rintro ⟨rs, hrs, rfl⟩
    rw [hrs, List.reverse_reverse]
  · exact fun h => ⟨_, h, List.reverse_reverse zs⟩

/-- The same for lists that are aligned at their ends. -/
theorem bounded_combineAligned (h : Bounded join) : Bounded (TensorGraph.combineAligned join) where
  self xs := combineAligned_eq_some_iff.2 ((bounded_combineKeeping h).self xs.reverse)
  exists_join {xs ys bound} hxs hys := by
    obtain ⟨zs, hzs, hbound⟩ := (bounded_combineKeeping h).exists_join
      (combineAligned_eq_some_iff.1 hxs) (combineAligned_eq_some_iff.1 hys)
    refine ⟨zs.reverse, combineAligned_eq_some_iff.2 ?_, combineAligned_eq_some_iff.2 ?_⟩
    · rwa [List.reverse_reverse]
    · rwa [List.reverse_reverse]

/-- An element that every other one joins without effect need not be looked at. -/
theorem of_bottom {bottom : α} (comm : ∀ x y, join x y = join y x)
    (left : ∀ x, join bottom x = some x)
    (swap : ∀ {x y z}, x ≠ bottom → y ≠ bottom → z ≠ bottom →
      (join x y).bind (join · z) = (join x z).bind (join · y)) : Joins join where
  comm := comm
  swap x y z := by
    have right : ∀ r : Option α, r.bind (join · bottom) = r := fun r => by
      simp only [comm _ bottom, left, Option.bind_fun_some]
    -- a bottom among the three leaves the other two, and they commute
    by_cases hx : x = bottom
    · rw [hx, left, left]
      exact comm y z
    · by_cases hy : y = bottom
      · rw [hy, comm x, left, right]
        rfl
      · by_cases hz : z = bottom
        · rw [hz, comm x bottom, left, right]
          rfl
        · exact swap hx hy hz

/-- Elements that are joined with others only when they are equal. -/
theorem swap_of_eq [DecidableEq α] {x y z : α} (hxy : join x y = if x = y then some x else none)
    (hxz : join x z = if x = z then some x else none) :
    (join x y).bind (join · z) = (join x z).bind (join · y) := by
  by_cases hy : x = y
  · subst hy
    by_cases hz : x = z
    · rw [hz]
    · rw [hxy, if_pos rfl, Option.bind_some, hxz, if_neg hz, Option.bind_none]
  · by_cases hz : x = z
    · subst hz
      rw [hxz, if_pos rfl, Option.bind_some, hxy, if_neg hy, Option.bind_none]
    · rw [hxy, hxz, if_neg hy, if_neg hz]
      rfl

end Joins

namespace Shape

/-- An axis of one gives way to every other. -/
theorem joinAxes_one (x : Nat) : joinAxes 1 x = some x := by
  unfold joinAxes
  grind

/-- Sizes other than one are joined when they are equal. -/
theorem joinAxes_of_ne {x y : Nat} (hx : x ≠ 1) (hy : y ≠ 1) :
    joinAxes x y = if x = y then some x else none := by
  rw [joinAxes, if_neg hx, if_neg hy]

/-- Axes are joined in either order. -/
theorem joinAxes_comm (x y : Nat) : joinAxes x y = joinAxes y x := by
  unfold joinAxes
  grind

/-- Axes of values form such a partial operation. -/
theorem joins_joinAxes : Joins joinAxes := by
  refine .of_bottom joinAxes_comm joinAxes_one fun {x y z} hx hy hz => ?_
  exact Joins.swap_of_eq (joinAxes_of_ne hx hy) (joinAxes_of_ne hx hz)

/-- Shapes stretch to each other in any order. -/
theorem joins_broadcast : Joins broadcast := joins_joinAxes.combineAligned

/-- The shape that some arrays stretch to. -/
def broadcastAll (shapes : List Shape) : Option Shape := shapes.foldlM broadcast []

end Shape

namespace DeclaredShape

theorem joinAxes_one (x : Int) : joinAxes 1 x = some x := by
  unfold joinAxes
  grind

/-- Declared axes are joined in either order. -/
theorem joinAxes_comm (x y : Int) : joinAxes x y = joinAxes y x := by
  unfold joinAxes openAxis
  grind

/-- An open axis yields to a size other than one. -/
theorem joinAxes_open {x : Int} (hx : x ≠ 1) : joinAxes openAxis x = some x := by
  unfold joinAxes openAxis
  grind

/-- Sizes other than one are joined when they are equal. -/
theorem joinAxes_of_ne {x y : Int} (hx : x ≠ 1) (hy : y ≠ 1) (hx' : x ≠ openAxis)
    (hy' : y ≠ openAxis) : joinAxes x y = if x = y then some x else none := by
  rw [joinAxes, if_neg hx, if_neg hy, if_neg hx', if_neg hy']

/-- Declared axes form such a partial operation. -/
theorem joins_joinAxes : Joins joinAxes := by
  refine .of_bottom joinAxes_comm joinAxes_one fun {x y z} hx hy hz => ?_
  have hopen : openAxis ≠ 1 := by decide
  -- an open axis gives way to what it is joined with
  have right : ∀ {a b : Int}, a ≠ 1 → b ≠ 1 →
      (joinAxes a b).bind (joinAxes · openAxis) = joinAxes a b := by
    intro a b ha hb
    cases hab : joinAxes a b with
    | none => rfl
    | some c =>
      have hc : c ≠ 1 := by rcases joinAxes_eq_or hab with rfl | rfl <;> assumption
      rw [Option.bind_some, joinAxes_comm, joinAxes_open hc]
  by_cases hxo : x = openAxis
  · rw [hxo, joinAxes_open hy, joinAxes_open hz]
    exact joinAxes_comm y z
  by_cases hyo : y = openAxis
  · rw [hyo, right hx hz, joinAxes_comm x, joinAxes_open hx]
    rfl
  by_cases hzo : z = openAxis
  · rw [hzo, right hx hy, joinAxes_comm x openAxis, joinAxes_open hx]
    rfl
  exact Joins.swap_of_eq (joinAxes_of_ne hx hy hxo hyo) (joinAxes_of_ne hx hz hxo hzo)

/-- Declared shapes stretch to each other in any order. -/
theorem joins_broadcast : Joins broadcast := joins_joinAxes.combineAligned

/-- The declared shape that some nodes stretch to. -/
def broadcastAll (shapes : List DeclaredShape) : Option DeclaredShape := shapes.foldlM broadcast []

/-- Axes that can be joined have a common bound. -/
theorem bounded_joinAxes : Joins.Bounded joinAxes where
  self x := by
    unfold joinAxes
    grind
  exists_join {x y bound} := by
    unfold joinAxes openAxis
    grind

/-- Shapes that can be broadcast have a common bound. -/
theorem bounded_broadcast : Joins.Bounded broadcast := Joins.bounded_combineAligned bounded_joinAxes

/-- The shape of a node stretches to itself. -/
theorem broadcast_self (s : DeclaredShape) : broadcast s s = some s := bounded_broadcast.self s

/-- A shape without axes stretches to every shape. -/
theorem broadcast_nil (s : DeclaredShape) : broadcast [] s = some s := by
  simp [broadcast, combineAligned, combineKeeping]

/-- Declared shapes stretch to a common one when there is a shape that each of them stretches to. -/
theorem exists_broadcastAll_iff {shapes : List DeclaredShape} :
    (∃ shape, broadcastAll shapes = some shape) ↔
      ∃ bound, ∀ s ∈ shapes, broadcast s bound = some bound := by
  rw [broadcastAll, joins_broadcast.exists_foldlM_iff bounded_broadcast]
  simp only [broadcast_nil, true_and]

end DeclaredShape
end TensorGraph
