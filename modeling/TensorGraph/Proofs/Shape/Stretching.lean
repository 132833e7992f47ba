import TensorGraph.Proofs.Shape.Covering

/-!
# Stretching shapes

An axis of size one, or a missing axis, stretches to any size. Two shapes with at most two axes
stretch to their common shape, as matrices: their rows and their columns do.

## Main definitions

* `Shape.Stretches`: the shapes that stretch to the matrix of another one.
* `Shape.repeats`: how often stretching repeats a shape.

## Main results

* `Shape.stretches_of_broadcast`: both operands of an operation stretch to their common shape.
* `Shape.broadcast_eq_self_iff`: the shapes that stretch to another one.
* `Shape.broadcast_declared`: common shapes as declared shapes.
-/

namespace TensorGraph

/-- The shapes that stretch to the matrix of another one, repeating an only row or column. -/
structure Shape.Stretches (s shape : Shape) : Prop where
  rows : s.rows = 1 ∨ s.rows = shape.rows
  cols : s.cols = 1 ∨ s.cols = shape.cols

namespace Shape

theorem Stretches.refl (s : Shape) : s.Stretches s := ⟨.inr rfl, .inr rfl⟩

/-- A shape is stretched step by step. -/
theorem Stretches.trans {s t u : Shape} (h : s.Stretches t) (h' : t.Stretches u) :
    s.Stretches u where
  rows := h.rows.elim .inl fun heq => heq ▸ h'.rows
  cols := h.cols.elim .inl fun heq => heq ▸ h'.cols

/-- How often a shape is repeated when it is stretched to another one. -/
def repeats (s shape : Shape) : Nat :=
  (if s.rows = 1 then shape.rows else 1) * (if s.cols = 1 then shape.cols else 1)

/-- A shape is repeated once in itself. -/
theorem repeats_self (s : Shape) : s.repeats s = 1 := by
  have haxis : ∀ m : Nat, (if m = 1 then m else 1) = 1 := by grind
  rw [repeats, haxis, haxis]

/-- What is stretched in two steps is repeated in each of them. -/
theorem Stretches.repeats_trans {s t u : Shape} (h : s.Stretches t) (h' : t.Stretches u) :
    s.repeats u = s.repeats t * t.repeats u := by
  -- an axis is stretched in one of the steps only
  have haxis : ∀ {l m n : Nat}, (l = 1 ∨ l = m) → (m = 1 ∨ m = n) →
      (if l = 1 then n else 1) = (if l = 1 then m else 1) * (if m = 1 then n else 1) := by grind
  rw [repeats, repeats, repeats, haxis h.rows h'.rows, haxis h.cols h'.cols, Nat.mul_mul_mul_comm]

/-- Both axes stretch to their common size. -/
theorem stretches_of_joinAxes {x y z : Nat} (h : joinAxes x y = some z) :
    (x = 1 ∨ x = z) ∧ (y = 1 ∨ y = z) := by
  unfold joinAxes at h
  split at h
  · simp_all
  · split at h
    · simp_all
    · split at h <;> simp_all

/-- Every axis of two combined shapes stretches to its common size; a missing axis counts as one. -/
theorem stretches_of_combineKeeping : ∀ {xs ys zs : List Nat},
    combineKeeping joinAxes xs ys = some zs → ∀ k, (xs.getD k 1 = 1 ∨ xs.getD k 1 = zs.getD k 1) ∧
      (ys.getD k 1 = 1 ∨ ys.getD k 1 = zs.getD k 1)
  -- where one of the lists has ended, its missing axes count as one
  | [], ys, zs, h, k => by
    simp only [combineKeeping, Option.some.injEq] at h
    exact ⟨.inl rfl, .inr (h ▸ rfl)⟩
  | x :: xs, [], zs, h, k => by
    simp only [combineKeeping, Option.some.injEq] at h
    exact ⟨.inr (h ▸ rfl), .inl rfl⟩
  | x :: xs, y :: ys, zs, h, k => by
    simp only [combineKeeping, Option.bind_eq_bind, Option.bind_eq_some_iff, Option.pure_def,
      Option.some.injEq] at h
    obtain ⟨z, hz, zs, hzs, rfl⟩ := h
    cases k with
    | zero => exact stretches_of_joinAxes hz
    | succ k => exact stretches_of_combineKeeping hzs k

theorem combineKeeping_self (xs : List Nat) : combineKeeping joinAxes xs xs = some xs := by
  induction xs with
  | nil => rfl
  | cons x xs ih => simp [combineKeeping, joinAxes, ih]

/-- A shape stretches to itself. -/
theorem broadcast_self (s : Shape) : broadcast s s = some s := by
  rw [broadcast, combineAligned, combineKeeping_self, Option.map_some, List.reverse_reverse]

/-- A number stretches to any shape. -/
theorem broadcast_nil (s : Shape) : broadcast [] s = some s := by
  rw [broadcast, combineAligned, List.reverse_nil, combineKeeping, Option.map_some,
    List.reverse_reverse]

/-- The columns of a matrix are its last axis, or one. -/
theorem cols_eq_getD {s : Shape} (h : s.length ≤ 2) : s.cols = s.reverse.getD 0 1 := by
  match s with
  | [] | [n] | [m, n] => rfl

/-- The rows of a matrix are the axis before the last one, or one. -/
theorem rows_eq_getD {s : Shape} (h : s.length ≤ 2) : s.rows = s.reverse.getD 1 1 := by
  match s with
  | [] | [n] | [m, n] => rfl

/-- Both operands of an operation stretch to their common shape. -/
theorem stretches_of_broadcast {a b shape : Shape} (ha : a.length ≤ 2) (hb : b.length ≤ 2)
    (h : a.broadcast b = some shape) : a.Stretches shape ∧ b.Stretches shape := by
  obtain ⟨zs, hzs, rfl⟩ := Option.map_eq_some_iff.1 h
  have hlength : zs.reverse.length ≤ 2 := by
    have := length_combineKeeping hzs
    simp only [List.length_reverse] at this ⊢
    omega
  have haxes := stretches_of_combineKeeping hzs
  -- axes are combined from the last one, so the columns are at 0 and the rows at 1
  have hrows := haxes 1
  have hcols := haxes 0
  rw [← List.reverse_reverse zs, ← rows_eq_getD ha, ← rows_eq_getD hb,
    ← rows_eq_getD hlength] at hrows
  rw [← List.reverse_reverse zs, ← cols_eq_getD ha, ← cols_eq_getD hb,
    ← cols_eq_getD hlength] at hcols
  exact ⟨⟨hrows.1, hcols.1⟩, ⟨hrows.2, hcols.2⟩⟩

/-- A vector stretches to the rows of a shape that ends in its axis. -/
theorem stretches_of_getLast? {a b : Shape} (ha : a.length ≤ 2) (hb : b.length = 1)
    (h : a.getLast? = b.head?) : b.Stretches a := by
  obtain ⟨k, rfl⟩ := List.length_eq_one_iff.1 hb
  match a with
  | [] => cases h
  | [n] | [m, n] =>
    simp only [List.getLast?_singleton, List.getLast?_cons_cons, List.head?_cons,
      Option.some.injEq] at h
    exact ⟨.inl rfl, .inr h.symm⟩

/-- A shape stretches to one with as many axes or more when that is their common shape. -/
theorem broadcast_eq_self_iff {shape s : Shape} (hshape : shape.length ≤ 2)
    (hs : s.length ≤ shape.length) : shape.broadcast s = some shape ↔ s.Stretches shape := by
  refine ⟨fun h => (stretches_of_broadcast hshape (Nat.le_trans hs hshape) h).2, fun h => ?_⟩
  -- an axis of the larger shape is kept when the other one is missing, equal to it, or one
  have haxis : ∀ {x y : Nat}, (y = 1 ∨ y = x) → joinAxes x y = some x := by
    unfold joinAxes
    grind
  match shape, s with
  | [], [] | [_], [] | [_, _], [] => rfl
  | [c], [n] | [_, c], [n] =>
    have hcol : joinAxes c n = some c := haxis h.cols
    simp [broadcast, combineAligned, combineKeeping, hcol]
  | [r, c], [m, n] =>
    have hrow : joinAxes r m = some r := haxis h.rows
    have hcol : joinAxes c n = some c := haxis h.cols
    simp [broadcast, combineAligned, combineKeeping, hrow, hcol]

/-! ## Shapes as declared shapes -/

/-- Declared axes are joined as axes of values are. -/
theorem joinAxes_declared (m n : Nat) :
    DeclaredShape.joinAxes m n = (joinAxes m n).map Int.ofNat := by
  unfold DeclaredShape.joinAxes joinAxes openAxis
  grind

/-- Declared shapes of values are combined as the values are. -/
theorem combineKeeping_declared : ∀ xs ys : List Nat,
    combineKeeping DeclaredShape.joinAxes (xs.map Int.ofNat) (ys.map Int.ofNat) =
      (combineKeeping joinAxes xs ys).map (List.map Int.ofNat)
  | [], _ => rfl
  | _ :: _, [] => rfl
  | x :: xs, y :: ys => by
    have haxis := joinAxes_declared x y
    have hrest := combineKeeping_declared xs ys
    simp only [List.map_cons, combineKeeping, Int.ofNat_eq_natCast, haxis] at hrest ⊢
    rw [hrest]
    -- both sides fail where the axes do, and else where the rest does
    cases joinAxes x y with
    | none => rfl
    | some z => cases combineKeeping joinAxes xs ys <;> rfl

/-- Shapes without open axes have a common declared shape when they have a common shape. -/
theorem broadcast_declared (a b : Shape) :
    DeclaredShape.broadcast (declared a) (declared b) = (broadcast a b).map declared := by
  unfold DeclaredShape.broadcast broadcast combineAligned declared
  rw [← List.map_reverse, ← List.map_reverse, combineKeeping_declared, Option.map_map,
    Option.map_map]
  exact congrArg (Option.map · _) (funext fun zs => List.map_reverse.symm)

/-- Different shapes are declared differently. -/
theorem declared_injective : Function.Injective declared :=
  List.map_injective_iff.2 fun _ _ h => Int.ofNat.inj h

end Shape
end TensorGraph
