/-!
# Shapes

A shape lists the sizes of an array's axes. A declared shape may leave axes open: the size `-1`
stands for any positive size, and is used for the batch axis.

* `Shape.broadcast` and `DeclaredShape.broadcast` stretch two shapes to a common one, aligning
  their last axes. An axis of size one, or a missing axis, stretches to any size.
* `Shape.rows` and `Shape.cols` are the two dimensions that hold an array of a shape: a scalar is a
  one by one matrix and a vector is a single row.
-/

namespace TensorGraph

/-- The sizes of the axes of an array. -/
abbrev Shape := List Nat

/-- The sizes of the axes of a node, some of which may be open. -/
abbrev DeclaredShape := List Int

/-- The size of an open axis. -/
def openAxis : Int := -1

/-- Combine two lists element by element up to the end of the shorter one, and keep the rest of the
longer one. -/
def combineKeeping {α : Type} (join : α → α → Option α) : List α → List α → Option (List α)
  -- a missing element counts as one that fits everything
  | [], ys => some ys
  | xs, [] => some xs
  | x :: xs, y :: ys => do
    let z ← join x y
    let zs ← combineKeeping join xs ys
    return z :: zs

/-- Combine two lists that are aligned at their ends. -/
def combineAligned {α : Type} (join : α → α → Option α) (xs ys : List α) : Option (List α) :=
  (combineKeeping join xs.reverse ys.reverse).map List.reverse

namespace Shape

/-- The number of elements of an array. -/
def size : Shape → Nat
  | [] => 1
  | d :: s => d * size s

/-- The common size of two axes. -/
def joinAxes (x y : Nat) : Option Nat :=
  if x = y then some x
  else if x = 1 then some y
  else if y = 1 then some x
  else none

/-- The shape that two arrays stretch to. -/
def broadcast (a b : Shape) : Option Shape := combineAligned joinAxes a b

/-- The number of rows that hold an array. -/
def rows : Shape → Nat
  | [] => 1
  | [_] => 1
  | [r, _] => r
  -- no engine holds more axes; a single column would hold them
  | s => s.size

/-- The number of columns that hold an array. -/
def cols : Shape → Nat
  | [] => 1
  | [n] => n
  | [_, c] => c
  | _ => 1

/-- The shape as a declared shape without open axes. -/
def declared (s : Shape) : DeclaredShape := s.map Int.ofNat

/-- The two dimensions hold every element. -/
theorem rows_mul_cols (s : Shape) : s.rows * s.cols = s.size := by
  match s with
  | [] => rfl
  | [n] => simp [rows, cols, size]
  | [r, c] => simp [rows, cols, size]
  | _ :: _ :: _ :: _ => simp [rows, cols]

end Shape

namespace DeclaredShape

/-- The common size of two axes, either of which may be open. An open axis stays open unless the
other one fixes it to a size other than one. -/
def joinAxes (x y : Int) : Option Int :=
  if x = y then some x
  else if x = 1 then some y
  else if y = 1 then some x
  -- what is left are an open axis and a size, or two sizes that differ
  else if x = openAxis then some y
  else if y = openAxis then some x
  else none

/-- The declared shape that two nodes stretch to. -/
def broadcast (a b : DeclaredShape) : Option DeclaredShape := combineAligned joinAxes a b

/-- Whether two axes can have the same size. -/
def axesAgree (x y : Int) : Bool := x == y || x == openAxis || y == openAxis

/-- The shape that a declared shape without open axes stands for. -/
def concrete? (s : DeclaredShape) : Option Shape :=
  s.mapM fun d => if 0 < d then some d.toNat else none

/-- Whether an array of the given shape may stand at a node declared with this one. -/
def admits (declared : DeclaredShape) (s : Shape) : Bool :=
  s.length == declared.length &&
    (s.zip declared).all fun (actual, d) => d == openAxis || d == (actual : Int)

end DeclaredShape
end TensorGraph
