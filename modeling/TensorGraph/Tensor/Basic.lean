import TensorGraph.Data.Value
import TensorGraph.Tensor.Scalar

/-!
# Tensors

Run-time arrays over any scalars. A tensor of a shape with at most two axes is held as a matrix of
`Shape.rows` by `Shape.cols` entries, in row-major order.

* `Tensor.entry` reads an entry; `Tensor.tabulate` builds a tensor from its entries, and
  `Tensor.entry_tabulate` says that it reads them back.
* `Tensor.spread` reads a tensor as if it were stretched, repeating its only row or column.
* `Tensor.collapse` undoes a stretch by adding up what was repeated.
-/

namespace TensorGraph

/-- A run-time array. -/
structure Tensor (S : Type) where
  shape : Shape
  /-- The entries, row by row. -/
  data : Array S
  size_eq : data.size = shape.rows * shape.cols

namespace Tensor

variable {S : Type}

def rows (t : Tensor S) : Nat := t.shape.rows

def cols (t : Tensor S) : Nat := t.shape.cols

/-- The tensor with given entries. -/
@[specialize] def tabulate (shape : Shape) (f : Nat → Nat → S) : Tensor S :=
  let c := shape.cols
  ⟨shape, Array.ofFn fun k : Fin (shape.rows * c) => f (k.val / c) (k.val % c), by simp [c]⟩

def full (shape : Shape) (x : S) : Tensor S :=
  ⟨shape, Array.replicate (shape.rows * shape.cols) x, by simp⟩

@[specialize] def map (f : S → S) (t : Tensor S) : Tensor S :=
  ⟨t.shape, t.data.map f, by simp [t.size_eq]⟩

@[simp] theorem shape_tabulate (shape : Shape) (f : Nat → Nat → S) :
    (tabulate shape f).shape = shape := rfl

variable [Scalar S]

/-- The entry in a row and a column; there is a zero beyond the last entry. -/
@[specialize] def entry (t : Tensor S) (i j : Nat) : S := t.data.getD (i * t.cols + j) 0

theorem entry_tabulate {shape : Shape} {f : Nat → Nat → S} {i j : Nat}
    (hi : i < shape.rows) (hj : j < shape.cols) : (tabulate shape f).entry i j = f i j := by
  -- the position of the entry is inside of the matrix
  have hlt : i * shape.cols + j < shape.rows * shape.cols :=
    calc i * shape.cols + j < i * shape.cols + shape.cols := by omega
      _ = (i + 1) * shape.cols := by rw [Nat.add_mul, Nat.one_mul]
      _ ≤ shape.rows * shape.cols := Nat.mul_le_mul_right _ hi
  -- and splits into its row and its column
  have hdiv : (i * shape.cols + j) / shape.cols = i := by
    rw [Nat.mul_comm, Nat.mul_add_div (by omega), Nat.div_eq_of_lt hj, Nat.add_zero]
  have hmod : (i * shape.cols + j) % shape.cols = j := by
    rw [Nat.mul_comm, Nat.mul_add_mod, Nat.mod_eq_of_lt hj]
  have hget : (tabulate shape f).data[i * shape.cols + j]? = some (f i j) := by
    simp [tabulate, hlt, hdiv, hmod]
  simp [entry, cols, Array.getD_eq_getD_getElem?, hget]

/-- The entry in a row and a column of the stretched tensor. -/
@[specialize] def spread (t : Tensor S) (i j : Nat) : S :=
  t.entry (if t.rows = 1 then 0 else i) (if t.cols = 1 then 0 else j)

/-- Whether a tensor stretches to the matrix of a shape. -/
def stretches (t : Tensor S) (shape : Shape) : Bool :=
  (t.rows == 1 || t.rows == shape.rows) && (t.cols == 1 || t.cols == shape.cols)

/-- A tensor stretched to a shape. -/
def stretch (shape : Shape) (t : Tensor S) : Tensor S := tabulate shape t.spread

/-- Combine two tensors stretched to a common shape, entry by entry. -/
@[specialize] def combine (shape : Shape) (f : S → S → S) (a b : Tensor S) : Tensor S :=
  tabulate shape fun i j => f (a.spread i j) (b.spread i j)

/-- Add up the entries that stretching from `shape` repeats. -/
def collapse (shape : Shape) (t : Tensor S) : Tensor S :=
  -- an axis of size one takes the sum along the whole axis, any other one its own entry
  tabulate shape fun i j =>
    Scalar.sumTo (fun r => Scalar.sumTo (fun c =>
        t.entry (if shape.rows = 1 then r else i) (if shape.cols = 1 then c else j))
      (if shape.cols = 1 then t.cols else 1))
      (if shape.rows = 1 then t.rows else 1)

/-- The tensor of a value. -/
def ofValue (v : Value) : Tensor S :=
  match v with
  | ⟨shape, .numbers xs, h⟩ =>
    ⟨shape, xs.map Scalar.ofSingle, by
      rw [Array.size_map, Shape.rows_mul_cols]; exact h⟩
  | ⟨shape, .integers xs, h⟩ =>
    ⟨shape, xs.map fun n => Scalar.ofInt n.toInt, by
      rw [Array.size_map, Shape.rows_mul_cols]; exact h⟩

/-- The value of a single-precision tensor as it is fetched from a node: integers are the nearest
ones. -/
def toValue (type : ElementType) (t : Tensor Float32) : Value :=
  match type with
  | .f32 => ⟨t.shape, .numbers t.data, by
      rw [← Shape.rows_mul_cols]; exact t.size_eq⟩
  | .i64 => ⟨t.shape, .integers (t.data.map Single.toInt64), by
      rw [← Shape.rows_mul_cols, ← t.size_eq]; exact Array.size_map⟩

end Tensor
end TensorGraph
