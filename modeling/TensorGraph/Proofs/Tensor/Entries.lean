import TensorGraph.Evaluation.Sensitivity

/-!
# Shapes and entries of tensors

What the operations on tensors do to shapes, and which entries they read. A tensor is determined by
its shape and its entries, so operations are compared entry by entry.

## Main results

* `Tensor.eq_of_entries`: a tensor is determined by its shape and its entries.
* `Tensor.entry_combine`, `Tensor.entry_matmul` and their like: the entries of the operations.
-/

namespace TensorGraph

namespace Tensor

variable {S : Type}

/-! ## Shapes -/

@[simp] theorem shape_full (shape : Shape) (x : S) : (full shape x).shape = shape := rfl

@[simp] theorem shape_map (f : S → S) (t : Tensor S) : (t.map f).shape = t.shape := rfl

@[simp] theorem type_toValue (type : ElementType) (t : Tensor Float32) :
    (t.toValue type).type = type := by
  cases type <;> rfl

@[simp] theorem shape_toValue (type : ElementType) (t : Tensor Float32) :
    (t.toValue type).shape = t.shape := by
  cases type <;> rfl

variable [Scalar S]

/-- A value becomes a tensor of its own shape, whatever the scalars. -/
@[simp] theorem shape_ofValue (v : Value) : (ofValue v : Tensor S).shape = v.shape := by
  obtain ⟨shape, elements, h⟩ := v
  cases elements <;> rfl

/-- A tensor that is stretched has the shape that it is stretched to. -/
@[simp] theorem shape_stretch (shape : Shape) (t : Tensor S) : (t.stretch shape).shape = shape :=
  rfl

@[simp] theorem shape_combine (shape : Shape) (f : S → S → S) (a b : Tensor S) :
    (combine shape f a b).shape = shape := rfl

@[simp] theorem shape_combine3 (f : S → S → S → S) (g a b : Tensor S) :
    (combine3 f g a b).shape = g.shape := rfl

/-- A tensor that is collapsed has the shape that it is collapsed to. -/
@[simp] theorem shape_collapse (shape : Shape) (t : Tensor S) : (t.collapse shape).shape = shape :=
  rfl

@[simp] theorem shape_add (a b : Tensor S) : (a.add b).shape = a.shape := rfl

@[simp] theorem shape_hadamard (a b : Tensor S) : (a.hadamard b).shape = a.shape := rfl

@[simp] theorem shape_negate (t : Tensor S) : t.negate.shape = t.shape := rfl

/-- A product of matrices has the rows of one and the columns of the other. -/
@[simp] theorem shape_matmul (l r : Tensor S) : (l.matmul r).shape = [l.rows, r.cols] := rfl

@[simp] theorem shape_transpose (t : Tensor S) : t.transpose.shape = [t.cols, t.rows] := rfl

@[simp] theorem shape_softmax (t : Tensor S) : t.softmax.shape = t.shape := rfl

/-- The mean over the last axis leaves out that axis. -/
@[simp] theorem shape_meanLast (t : Tensor S) : t.meanLast.shape = t.shape.dropLast := rfl

@[simp] theorem shape_sigmoidCrossEntropy (shape : Shape) (targets logits : Tensor S) :
    (sigmoidCrossEntropy shape targets logits).shape = shape := rfl

@[simp] theorem shape_softmaxCrossEntropy (logits labels : Tensor S) :
    (softmaxCrossEntropy logits labels).shape = logits.shape.dropLast := rfl

/-- Sensitivities that come back through a softmax have the shape of its result. -/
@[simp] theorem shape_softmaxPullback (t g : Tensor S) : (t.softmaxPullback g).shape = t.shape :=
  rfl

@[simp] theorem shape_logSoftmaxPullback (t g : Tensor S) :
    (t.logSoftmaxPullback g).shape = g.shape := rfl

/-! ## Entries -/

omit [Scalar S] in
/-- The position of an entry is inside of the data. -/
theorem position_lt {r c i j : Nat} (hi : i < r) (hj : j < c) : i * c + j < r * c :=
  calc i * c + j < i * c + c := by omega
    _ = (i + 1) * c := (Nat.succ_mul i c).symm
    _ ≤ r * c := Nat.mul_le_mul_right c hi

/-- An entry that exists is the element in its place, row by row. -/
theorem entry_eq_getElem {t : Tensor S} {i j : Nat} (h : i * t.cols + j < t.data.size) :
    t.entry i j = t.data[i * t.cols + j] := by
  rw [entry, Array.getD_eq_getD_getElem?, Array.getElem?_eq_getElem h, Option.getD_some]

/-- A tensor is determined by its shape and its entries. -/
theorem eq_of_entries {a b : Tensor S} (hshape : a.shape = b.shape)
    (h : ∀ i j, i < a.rows → j < a.cols → a.entry i j = b.entry i j) : a = b := by
  have hsize : a.data.size = b.data.size := by rw [a.size_eq, b.size_eq, hshape]
  have hcols : a.cols = b.cols := congrArg Shape.cols hshape
  have hdata : a.data = b.data := by
    -- every position belongs to one row and one column
    refine Array.ext hsize fun k hk hk' => ?_
    have hlt : k < a.rows * a.cols := a.size_eq ▸ hk
    have hpos : 0 < a.cols := Nat.pos_of_ne_zero fun hzero => by simp [hzero] at hlt
    have hk_eq : k / a.cols * a.cols + k % a.cols = k := Nat.div_add_mod' k a.cols
    have hentry := h (k / a.cols) (k % a.cols) (Nat.div_lt_of_lt_mul (by rwa [Nat.mul_comm]))
      (Nat.mod_lt k hpos)
    rw [entry_eq_getElem (by rwa [hk_eq]), entry_eq_getElem (by rwa [← hcols, hk_eq])] at hentry
    simpa only [← hcols, hk_eq] using hentry
  obtain ⟨shape, data, size_eq⟩ := a
  obtain ⟨shape', data', size_eq'⟩ := b
  subst hshape hdata
  rfl

section InRange

variable {i j : Nat}

/-- A filled tensor has the same entry everywhere. -/
theorem entry_full {shape : Shape} {x : S} (hi : i < shape.rows) (hj : j < shape.cols) :
    (full shape x).entry i j = x := by
  rw [entry_eq_getElem (by rw [size_eq]; exact position_lt hi hj)]
  exact Array.getElem_replicate _

/-- A function that is applied to every element is applied to every entry. -/
theorem entry_map {f : S → S} {t : Tensor S} (hi : i < t.rows) (hj : j < t.cols) :
    (t.map f).entry i j = f (t.entry i j) := by
  have hlt : i * t.cols + j < t.data.size := t.size_eq ▸ position_lt hi hj
  rw [entry_eq_getElem hlt, entry_eq_getElem (by rw [size_eq]; exact position_lt hi hj)]
  exact Array.getElem_map _ _

/-- Stretching to its own shape reads a tensor as it is. -/
theorem spread_eq_entry {t : Tensor S} (hi : i < t.rows) (hj : j < t.cols) :
    t.spread i j = t.entry i j := by
  -- an only row or column has the number zero anyway
  have hrow : (if t.rows = 1 then 0 else i) = i := by split <;> omega
  have hcol : (if t.cols = 1 then 0 else j) = j := by split <;> omega
  rw [spread, hrow, hcol]

/-- Entries are combined after both tensors have been spread. -/
theorem entry_combine {shape : Shape} {f : S → S → S} {a b : Tensor S} (hi : i < shape.rows)
    (hj : j < shape.cols) : (combine shape f a b).entry i j = f (a.spread i j) (b.spread i j) :=
  entry_tabulate hi hj

/-- Combining two tensors of the common shape reads them as they are. -/
theorem entry_combine_of_shape_eq {shape : Shape} {f : S → S → S} {a b : Tensor S}
    (ha : a.shape = shape) (hb : b.shape = shape) (hi : i < shape.rows) (hj : j < shape.cols) :
    (combine shape f a b).entry i j = f (a.entry i j) (b.entry i j) := by
  have hspread : ∀ {t : Tensor S}, t.shape = shape → t.spread i j = t.entry i j := by
    rintro t rfl
    exact spread_eq_entry hi hj
  rw [entry_combine hi hj, hspread ha, hspread hb]

/-- Only the entries within the shape matter to a tensor that is tabulated. -/
theorem tabulate_congr {shape : Shape} {f g : Nat → Nat → S}
    (h : ∀ i j, i < shape.rows → j < shape.cols → f i j = g i j) :
    tabulate shape f = tabulate shape g := by
  refine eq_of_entries rfl fun i j (hi : i < shape.rows) (hj : j < shape.cols) => ?_
  rw [entry_tabulate hi hj, entry_tabulate hi hj, h i j hi hj]

/-- Stretching a tensor to its own shape leaves it as it is. -/
theorem stretch_self (t : Tensor S) : t.stretch t.shape = t := by
  refine eq_of_entries rfl fun i j (hi : i < t.rows) (hj : j < t.cols) => ?_
  rw [stretch, entry_tabulate hi hj, spread_eq_entry hi hj]

/-- Combining two tensors of the common shape. -/
theorem combine_of_shape_eq {shape : Shape} {f : S → S → S} {a b : Tensor S}
    (ha : a.shape = shape) (hb : b.shape = shape) :
    combine shape f a b = tabulate shape fun i j => f (a.entry i j) (b.entry i j) := by
  refine eq_of_entries rfl fun i j (hi : i < shape.rows) (hj : j < shape.cols) => ?_
  rw [entry_combine_of_shape_eq ha hb hi hj, entry_tabulate hi hj]

/-- A scalar is the same wherever it is spread to. -/
theorem spread_scalar (x : Float32) (i j : Nat) :
    (ofValue (.scalar x) : Tensor S).spread i j = Scalar.ofSingle x := by
  simp [spread, entry, ofValue, Value.scalar, rows, cols, Shape.rows, Shape.cols]

/-- Combining a number with a tensor. -/
theorem combine_scalar (f : S → S → S) (x : Float32) (t : Tensor S) :
    combine t.shape f (ofValue (.scalar x)) t =
      tabulate t.shape fun i j => f (Scalar.ofSingle x) (t.entry i j) := by
  refine tabulate_congr fun i j hi hj => ?_
  rw [spread_eq_entry hi hj, spread_scalar]

/-- A transposed tensor has rows and columns exchanged. -/
theorem entry_transpose {t : Tensor S} (hi : i < t.cols) (hj : j < t.rows) :
    t.transpose.entry i j = t.entry j i := by
  have hi : i < Shape.rows [t.cols, t.rows] := hi
  exact entry_tabulate hi hj

/-- An entry of a product is the sum of the products along a row and a column. -/
theorem entry_matmul {l r : Tensor S} (hi : i < l.rows) (hj : j < r.cols) :
    (l.matmul r).entry i j = Scalar.sumTo (fun k => l.entry i k * r.entry k j) l.cols := by
  have hi : i < Shape.rows [l.rows, r.cols] := hi
  exact entry_tabulate hi hj

/-- The sum of a row goes over all of its entries. -/
theorem entry_rowSums {t : Tensor S} (hi : i < t.rows) :
    t.rowSums.entry i 0 = Scalar.sumTo (t.entry i) t.cols := by
  have hi : i < Shape.rows [t.rows, 1] := hi
  exact entry_tabulate hi Nat.zero_lt_one

end InRange

end Tensor

/-- Functions of one argument keep the shape. -/
@[simp] theorem UnaryOp.shape_apply {S : Type} [Scalar S] (op : UnaryOp) (t : Tensor S) :
    (op.apply t).shape = t.shape := by
  cases op <;> rfl

end TensorGraph
