import TensorGraph.Proofs.Learning.Windows
import TensorGraph.Proofs.Tensor.Entries

/-!
# Windows of matrices

A window of a matrix holds some of its rows. The operations of a layer work row by row, so each of
them may be applied before a window is taken, or after.

## Main definitions

* `Tensor.window`: the rows of a matrix from one on.

## Main results

* `Tensor.window_matmul`, `Tensor.window_combine` and `UnaryOp.window_apply`: the operations of a
  layer and windows.
* `Tensor.ofValue_sliceRows` and `Tensor.sliceRows_toValue`: windows are the slices of values.
-/

namespace TensorGraph

namespace Scalar

variable {S : Type} [Scalar S] {f g : Nat → S}

/-- A sum only looks at the terms within its bound. -/
theorem sumTo_congr {n : Nat} (h : ∀ i < n, f i = g i) : sumTo f n = sumTo g n := by
  induction n with
  | zero => rfl
  | succ n ih =>
    rw [sumTo, sumTo, ih fun i hi => h i (Nat.lt_succ_of_lt hi), h n (Nat.lt_succ_self n)]

end Scalar

namespace Tensor

open Scalar

variable {S : Type} [Scalar S] {t l r b : Tensor S} {start count rows cols i j : Nat}

/-- The rows of a matrix from `start` on. -/
def window (t : Tensor S) (start count : Nat) : Tensor S :=
  tabulate [count, t.cols] fun i j => t.entry (start + i) j

/-- A window is a matrix with as many rows as it counts. -/
@[simp] theorem shape_window (t : Tensor S) (start count : Nat) :
    (t.window start count).shape = [count, t.cols] := rfl

@[simp] theorem rows_window (t : Tensor S) (start count : Nat) :
    (t.window start count).rows = count := rfl

@[simp] theorem cols_window (t : Tensor S) (start count : Nat) :
    (t.window start count).cols = t.cols := rfl

/-- A row of a window is a row of the tensor, from its start on. -/
theorem entry_window (hi : i < count) (hj : j < t.cols) :
    (t.window start count).entry i j = t.entry (start + i) j := by
  have hi : i < Shape.rows [count, t.cols] := hi
  exact entry_tabulate hi hj

/-- A matrix is a window of another one when it has the entries of some of its rows. -/
theorem eq_window (hcols : t.cols = cols) (hshape : r.shape = [count, cols])
    (h : ∀ i j, i < count → j < cols → r.entry i j = t.entry (start + i) j) :
    r = t.window start count := by
  subst hcols
  refine eq_of_entries hshape fun i j hi hj => ?_
  rw [Tensor.rows, hshape] at hi
  rw [Tensor.cols, hshape] at hj
  rw [h i j hi hj]
  exact (entry_window hi hj).symm

/-! ## The operations of a layer -/

/-- A function of every element may be applied before or after a window is taken. -/
theorem window_map {f : S → S} (h : start + count ≤ t.rows) :
    (t.window start count).map f = (t.map f).window start count := by
  refine eq_window (rfl : _ = t.cols) rfl fun i j hi hj => ?_
  have hrow : start + i < t.rows := by omega
  rw [entry_map (t := t.window start count) hi hj, entry_window hi hj, entry_map hrow hj]

/-- A row of a product is computed from the same row of the left factor. -/
theorem window_matmul (h : start + count ≤ l.rows) :
    (l.window start count).matmul r = (l.matmul r).window start count := by
  refine eq_window (rfl : _ = r.cols) rfl fun i j hi hj => ?_
  have hrow : start + i < l.rows := by omega
  rw [entry_matmul (l := l.window start count) hi hj, entry_matmul hrow hj]
  refine sumTo_congr fun k hk => ?_
  rw [entry_window (t := l) hi hk]

/-- A single row is stretched over a window as it is over the whole matrix. -/
theorem window_combine {f : S → S → S} (hb : b.rows = 1) (h : start + count ≤ t.rows) :
    combine (t.window start count).shape f (t.window start count) b =
      (combine t.shape f t b).window start count := by
  refine eq_window (rfl : _ = t.cols) rfl fun i j hi hj => ?_
  have hrow : start + i < t.rows := by omega
  have hi' : i < (t.window start count).shape.rows := hi
  rw [entry_combine hi' hj, entry_combine hrow hj,
    spread_eq_entry (t := t.window start count) hi hj, spread_eq_entry hrow hj, entry_window hi hj]
  simp only [spread, hb, if_true]

/-- Combining a tensor with a column that has one entry for every row. -/
theorem entry_combine_rowwise {f : S → S → S} {g : Nat → S} (hi : i < t.rows) (hj : j < t.cols) :
    (combine t.shape f t (t.rowwise g)).entry i j = f (t.entry i j) (g i) := by
  have hi' : i < (t.rowwise g).rows := hi
  have hcolumn : (t.rowwise g).spread i j = (t.rowwise g).spread i 0 := by
    simp [spread, rowwise, Tensor.cols, Shape.cols]
  rw [entry_combine hi hj, spread_eq_entry hi hj, hcolumn, spread_eq_entry hi' Nat.zero_lt_one]
  exact congrArg (f (t.entry i j)) (entry_tabulate hi' Nat.zero_lt_one)

/-- The exponential of an entry that is shifted by the greatest one of its row. -/
def shiftedAt (row : Nat → S) (cols j : Nat) : S := exp (row j - greatest row (cols - 1))

/-- The shifted exponential of an entry only looks at its row. -/
theorem entry_shiftedExp (hi : i < t.rows) (hj : j < t.cols) :
    t.shiftedExp.entry i j = shiftedAt (t.entry i) t.cols j := by
  rw [shiftedExp, entry_map (t := t.shiftRows) hi hj, shiftRows, rowMaxima,
    entry_combine_rowwise hi hj]
  rfl

/-- An entry of a softmax is computed from its row. -/
theorem entry_softmax (hi : i < t.rows) (hj : j < t.cols) :
    t.softmax.entry i j =
      shiftedAt (t.entry i) t.cols j / sumTo (shiftedAt (t.entry i) t.cols) t.cols := by
  have hsum : sumTo (t.shiftedExp.entry i) t.cols = sumTo (shiftedAt (t.entry i) t.cols) t.cols :=
    sumTo_congr fun k hk => entry_shiftedExp hi hk
  rw [← hsum, ← entry_shiftedExp hi hj]
  exact entry_combine_rowwise (t := t.shiftedExp) hi hj

/-- The greatest element only looks at the terms within its bound. -/
theorem greatest_congr {f g : Nat → S} {n : Nat} (h : ∀ i ≤ n, f i = g i) :
    greatest f n = greatest g n := by
  induction n with
  | zero => exact h 0 (Nat.le_refl 0)
  | succ n ih =>
    rw [greatest, greatest, ih fun i hi => h i (Nat.le_succ_of_le hi), h _ (Nat.le_refl _)]

/-- The softmax of a window is the window of the softmax. -/
theorem window_softmax (h : start + count ≤ t.rows) :
    (t.window start count).softmax = t.softmax.window start count := by
  refine eq_window (rfl : _ = t.cols) rfl fun i j hi hj => ?_
  have hrow : start + i < t.rows := by omega
  have hshifted : ∀ k < t.cols, shiftedAt ((t.window start count).entry i) t.cols k =
      shiftedAt (t.entry (start + i)) t.cols k := by
    intro k hk
    rw [shiftedAt, shiftedAt, entry_window hi hk,
      greatest_congr fun m hm => entry_window hi (by omega : m < t.cols)]
  rw [entry_softmax (t := t.window start count) hi hj, entry_softmax hrow hj, cols_window,
    hshifted j hj, sumTo_congr hshifted]

end Tensor

/-- A function of one argument may be applied before or after a window is taken. -/
theorem UnaryOp.window_apply {S : Type} [Scalar S] {t : Tensor S} {start count : Nat}
    (h : start + count ≤ t.rows) (op : UnaryOp) :
    op.apply (t.window start count) = (op.apply t).window start count := by
  cases op with
  | identity => rfl
  | softmax => exact Tensor.window_softmax h
  | _ => exact Tensor.window_map h

/-! ## Slices of values -/

/-- Slicing rows takes the elements of those rows. -/
theorem Value.elements_of_sliceRows {v w : Value} {start count rows cols : Nat}
    (hv : v.shape = [rows, cols]) (h : v.sliceRows start count = .ok w) :
    w.shape = [count, cols] ∧
      w.elements = v.elements.extract (start * cols) ((start + count) * cols) := by
  obtain ⟨hshape, helements⟩ := slice_of_sliceRows h
  rw [hv, List.tail_cons] at hshape helements
  exact ⟨hshape, by simpa [Shape.size] using helements⟩

namespace Tensor

variable {S : Type} [Scalar S] {t : Tensor S} {start count rows cols : Nat}

/-- The data of a window are a range of the data. -/
theorem data_window (h : start + count ≤ t.rows) :
    (t.window start count).data = t.data.extract (start * t.cols) ((start + count) * t.cols) := by
  have hle : (start + count) * t.cols ≤ t.data.size :=
    t.size_eq ▸ Nat.mul_le_mul_right t.cols h
  have hsize : (start + count) * t.cols - start * t.cols = count * t.cols := by
    rw [← Nat.sub_mul, Nat.add_sub_cancel_left]
  refine Array.ext ?_ fun k hk hk' => ?_
  · rw [size_eq, Array.size_extract, Nat.min_eq_left hle, hsize]
    rfl
  · rw [size_eq] at hk
    have hk : k < count * t.cols := hk
    have hpos : 0 < t.cols := Nat.pos_of_ne_zero fun hzero => by simp [hzero] at hk
    have hrow : k / t.cols < count := Nat.div_lt_of_lt_mul (by rwa [Nat.mul_comm])
    have hcol : k % t.cols < t.cols := Nat.mod_lt k hpos
    -- the position splits into a row and a column of the window
    have hsplit : k / t.cols * t.cols + k % t.cols = k := Nat.div_add_mod' k t.cols
    have hposition : (start + k / t.cols) * t.cols + k % t.cols = start * t.cols + k := by
      rw [Nat.add_mul, Nat.add_assoc, hsplit]
    have hentry : (t.window start count).entry (k / t.cols) (k % t.cols) =
        t.entry (start + k / t.cols) (k % t.cols) := entry_window hrow hcol
    have hlt : start * t.cols + k < t.data.size := by omega
    rw [entry_eq_getElem (by rw [cols_window, hsplit, size_eq]; exact hk),
      entry_eq_getElem (by rw [hposition]; exact hlt)] at hentry
    simpa only [cols_window, hsplit, hposition, Array.getElem_extract] using hentry

omit [Scalar S] in
/-- A tensor is determined by its shape and its data. -/
theorem eq_of_data {r : Tensor S} (hshape : r.shape = t.shape) (hdata : r.data = t.data) :
    r = t := by
  obtain ⟨shape, data, hsize⟩ := r
  obtain ⟨shape', data', hsize'⟩ := t
  obtain rfl := hshape
  obtain rfl := hdata
  rfl

/-- The tensor of a slice is a window. -/
theorem ofValue_sliceRows {v w : Value} (hv : v.shape = [rows, cols]) (h : start + count ≤ rows)
    (hw : v.sliceRows start count = .ok w) :
    (ofValue w : Tensor S) = (ofValue v).window start count := by
  obtain ⟨hshape, helements⟩ := Value.elements_of_sliceRows hv hw
  have hrows : (ofValue v : Tensor S).rows = rows := by rw [Tensor.rows, shape_ofValue, hv]; rfl
  have hcols : (ofValue v : Tensor S).cols = cols := by rw [Tensor.cols, shape_ofValue, hv]; rfl
  refine eq_of_data (by rw [shape_ofValue, hshape, shape_window, hcols]) ?_
  rw [data_window (by rwa [hrows]), hcols]
  obtain ⟨shape, elements, hsize⟩ := v
  obtain ⟨shape', elements', hsize'⟩ := w
  obtain rfl := helements
  cases elements <;> exact Array.map_extract

/-- A slice of a fetched value is the value of a window. -/
theorem sliceRows_toValue {t : Tensor Float32} (ht : t.shape = [rows, cols])
    (h : start + count ≤ rows) (type : ElementType) :
    (t.toValue type).sliceRows start count = .ok ((t.window start count).toValue type) := by
  have hrows : t.rows = rows := by rw [Tensor.rows, ht]; rfl
  have hcols : t.cols = cols := by rw [Tensor.cols, ht]; rfl
  have hshape : (t.toValue type).shape = [rows, cols] := by rw [shape_toValue, ht]
  obtain ⟨w, hw⟩ := Value.exists_sliceRows (v := t.toValue type) (by rw [Value.rows, hshape]; rfl) h
  obtain ⟨hwshape, helements⟩ := Value.elements_of_sliceRows hshape hw
  -- the rows of a window are contiguous, so its data is an extract
  have hdata := data_window (t := t) (by rwa [hrows] : start + count ≤ t.rows)
  rw [hcols] at hdata
  rw [hw, Except.ok.injEq]
  obtain ⟨shape, elements, hsize⟩ := w
  obtain rfl := hwshape
  obtain rfl := helements
  cases type with
  | f32 => simp only [toValue, Elements.extract, hdata, shape_window, hcols]
  | i64 => simp only [toValue, Elements.extract, hdata, shape_window, hcols, Array.map_extract]

end Tensor
end TensorGraph
