import TensorGraph.Proofs.Derivative.Numbers
import TensorGraph.Proofs.Number.Exact

/-!
# Tensors of exact numbers

Tensors of single-precision numbers compared with tensors of the rational numbers that these are.
The operations that integers have are exact where their results can be held. A sum is exact where
every sum of some of its entries can be held, in whichever order the entries are added.

## Main definitions

* `Tensor.Reads`: the tensor of rational numbers that a tensor holds.
* `Tensor.Whole`: tensors of 64-bit integers that single precision holds.
* `Tensor.SumsHeld`: tensors all of whose partial sums can be held.

## Main results

* `Tensor.reads_combine`, `Tensor.reads_map` and `Tensor.Reads.total`: exact operations.
* `Tensor.ofValue_toValue`: whole tensors are fetched as they are.
-/

namespace TensorGraph

open Single (Representable)

namespace Tensor

variable {t t' : Tensor Float32} {u u' : Tensor ℚ} {shape : Shape}

/-- The tensor of rational numbers that a tensor of finite numbers holds. -/
structure Reads (t : Tensor Float32) (u : Tensor ℚ) : Prop where
  shape : t.shape = u.shape
  entry : ∀ i j, Single.Reads (t.entry i j) (u.entry i j)

/-- All entries are 64-bit integers, and single precision holds them. -/
def Whole (u : Tensor ℚ) : Prop :=
  ∀ q ∈ u.data, Representable q ∧ ∃ n : Int64, (n.toInt : ℚ) = q

open Finset in
/-- Single precision holds every sum of some of the entries. -/
def SumsHeld (u : Tensor ℚ) : Prop :=
  ∀ positions ⊆ range u.rows ×ˢ range u.cols, Representable (∑ p ∈ positions, u.entry p.1 p.2)

theorem Reads.rows_eq (h : t.Reads u) : t.rows = u.rows := congrArg Shape.rows h.shape

theorem Reads.cols_eq (h : t.Reads u) : t.cols = u.cols := congrArg Shape.cols h.shape

/-- Tensors are compared at the positions that they have. -/
theorem reads_of_entries (hshape : t.shape = u.shape)
    (h : ∀ i j, i < u.rows → j < u.cols → Single.Reads (t.entry i j) (u.entry i j)) :
    t.Reads u := by
  have hcols : t.cols = u.cols := congrArg Shape.cols hshape
  have hsize : t.data.size = u.data.size := by rw [t.size_eq, u.size_eq, hshape]
  refine ⟨hshape, fun i j => ?_⟩
  simp only [Tensor.entry, hcols]
  generalize i * u.cols + j = k
  by_cases hk : k < u.data.size
  · have hlt : k < u.rows * u.cols := u.size_eq ▸ hk
    have hpos : 0 < u.cols := Nat.pos_of_ne_zero fun hzero => by simp [hzero] at hlt
    have hsplit : k / u.cols * u.cols + k % u.cols = k := Nat.div_add_mod' k u.cols
    have hposition := h (k / u.cols) (k % u.cols) (Nat.div_lt_of_lt_mul (by rwa [Nat.mul_comm]))
      (Nat.mod_lt k hpos)
    simpa only [Tensor.entry, hcols, hsplit] using hposition
  · -- there are zeros beyond the data
    rw [Array.getD_eq_getD_getElem?, Array.getD_eq_getD_getElem?,
      Array.getElem?_eq_none (by omega), Array.getElem?_eq_none (by omega)]
    exact Single.reads_zero

/-- Tensors that hold the same numbers do so after they have been spread. -/
theorem Reads.spread (h : t.Reads u) (i j : Nat) : Single.Reads (t.spread i j) (u.spread i j) := by
  rw [Tensor.spread, Tensor.spread, h.rows_eq, h.cols_eq]
  exact h.entry _ _

/-- Entries within the shape are elements. -/
theorem mem_data {i j : Nat} (hi : i < u.rows) (hj : j < u.cols) : u.entry i j ∈ u.data := by
  have hlt : i * u.cols + j < u.data.size := u.size_eq ▸ position_lt hi hj
  rw [entry_eq_getElem hlt]
  exact Array.getElem_mem hlt

/-! ## Operations -/

/-- Combining tensors is exact where the operation on numbers is and its results can be held. -/
theorem reads_combine {f : Float32 → Float32 → Float32} {g : ℚ → ℚ → ℚ}
    (hop : ∀ {x y p q}, Single.Reads x p → Single.Reads y q → Representable (g p q) →
      Single.Reads (f x y) (g p q))
    (h : t.Reads u) (h' : t'.Reads u')
    (hheld : ∀ q ∈ (combine shape g u u').data, Representable q) :
    (combine shape f t t').Reads (combine shape g u u') := by
  refine reads_of_entries rfl fun i j (hi : i < shape.rows) (hj : j < shape.cols) => ?_
  have hmem := mem_data (u := combine shape g u u') hi hj
  rw [entry_combine hi hj] at hmem
  rw [entry_combine hi hj, entry_combine hi hj]
  exact hop (h.spread i j) (h'.spread i j) (hheld _ hmem)

/-- A function that is exact on representable numbers is exact on their tensors. -/
theorem reads_map {f : Float32 → Float32} {g : ℚ → ℚ}
    (hop : ∀ {x p}, Single.Reads x p → Representable (g p) → Single.Reads (f x) (g p))
    (h : t.Reads u) (hheld : ∀ q ∈ (u.map g).data, Representable q) :
    (t.map f).Reads (u.map g) := by
  refine reads_of_entries h.shape fun i j (hi : i < u.rows) (hj : j < u.cols) => ?_
  have hmem := mem_data (u := u.map g) hi hj
  rw [entry_map hi hj] at hmem
  rw [entry_map hi hj, entry_map (h.rows_eq ▸ hi) (h.cols_eq ▸ hj)]
  exact hop (h.entry i j) (hheld _ hmem)

/-- Stretching is exact. -/
theorem Reads.stretch (h : t.Reads u) (shape : Shape) :
    (t.stretch shape).Reads (u.stretch shape) := by
  refine reads_of_entries rfl fun i j (hi : i < shape.rows) (hj : j < shape.cols) => ?_
  rw [Tensor.stretch, Tensor.stretch, entry_tabulate hi hj, entry_tabulate hi hj]
  exact h.spread i j

/-- A tensor that is filled with one number holds that number. -/
theorem reads_full {x : Float32} {q : ℚ} (h : Single.Reads x q) (shape : Shape) :
    (full shape x).Reads (full shape q) := by
  refine reads_of_entries rfl fun i j (hi : i < shape.rows) (hj : j < shape.cols) => ?_
  rwa [entry_full hi hj, entry_full hi hj]

/-- Adding up is exact where the partial sums can be held. -/
theorem reads_sumTo {f : Nat → Float32} {g : Nat → ℚ} {n : Nat}
    (h : ∀ i < n, Single.Reads (f i) (g i))
    (hheld : ∀ m ≤ n, Representable (∑ i ∈ Finset.range m, g i)) :
    Single.Reads (Scalar.sumTo f n) (Scalar.sumTo g n) := by
  induction n with
  | zero => exact Single.reads_zero
  | succ n ih =>
    have hrest := ih (fun i hi => h i (Nat.lt_succ_of_lt hi)) fun m hm =>
      hheld m (Nat.le_succ_of_le hm)
    refine Single.reads_add hrest (h n (Nat.lt_succ_self n)) ?_
    rw [← Scalar.sumTo, Scalar.sumTo_eq_sum]
    exact hheld (n + 1) (Nat.le_refl _)

open Finset in
/-- A sum is exact if single precision holds all partial sums. -/
theorem Reads.total (h : t.Reads u) (hsums : u.SumsHeld) : Single.Reads t.total u.total := by
  unfold Tensor.total
  rw [h.rows_eq, h.cols_eq]
  refine reads_sumTo (fun i hi => reads_sumTo (fun j _ => h.entry i j) fun m hm => ?_)
    fun m hm => ?_
  · have hrow := hsums ({i} ×ˢ range m) (product_subset_product (by simpa using hi)
      (range_subset_range.2 hm))
    rwa [sum_product, sum_singleton] at hrow
  · have hrows := hsums (range m ×ˢ range u.cols) (product_subset_product_left
      (range_subset_range.2 hm))
    rw [sum_product] at hrows
    simpa only [Scalar.sumTo_eq_sum] using hrows

/-! ## Values -/

/-- A constant of integers is read exactly where single precision holds its elements. -/
theorem reads_ofValue {v : Value} (htype : v.type = .i64)
    (hheld : ∀ q ∈ (ofValue v : Tensor ℚ).data, Representable q) :
    (ofValue v : Tensor Float32).Reads (ofValue v) := by
  obtain ⟨shape, elements, hsize⟩ := v
  cases elements with
  | numbers xs => cases htype
  | integers xs =>
    have hread : ∀ n ∈ xs, Single.Reads (Single.ofInt n.toInt) n.toInt := fun n hn =>
      Single.reads_ofInt (hheld _ (Array.mem_map_of_mem hn))
    refine ⟨rfl, fun i j => ?_⟩
    simp only [entry, ofValue, cols, Array.getD_eq_getD_getElem?, Array.getElem?_map]
    -- a position without an element is read as a zero
    cases hget : xs[i * shape.cols + j]? with
    | none => exact Single.reads_zero
    | some n => exact hread n (Array.mem_of_getElem? hget)

/-- Whole tensors are fetched as they are. -/
theorem ofValue_toValue (h : t.Reads u) (hwhole : u.Whole) :
    (ofValue (t.toValue .i64) : Tensor ℚ) = u := by
  refine eq_of_entries (by rw [shape_ofValue, shape_toValue, h.shape]) fun i j hi hj => ?_
  rw [Tensor.rows, shape_ofValue, shape_toValue, h.shape] at hi
  rw [Tensor.cols, shape_ofValue, shape_toValue, h.shape] at hj
  obtain ⟨-, n, hn⟩ := hwhole _ (mem_data hi hj)
  have hread := h.entry i j
  rw [← hn] at hread
  have hrow : i < t.rows := h.rows_eq ▸ hi
  have hcol : j < t.cols := h.cols_eq ▸ hj
  have hlt : i * t.cols + j < t.data.size := t.size_eq ▸ position_lt hrow hcol
  -- an entry is fetched by rounding it to an integer, and a whole one is its own rounding
  have hentry : (ofValue (t.toValue .i64) : Tensor ℚ).entry i j =
      (Single.toInt64 (t.entry i j)).toInt := by
    rw [entry_eq_getElem hlt]
    simp only [entry, ofValue, toValue, cols, Array.getD_eq_getD_getElem?, Array.getElem?_map]
    have hget : t.data[i * t.shape.cols + j]? = some t.data[i * t.cols + j] :=
      Array.getElem?_eq_getElem hlt
    rw [hget]
    rfl
  rw [hentry, Single.toInt64_eq hread, hn]

/-- Exact arithmetic tells integers apart. -/
theorem elements_of_data_ofValue {v : Value} {xs : Array Int64} (htype : v.type = .i64)
    (h : (ofValue v : Tensor ℚ).data = xs.map fun n => (n.toInt : ℚ)) :
    v.elements = .integers xs := by
  obtain ⟨shape, elements, hsize⟩ := v
  cases elements <;> cases htype
  exact congrArg Elements.integers ((Array.map_inj_right fun n m hnm =>
    Int64.toInt_inj.1 (Int.cast_injective hnm)).1 h)

/-- Values of integers are the same when exact arithmetic reads them as the same tensor. -/
theorem eq_of_ofValue_eq {v w : Value} (hv : v.type = .i64) (hw : w.type = .i64)
    (h : (ofValue v : Tensor ℚ) = ofValue w) : v = w := by
  obtain ⟨shape, elements, hsize⟩ := v
  obtain ⟨shape', elements', hsize'⟩ := w
  cases elements' <;> cases hw
  obtain rfl := elements_of_data_ofValue hv (congrArg Tensor.data h)
  obtain rfl : shape = shape' := congrArg Tensor.shape h
  rfl

/-- A value of integers gives a tensor of integers, if single precision holds them. -/
theorem whole_ofValue {v : Value} (htype : v.type = .i64)
    (hheld : ∀ q ∈ (ofValue v : Tensor ℚ).data, Representable q) :
    (ofValue v : Tensor ℚ).Whole := by
  intro q hq
  refine ⟨hheld q hq, ?_⟩
  obtain ⟨shape, elements, hsize⟩ := v
  cases elements <;> cases htype
  obtain ⟨n, -, rfl⟩ := Array.mem_map.1 hq
  exact ⟨n, rfl⟩

/-- A value of integers that single precision holds is fetched as it is. -/
theorem toValue_ofValue {v : Value} (htype : v.type = .i64)
    (hheld : ∀ q ∈ (ofValue v : Tensor ℚ).data, Representable q) :
    (ofValue v : Tensor Float32).toValue .i64 = v :=
  eq_of_ofValue_eq (type_toValue _ _) htype
    (ofValue_toValue (reads_ofValue htype hheld) (whole_ofValue htype hheld))

/-! ## Small integers -/

/-- Single precision holds integers up to 2²⁴. -/
theorem whole_of_natAbs_le
    (h : ∀ q ∈ u.data, ∃ n : Int64, n.toInt.natAbs ≤ 2 ^ 24 ∧ (n.toInt : ℚ) = q) :
    u.Whole := by
  intro q hq
  obtain ⟨n, hn, rfl⟩ := h q hq
  exact ⟨Single.representable_of_natAbs_le hn, n, rfl⟩

open Finset in
/-- Integers whose magnitudes add up to at most `2 ^ 24` can be added in any order. -/
theorem sumsHeld_of_sum_natAbs_le {n : Nat → Nat → Int}
    (hn : ∀ i < u.rows, ∀ j < u.cols, u.entry i j = n i j)
    (h : ∑ p ∈ range u.rows ×ˢ range u.cols, (n p.1 p.2).natAbs ≤ 2 ^ 24) : u.SumsHeld := by
  intro positions hpositions
  have hsum : ∑ p ∈ positions, u.entry p.1 p.2 = ((∑ p ∈ positions, n p.1 p.2 : Int) : ℚ) := by
    rw [Int.cast_sum]
    refine sum_congr rfl fun p hp => ?_
    obtain ⟨hi, hj⟩ := mem_product.1 (hpositions hp)
    exact hn p.1 (mem_range.1 hi) p.2 (mem_range.1 hj)
  rw [hsum]
  refine Single.representable_of_natAbs_le ?_
  -- no part of the sum has a magnitude above the sum of all magnitudes
  calc (∑ p ∈ positions, n p.1 p.2).natAbs
      ≤ ∑ p ∈ positions, (n p.1 p.2).natAbs := Int.natAbs_sum_le _ _
    _ ≤ ∑ p ∈ range u.rows ×ˢ range u.cols, (n p.1 p.2).natAbs :=
        sum_le_sum_of_subset hpositions
    _ ≤ 2 ^ 24 := h

end Tensor
end TensorGraph
