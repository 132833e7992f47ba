import TensorGraph.Proofs.Derivative.Numbers

/-!
# Tensors of dual numbers

A tensor of dual numbers is a tensor of real parts together with a tensor of slopes. The operations
on tensors keep the real parts; what they do to slopes is compared with reverse accumulation in
`TensorGraph.Proofs.Derivative.Pairing`.

## Main definitions

* `Tensor.under`: a map of numbers applied to every entry.
* `Tensor.real` and `Tensor.slope`: the two coefficients of a tensor of dual numbers.
* `Tensor.embed` and `Tensor.move`: a tensor as it is, and one that moves in a direction.

## Main results

* `Tensor.under_combine`, `Tensor.under_matmul` and their like: maps that keep arithmetic keep the
  operations on tensors.
-/

open DualNumber TrivSqZeroExt

namespace TensorGraph.Tensor

section Under

variable {S T : Type}

/-- A map of numbers applied to every entry. -/
def under (φ : S → T) (t : Tensor S) : Tensor T :=
  ⟨t.shape, t.data.map φ, by rw [Array.size_map, t.size_eq]⟩

variable {φ : S → T}

@[simp] theorem shape_under (t : Tensor S) : (t.under φ).shape = t.shape := rfl

@[simp] theorem rows_under (t : Tensor S) : (t.under φ).rows = t.rows := rfl

@[simp] theorem cols_under (t : Tensor S) : (t.under φ).cols = t.cols := rfl

/-- Two maps of scalars are one after the other the map of their composition. -/
theorem under_under {U : Type} (ψ : T → U) (t : Tensor S) :
    (t.under φ).under ψ = t.under fun x => ψ (φ x) := by
  simp only [under, Array.map_map, Function.comp_def]

/-- A map of scalars goes into the entries of a table. -/
theorem under_tabulate (shape : Shape) (f : Nat → Nat → S) :
    (tabulate shape f).under φ = tabulate shape fun i j => φ (f i j) := by
  simp only [under, tabulate, Array.map_ofFn, Function.comp_def]

theorem under_full (shape : Shape) (x : S) : (full shape x).under φ = full shape (φ x) := by
  simp only [under, full, Array.map_replicate]

/-- A map of scalars that commutes with a function commutes with mapping it. -/
theorem under_map {f : S → S} {f' : T → T} (hf : ∀ x, φ (f x) = f' (φ x)) (t : Tensor S) :
    (t.map f).under φ = (t.under φ).map f' := by
  simp only [under, map, Array.map_map, Function.comp_def, hf]

variable [Scalar S] [Scalar T]

/-- Outside of its shape a tensor is zero, which the map has to keep. -/
theorem entry_under (hzero : φ 0 = 0) (t : Tensor S) (i j : Nat) :
    (t.under φ).entry i j = φ (t.entry i j) := by
  simp only [entry, Array.getD_eq_getD_getElem?, under, Array.getElem?_map, cols]
  -- beyond the data there are zeros, which the map keeps
  cases t.data[i * t.shape.cols + j]? with
  | none => exact hzero.symm
  | some x => rfl

/-- The rows of a mapped tensor are the mapped rows. -/
theorem row_under (hzero : φ 0 = 0) (t : Tensor S) (i : Nat) :
    (t.under φ).entry i = fun j => φ (t.entry i j) :=
  funext (entry_under hzero t i)

/-- Stretching repeats entries, and commutes with every map that keeps zero. -/
theorem spread_under (hzero : φ 0 = 0) (t : Tensor S) (i j : Nat) :
    (t.under φ).spread i j = φ (t.spread i j) := by
  rw [spread, spread, entry_under hzero, rows_under, cols_under]

/-- A map of scalars that commutes with an operation commutes with combining by it. -/
theorem under_combine (hzero : φ 0 = 0) {f : S → S → S} {f' : T → T → T}
    (hf : ∀ x y, φ (f x y) = f' (φ x) (φ y)) (shape : Shape) (a b : Tensor S) :
    (combine shape f a b).under φ = combine shape f' (a.under φ) (b.under φ) := by
  simp only [combine, under_tabulate, hf, spread_under hzero]

section Hom

variable (h : Scalar.Hom φ)
include h

/-- A map that keeps sums and products keeps matrix products. -/
theorem under_matmul (l r : Tensor S) : (l.matmul r).under φ = (l.under φ).matmul (r.under φ) := by
  simp only [matmul, under_tabulate, h.sumTo, h.mul, entry_under h.zero, rows_under, cols_under]

/-- A map that keeps sums keeps the sum of all entries. -/
theorem under_total (t : Tensor S) : φ t.total = (t.under φ).total := by
  simp only [total, h.sumTo, row_under h.zero, rows_under, cols_under]

/-- It keeps the sums of rows as well. -/
theorem under_rowSums (t : Tensor S) : t.rowSums.under φ = (t.under φ).rowSums := by
  simp only [rowSums, rowwise, under_tabulate, h.sumTo, row_under h.zero, rows_under, cols_under]

/-- A map that keeps sums, products and integers keeps means. -/
theorem under_meanLast (t : Tensor S) : t.meanLast.under φ = (t.under φ).meanLast := by
  simp only [meanLast, dropLastAxis, under_tabulate, h.div, h.ofInt, ← under_rowSums h,
    entry_under h.zero, shape_under, cols_under]

/-- The entries of a value are integers and decimals, which the map keeps. -/
theorem under_ofValue (v : Value) : (ofValue v : Tensor S).under φ = ofValue v := by
  obtain ⟨shape, elements, hsize⟩ := v
  cases elements with
  | numbers xs => simp only [under, ofValue, Array.map_map, Function.comp_def, h.ofSingle]
  | integers xs => simp only [under, ofValue, Array.map_map, Function.comp_def, h.ofInt]

end Hom
end Under

/-! ## Real parts and slopes -/

variable {K : Type}

/-- The real parts of dual numbers. -/
def real (t : Tensor K[ε]) : Tensor K := t.under fst

/-- The slopes of dual numbers. -/
def slope (t : Tensor K[ε]) : Tensor K := t.under snd

@[simp] theorem shape_real (t : Tensor K[ε]) : t.real.shape = t.shape := rfl

@[simp] theorem shape_slope (t : Tensor K[ε]) : t.slope.shape = t.shape := rfl

variable [Field K]

/-- A tensor as one of dual numbers without slopes. -/
def embed (t : Tensor K) : Tensor K[ε] := t.under inl

@[simp] theorem shape_embed (t : Tensor K) : t.embed.shape = t.shape := rfl

/-- Embedding adds slopes and keeps the real parts. -/
@[simp] theorem real_embed (t : Tensor K) : t.embed.real = t := by
  simp [real, embed, under, Function.comp_def]

variable [LinearOrder K] [Elementary K]

/-- A tensor that moves in a direction. -/
def move (t d : Tensor K) : Tensor K[ε] :=
  tabulate t.shape fun i j => inl (t.entry i j) + inl (d.entry i j) * ε

@[simp] theorem shape_move (t d : Tensor K) : (t.move d).shape = t.shape := rfl

/-- The real parts of a tensor are those of its entries. -/
theorem entry_real (t : Tensor K[ε]) (i j : Nat) : t.real.entry i j = (t.entry i j).fst :=
  entry_under rfl t i j

/-- The slopes of a tensor are those of its entries. -/
theorem entry_slope (t : Tensor K[ε]) (i j : Nat) : t.slope.entry i j = (t.entry i j).snd :=
  entry_under rfl t i j

/-- Stretching commutes with taking real parts. -/
theorem spread_real (t : Tensor K[ε]) (i j : Nat) : t.real.spread i j = (t.spread i j).fst :=
  spread_under rfl t i j

/-- Stretching commutes with taking slopes. -/
theorem spread_slope (t : Tensor K[ε]) (i j : Nat) : t.slope.spread i j = (t.spread i j).snd :=
  spread_under rfl t i j

/-- The slope of a sum is the sum of the slopes. -/
theorem snd_total (t : Tensor K[ε]) : t.total.snd = t.slope.total := by
  have hrow : ∀ i, t.slope.entry i = fun j => (t.entry i j).snd := row_under rfl t
  simp only [total, Scalar.snd_sumTo, hrow]
  rfl

/-- What does not move has no slope. -/
theorem entry_slope_embed (t : Tensor K) (i j : Nat) : t.embed.slope.entry i j = 0 := by
  rw [entry_slope, embed, entry_under rfl, snd_inl]

/-- Moving a tensor in a direction keeps the real parts. -/
theorem real_move (t d : Tensor K) : (t.move d).real = t := by
  refine eq_of_entries rfl fun i j hi hj => ?_
  have hentry : (t.move d).entry i j = inl (t.entry i j) + inl (d.entry i j) * ε :=
    entry_tabulate hi hj
  rw [entry_real, hentry]
  simp

/-- A tensor that moves in a direction has the direction as its slopes. -/
theorem entry_slope_move {t d : Tensor K} {i j : Nat} (hi : i < t.rows) (hj : j < t.cols) :
    (t.move d).slope.entry i j = d.entry i j := by
  have hentry : (t.move d).entry i j = inl (t.entry i j) + inl (d.entry i j) * ε :=
    entry_tabulate hi hj
  rw [entry_slope, hentry]
  simp

end TensorGraph.Tensor
