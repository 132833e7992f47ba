import TensorGraph.Proofs.Learning.Windows

/-!
# Epochs cover the rows

One epoch passes over the rows of the data in windows. The windows follow each other without gaps
from the first row on, and a window takes of every value the rows at the same places. So the slices
of a value, one after the other, are its rows in order, and the rows of several values stay aligned.

## Main definitions

* `Value.row` and `Value.rowList`: the rows of a value, which may be empty.
* `TrainingPlan.covered`: the number of rows that the windows of an epoch reach.
* `TrainingPlan.Spans`: windows that follow each other without gaps.
* `TrainingPlan.Dealt`: how the windows of an epoch deal out the rows of values.

## Main results

* `TrainingPlan.getElem?_windows_eq_some_iff`: the windows of an epoch, by their number.
* `Value.rowList_of_sliceRows`: the rows of a slice.
* `TrainingPlan.epoch_feeds_rows_once`: what one epoch takes of the values of a batch.
-/

namespace TensorGraph

namespace Elements

/-- A part of a part of some elements is a part of them. -/
theorem extract_extract (xs : Elements) (start stop first last : Nat) :
    (xs.extract start stop).extract first last =
      xs.extract (start + first) (min (start + last) stop) := by
  cases xs <;> exact congrArg _ Array.extract_extract

end Elements

namespace Value

variable {v w : Value} {start count stop rows i : Nat}

/-- The number of elements of a row. -/
def width (v : Value) : Nat := Shape.size v.shape.tail

/-- A row of a value. -/
def row (v : Value) (i : Nat) : Elements := v.elements.extract (i * v.width) ((i + 1) * v.width)

/-- The rows of a value in order. -/
def rowList (v : Value) : List Elements := (List.range (v.rows.getD 0)).map v.row

/-- A value has as many rows as its shape says. -/
theorem length_rowList (hrows : v.rows = some rows) : v.rowList.length = rows := by
  simp [rowList, hrows]

/-- The rows of a value are listed in order. -/
theorem getElem?_rowList (hrows : v.rows = some rows) (hi : i < rows) :
    v.rowList[i]? = some (v.row i) := by
  simp [rowList, hrows, hi]

/-- A slice has the elements of its rows. -/
theorem elements_of_sliced (h : v.sliceRows start count = .ok w) :
    w.elements = v.elements.extract (start * v.width) ((start + count) * v.width) :=
  (slice_of_sliceRows h).2

/-- A row of a slice is a row of the whole. -/
theorem row_of_sliceRows (h : v.sliceRows start count = .ok w) (hi : i < count) :
    w.row i = v.row (start + i) := by
  have hwidth : w.width = v.width := by rw [width, (eq_of_sliceRows h).2, List.tail_cons, width]
  have hstop : start * v.width + (i + 1) * v.width ≤ (start + count) * v.width := by
    rw [← Nat.add_mul]
    exact Nat.mul_le_mul_right _ (Nat.add_le_add_left hi start)
  rw [row, row, hwidth, elements_of_sliced h, Elements.extract_extract, Nat.min_eq_left hstop,
    ← Nat.add_mul, ← Nat.add_mul, Nat.add_assoc]

/-- The rows of a slice are consecutive rows of the whole. -/
theorem rowList_of_sliceRows (hrows : v.rows = some rows) (hrange : start + count ≤ rows)
    (h : v.sliceRows start count = .ok w) : w.rowList = (v.rowList.drop start).take count := by
  have hcount : w.rows = some count := by rw [Value.rows, (eq_of_sliceRows h).2, List.head?_cons]
  refine List.ext_getElem? fun i => ?_
  by_cases hi : i < count
  · have hlt : start + i < rows := by omega
    rw [getElem?_rowList hcount hi, List.getElem?_take_of_lt hi, List.getElem?_drop,
      getElem?_rowList hrows hlt, row_of_sliceRows h hi]
  · rw [List.getElem?_eq_none (by rw [length_rowList hcount]; omega),
      List.getElem?_eq_none (by rw [List.length_take]; omega)]

end Value

namespace TrainingPlan

variable {plan : TrainingPlan} {rows start stop i j : Nat} {window : Nat × Nat}
  {windows : List (Nat × Nat)} {v : Value} {slices : List Value}

/-- The number of rows that the windows of an epoch reach. -/
def covered (plan : TrainingPlan) (rows : Nat) : Nat :=
  match plan.partialBatch with
  | .include => rows
  | .drop => rows - rows % plan.batchSize

/-- A plan covers no rows beyond the last one. -/
theorem covered_le (plan : TrainingPlan) (rows : Nat) : plan.covered rows ≤ rows := by
  unfold covered
  split
  · exact Nat.le_refl rows
  · exact Nat.sub_le _ _

/-! ## The windows by their number -/

/-- The windows of an epoch begin one batch apart. All are full, but for one of the rows that are
left over, if these are included. -/
theorem getElem?_windows_eq_some_iff (hbatch : 0 < plan.batchSize) :
    (plan.windows rows)[j]? = some window ↔ window.1 = j * plan.batchSize ∧
      (j < rows / plan.batchSize ∧ window.2 = plan.batchSize ∨
        j = rows / plan.batchSize ∧ 0 < rows % plan.batchSize ∧ plan.partialBatch = .include ∧
          window.2 = rows % plan.batchSize) := by
  obtain ⟨first, count⟩ := window
  rw [windows_eq (Nat.ne_of_gt hbatch), fullWindows]
  -- the full windows come first, and at most one window of the remaining rows follows
  by_cases hj : j < rows / plan.batchSize
  · rw [List.getElem?_append_left (by simpa using hj)]
    simp only [List.getElem?_map, List.getElem?_range hj, Option.map_some, Option.some.injEq,
      Prod.mk.injEq]
    constructor
    · rintro ⟨rfl, rfl⟩
      exact ⟨rfl, .inl ⟨hj, rfl⟩⟩
    · rintro ⟨rfl, ⟨-, rfl⟩ | ⟨rfl, -⟩⟩
      · exact ⟨rfl, rfl⟩
      · exact absurd hj (Nat.lt_irrefl _)
  · rw [List.getElem?_append_right (by simpa using hj), List.length_map, List.length_range]
    split
    · next hrest =>
      rw [List.getElem?_singleton]
      constructor
      · intro h
        split at h <;> cases h
        have heq : j = rows / plan.batchSize := by omega
        exact ⟨by rw [heq], .inr ⟨heq, hrest.1, hrest.2, rfl⟩⟩
      · rintro ⟨rfl, ⟨hlt, -⟩ | ⟨rfl, -, -, rfl⟩⟩
        · exact absurd hlt hj
        · rw [if_pos (Nat.sub_self _)]
    · next hrest =>
      refine iff_of_false (by simp) ?_
      rintro ⟨-, ⟨hlt, -⟩ | ⟨-, hpos, hinclude, -⟩⟩
      · exact hj hlt
      · exact hrest ⟨hpos, hinclude⟩

/-- Windows are not empty and at most a batch long. All but the last one are a batch long, and so is
the last one when the rows that are left over are dropped. -/
theorem length_of_getElem?_windows (hbatch : 0 < plan.batchSize)
    (h : (plan.windows rows)[j]? = some window) :
    0 < window.2 ∧ window.2 ≤ plan.batchSize ∧ (window.2 = plan.batchSize ∨
      plan.partialBatch = .include ∧ j + 1 = (plan.windows rows).length) := by
  obtain ⟨-, ⟨-, hfull⟩ | ⟨rfl, hpos, hinclude, hrest⟩⟩ :=
    (getElem?_windows_eq_some_iff hbatch).1 h
  · rw [hfull]
    exact ⟨hbatch, Nat.le_refl _, .inl rfl⟩
  · rw [hrest]
    refine ⟨hpos, Nat.le_of_lt (Nat.mod_lt _ hbatch), .inr ⟨hinclude, ?_⟩⟩
    rw [windows_eq (Nat.ne_of_gt hbatch), if_pos ⟨hpos, hinclude⟩]
    simp [fullWindows]

/-- The window that holds a row, and the place of the row in it. -/
theorem exists_window_of_lt_covered (hbatch : 0 < plan.batchSize) (hi : i < plan.covered rows) :
    ∃ count, (plan.windows rows)[i / plan.batchSize]? =
      some (i / plan.batchSize * plan.batchSize, count) ∧ i % plan.batchSize < count := by
  have hrows : i < rows := Nat.lt_of_lt_of_le hi (plan.covered_le rows)
  have hwhole := Nat.div_add_mod' rows plan.batchSize
  have hplace := Nat.div_add_mod' i plan.batchSize
  have hdiv : i / plan.batchSize ≤ rows / plan.batchSize :=
    Nat.div_le_div_right (Nat.le_of_lt hrows)
  obtain hlt | heq := Nat.lt_or_eq_of_le hdiv
  · exact ⟨plan.batchSize, (getElem?_windows_eq_some_iff hbatch).2 ⟨rfl, .inl ⟨hlt, rfl⟩⟩,
      Nat.mod_lt _ hbatch⟩
  · -- the row comes after all full batches
    have hmod : i % plan.batchSize < rows % plan.batchSize := by rw [heq] at hplace; omega
    have hinclude : plan.partialBatch = .include := by
      unfold covered at hi
      split at hi
      · assumption
      · rw [heq] at hplace
        omega
    exact ⟨rows % plan.batchSize, (getElem?_windows_eq_some_iff hbatch).2
      ⟨rfl, .inr ⟨heq, by omega, hinclude, rfl⟩⟩, hmod⟩

/-! ## The windows one after the other -/

/-- Windows that follow each other without gaps from one row to another. -/
inductive Spans : Nat → List (Nat × Nat) → Nat → Prop where
  | nil (start : Nat) : Spans start [] start
  | cons {start count stop : Nat} {windows : List (Nat × Nat)} :
      Spans (start + count) windows stop → Spans start ((start, count) :: windows) stop

namespace Spans

/-- One window spans its own rows. -/
theorem singleton (start count : Nat) : Spans start [(start, count)] (start + count) :=
  .cons (.nil _)

/-- Windows that follow each other span what each of them spans. -/
theorem append {middle : Nat} {before after : List (Nat × Nat)} (h : Spans start before middle)
    (h' : Spans middle after stop) : Spans start (before ++ after) stop := by
  induction h with
  | nil => exact h'
  | cons _ ih => exact .cons (ih h')

/-- Windows span rows from a start to a later stop. -/
theorem le (h : Spans start windows stop) : start ≤ stop := by
  induction h with
  | nil => exact Nat.le_refl _
  | cons _ ih => exact Nat.le_trans (Nat.le_add_right _ _) ih

/-- Windows hold the rows between the first and the last one. -/
theorem foldl_add (h : Spans start windows stop) (total : Nat) :
    windows.foldl (fun n w => n + w.2) total + start = total + stop := by
  induction h generalizing total with
  | nil => rfl
  | @cons start count stop _ _ ih =>
    have htail := ih (total + count)
    rw [List.foldl_cons]
    dsimp only
    omega

/-- The slices of windows that follow each other have, one after the other, the rows between. -/
theorem flatMap_rowList (h : Spans start windows stop) (hrows : v.rows = some rows)
    (hstop : stop ≤ rows)
    (hslices : List.Forall₂ (fun w s => v.sliceRows w.1 w.2 = .ok s) windows slices) :
    slices.flatMap Value.rowList = (v.rowList.take stop).drop start := by
  induction h generalizing slices with
  | nil start =>
    cases hslices
    rw [List.flatMap_nil, List.drop_eq_nil_of_le (List.length_take_le _ _)]
  | @cons start count stop windows h ih =>
    cases hslices with | cons hslice hslices =>
    have hle := h.le
    -- the rows of the first window, and those after it
    have hsplit : (v.rowList.take stop).drop start =
        ((v.rowList.take stop).drop start).take count ++
          ((v.rowList.take stop).drop start).drop count := (List.take_append_drop _ _).symm
    have hfirst : ((v.rowList.take stop).drop start).take count =
        (v.rowList.drop start).take count := by
      rw [List.drop_take, List.take_take, Nat.min_eq_left (by omega)]
    rw [List.flatMap_cons, ih hstop hslices, hsplit, List.drop_drop, hfirst,
      Value.rowList_of_sliceRows hrows (by omega) hslice]

end Spans

/-- Full windows follow each other without gaps. -/
theorem spans_range (batchSize full : Nat) :
    Spans 0 ((List.range full).map fun i => (i * batchSize, batchSize)) (full * batchSize) := by
  induction full with
  | zero =>
    rw [Nat.zero_mul]
    exact .nil 0
  | succ full ih =>
    rw [List.range_succ, List.map_append, Nat.succ_mul]
    exact ih.append (.singleton _ _)

/-- The windows of an epoch follow each other from the first row on. -/
theorem spans_windows (hbatch : 0 < plan.batchSize) (rows : Nat) :
    Spans 0 (plan.windows rows) (plan.covered rows) := by
  have hfull : Spans 0 (plan.fullWindows rows) (rows / plan.batchSize * plan.batchSize) :=
    spans_range _ _
  have hwhole := Nat.div_add_mod' rows plan.batchSize
  rw [windows_eq (Nat.ne_of_gt hbatch)]
  -- the rows that are left over are covered by a window of their own, or not at all
  split
  · next hrest =>
    have hcovered : plan.covered rows =
        rows / plan.batchSize * plan.batchSize + rows % plan.batchSize := by
      rw [covered, hrest.2, hwhole]
    rw [hcovered]
    exact hfull.append (.singleton _ _)
  · next hrest =>
    have hcovered : plan.covered rows = rows / plan.batchSize * plan.batchSize := by
      unfold covered
      split
      · next hinclude => simp only [hinclude, and_true, Nat.not_lt, Nat.le_zero] at hrest; omega
      · omega
    rw [hcovered, List.append_nil]
    exact hfull

/-! ## One epoch -/

/-- What the windows of an epoch take of a value with a number of rows. -/
structure Dealt (plan : TrainingPlan) (rows : Nat) (v : Value) (slices : List Value) : Prop where
  /-- Every window is a slice of the value. -/
  sliced : List.Forall₂ (fun w s => v.sliceRows w.1 w.2 = .ok s) (plan.windows rows) slices
  /-- A slice has the type and the row width of the value, and elements that fill its shape. -/
  whole : ∀ s ∈ slices, s.type = v.type ∧ s.shape.tail = v.shape.tail ∧
    s.elements.size = s.shape.size
  /-- The rows of the slices are the rows of the value, in order and each of them once. -/
  rows_eq : slices.flatMap Value.rowList = v.rowList.take (plan.covered rows)
  /-- Which slice a row is found in, and where, depends on nothing but its number. -/
  aligned : ∀ i < plan.covered rows, ∃ s, slices[i / plan.batchSize]? = some s ∧
    s.rowList[i % plan.batchSize]? = some (v.row i)

/-- What the slices of the windows are, if they exist. -/
theorem dealt_of_slices (hbatch : 0 < plan.batchSize) (hrows : v.rows = some rows)
    (hslices : List.Forall₂ (fun w s => v.sliceRows w.1 w.2 = .ok s) (plan.windows rows) slices) :
    plan.Dealt rows v slices := by
  constructor
  case sliced => exact hslices
  case whole =>
    intro s hs
    obtain ⟨w, -, hslice⟩ := exists_mem_of_forall₂ hslices.flip hs
    obtain ⟨htype, hshape⟩ := Value.eq_of_sliceRows hslice
    exact ⟨htype, by rw [hshape, List.tail_cons], s.size_eq⟩
  case rows_eq =>
    exact (spans_windows hbatch rows).flatMap_rowList hrows (plan.covered_le rows) hslices
  case aligned =>
    intro i hi
    obtain ⟨count, hwindow, hlt⟩ := exists_window_of_lt_covered hbatch hi
    obtain ⟨s, hs, hslice⟩ := exists_of_forall₂ hslices hwindow
    have hcount : s.rows = some count := by rw [Value.rows, (Value.eq_of_sliceRows hslice).2]; rfl
    refine ⟨s, hs, ?_⟩
    -- the rows before the window and the place in it add up to the number of the row
    rw [Value.getElem?_rowList hcount hlt, Value.row_of_sliceRows hslice hlt, Nat.div_add_mod']

/-- One epoch feeds every row once, in order and aligned. The windows are not empty, at most a
batch long, and a full batch long but for the last one when the rows left over are included.
Together they hold no more rows than there are: all of them, or all but those left over. Values
with that many rows can be sliced on every window, and the slices of each of them are its rows in
order, so that a row of one value is fed together with the rows of the same number of the others. -/
theorem epoch_feeds_rows_once {values : List Value} (hbatch : 1 ≤ plan.batchSize)
    (hrows : ∀ v ∈ values, v.rows = some rows) :
    (∀ j window, (plan.windows rows)[j]? = some window →
      0 < window.2 ∧ window.2 ≤ plan.batchSize ∧ (window.2 = plan.batchSize ∨
        plan.partialBatch = .include ∧ j + 1 = (plan.windows rows).length)) ∧
    (plan.windows rows).foldl (fun n w => n + w.2) 0 = plan.covered rows ∧
    plan.covered rows ≤ rows ∧
    ∃ batches,
      List.Forall₂ (fun w batch => Program.sliceAll values w.1 w.2 = .ok batch)
        (plan.windows rows) batches ∧
      ∀ (c : Nat) (v : Value), values[c]? = some v → ∃ slices,
        List.Forall₂ (fun batch s => batch[c]? = some s) batches slices ∧
          plan.Dealt rows v slices := by
  refine ⟨fun j window => length_of_getElem?_windows hbatch, ?_, plan.covered_le rows, ?_⟩
  · simpa using (spans_windows hbatch rows).foldl_add 0
  obtain ⟨batches, hbatches⟩ := exists_forall₂ fun w hw =>
    Program.exists_sliceAll hrows (le_rows_of_mem_windows hw : w.1 + w.2 ≤ rows)
  refine ⟨batches, hbatches, fun c v hv => ?_⟩
  -- the slices of one value are what stands at its place in every batch
  have hplace : ∀ batch ∈ batches, ∃ s, batch[c]? = some s := by
    intro batch hbatch
    obtain ⟨w, -, hsliced⟩ := exists_mem_of_forall₂ hbatches.flip hbatch
    obtain ⟨s, hs, -⟩ := exists_of_forall₂ (Program.sliceAll_eq_ok_iff.1 hsliced) hv
    exact ⟨s, hs⟩
  obtain ⟨slices, hslices⟩ := exists_forall₂ hplace
  refine ⟨slices, hslices, dealt_of_slices hbatch (hrows v (List.mem_of_getElem? hv)) ?_⟩
  refine forall₂_compose hbatches hslices fun {w batch s} _ hsliced hs => ?_
  obtain ⟨s', hs', hslice⟩ := exists_of_forall₂ (Program.sliceAll_eq_ok_iff.1 hsliced) hv
  rwa [Option.some.inj (hs.symm.trans hs')]

/-- Five rows of a matrix of numbers, a list of integers and a matrix without columns. -/
def fiveRows : List Value :=
  [⟨[5, 2], .numbers #[10, 11, 20, 21, 30, 31, 40, 41, 50, 51], rfl⟩,
    ⟨[5], .integers #[1, 2, 3, 4, 5], rfl⟩, ⟨[5, 0], .numbers #[], rfl⟩]

/-- In batches of two they are fed in three windows, the last of one row. -/
theorem five_rows_fed_once :
    TrainingPlan.windows { batchSize := 2 } 5 = [(0, 2), (2, 2), (4, 1)] ∧
    ∃ batches, List.Forall₂ (fun w batch => Program.sliceAll fiveRows w.1 w.2 = .ok batch)
        [(0, 2), (2, 2), (4, 1)] batches ∧
      batches.map (·.map (·.elements)) =
        [[.numbers #[10, 11, 20, 21], .integers #[1, 2], .numbers #[]],
          [.numbers #[30, 31, 40, 41], .integers #[3, 4], .numbers #[]],
          [.numbers #[50, 51], .integers #[5], .numbers #[]]] := by
  have hrows : ∀ v ∈ fiveRows, v.rows = some 5 := by simp [fiveRows, Value.rows]
  have hbatch : 1 ≤ TrainingPlan.batchSize { batchSize := 2 } := by decide
  obtain ⟨-, -, -, batches, hbatches, -⟩ := epoch_feeds_rows_once hbatch hrows
  refine ⟨by decide, batches, hbatches, ?_⟩
  -- each batch is what slicing gives
  obtain _ | ⟨hfirst, hbatches⟩ := hbatches
  obtain _ | ⟨hsecond, hbatches⟩ := hbatches
  obtain _ | ⟨hthird, hbatches⟩ := hbatches
  obtain _ | _ := hbatches
  cases hfirst
  cases hsecond
  cases hthird
  rfl

end TrainingPlan
end TensorGraph
