import TensorGraph.Model.Program
import TensorGraph.Proofs.Run.Succeeding

/-!
# Windows of training data

The batches of an epoch are windows of equal length, but for a last one of the rows left over. Two
windows of equal length hold batches of equal shapes, so a length that a batch has for the first
time is found only at the beginning of the first epoch or at its end.

## Main results

* `Value.resembles_of_sliceRows`: slices of equal length.
* `Program.exists_sliceAll`: slices within the rows of the data.
* `TrainingPlan.eq_windows_of_new_length`: where a window of a new length is found.
-/

namespace TensorGraph

open Value (Resembles)

theorem Elements.type_extract (xs : Elements) (start stop : Nat) :
    (xs.extract start stop).type = xs.type := by
  cases xs <;> rfl

/-- A part has as many elements as there are up to its end. -/
theorem Elements.size_extract (xs : Elements) (start stop : Nat) :
    (xs.extract start stop).size = min stop xs.size - start := by
  cases xs <;> exact Array.size_extract

namespace Value

variable {v w w' : Value} {start start' count rows : Nat}

theorem Resembles.rows_eq (h : v.Resembles w) : w.rows = v.rows := congrArg List.head? h.shape

/-- A slice has as many rows as were asked for, and the elements of these rows. -/
theorem slice_of_sliceRows (h : v.sliceRows start count = .ok w) :
    w.shape = count :: v.shape.tail ∧
      w.elements = v.elements.extract (start * Shape.size v.shape.tail)
        ((start + count) * Shape.size v.shape.tail) := by
  unfold sliceRows at h
  split at h
  · cases h
  · next rows rest hshape =>
    split at h
    · cases h
    · dsimp only [ofElements] at h
      split at h <;> cases h
      rw [hshape, List.tail_cons]
      exact ⟨rfl, rfl⟩

/-- A slice has the type and the width of the whole. -/
theorem eq_of_sliceRows (h : v.sliceRows start count = .ok w) :
    w.type = v.type ∧ w.shape = count :: v.shape.tail := by
  obtain ⟨hshape, helements⟩ := slice_of_sliceRows h
  exact ⟨(congrArg Elements.type helements).trans (Elements.type_extract _ _ _), hshape⟩

/-- Slices of equal length are similar. -/
theorem resembles_of_sliceRows (h : v.sliceRows start count = .ok w)
    (h' : v.sliceRows start' count = .ok w') : w.Resembles w' := by
  obtain ⟨htype, hshape⟩ := eq_of_sliceRows h
  obtain ⟨htype', hshape'⟩ := eq_of_sliceRows h'
  exact ⟨htype'.trans htype.symm, hshape'.trans hshape.symm⟩

/-- There is a slice of any of the rows. -/
theorem exists_sliceRows (hrows : v.rows = some rows) (h : start + count ≤ rows) :
    ∃ w, v.sliceRows start count = .ok w := by
  obtain ⟨rest, hshape⟩ := List.head?_eq_some_iff.1 hrows
  have hsize : v.elements.size = rows * Shape.size rest := by
    rw [v.size_eq, hshape]
    rfl
  -- rows are contiguous, so the slice has as many elements as its shape asks for
  have hfits : (v.elements.extract (start * Shape.size rest)
      ((start + count) * Shape.size rest)).size = Shape.size (count :: rest) := by
    rw [Elements.size_extract, hsize, Nat.min_eq_left (Nat.mul_le_mul_right _ h), ← Nat.sub_mul,
      Nat.add_sub_cancel_left]
    rfl
  refine ⟨⟨count :: rest, _, hfits⟩, ?_⟩
  unfold sliceRows
  split
  · next hnil => simp [hnil] at hshape
  · next rows' rest' hshape' =>
    obtain ⟨rfl, rfl⟩ := List.cons.inj (hshape'.symm.trans hshape)
    rw [if_neg (Nat.not_lt.2 h), ofElements, dif_pos hfits]

end Value

namespace Program

variable {values values' slices slices' : List Value} {start start' count rows : Nat}

/-- Values are sliced one by one. -/
theorem sliceAll_eq_ok_iff : sliceAll values start count = .ok slices ↔
    List.Forall₂ (fun v w => v.sliceRows start count = .ok w) values slices := by
  unfold sliceAll
  induction values generalizing slices with
  | nil =>
    rw [List.mapM_nil, List.forall₂_nil_left_iff]
    exact ⟨fun h => (Except.ok.inj h).symm, fun h => h ▸ rfl⟩
  | cons v values ih =>
    rw [List.mapM_cons, List.forall₂_cons_left_iff, except_bind_eq_ok_iff]
    constructor
    · rintro ⟨w, hw, h⟩
      obtain ⟨ws, hws, h⟩ := except_bind_eq_ok_iff.1 h
      cases h
      exact ⟨w, ws, hw, ih.1 hws, rfl⟩
    · rintro ⟨w, ws, hw, hws, rfl⟩
      exact ⟨w, hw, by rw [ih.2 hws]; rfl⟩

/-- Rows that all values have can be sliced out of all of them. -/
theorem exists_sliceAll (hrows : ∀ v ∈ values, v.rows = some rows) (h : start + count ≤ rows) :
    ∃ slices, sliceAll values start count = .ok slices := by
  obtain ⟨slices, hslices⟩ := exists_forall₂ fun v hv => Value.exists_sliceRows (hrows v hv) h
  exact ⟨slices, sliceAll_eq_ok_iff.2 hslices⟩

/-- Windows of equal length hold similar batches. -/
theorem forall₂_of_sliceAll (h : sliceAll values start count = .ok slices)
    (h' : sliceAll values start' count = .ok slices') : List.Forall₂ Resembles slices slices' := by
  have hslices := (sliceAll_eq_ok_iff.1 h).flip
  exact forall₂_compose hslices (sliceAll_eq_ok_iff.1 h') fun _ => Value.resembles_of_sliceRows

/-- Values share a number of rows if each of them has it. -/
theorem rows_of_sharedRows {known : Option Nat} (h : sharedRows known values = .ok rows) :
    (∀ count, known = some count → count = rows) ∧ ∀ v ∈ values, v.rows = some rows := by
  induction values generalizing known with
  | nil =>
    cases h
    refine ⟨?_, by simp⟩
    rintro count rfl
    rfl
  | cons v values ih =>
    simp only [sharedRows] at h
    -- the first value with rows fixes the count, and the others have to agree
    split at h
    · cases h
    · next count hcount =>
      obtain ⟨hknown, hvalues⟩ := ih h
      refine ⟨nofun, List.forall_mem_cons.2 ⟨?_, hvalues⟩⟩
      rw [hcount, hknown count rfl]
    · next count expected hcount =>
      split at h
      · next heq =>
        obtain ⟨hknown, hvalues⟩ := ih h
        refine ⟨hknown, List.forall_mem_cons.2 ⟨?_, hvalues⟩⟩
        rw [hcount, heq, hknown expected rfl]
      · cases h

/-- The number of rows counts the rows of every value. -/
theorem rows_of_rowCount (h : rowCount values = .ok rows) : ∀ v ∈ values, v.rows = some rows :=
  (rows_of_sharedRows h).2

/-- Values that resemble each other share the same number of rows. -/
theorem sharedRows_congr (h : List.Forall₂ Resembles values values') (known : Option Nat) :
    sharedRows known values' = sharedRows known values := by
  induction h generalizing known with
  | nil => rfl
  | cons hvalue _ ih => simp only [sharedRows, hvalue.rows_eq, ih]

/-- Similar values have equally many rows. -/
theorem rowCount_congr (h : List.Forall₂ Resembles values values') :
    rowCount values' = rowCount values :=
  sharedRows_congr h none

end Program

namespace TrainingPlan

variable {plan : TrainingPlan} {rows epochs : Nat} {window : Nat × Nat}
  {done rest : List (Nat × Nat)}

/-- The full batches of an epoch, in order. -/
def fullWindows (plan : TrainingPlan) (rows : Nat) : List (Nat × Nat) :=
  (List.range (rows / plan.batchSize)).map fun i => (i * plan.batchSize, plan.batchSize)

/-- The windows of a plan are the full ones, and one with the rest if that is included. -/
theorem windows_eq (h : plan.batchSize ≠ 0) (rows : Nat) :
    plan.windows rows = plan.fullWindows rows ++
      if 0 < rows % plan.batchSize ∧ plan.partialBatch = .include then
        [(rows / plan.batchSize * plan.batchSize, rows % plan.batchSize)] else [] := by
  rw [windows, if_neg h]
  rfl

/-- Full windows have the size of a batch. -/
theorem snd_of_mem_fullWindows (h : window ∈ plan.fullWindows rows) :
    window.2 = plan.batchSize := by
  obtain ⟨i, -, rfl⟩ := List.mem_map.1 h
  rfl

/-- A window is a full one, or of the rows that are left over. -/
theorem mem_windows (h : window ∈ plan.windows rows) :
    window ∈ plan.fullWindows rows ∨ plan.partialBatch = .include ∧ 0 < rows % plan.batchSize ∧
      window = (rows / plan.batchSize * plan.batchSize, rows % plan.batchSize) ∧
      plan.windows rows = plan.fullWindows rows ++ [window] := by
  -- batches of no rows give no windows
  by_cases hbatch : plan.batchSize = 0
  · rw [windows, if_pos hbatch] at h
    cases h
  rw [windows_eq hbatch] at h ⊢
  split at h
  · next hrest =>
    obtain hfull | hlast := List.mem_append.1 h
    · exact .inl hfull
    · obtain rfl := List.mem_singleton.1 hlast
      exact .inr ⟨hrest.2, hrest.1, rfl, by rw [if_pos hrest]⟩
  · exact .inl (by simpa using h)

/-- Windows stay within the rows. -/
theorem le_rows_of_mem_windows (h : window ∈ plan.windows rows) : window.1 + window.2 ≤ rows := by
  obtain hfull | ⟨-, -, rfl, -⟩ := mem_windows h
  · obtain ⟨i, hi, rfl⟩ := List.mem_map.1 hfull
    calc i * plan.batchSize + plan.batchSize
        = (i + 1) * plan.batchSize := (Nat.succ_mul _ _).symm
      _ ≤ rows / plan.batchSize * plan.batchSize :=
        Nat.mul_le_mul_right _ (List.mem_range.1 hi)
      _ ≤ rows := Nat.div_mul_le_self _ _
  · exact Nat.le_of_eq (Nat.div_add_mod' rows plan.batchSize)

/-- The windows of several epochs are those of one. -/
theorem mem_windows_of_split
    (h : (List.replicate epochs (plan.windows rows)).flatten = done ++ window :: rest) :
    window ∈ plan.windows rows := by
  have hall : window ∈ (List.replicate epochs (plan.windows rows)).flatten := by simp [h]
  obtain ⟨_, hepoch, hwindow⟩ := List.mem_flatten.1 hall
  rwa [List.eq_of_mem_replicate hepoch] at hwindow

/-- A window whose length none before it has is the very first one, or the rows that are left over
at the end of the first epoch. -/
theorem eq_windows_of_new_length
    (h : (List.replicate epochs (plan.windows rows)).flatten = done ++ window :: rest)
    (hnew : ∀ w ∈ done, w.2 ≠ window.2) :
    done = [] ∨ plan.partialBatch = .include ∧ 0 < rows % plan.batchSize ∧
      plan.windows rows = done ++ [window] := by
  -- the windows of all epochs begin with those of one
  obtain ⟨more, hmore⟩ : ∃ more, (List.replicate epochs (plan.windows rows)).flatten =
      plan.windows rows ++ more := by
    cases epochs with
    | zero => simp at h
    | succ epochs => exact ⟨_, List.flatten_cons⟩
  have hmem := mem_windows_of_split h
  have hbatch : plan.batchSize ≠ 0 := fun hzero => by simp [windows, hzero] at hmem
  rw [hmore] at h
  have hbefore : done = (plan.windows rows ++ more).takeWhile (·.2 ≠ window.2) := by
    rw [h, List.takeWhile_append_of_pos (by simpa using hnew), List.takeWhile_cons_of_neg (by simp),
      List.append_nil]
  obtain hfull | ⟨hinclude, hrest, rfl, hlast⟩ := mem_windows hmem
  · -- the first batch is a full one, too
    obtain ⟨first, full, hsplit⟩ := List.exists_cons_of_ne_nil (List.ne_nil_of_mem hfull)
    have hfirst : first.2 = window.2 := by
      rw [snd_of_mem_fullWindows hfull, snd_of_mem_fullWindows (hsplit ▸ List.mem_cons_self)]
    left
    rw [hbefore, windows_eq hbatch, hsplit, List.cons_append, List.cons_append,
      List.takeWhile_cons_of_neg (by simpa using hfirst)]
  · -- the full batches are longer, and come before it
    have hlt : rows % plan.batchSize < plan.batchSize := Nat.mod_lt _ (Nat.pos_of_ne_zero hbatch)
    have hfull : plan.fullWindows rows = done := by
      rw [hbefore, hlast, List.append_assoc, List.takeWhile_append_of_pos, List.singleton_append,
        List.takeWhile_cons_of_neg (by simp), List.append_nil]
      intro w hw
      simpa [snd_of_mem_fullWindows hw] using Nat.ne_of_gt hlt
    exact .inr ⟨hinclude, hrest, hfull ▸ hlast⟩

end TrainingPlan
end TensorGraph
