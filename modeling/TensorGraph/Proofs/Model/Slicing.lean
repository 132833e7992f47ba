import TensorGraph.Proofs.Model.Predicting

/-!
# Predictions row by row

A compiled model predicts every row from the same row of the features. So windows of the features
can be asked for on their own, and give the same windows of the predictions.

## Main results

* `Model.Stands.settings_windowed`: what predictions on windows of the features read.
* `Model.predicts_row_by_row`: the predictions on windows of the features.
-/

namespace TensorGraph

open Engine

variable {n : Network} {m : Model} {p : Program} {e e' e₀ e₁ : Engine} {s : Session}
  {features slices ys : List Value} {rows start count : Nat}

/-- What ran after some records could have been run before them. -/
theorem Engine.Ran.of_reported {f : Function} {feeds : List (Node × Value)}
    {ev : Evaluation Float32} {values : List Value} (h : Ran e s f feeds ev values e')
    (hreported : Reported e₀ e) : Ran e₀ s f feeds ev values e' := by
  obtain ⟨records, rfl⟩ := hreported
  obtain ⟨more, hjournal⟩ := h.journal
  exact { h with journal := ⟨records ++ more, by rw [hjournal, Array.append_assoc]⟩ }

namespace Model.Stands

/-- Features that fit are matrices. -/
theorem Fits.matrices (hfits : Fits p e rows features) (h : m.Stands p e) :
    List.Forall₂ (fun node v => (∃ (cols : Nat) (name : Option String),
      e.graph.Holds node ⟨.placeholder, [openAxis, (cols : Int)], .f32, name⟩ ∧ v.type = .f32 ∧
        v.shape = [rows, cols] ∧ 0 < cols)) p.inputs features := by
  refine List.forall₂_iff_zip.2 ⟨hfits.length.symm, fun {node v} hfeed => ?_⟩
  obtain ⟨hnode, hv⟩ := List.of_mem_zip hfeed
  obtain ⟨cols, name, hholds⟩ := h.exists_placeholder hnode
  exact ⟨cols, name, hholds, shape_of_admitted hholds (hfits.admitted _ hfeed) (hfits.rows v hv)⟩

/-- Windows of features that fit, fit too. -/
theorem Fits.sliceAll (hfits : Fits p e rows features) (h : m.Stands p e) (hcount : 0 < count)
    (hslices : Program.sliceAll features start count = .ok slices) : Fits p e count slices := by
  have hsliced := Program.sliceAll_eq_ok_iff.1 hslices
  constructor
  case feeds =>
    refine forall₂_compose (hfits.matrices h) hsliced fun _ hmatrix hw => ?_
    obtain ⟨cols, name, hholds, htype, hshape, hcols⟩ := hmatrix
    obtain ⟨hwtype, hwshape⟩ := Value.eq_of_sliceRows hw
    rw [hshape] at hwshape
    exact admitted_of_shape hholds (hwtype.trans htype) hwshape hcount hcols
  case rows =>
    intro w hw
    obtain ⟨v, -, hv⟩ := exists_mem_of_forall₂ hsliced.flip hw
    rw [Value.rows, (Value.eq_of_sliceRows hv).2, List.head?_cons]

/-- What a prediction on windows of the features reads. -/
theorem settings_windowed (h : m.Stands p e) (hfits : Fits p e rows features)
    (hrange : start + count ≤ rows) (hslices : Program.sliceAll features start count = .ok slices) :
    (p.predictSetting e s features).Windowed (p.predictSetting e s slices) start count := by
  have hfed := forall₂_zip (T := fun feed feed' => feed'.1 = feed.1 ∧
      (.ofValue feed'.2 : Tensor Float32) = (Tensor.ofValue feed.2).window start count)
    (hfits.matrices h) (Program.sliceAll_eq_ok_iff.1 hslices) (by
      rintro node v w ⟨cols, -, -, -, hshape, -⟩ hw
      exact ⟨rfl, Tensor.ofValue_sliceRows hshape hrange hw⟩)
  refine ⟨rfl, rfl, rfl, rfl, fun {slot t} ht => ?_⟩
  exact get?_feedTable_of_forall₂ (f := fun t => t.window start count) hfed
    (fun hnone => by simp at hnone) ht

/-- The values of a prediction on windows of the features are slices. -/
theorem sliceAll_values (h : m.Stands p e) (hfits : Fits p e rows features)
    (hrange : start + count ≤ rows) (hslices : Program.sliceAll features start count = .ok slices)
    {e'' : Engine} {ys' : List Value} {ev ev' : Evaluation Float32}
    (hran : Ran e s p.predictFunction (p.inputs.zip features) ev ys e')
    (hran' : Ran e s p.predictFunction (p.inputs.zip slices) ev' ys' e'') :
    Program.sliceAll ys start count = .ok ys' := by
  obtain ⟨hsettled, hfinished, hlisted⟩ := h.settled hran
  have hsettled' := (h.settled hran').1
  have hsupplies := h.supplies hran.active hfits
  have hvalues := hran.values
  have hvalues' := hran'.values
  simp only [h.predictFunction, Function.ofNodes] at hvalues hvalues'
  refine Program.sliceAll_eq_ok_iff.2 (forall₂_compose hvalues.flip hvalues' ?_)
  rintro y node y' hnode ⟨k, hk, rfl⟩ ⟨k', hk', rfl⟩
  obtain rfl := Option.some.inj (hk.symm.trans hk')
  obtain ⟨-, cols, -, hrows⟩ := h.exists_rowwise hnode
  have hslot := hlisted node hnode
  -- the value on the window is the window of the value, by recursion over how it is computed
  have hwindow := hsettled.window_of_rowwise hsettled' (h.settings_windowed hfits hrange hslices)
    hsupplies hfinished hrange hrows hslot
  rw [hwindow]
  have hshape := hsettled.shape_of_rowwise hsupplies hfinished hrows hslot
  exact Tensor.sliceRows_toValue hshape hrange _

end Model.Stands

/-- Predictions are made row by row. When a compiled model has predicted from features with a number
of rows in common, it also predicts from any window of these rows, and what it predicts are the
windows of what it predicted, whether it is asked before or after and however often in between: a
prediction leaves nothing behind but records. -/
theorem Model.predicts_row_by_row {inputs outputs : List LayerId} {losses : List Loss}
    {descent : Descent} {metrics : List Metric} (hgrown : n.Grown)
    (hcreate : Model.create n inputs outputs losses descent metrics = .ok m)
    (hreachable : e₀.Reachable) (hcompile : m.compile e₀ = .ok p e₁) (hlater : Changes e₁ e)
    (hrows : ∀ v ∈ features, v.rows = some rows) (hcount : 0 < count)
    (hrange : start + count ≤ rows) (hpredict : p.predict features e = .ok ys e') :
    Reported e e' ∧ ∃ slices ys', Program.sliceAll features start count = .ok slices ∧
      Program.sliceAll ys start count = .ok ys' ∧
      ∀ e₂, Reported e e₂ → ∃ e₃, p.predict slices e₂ = .ok ys' e₃ := by
  have hstands := stands_of_compile hgrown hcreate hreachable hcompile hlater
  obtain ⟨hnodup, hfits, s, ev, hran⟩ := hstands.exists_ran hpredict hrows
  obtain ⟨slices, hslices⟩ := Program.exists_sliceAll hrows hrange
  have hsliced := hfits.sliceAll hstands hcount hslices
  -- a prediction succeeds on every engine that differs by records only, in the same session
  have hanswer : ∀ e₂, Reported e e₂ →
      ∃ ys' e₃, Program.sliceAll ys start count = .ok ys' ∧ p.predict slices e₂ = .ok ys' e₃ := by
    intro e₂ hreported
    have hstands₂ := stands_of_compile hgrown hcreate hreachable hcompile
      (hlater.trans hreported.changes)
    obtain ⟨records, rfl⟩ := hreported
    obtain ⟨ys', e₃, hpredict'⟩ := hstands₂.exists_predict hran.active hnodup
      ⟨hsliced.feeds, hsliced.rows⟩
    obtain ⟨-, -, s', ev', hran'⟩ := hstands₂.exists_ran hpredict' hsliced.rows
    obtain rfl := Option.some.inj (hran.active.symm.trans hran'.active)
    exact ⟨ys', e₃, hstands.sliceAll_values hfits hrange hslices hran
      (hran'.of_reported ⟨records, rfl⟩), hpredict'⟩
  obtain ⟨ys', -, hys', -⟩ := hanswer e .refl
  refine ⟨?_, slices, ys', hslices, hys', fun e₂ hreported => ?_⟩
  · have hasked := Program.reported_of_asking hstands.sound.typed
      ((reads_of_compile hreachable.sound hcompile).extend hlater.extends)
      (u := .predict features) rfl
    simpa only [after, Program.Use.call, bind, EStateM.bind, pure, EStateM.pure, hpredict]
      using hasked
  · obtain ⟨ys'', e₃, hys'', hpredict'⟩ := hanswer e₂ hreported
    cases hys'.symm.trans hys''
    exact ⟨e₃, hpredict'⟩

/-- Two of the three rows that a dense layer with a softmax and a dropout have predicted. -/
theorem Model.chained_predicts_slices : ∃ p e ys e' slices ys' e'',
    (chainedModel [⟨0, 0⟩]).compile (.create 0 0) = .ok p e ∧
    p.predict [.full [3, 2] 1] e = .ok ys e' ∧
    Program.sliceAll [.full [3, 2] 1] 1 2 = .ok slices ∧
    Program.sliceAll ys 1 2 = .ok ys' ∧ p.predict slices e' = .ok ys' e'' := by
  have hcreate : createChained [⟨0, 0⟩] = .ok (chainedModel [⟨0, 0⟩]) := rfl
  obtain ⟨⟨p, e⟩, e₁, hrun, hgives⟩ := exists_of_answer
    (c := (chainedModel [⟨0, 0⟩]).compileKeeping) (e := .create 0 0)
    (f := fun r => gives (r.1.predict [.full [3, 2] 1]) r.2) (b := true) (by decide +kernel)
  obtain ⟨_, _, hcompile, hrun⟩ := bind_eq_ok_iff.1 hrun
  cases hrun
  obtain ⟨ys, e', hpredict⟩ := exists_of_gives hgives
  have hrows : ∀ v ∈ [Value.full [3, 2] 1], v.rows = some 3 := by simp [Value.rows, Value.full]
  have hrange : 1 + 2 ≤ 3 := by decide
  obtain ⟨hreported, slices, ys', hslices, hys', hanswer⟩ := predicts_row_by_row grown_chained
    hcreate (.create 0 0) hcompile .refl hrows Nat.zero_lt_two hrange hpredict
  obtain ⟨e'', hagain⟩ := hanswer e' hreported
  exact ⟨p, e, ys, e', slices, ys', e'', hcompile, hpredict, hslices, hys', hagain⟩

end TensorGraph
