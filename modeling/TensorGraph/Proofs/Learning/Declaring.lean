import TensorGraph.Proofs.Engine.Accepting
import TensorGraph.Proofs.Model.Attaching
import TensorGraph.Proofs.Shape.Semilattice

/-!
# How losses are declared

A loss compares predictions with targets of the same declared shape. The squared error and the cross
entropy of rows are declared with one number for every row, the negative likelihood with one number
for the batch. The cross entropy of probabilities is declared like the predictions, with one number
for every entry. So losses of outputs of several widths can be added up unless two of them are of
this last kind and have widths that do not stretch to each other.

## Main definitions

* `Loss.Accepted`: losses with parameters that are accepted.
* `Loss.declared`: the shape that a loss is declared with.

## Main results

* `Loss.exists_compile`: a loss with such parameters is compiled.
* `Loss.exists_bound_iff`: which losses stretch to a common shape.
-/

namespace TensorGraph

open Engine

namespace Loss

/-- A loss has parameters that are accepted. -/
def Accepted : Loss → Prop
  | negativeLogLikelihood ε => (0 < ε ∧ ε < 0.5) ∧ ¬1 - ε < ε
  | meanSquaredError | binaryCrossEntropy | categoricalCrossEntropy => True

/-- The shape of a loss of predictions of some shape. -/
def declared (shape : DeclaredShape) : Loss → DeclaredShape
  | meanSquaredError | categoricalCrossEntropy => shape.dropLast
  | binaryCrossEntropy => shape
  | negativeLogLikelihood _ => []

variable {e e' : Engine} {predictions targets node : Node} {loss : Loss} {shape : DeclaredShape}
  {op op' : Op} {name : String} {nodeName nodeName' : Option String}

section Compiling

variable (hactive : e.session.isSome)
  (hpredictions : e.graph.Holds predictions ⟨op, shape, .f32, nodeName⟩)
  (htargets : e.graph.Holds targets ⟨op', shape, .f32, nodeName'⟩)
include hactive hpredictions htargets

/-- The squared error of rows. -/
theorem exists_meanSquaredError (haxis : shape ≠ []) (hfree : e.Free (some name)) :
    ∃ node e', meanSquaredError.compile predictions targets (some name) e = .ok node e' ∧
      ∃ op, e'.graph.Holds node ⟨op, shape.dropLast, .f32, some name⟩ := by
  have hdifference := binary_eq hactive e.free_none .subtract hpredictions htargets rfl nofun
    shape.broadcast_self
  let e₁ := e.push ⟨.binary .subtract predictions.index targets.index, shape, .f32, none⟩
  have h₁ : e.Unnamed e₁ := unnamed_push rfl
  have hsquare := unary_eq (e := e₁) hactive e₁.free_none .square (e.graph.holds_push _) rfl
  let e₂ := e₁.push ⟨.unary .square e.graph.size, shape, .f32, none⟩
  have h₂ : e.Unnamed e₂ := h₁.push rfl
  have hmean := mean_eq (e := e₂) hactive (h₂.free hfree) (e₁.graph.holds_push _) rfl haxis
  exact ⟨_, _, (bind_of_ok hdifference).trans ((bind_of_ok hsquare).trans hmean), _,
    e₂.graph.holds_push _⟩

/-- The cross entropy of probabilities. -/
theorem exists_binaryCrossEntropy {given : Option String} (hfree : e.Free given) :
    ∃ node e', binaryCrossEntropy.compile predictions targets given e = .ok node e' ∧
      ∃ op, e'.graph.Holds node ⟨op, shape, .f32, given⟩ := by
  have hbounds : ¬1 - epsilon < epsilon := by decide +kernel
  have hclip := clip_eq hactive e.free_none hbounds hpredictions rfl
  -- each node is appended to the engine that the one before has left, and none but the last has a
  -- name
  let e₁ := e.push ⟨.clip predictions.index epsilon (1 - epsilon), shape, .f32, none⟩
  have h₁ : e.Unnamed e₁ := unnamed_push rfl
  have hone := constant_eq (e := e₁) hactive (.scalar 1) DeclaredShape.closed_nil
    e₁.free_none
  let e₂ := e₁.push ⟨.constant (.scalar 1), [], .f32, none⟩
  have h₂ : e.Unnamed e₂ := h₁.push rfl
  have hclipped : e₂.graph.Holds (e.graph.handle e.graph.size)
      ⟨.clip predictions.index epsilon (1 - epsilon), shape, .f32, none⟩ :=
    (e.graph.holds_push _).extend (Graph.extends_push _ _)
  have hcomplement := binary_eq (e := e₂) hactive e₂.free_none .subtract
    (e₁.graph.holds_push _) hclipped rfl nofun shape.broadcast_nil
  let e₃ := e₂.push ⟨.binary .subtract e₁.graph.size e.graph.size, shape, .f32, none⟩
  have h₃ : e.Unnamed e₃ := h₂.push rfl
  have hodds := binary_eq (e := e₃) hactive e₃.free_none .divide
    (hclipped.extend (Graph.extends_push _ _)) (e₂.graph.holds_push _) rfl (fun _ => rfl)
    shape.broadcast_self
  let e₄ := e₃.push ⟨.binary .divide e.graph.size e₂.graph.size, shape, .f32, none⟩
  have h₄ : e.Unnamed e₄ := h₃.push rfl
  have hlogits := unary_eq (e := e₄) hactive e₄.free_none .log (e₃.graph.holds_push _) rfl
  let e₅ := e₄.push ⟨.unary .log e₃.graph.size, shape, .f32, none⟩
  have h₅ : e.Unnamed e₅ := h₄.push rfl
  have hentropy := sigmoidCrossEntropy_eq (e := e₅) hactive (h₅.free hfree)
    (htargets.extend h₅.grown) (e₄.graph.holds_push _) rfl rfl shape.broadcast_self
  exact ⟨_, _, (bind_of_ok hclip).trans ((bind_of_ok hone).trans ((bind_of_ok hcomplement).trans
    ((bind_of_ok hodds).trans ((bind_of_ok hlogits).trans hentropy)))), _, e₅.graph.holds_push _⟩

/-- The likelihood of targets, when the bound of the predictions is accepted. -/
theorem exists_negativeLogLikelihood {ε : Float32} (hrange : 0 < ε ∧ ε < 0.5)
    (hbounds : ¬1 - ε < ε) (hfree : e.Free (some name)) :
    ∃ node e', (negativeLogLikelihood ε).compile predictions targets (some name) e = .ok node e' ∧
      ∃ op, e'.graph.Holds node ⟨op, [], .f32, some name⟩ := by
  have hclip := clip_eq hactive e.free_none hbounds hpredictions rfl
  let e₁ := e.push ⟨.clip predictions.index ε (1 - ε), shape, .f32, none⟩
  have h₁ : e.Unnamed e₁ := unnamed_push rfl
  have hlog := unary_eq (e := e₁) hactive e₁.free_none .log (e.graph.holds_push _) rfl
  let e₂ := e₁.push ⟨.unary .log e.graph.size, shape, .f32, none⟩
  have h₂ : e.Unnamed e₂ := h₁.push rfl
  have hweighted := binary_eq (e := e₂) hactive e₂.free_none .multiply
    (htargets.extend h₂.grown) (e₁.graph.holds_push _) rfl nofun shape.broadcast_self
  let e₃ := e₂.push ⟨.binary .multiply targets.index e₁.graph.size, shape, .f32, none⟩
  have h₃ : e.Unnamed e₃ := h₂.push rfl
  have htotal := reduceSum_eq (e := e₃) hactive e₃.free_none (e₂.graph.holds_push _)
  let e₄ := e₃.push ⟨.reduceSum e₂.graph.size, [], .f32, none⟩
  have h₄ : e.Unnamed e₄ := h₃.push rfl
  have hnegate := unary_eq (e := e₄) hactive (h₄.free hfree) .negate
    (e₃.graph.holds_push _) rfl
  -- the bound of the predictions is checked before the first node
  unfold compile
  exact ⟨_, _, (unless_apply (by simpa using hrange)).trans ((bind_of_ok hclip).trans
    ((bind_of_ok hlog).trans ((bind_of_ok hweighted).trans ((bind_of_ok htotal).trans hnegate)))),
    _, e₄.graph.holds_push _⟩

/-- A loss of predictions with some axes is compiled. -/
theorem exists_compile (haccepted : loss.Accepted) (haxis : shape ≠ [])
    (hfree : e.graph.find? name = none) :
    ∃ node e', loss.compile predictions targets (some name) e = .ok node e' ∧
      ∃ op, e'.graph.Holds node ⟨op, loss.declared shape, .f32, some name⟩ := by
  have hname : e.Free (some name) := free_some_iff.2 hfree
  cases loss with
  | meanSquaredError => exact exists_meanSquaredError hactive hpredictions htargets haxis hname
  | binaryCrossEntropy => exact exists_binaryCrossEntropy hactive hpredictions htargets hname
  | categoricalCrossEntropy =>
    exact ⟨_, _, softmaxCrossEntropy_eq hactive hname hpredictions htargets rfl rfl rfl haxis, _,
      e.graph.holds_push _⟩
  | negativeLogLikelihood ε =>
    exact exists_negativeLogLikelihood hactive hpredictions htargets haccepted.1 haccepted.2 hname

omit hactive hpredictions htargets in
/-- A loss that is compiled has passed the checks of its parameters. -/
theorem accepted_of_compile (h : loss.compile predictions targets (some name) e = .ok node e') :
    loss.Accepted := by
  cases loss with
  | meanSquaredError | binaryCrossEntropy | categoricalCrossEntropy => trivial
  | negativeLogLikelihood ε =>
    have hleads : Leads ((negativeLogLikelihood ε).compile predictions targets (some name)) e
        (fun _ => True) fun _ _ => (negativeLogLikelihood ε).Accepted := by
      unfold compile
      -- both checks come before anything is appended, one in the loss and one in the clipping
      refine leads_unless trivial fun hrange => leads_bind_iff.2 ?_
      unfold clip
      refine leads_unless trivial fun hbounds => ?_
      refine leads_of_ok fun _ _ _ => leads_of_ok fun _ _ _ => ?_
      exact ⟨by simpa using hrange, hbounds⟩
    exact hleads.of_eq_ok h

end Compiling

/-! ## Adding up -/

/-- An open axis. -/
theorem joinAxes_bound {w : Int} (hw : w = openAxis ∨ w ≠ 1) :
    DeclaredShape.joinAxes openAxis w = some w := by
  rcases hw with rfl | hw
  · rfl
  · exact DeclaredShape.joinAxes_open hw

open DeclaredShape in
/-- Losses of matrices stretch to a common shape when the widths of those that are declared for
every entry agree, apart from widths of one. -/
theorem exists_bound_iff (rows : List (Loss × Int)) (hpos : ∀ row ∈ rows, 0 < row.2) :
    (∃ bound, ∀ row ∈ rows, broadcast (row.1.declared [openAxis, row.2]) bound = some bound) ↔
      ∀ {w w' : Int}, (binaryCrossEntropy, w) ∈ rows → (binaryCrossEntropy, w') ∈ rows →
        w ≠ 1 → w' ≠ 1 → w = w' := by
  constructor
  · rintro ⟨bound, hbound⟩ w w' hw hw' hne hne'
    -- the last axis of the bound is the width
    have hlast : ∀ {w : Int}, (binaryCrossEntropy, w) ∈ rows → w ≠ 1 →
        bound.reverse.head? = some w := by
      intro w hw hne
      have hjoin := Joins.combineAligned_eq_some_iff.1 (hbound _ hw)
      cases hrev : bound.reverse with
      | nil =>
        rw [hrev] at hjoin
        cases hjoin
      | cons last rest =>
        rw [hrev] at hjoin
        obtain ⟨_, _, haxis, -, heq⟩ := Joins.combineKeeping_cons_eq_some_iff.1 hjoin
        cases heq
        have hwpos : 0 < w := hpos _ hw
        unfold joinAxes openAxis at haxis
        grind
    exact Option.some.inj ((hlast hw hne).symm.trans (hlast hw' hne'))
  · intro hagree
    -- the width that is not one, or else an open axis
    obtain ⟨width, hwidth, hall⟩ : ∃ width : Int, (width = openAxis ∨ width ≠ 1) ∧
        ∀ w, (binaryCrossEntropy, w) ∈ rows → w = 1 ∨ w = width := by
      by_cases hex : ∃ w, (binaryCrossEntropy, w) ∈ rows ∧ w ≠ 1
      · obtain ⟨w, hw, hne⟩ := hex
        exact ⟨w, .inr hne, fun w' hw' => or_iff_not_imp_left.2 fun hne' => hagree hw' hw hne' hne⟩
      · exact ⟨openAxis, .inl rfl, fun w hw => .inl (by_contra fun hne => hex ⟨w, hw, hne⟩)⟩
    refine ⟨[openAxis, width], fun row hrow => ?_⟩
    have hopen := joinAxes_bound hwidth
    have hself : joinAxes openAxis openAxis = some openAxis := rfl
    obtain ⟨loss, w⟩ := row
    cases loss with
    | meanSquaredError | categoricalCrossEntropy =>
      simp [declared, broadcast, combineAligned, combineKeeping, hopen]
    | binaryCrossEntropy =>
      have haxis : joinAxes w width = some width := by
        rcases hall w hrow with rfl | rfl
        · exact joinAxes_one width
        · exact bounded_joinAxes.self _
      simp [declared, broadcast, combineAligned, combineKeeping, haxis, hself]
    | negativeLogLikelihood => exact broadcast_nil _

end Loss
end TensorGraph
