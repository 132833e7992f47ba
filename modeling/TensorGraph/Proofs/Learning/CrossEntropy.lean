import TensorGraph.Proofs.Derivative.Reading
import TensorGraph.Proofs.Engine.Growing
import TensorGraph.Proofs.Evaluation.Ordering
import TensorGraph.Proofs.Learning.Declaring
import TensorGraph.Proofs.Model.Descending
import TensorGraph.Proofs.Tensor.Guarded

/-!
# The cross entropy of probabilities

The loss clips its predictions away from zero and one, takes the logarithm of their odds, and hands
these logits to a cross entropy that does not overflow. Read over the real numbers, what comes out
is the cross entropy of the clipped predictions and the targets. No quotient by zero is taken on the
way, and no logarithm of a number that is not positive, whatever the predictions and targets are.

## Main definitions

* `Loss.clipped`: a prediction as it is kept away from zero and one.
* `Loss.crossEntropyAt`: the cross entropy of a target and a probability.
* `Loss.crossEntropies`: the cross entropies of tensors of targets and predictions.

## Main results

* `Tensor.sigmoidCrossEntropyAt_eq`: the form that does not overflow is a difference of two terms.
* `Loss.Crossing.gives`: what the nodes of the loss evaluate to, over any numbers.
* `Loss.binaryCrossEntropy_is_cross_entropy`: over the real numbers this is the cross entropy.
-/

namespace TensorGraph

namespace Scalar

variable {K : Type} [Field K] [LinearOrder K] [Elementary K]

/-- A cap from below is a maximum. -/
theorem capBelow_eq_max (low x : K) : capBelow low x = max low x := by
  change (if decide (x < low) = true then low else x) = max low x
  rcases lt_or_ge x low with h | h
  · rw [if_pos (decide_eq_true h), max_eq_left h.le]
  · rw [if_neg (by simpa using h), max_eq_right h]

/-- A cap from above is a minimum. -/
theorem capAbove_eq_min (high x : K) : capAbove high x = min high x := by
  change (if decide (high < x) = true then high else x) = min high x
  rcases lt_or_ge high x with h | h
  · rw [if_pos (decide_eq_true h), min_eq_left h.le]
  · rw [if_neg (by simpa using h), min_eq_right h]

/-- Clipping is a minimum and then a maximum. -/
theorem clip_eq (low high x : K) : clip low high x = max low (min high x) := by
  rw [clip, capAbove_eq_min, capBelow_eq_max]

end Scalar

/-! ## Logits -/

/-- The cross entropy of a logit without the form that does not overflow. -/
theorem Tensor.sigmoidCrossEntropyAt_eq (z x : ℝ) :
    sigmoidCrossEntropyAt z x = Real.log (1 + Real.exp x) - x * z := by
  -- the case split is the one on the sign of the logit
  have hsoftplus : max 0 x + Real.log (Real.exp (-|x|) + 1) = Real.log (1 + Real.exp x) := by
    rcases le_total x 0 with hx | hx
    · rw [max_eq_left hx, abs_of_nonpos hx, neg_neg, zero_add, add_comm]
    · have hsum : (0 : ℝ) < Real.exp (-x) + 1 := by positivity
      calc max 0 x + Real.log (Real.exp (-|x|) + 1)
          = Real.log (Real.exp x) + Real.log (Real.exp (-x) + 1) := by
            rw [max_eq_right hx, abs_of_nonneg hx, Real.log_exp]
        _ = Real.log (Real.exp x * (Real.exp (-x) + 1)) :=
            (Real.log_mul (Real.exp_ne_zero x) hsum.ne').symm
        _ = Real.log (1 + Real.exp x) := by
            rw [mul_add, ← Real.exp_add, add_neg_cancel, Real.exp_zero, mul_one]
  calc sigmoidCrossEntropyAt z x
      = Scalar.capBelow 0 x - x * z + Real.log (Real.exp (-|x|) + 1) := rfl
    _ = max 0 x + Real.log (Real.exp (-|x|) + 1) - x * z := by
        rw [Scalar.capBelow_eq_max, sub_add_eq_add_sub]
    _ = Real.log (1 + Real.exp x) - x * z := by rw [hsoftplus]

/-- The exponential and the one that is added to it are positive, so their logarithm is a number. -/
theorem Guarded.number_sigmoidCrossEntropyAt (z x : ℝ) :
    Tensor.sigmoidCrossEntropyAt (number z) (number x) =
      number (Tensor.sigmoidCrossEntropyAt z x) := by
  have hpos : 0 < Scalar.exp (-Scalar.abs x) + 1 :=
    add_pos (Real.exp_pos (-max x (-x))) zero_lt_one
  rw [Tensor.sigmoidCrossEntropyAt, Tensor.sigmoidCrossEntropyAt, number_zero, number_one,
    number_capBelow, number_mul, number_sub, number_abs, number_neg, number_exp, number_add,
    number_log hpos, number_add]

namespace Loss

/-! ## Bounds -/

/-- The least prediction that is kept. -/
noncomputable def lowest : ℝ := Scalar.ofSingle epsilon

/-- The greatest prediction that is kept. -/
noncomputable def highest : ℝ := Scalar.ofSingle (1 - epsilon)

/-- A prediction as it is kept away from zero and one. -/
noncomputable def clipped (p : ℝ) : ℝ := max lowest (min highest p)

/-- The bounds in single precision. -/
theorem ofSingle_bounds : (Scalar.ofSingle epsilon : ℚ) = 14073749 / 2 ^ 47 ∧
    (Scalar.ofSingle (1 - epsilon) : ℚ) = 1 - 1 / 2 ^ 23 ∧
      (Scalar.ofSingle (1 : Float32) : ℚ) = 1 := by
  decide +kernel

/-- The lower bound of a clipped prediction as a fraction. -/
theorem lowest_eq : lowest = 14073749 / 2 ^ 47 := by
  change ((Scalar.ofSingle epsilon : ℚ) : ℝ) = _
  rw [ofSingle_bounds.1]
  norm_num

/-- The upper bound of a clipped prediction as a fraction. -/
theorem highest_eq : highest = 1 - 1 / 2 ^ 23 := by
  change ((Scalar.ofSingle (1 - epsilon) : ℚ) : ℝ) = _
  rw [ofSingle_bounds.2.1]
  norm_num

theorem ofSingle_one : (Scalar.ofSingle (1 : Float32) : ℝ) = 1 := by
  change ((Scalar.ofSingle (1 : Float32) : ℚ) : ℝ) = 1
  rw [ofSingle_bounds.2.2, Rat.cast_one]

/-- A prediction that has been clipped is a probability other than zero and one. -/
theorem clipped_mem (p : ℝ) : 0 < clipped p ∧ clipped p < 1 := by
  have hlowest : 0 < lowest ∧ lowest < 1 := by rw [lowest_eq]; norm_num
  have hhighest : highest < 1 := by rw [highest_eq]; norm_num
  exact ⟨hlowest.1.trans_le (le_max_left _ _),
    max_lt hlowest.2 ((min_le_left _ _).trans_lt hhighest)⟩

/-! ## Entries -/

/-- The cross entropy of a target and a probability. -/
noncomputable def crossEntropyAt (t q : ℝ) : ℝ :=
  -(t * Real.log q + (1 - t) * Real.log (1 - q))

/-- The cross entropies of targets and of the predictions as they are clipped. -/
noncomputable def crossEntropies (t p : Tensor ℝ) : Tensor ℝ :=
  .tabulate p.shape fun i j => crossEntropyAt (t.entry i j) (clipped (p.entry i j))

section Entries

variable {S : Type} [Scalar S]

/-- A prediction as the loss clips it. -/
def clip (p : S) : S := Scalar.clip (Scalar.ofSingle epsilon) (Scalar.ofSingle (1 - epsilon)) p

/-- The logarithm of the odds of a probability. -/
def logit (q : S) : S := Scalar.log (q / (Scalar.ofSingle 1 - q))

/-- What the loss makes of a target and a prediction. -/
def entryAt (t p : S) : S := Tensor.sigmoidCrossEntropyAt t (logit (clip p))

end Entries

/-- Predictions are clipped to the bounds of the loss. -/
theorem clip_eq (p : ℝ) : clip p = clipped p := Scalar.clip_eq _ _ p

/-- The loss of an entry is its cross entropy. -/
theorem entryAt_eq (t p : ℝ) : entryAt t p = crossEntropyAt t (clipped p) := by
  obtain ⟨hpos, hlt⟩ := clipped_mem p
  rw [entryAt, clip_eq, Tensor.sigmoidCrossEntropyAt_eq]
  generalize clipped p = q at hpos hlt
  -- one plus the odds is the inverse of the complement, so the logarithms separate
  have hcomplement : 0 < 1 - q := sub_pos.2 hlt
  have hlogit : logit q = Real.log (q / (1 - q)) := by rw [logit, ofSingle_one]; rfl
  have hsum : 1 + q / (1 - q) = (1 - q)⁻¹ := by
    rw [one_add_div hcomplement.ne', sub_add_cancel, one_div]
  calc Real.log (1 + Real.exp (logit q)) - logit q * t
      = Real.log (1 + q / (1 - q)) - Real.log (q / (1 - q)) * t := by
        rw [hlogit, Real.exp_log (div_pos hpos hcomplement)]
    _ = -Real.log (1 - q) - (Real.log q - Real.log (1 - q)) * t := by
        rw [hsum, Real.log_inv, Real.log_div hpos.ne' hcomplement.ne']
    _ = crossEntropyAt t q := by rw [crossEntropyAt]; ring

/-- The loss of an entry divides by a number other than zero and takes logarithms of positive
numbers. -/
theorem number_entryAt (t p : ℝ) :
    entryAt (Guarded.number t) (.number p) = .number (crossEntropyAt t (clipped p)) := by
  obtain ⟨hpos, hlt⟩ := clipped_mem p
  have hclip : clip (Guarded.number p) = .number (clipped p) := by
    rw [← clip_eq]
    exact Guarded.number_clip _ _ p
  have hone : (Scalar.ofSingle 1 : Guarded ℝ) = .number 1 := congrArg Guarded.number ofSingle_one
  have hlogit : logit (Guarded.number (clipped p)) = .number (logit (clipped p)) := by
    have hcomplement : 0 < 1 - clipped p := sub_pos.2 hlt
    rw [logit, hone, Guarded.number_sub, Guarded.number_div hcomplement.ne',
      Guarded.number_log (div_pos hpos hcomplement), logit, ofSingle_one]
  rw [entryAt, hclip, hlogit, Guarded.number_sigmoidCrossEntropyAt, ← entryAt_eq, entryAt, clip_eq]

/-! ## Nodes -/

open Engine

section Nodes

variable {e e' : Engine} {predictions targets loss : Node} {name : Option String}

/-- The nodes between the predictions and the loss. -/
structure Crossing (g : Graph) (predictions targets loss : Nat) where
  clipped : Nat
  one : Nat
  complement : Nat
  odds : Nat
  logits : Nat
  clipped_op : g.op? clipped = some (.clip predictions epsilon (1 - epsilon))
  one_op : g.op? one = some (.constant (.scalar 1))
  complement_op : g.op? complement = some (.binary .subtract one clipped)
  odds_op : g.op? odds = some (.binary .divide clipped complement)
  logits_op : g.op? logits = some (.unary .log odds)
  loss_op : g.op? loss = some (.sigmoidCrossEntropy targets logits)

/-- Compiling the loss appends the nodes of a cross-entropy. -/
theorem leads_binaryCrossEntropy (he : e.Sound) :
    Leads (binaryCrossEntropy.compile predictions targets name) e (fun _ => True) fun loss e' =>
      Grown e e' ∧ Nonempty (Crossing e'.graph predictions.index targets.index loss.index) := by
  refine leads_bind_grown he (appends_clip predictions epsilon (1 - epsilon))
    (fun _ hn => hn.1) fun clipped e₁ h₁ hclipped => ?_
  refine leads_bind_grown h₁.sound (appends_constant (.scalar 1)) (fun _ hn => hn.1)
    fun one e₂ h₂ hone => ?_
  refine leads_bind_grown h₂.sound (appends_binary .subtract one clipped) (fun _ hn => hn.1)
    fun complement e₃ h₃ hcomplement => ?_
  refine leads_bind_grown h₃.sound (appends_binary .divide clipped complement)
    (fun _ hn => hn.1) fun odds e₄ h₄ hodds => ?_
  refine leads_bind_grown h₄.sound (appends_unary .log odds) (fun _ hn => hn.1)
    fun logits e₅ h₅ hlogits => ?_
  -- clipping, the constant, complement, odds and logits are there; the entropy is the last node
  refine Leads.imp (appends_sigmoidCrossEntropy targets logits) (fun _ _ => trivial) ?_
  rintro loss e₆ ⟨n, ⟨hop, -⟩, happended⟩
  have h₆ := happended.grown h₅.sound
  have hloss := Graph.op?_of_getElem? happended.getElem?
  rw [hop] at hloss
  have h₅₆ := h₅.trans h₆
  have h₄₆ := h₄.trans h₅₆
  have h₃₆ := h₃.trans h₄₆
  exact ⟨(h₁.trans h₂).trans h₃₆, ⟨clipped.index, one.index, complement.index, odds.index,
    logits.index, h₃₆.op? (h₂.op? hclipped), h₃₆.op? hone, h₄₆.op? hcomplement, h₅₆.op? hodds,
    h₆.op? hlogits, hloss⟩⟩

variable {S : Type} [Scalar S] {env : Setting S} {streams : SlotMap Stream}

/-- What the loss makes of each target and its prediction. -/
theorem Crossing.gives {p t : Tensor S} {predictions targets loss : Nat}
    (c : Crossing env.graph predictions targets loss) (hg : env.graph.Typed)
    (hshape : t.shape = p.shape) (hp : env.Gives streams predictions p)
    (ht : env.Gives streams targets t) :
    env.Gives streams loss (.tabulate p.shape fun i j => entryAt (t.entry i j) (p.entry i j)) := by
  have hclipped : env.Gives streams c.clipped (p.map clip) := by
    obtain ⟨n, hn, hop⟩ := Option.map_eq_some_iff.1 c.clipped_op
    refine Setting.gives_of_operand hg hn (by rw [hop]; rfl) (by rw [hop]; rfl) hp
      fun known hknown => ?_
    rw [hop, Setting.compute, hknown]
    rfl
  have hone : env.Gives streams c.one (.ofValue (.scalar 1)) := by
    obtain ⟨n, hn, hop⟩ := Option.map_eq_some_iff.1 c.one_op
    exact Setting.gives_of_leaf hg hn (by rw [hop]; rfl) (by rw [hop]; rfl)
      fun known => by rw [hop, Setting.compute]
  let complement : Tensor S := .combine p.shape (· - ·) (.ofValue (.scalar 1)) (p.map clip)
  have hcomplement : env.Gives streams c.complement complement := by
    obtain ⟨n, hn, hop⟩ := Option.map_eq_some_iff.1 c.complement_op
    exact (Setting.gives_binary_iff hg hn hop).2
      ⟨_, _, _, hone, hclipped, Shape.broadcast_nil p.shape, rfl⟩
  let odds : Tensor S := .combine p.shape (· / ·) (p.map clip) complement
  have hodds : env.Gives streams c.odds odds := by
    obtain ⟨n, hn, hop⟩ := Option.map_eq_some_iff.1 c.odds_op
    exact (Setting.gives_binary_iff hg hn hop).2
      ⟨_, _, _, hclipped, hcomplement, Shape.broadcast_self p.shape, rfl⟩
  have hlogits : env.Gives streams c.logits (odds.map Scalar.log) := by
    obtain ⟨n, hn, hop⟩ := Option.map_eq_some_iff.1 c.logits_op
    refine Setting.gives_of_operand hg hn (by rw [hop]; rfl) (by rw [hop]; rfl) hodds
      fun known hknown => ?_
    rw [hop, Setting.compute, hknown]
    rfl
  have hloss : env.Gives streams loss (.sigmoidCrossEntropy p.shape t (odds.map Scalar.log)) := by
    obtain ⟨n, hn, hop⟩ := Option.map_eq_some_iff.1 c.loss_op
    refine Setting.gives_of_pair hg hn (by rw [hop]; rfl) (by rw [hop]; rfl) ht hlogits
      fun known hz hx => ?_
    rw [hop, Setting.compute, hz, hx]
    refine except_bind_eq_ok_iff.2 ⟨p.shape, Setting.commonShape_eq_ok_iff.2 ?_, rfl⟩
    rw [hshape]
    exact Shape.broadcast_self p.shape
  -- all tensors but the constant have the shape of the predictions
  have hentry : ∀ i j, i < p.rows → j < p.cols →
      (odds.map Scalar.log).entry i j = logit (clip (p.entry i j)) := by
    intro i j hi hj
    have hclip : (p.map clip).entry i j = clip (p.entry i j) := Tensor.entry_map hi hj
    have hcomplement : complement.entry i j = Scalar.ofSingle 1 - clip (p.entry i j) := by
      rw [← hclip]
      exact (congrArg (Tensor.entry · i j) (Tensor.combine_scalar (· - ·) 1 (p.map clip))).trans
        (Tensor.entry_tabulate hi hj)
    have hodds : odds.entry i j = (p.map clip).entry i j / complement.entry i j :=
      Tensor.entry_combine_of_shape_eq rfl rfl hi hj
    have hlog : (odds.map Scalar.log).entry i j = Scalar.log (odds.entry i j) :=
      Tensor.entry_map hi hj
    rw [hlog, hodds, hcomplement, hclip, logit]
  have hlogitsShape : (odds.map Scalar.log).shape = p.shape := rfl
  rw [Tensor.sigmoidCrossEntropy, Tensor.combine_of_shape_eq hshape hlogitsShape] at hloss
  rwa [Tensor.tabulate_congr fun i j hi hj => by rw [entryAt, ← hentry i j hi hj]]

/-- The nodes of a loss stay when further nodes are appended. -/
def Crossing.extend {g g' : Graph} {predictions targets loss : Nat}
    (c : Crossing g predictions targets loss) (hg : g.Extends g') :
    Crossing g' predictions targets loss where
  __ := c
  clipped_op := hg.op? c.clipped_op
  one_op := hg.op? c.one_op
  complement_op := hg.op? c.complement_op
  odds_op := hg.op? c.odds_op
  logits_op := hg.op? c.logits_op
  loss_op := hg.op? c.loss_op

end Nodes

/-- A loss evaluates to `l` wherever its predictions evaluate to `p` and its targets to `t`. -/
def Evaluates (S : Type) [Scalar S] (g : Graph) (predictions targets loss : Node)
    (p t l : Tensor S) : Prop :=
  ∀ (env : Setting S) (streams : SlotMap Stream), env.graph.Typed → g.Extends env.graph →
    env.Gives streams predictions.index p → env.Gives streams targets.index t →
      env.Gives streams loss.index l

/-- **The binary cross entropy is a cross entropy.** It can be compiled for predictions and targets
of one declared shape. Read over the real numbers it evaluates to the cross entropies of the targets
and the clipped predictions, entry by entry, for all predictions and targets of one shape. The same
numbers come out where quotients by zero and logarithms of numbers that are not positive are
undefined. The upper bound of the predictions is one minus the lower one, rounded. -/
theorem binaryCrossEntropy_is_cross_entropy {e : Engine} (he : e.Reachable)
    (predictions targets : Node) (name : Option String) :
    (∀ {shape : DeclaredShape} {op op' : Op} {label label' : Option String}, e.session.isSome →
      e.graph.Holds predictions ⟨op, shape, .f32, label⟩ →
      e.graph.Holds targets ⟨op', shape, .f32, label'⟩ → e.Free name →
      ∃ loss e', binaryCrossEntropy.compile predictions targets name e = .ok loss e') ∧
    (∀ {loss : Node} {e' : Engine},
      binaryCrossEntropy.compile predictions targets name e = .ok loss e' →
      ∀ p t : Tensor ℝ, t.shape = p.shape →
        Evaluates ℝ e'.graph predictions targets loss p t (crossEntropies t p) ∧
        Evaluates (Guarded ℝ) e'.graph predictions targets loss p.guarded t.guarded
          (crossEntropies t p).guarded) ∧
    0 < lowest ∧ lowest < highest ∧ |highest - (1 - lowest)| ≤ 1 / 2 ^ 25 := by
  refine ⟨fun hactive hpredictions htargets hfree => ?_, fun h p t hshape => ?_, ?_⟩
  · obtain ⟨loss, e', h, -⟩ := exists_binaryCrossEntropy hactive hpredictions htargets hfree
    exact ⟨loss, e', h⟩
  · obtain ⟨-, ⟨c⟩⟩ := (leads_binaryCrossEntropy he.sound).of_eq_ok h
    -- over the reals the entries are cross entropies as they stand; with undefined numbers around,
    -- the clipped predictions keep every entry defined
    constructor
    · -- over the reals the entries are cross entropies as they stand
      intro env streams hg hext hp ht
      have hgives := (c.extend hext).gives hg hshape hp ht
      simp only [entryAt_eq] at hgives
      exact hgives
    · intro env streams hg hext hp ht
      have hgives := (c.extend hext).gives hg hshape hp ht
      simp only [Tensor.entry_guarded, number_entryAt] at hgives
      rwa [crossEntropies, Tensor.guarded, Tensor.under_tabulate]
  · rw [lowest_eq, highest_eq]
    norm_num [abs_le]

/-- An engine with placeholders for two predictions and what they turned out to be. -/
def guessing : Engine := built [.placeholder "guesses" [2], .placeholder "truths" [2]]

theorem guessing_holds (slot : Nat) (hslot : slot < 2) :
    ∃ label, guessing.graph.Holds ⟨0, slot⟩ ⟨.placeholder, [2], .f32, label⟩ := by
  have hnodes : ∀ slot < 2, (guessing.graph.nodes[slot]?).any fun n =>
      n.op.isPlaceholder && n.shape == [2] && n.type == .f32 := by
    decide +kernel
  obtain ⟨⟨op, shape, type, label⟩, hn, hfields⟩ :=
    (Option.any_eq_true _ _).1 (hnodes slot hslot)
  simp only [Bool.and_eq_true, beq_iff_eq] at hfields
  obtain ⟨⟨hop, rfl⟩, rfl⟩ := hfields
  cases op <;> cases hop
  have hid : guessing.graph.id = 0 := by decide +kernel
  exact ⟨label, hid.symm, hn⟩

/-- A sure guess that was right, beyond all bounds, and an even one. -/
noncomputable def guesses : Tensor ℝ := ⟨[2], #[3, 1 / 2], rfl⟩

noncomputable def truths : Tensor ℝ := ⟨[2], #[1, 0], rfl⟩

/-- The guesses and the truths are fed, as guarded numbers. -/
noncomputable def guessed (g : Graph) : Setting (Guarded ℝ) where
  graph := g
  store := .empty
  feeds := (SlotMap.empty.insert 0 guesses.guarded).insert 1 truths.guarded
  phase := .inference
  entropy := 0

/-- The cross entropies of two guesses are numbers, though one of them is no probability. -/
theorem guessing_cross_entropy : ∃ loss e',
    binaryCrossEntropy.compile ⟨0, 0⟩ ⟨0, 1⟩ (some "loss") guessing = .ok loss e' ∧
      (guessed e'.graph).Gives .empty loss.index (crossEntropies truths guesses).guarded := by
  obtain ⟨hcompiled, hevaluates, -⟩ := binaryCrossEntropy_is_cross_entropy (reachable_built _)
    (e := guessing) ⟨0, 0⟩ ⟨0, 1⟩ (some "loss")
  obtain ⟨label, hguesses⟩ := guessing_holds 0 (by decide)
  obtain ⟨label', htruths⟩ := guessing_holds 1 (by decide)
  obtain ⟨loss, e', h⟩ := hcompiled (by decide +kernel) hguesses htruths
    (free_some_iff.2 (by decide +kernel))
  obtain ⟨hgrown, -⟩ := (leads_binaryCrossEntropy (reachable_built _).sound).of_eq_ok h
  have hext := hgrown.changes.extends
  have htyped : (guessed e'.graph).graph.Typed := hgrown.sound.typed
  refine ⟨loss, e', h, (hevaluates h guesses truths rfl).2 _ _ htyped (.refl _) ?_ ?_⟩
  · exact Setting.gives_of_leaf htyped (hext.node hguesses.2) rfl rfl fun _ => rfl
  · exact Setting.gives_of_leaf htyped (hext.node htruths.2) rfl rfl fun _ => rfl

end Loss
end TensorGraph
