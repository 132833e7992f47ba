import TensorGraph.Proofs.Engine.Creating
import TensorGraph.Proofs.Number.Order
import TensorGraph.Proofs.Random.Drawing

/-!
# Distributions that can be sampled

The parameters of a distribution are checked when its node is appended and used when a session
draws, and the two do not ask for the same. A uniform distribution is accepted when its range is not
empty, but it can only be sampled when the range is finite. A truncated normal distribution is
accepted with any mean, but no sample is ever within two deviations from a mean that is not finite.
Apart from that, what is accepted can be sampled: uniform samples are always drawn, normal ones
whenever standard normal ones are, and a truncated one as soon as a standard normal draw comes that
moves the mean towards zero by at most one deviation.

## Main definitions

* `Sampler.Homing`: standard normal draws that move the mean towards zero.
* `Sampler.Bounded`: parameters that sampling asks for beyond those that are checked.
* `Sampler.Samplable` and `Sampler.Doomed`: distributions that can be sampled, and that cannot.

## Main results

* `Sampler.abs_sub_le_of_homing`: homing draws are within two deviations.
* `Sampler.truncatedDraw_eq_none`: no attempt is accepted for a mean that is not finite.
* `Engine.accepted_samplable_or_doomed`: which of the accepted distributions can be sampled.
-/

namespace TensorGraph

namespace Stream

/-- Changing every draw changes what is collected. -/
theorem collect_map (draw : Stream → Option Float32 × Stream) (f : Float32 → Float32) (count : Nat)
    (drawn : Array Float32) (s : Stream) :
    collect (fun s => ((draw s).1.map f, (draw s).2)) count (drawn.map f) s =
      ((collect draw count drawn s).1.map (Array.map f), (collect draw count drawn s).2) := by
  induction count generalizing drawn s with
  | zero => rfl
  | succ count ih =>
    simp only [collect]
    -- one draw changes before it is collected, and the stream goes on from the same place
    rcases draw s with ⟨_ | x, t⟩
    · rfl
    · simp only [Option.map_some]
      rw [← Array.map_push]
      exact ih (drawn.push x) t

end Stream

namespace Sampler

variable {mean stddev z : Float32}

/-- A standard normal draw, rounded to single precision. -/
def standardDraw (s : Stream) : Option Float32 × Stream :=
  let (z, s) := Ziggurat.draw attemptLimit s
  (z.map Single.ofDouble, s)

/-- Standard normal draws that move the mean towards zero, or not at all, by at most one deviation.
By symmetry these are more than a third of all draws. -/
def Homing (mean z : Float32) : Prop := z.abs ≤ 1 ∧ (0 ≤ z ∧ mean ≤ 0 ∨ z ≤ 0 ∧ 0 ≤ mean)

/-- What sampling asks of the parameters beyond what has been checked when they were accepted. -/
def Bounded : Sampler → Prop
  | normal _ _ => True
  | truncatedNormal mean _ => mean.isFinite
  | uniform min max => min.isFinite ∧ max.isFinite ∧ (max - min).isFinite

/-- The samples of a distribution come to an end: uniform samples are always drawn, normal samples
whenever standard normal draws are made, and a truncated one as soon as one of these is homing. -/
def Ends : Sampler → Prop
  | uniform min max => ∀ count s, ∃ xs, (draw count s (uniform min max)).1 = .ok xs ∧
      xs.size = count
  | normal mean stddev => ∀ count s,
      let (drawn, t) := Stream.collect standardDraw count #[] s
      draw count s (normal mean stddev) =
        accepted (drawn.map (Array.map fun z => mean + stddev * z), t)
  | truncatedNormal mean stddev => (∃ z, Homing mean z) ∧ ∀ z, Homing mean z →
      (mean + stddev * z - mean).abs ≤ 2 * stddev ∧
      ∀ attempts s t, standardDraw s = (some z, t) →
        truncatedDraw mean stddev (attempts + 1) s = (some (mean + stddev * z), t)

/-- A distribution that can be sampled: only draws that are never accepted make it fail, and its
parameters do not keep draws from being accepted. -/
structure Samplable (sampler : Sampler) : Prop where
  unrefused : ∀ count s defect, (sampler.draw count s).1 = .error defect → defect = .neverAccepted
  ends : sampler.Ends

/-- A distribution that cannot be sampled, from whatever stream: its range is refused, or every
attempt is rejected. -/
def Doomed : Sampler → Prop
  | uniform min max => ∀ count s, (draw count s (uniform min max)).1 =
      .error (.unboundedRange min max)
  | normal _ _ => False
  | truncatedNormal mean stddev => (∀ z, ¬(mean + stddev * z - mean).abs ≤ 2 * stddev) ∧
      ∀ attempts s, (truncatedDraw mean stddev attempts s).1 = none

theorem normalDraw_eq (mean stddev : Float32) : normalDraw mean stddev = fun s =>
    ((standardDraw s).1.map fun z => mean + stddev * z, (standardDraw s).2) := by
  funext s
  simp only [normalDraw, standardDraw, Option.map_map, Function.comp_def]

/-- A homing draw is within two deviations from the mean, also after rounding. -/
theorem abs_sub_le_of_homing (hmean : mean.isFinite) (hstddev : stddev.isFinite ∧ 0 ≤ stddev)
    (hz : Homing mean z) : (mean + stddev * z - mean).abs ≤ 2 * stddev := by
  have hzero := Single.reads_zero
  obtain ⟨p, hp⟩ := Single.exists_reads hmean
  obtain ⟨d, hd⟩ := Single.exists_reads hstddev.1
  obtain ⟨r, hr, hle⟩ := Single.exists_reads_of_abs_le hz.1 Single.reads_one
  have hd₀ : 0 ≤ d := (Single.le_iff hzero hd).1 hstddev.2
  -- scaled, the draw is at most one deviation and on its side of zero
  obtain ⟨q, hq, hqd, hpos, hneg⟩ := Single.exists_reads_mul hd hr hd₀ hle
  have hopposite : 0 ≤ q ∧ p ≤ 0 ∨ q ≤ 0 ∧ 0 ≤ p := by
    rw [Homing, Single.le_iff hzero hr, Single.le_iff hp hzero, Single.le_iff hr hzero,
      Single.le_iff hzero hp] at hz
    exact hz.2.imp (fun h => ⟨hpos h.1, h.2⟩) (fun h => ⟨hneg h.1, h.2⟩)
  -- so adding it does not overflow, and the sample is at most twice as far from the mean
  obtain ⟨v, hv, hvp⟩ := Single.exists_reads_add hp hq hopposite
  have hnear : |v - p| ≤ 2 * d := hvp.trans (by linarith)
  -- twice the deviation can overflow, but it is on the grid
  exact (Single.rounds_sub hv hp).abs_le_of_abs_le (Single.rounds_mul Single.reads_two hd)
    hd.grid.double hnear

/-- Not moving the mean is homing. -/
theorem exists_homing (hmean : mean.isFinite) : ∃ z, Homing mean z := by
  obtain ⟨p, hp⟩ := Single.exists_reads hmean
  have hzero := Single.reads_zero
  refine ⟨0, (Single.le_iff (Single.reads_abs hzero) Single.reads_one).2 (by norm_num), ?_⟩
  rw [Single.le_iff hzero hzero, Single.le_iff hp hzero, Single.le_iff hzero hp]
  exact (le_total p 0).imp (⟨le_rfl, ·⟩) (⟨le_rfl, ·⟩)

/-- No sample is within two deviations of a mean that is not finite. -/
theorem truncatedDraw_eq_none (hmean : ¬mean.isFinite) (stddev : Float32) (attempts : Nat)
    (s : Stream) : (truncatedDraw mean stddev attempts s).1 = none := by
  induction attempts generalizing s with
  | zero => rfl
  | succ attempts ih =>
    simp only [truncatedDraw, normalDraw_eq]
    obtain ⟨_ | z, t⟩ := standardDraw s
    · rfl
    · have hfar := Single.not_abs_sub_le hmean (stddev * z) (2 * stddev)
      simp only [Option.map_some, if_neg hfar]
      exact ih t

variable {sampler : Sampler}

theorem accepted_eq_ok {drawn : Option (Array Float32) × Stream} {xs : Array Float32}
    (h : drawn.1 = some xs) : (accepted drawn).1 = .ok xs := by
  obtain ⟨_, t⟩ := drawn
  obtain rfl := h
  rfl

/-- Normal samples are standard normal draws that are scaled and shifted. -/
theorem samplable_normal (h : (normal mean stddev).Accepted) :
    (normal mean stddev).Samplable := by
  constructor
  · intro count s defect hfail
    rw [draw, if_pos h.1] at hfail
    exact eq_neverAccepted hfail
  · intro count s
    have hscaled := Stream.collect_map standardDraw (fun z => mean + stddev * z) count #[] s
    rw [Array.map_empty] at hscaled
    rw [draw, if_pos h.1, normalDraw_eq]
    exact congrArg accepted hscaled

/-- No uniform draw is ever rejected. -/
theorem samplable_uniform {min max : Float32} (h : (uniform min max).Accepted)
    (hbounded : (uniform min max).Bounded) : (uniform min max).Samplable := by
  -- sampling checks the range again, and more of it
  obtain ⟨hmin, hmax, hwidth⟩ := hbounded
  have hrange : min < max := h
  have hdraws : (uniform min max).Ends := by
    intro count s
    have hdrawn (s : Stream) :
        (uniformDraw (fittingScale min max (max - min).toBits.toNat) min s).1.isSome := rfl
    obtain ⟨xs, hxs, hsize⟩ := Stream.collect_of_draws hdrawn count #[] s
    refine ⟨xs, ?_, by simpa using hsize⟩
    rw [draw, if_pos (by simp [hrange, hmin, hmax, hwidth])]
    exact accepted_eq_ok hxs
  refine ⟨fun count s defect hfail => ?_, hdraws⟩
  obtain ⟨xs, hxs, -⟩ := hdraws count s
  cases hxs.symm.trans hfail

/-- A truncated normal sample is drawn again until it is near, and homing draws are. -/
theorem samplable_truncatedNormal (h : (truncatedNormal mean stddev).Accepted)
    (hbounded : (truncatedNormal mean stddev).Bounded) :
    (truncatedNormal mean stddev).Samplable := by
  refine ⟨fun count s defect hfail => ?_, exists_homing hbounded, fun z hz => ?_⟩
  · rw [draw, if_pos h.1] at hfail
    exact eq_neverAccepted hfail
  · have hnear := abs_sub_le_of_homing hbounded h hz
    refine ⟨hnear, fun attempts s t hdraw => ?_⟩
    simp only [truncatedDraw, normalDraw_eq, hdraw, Option.map_some]
    exact if_pos hnear

theorem samplable_of_bounded (h : sampler.Accepted) (hbounded : sampler.Bounded) :
    sampler.Samplable := by
  cases sampler with
  | normal mean stddev => exact samplable_normal h
  | uniform min max => exact samplable_uniform h hbounded
  | truncatedNormal mean stddev => exact samplable_truncatedNormal h hbounded

theorem doomed_of_not_bounded (hbounded : ¬sampler.Bounded) : sampler.Doomed := by
  cases sampler with
  | normal mean stddev => exact hbounded trivial
  | uniform min max =>
    intro count s
    rw [draw, if_neg fun hrange => hbounded ?_]
    simp only [Bool.and_eq_true] at hrange
    exact ⟨hrange.1.1.2, hrange.1.2, hrange.2⟩
  | truncatedNormal mean stddev =>
    exact ⟨fun z => Single.not_abs_sub_le hbounded _ _, truncatedDraw_eq_none hbounded stddev⟩

/-- Append the node of a distribution, after the checks that go with it. -/
def register (shape : DeclaredShape) (seed : Option UInt64) : Sampler → Call Node
  | normal mean stddev => Engine.randomNormal shape mean stddev seed
  | uniform min max => Engine.randomUniform shape min max seed
  | truncatedNormal mean stddev => Engine.truncatedNormal shape mean stddev seed

theorem appends_register (e : Engine) (sampler : Sampler) (shape : DeclaredShape)
    (seed : Option UInt64) : Engine.Appends (sampler.register shape seed) e fun n =>
      n.op = .random sampler seed ∧ sampler.Accepted := by
  have happends (h : sampler.Accepted) :
      Engine.Appends (Engine.random shape sampler seed) e fun n =>
        n.op = .random sampler seed ∧ sampler.Accepted :=
    (Engine.appends_random shape sampler seed).imp fun n hn => ⟨hn.1, h⟩
  -- a uniform sampler is checked here, the other two by the guard on the deviation
  cases sampler with
  | normal | truncatedNormal => exact Engine.leads_checkDeviation rfl happends
  | uniform min max =>
    change Engine.Appends (Engine.randomUniform shape min max seed) e _
    unfold Engine.randomUniform
    exact Engine.leads_unless rfl fun h => happends (show min < max by simpa using h)

end Sampler

namespace Engine

variable {e e' : Engine} {sampler : Sampler} {seed : Option UInt64}

/-- If a distribution is accepted and its parameters are bounded, then no number of samples is
refused, from whatever stream, and sampling is not kept from ending: uniform samples are always
drawn, normal ones whenever standard normal draws are made, and for a truncated one there are
standard normal draws that are within two deviations after rounding. If a distribution is accepted
although its parameters are not bounded, then no stream gives a sample of it. -/
theorem accepted_samplable_or_doomed {shape : DeclaredShape} {handle : Node}
    (haccepted : sampler.register shape seed e = .ok handle e') :
    (sampler.Bounded → sampler.Samplable) ∧ (¬sampler.Bounded → sampler.Doomed) := by
  obtain ⟨n, hn, -⟩ := (sampler.appends_register e shape seed).of_eq_ok haccepted
  exact ⟨Sampler.samplable_of_bounded hn.2, Sampler.doomed_of_not_bounded⟩

theorem truncatedNormal_one_two_samplable : ∃ handle e',
    (Sampler.truncatedNormal 1 2).register [3] (some 7) (built []) = .ok handle e' ∧
      (Sampler.truncatedNormal 1 2).Samplable := by
  obtain ⟨handle, e', haccepted⟩ := exists_of_gives
    (by decide +kernel : gives ((Sampler.truncatedNormal 1 2).register [3] (some 7)) (built []))
  have hbounded : (Sampler.truncatedNormal 1 2).Bounded :=
    (by decide +kernel : (1 : Float32).isFinite)
  exact ⟨handle, e', haccepted, (accepted_samplable_or_doomed haccepted).1 hbounded⟩

/-- A range with finite ends is accepted although its width overflows. It is never sampled, so
weights that start with samples of it end in a fault. -/
theorem wide_range_never_sampled :
    (∃ handle e', (Sampler.uniform (-3e38) 3e38).register [1] none (built []) = .ok handle e') ∧
    (∀ count s, (Sampler.draw count s (.uniform (-3e38) 3e38)).1 =
      .error (.unboundedRange (-3e38) 3e38)) ∧
    ∃ fault e', (Request.weights [1] (.randomUniform (-3e38) 3e38 none) "w").call (built []) =
      .error (.fault fault) e' := by
  refine ⟨?_, ?_, ?_⟩
  · exact exists_of_gives (by decide +kernel :
      gives ((Sampler.uniform (-3e38) 3e38).register [1] none) (built []))
  · -- the width is an infinity, and only samplers of finite width are bounded
    have hwidth : ¬(3e38 - -3e38 : Float32).isFinite := by decide +kernel
    have hunbounded : ¬(Sampler.uniform (-3e38) 3e38).Bounded := fun hbounded =>
      hwidth hbounded.2.2
    exact Sampler.doomed_of_not_bounded hunbounded
  · exact exists_of_faults (by decide +kernel :
      faults (Request.weights [1] (.randomUniform (-3e38) 3e38 none) "w").call (built []))

end Engine
end TensorGraph
