import TensorGraph.Proofs.Number.Exact

/-!
# Rounding and order

Single-precision numbers are ordered as the numbers that they read. Arithmetic rounds to the nearest
number, so it does not leave an interval whose ends can be represented: there is no overflow within
such an interval, and what is read lies in it.

## Main definitions

* `Single.Rounds`: a single-precision number is some number, rounded.

## Main results

* `Single.le_iff` and `Single.lt_iff`: the order of finite numbers.
* `Single.rounds_add`, `Single.rounds_sub` and `Single.rounds_mul`: arithmetic rounds.
* `Single.Rounds.exists_reads`: rounding stays between numbers that can be represented.
* `Single.Rounds.abs_le_of_abs_le`: rounding keeps the order, also when numbers overflow.
* `Single.exists_reads_mul` and `Single.exists_reads_add`: steps that do not overflow.
-/

namespace TensorGraph.Single

open Float.Model Float.Model.UnpackedFloat

variable {x y z : Float32} {u w : UnpackedFloat} {p q r v : ℚ}

/-! ## Unpacking results -/

theorem unpack_add (x y : Float32) : (x + y).toModel.unpack = UnpackedFloat.unpack .binary32
    (UnpackedFloat.pack .binary32 (.add .binary32 x.toModel.unpack y.toModel.unpack)) := rfl

theorem unpack_sub (x y : Float32) : (x - y).toModel.unpack = UnpackedFloat.unpack .binary32
    (UnpackedFloat.pack .binary32 (.sub .binary32 x.toModel.unpack y.toModel.unpack)) := rfl

theorem unpack_abs (x : Float32) : x.abs.toModel.unpack = UnpackedFloat.unpack .binary32
    (UnpackedFloat.pack .binary32 x.toModel.unpack.abs) := rfl

/-! ## Order -/

/-- A greater exponent makes a greater number: the mantissa is full then. -/
theorem Canonical.lt_of_lt {m m' : Nat} {e e' : Int} (h : Canonical m e) (h' : Canonical m' e')
    (hlt : e < e') : (m : ℚ) * 2 ^ e < m' * 2 ^ e' := by
  have hleast := h.least
  have hm : (m : ℚ) < 2 ^ 24 := by exact_mod_cast h.lt
  have hm' : (2 : ℚ) ^ 23 ≤ m' := by exact_mod_cast h'.leading.resolve_right (by omega)
  calc (m : ℚ) * 2 ^ e < 2 ^ 24 * 2 ^ e := by gcongr
    _ = 2 ^ 23 * 2 ^ (e + 1) := by rw [zpow_add₀ two_ne_zero]; ring
    _ ≤ m' * 2 ^ e' := mul_le_mul hm' (zpow_le_zpow_right₀ one_le_two (by omega))
        (by positivity) (by positivity)

/-- Canonical numbers are compared by their exponents first. -/
theorem Canonical.compare_eq {m m' : Nat} {e e' : Int} (h : Canonical m e)
    (h' : Canonical m' e') :
    (compare e e').then (compare m m') = compare ((m : ℚ) * 2 ^ e) (m' * 2 ^ e') := by
  rcases lt_trichotomy e e' with hlt | rfl | hgt
  · rw [compare_lt_iff_lt.2 hlt, compare_lt_iff_lt.2 (h.lt_of_lt h' hlt)]
    rfl
  · -- the mantissas decide when the exponents agree
    have hpos : (0 : ℚ) < 2 ^ e := by positivity
    rw [compare_eq_iff_eq.2 rfl]
    rcases lt_trichotomy m m' with hlt | rfl | hgt
    · rw [compare_lt_iff_lt.2 hlt,
        compare_lt_iff_lt.2 (mul_lt_mul_of_pos_right (Nat.cast_lt.2 hlt) hpos)]
      rfl
    · rw [compare_eq_iff_eq.2 rfl, compare_eq_iff_eq.2 rfl]
      rfl
    · rw [compare_gt_iff_gt.2 hgt,
        compare_gt_iff_gt.2 (mul_lt_mul_of_pos_right (Nat.cast_lt.2 hgt) hpos)]
      rfl
  · rw [compare_gt_iff_gt.2 hgt, compare_gt_iff_gt.2 (h'.lt_of_lt h hgt)]
    rfl

/-- Negation turns comparisons around. -/
theorem compare_neg_neg (p q : ℚ) : compare (-p) (-q) = (compare p q).swap := by
  rcases lt_trichotomy p q with hlt | rfl | hgt
  · rw [compare_lt_iff_lt.2 hlt, compare_gt_iff_gt.2 (neg_lt_neg hlt)]
    rfl
  · rw [compare_eq_iff_eq.2 rfl, compare_eq_iff_eq.2 rfl]
    rfl
  · rw [compare_gt_iff_gt.2 hgt, compare_lt_iff_lt.2 (neg_lt_neg hgt)]
    rfl

/-- Unpacked numbers are compared as what they stand for. -/
theorem Denotes.compare_eq (hu : Denotes u p) (hw : Denotes w q) :
    UnpackedFloat.compare u w = some (compare p q) := by
  have hpos {m : Nat} {e : Int} (hm : 0 < m) : (0 : ℚ) < m * 2 ^ e := by positivity
  cases hu with
  | zero s =>
    cases hw with
    | zero s' =>
      rw [compare_eq_iff_eq.2 rfl]
      rfl
    | @finite s' m' e' pos' canonical' =>
      cases s' with
      | positive =>
        rw [compare_lt_iff_lt.2 (by simpa [Sign.apply] using hpos pos')]
        rfl
      | negative =>
        rw [compare_gt_iff_gt.2 (by simpa [Sign.apply] using hpos pos')]
        rfl
  | @finite s m e pos canonical =>
    cases hw with
    | zero s' =>
      cases s with
      | positive =>
        rw [compare_gt_iff_gt.2 (by simpa [Sign.apply] using hpos pos)]
        rfl
      | negative =>
        rw [compare_lt_iff_lt.2 (by simpa [Sign.apply] using hpos pos)]
        rfl
    | @finite s' m' e' pos' canonical' =>
      -- on one side of zero the magnitudes decide, and otherwise the signs do
      have hcompare := canonical.compare_eq canonical'
      have hm := hpos (e := e) pos
      have hm' := hpos (e := e') pos'
      cases s <;> cases s' <;> simp only [Sign.apply, Int.cast_neg, Int.cast_natCast, neg_mul]
      · rw [compare_neg_neg, ← hcompare]
        rfl
      · rw [compare_lt_iff_lt.2 (by linarith)]
        rfl
      · rw [compare_gt_iff_gt.2 (by linarith)]
        rfl
      · rw [← hcompare]
        rfl

/-- Numbers are compared as they are unpacked. -/
theorem le_iff_unpacked : x ≤ y ↔ x.toModel.unpack.le y.toModel.unpack = true :=
  decide_eq_true_iff

/-- Finite numbers are ordered as what they read. -/
theorem le_iff (hx : Reads x p) (hy : Reads y q) : x ≤ y ↔ p ≤ q := by
  rw [le_iff_unpacked, UnpackedFloat.le, (reads_iff.1 hx).compare_eq (reads_iff.1 hy),
    Option.any_some, Ordering.isLE_iff_ne_gt]
  exact compare_le_iff_le

/-- Numbers are strictly compared as they are unpacked. -/
theorem lt_iff_unpacked : x < y ↔ x.toModel.unpack.lt y.toModel.unpack = true :=
  decide_eq_true_iff

/-- Finite numbers are ordered as what they read, also strictly. -/
theorem lt_iff (hx : Reads x p) (hy : Reads y q) : x < y ↔ p < q := by
  rw [lt_iff_unpacked, UnpackedFloat.lt, (reads_iff.1 hx).compare_eq (reads_iff.1 hy), beq_iff_eq,
    Option.some.injEq]
  exact compare_lt_iff_lt

/-- What lies strictly between two numbers is finite. -/
theorem isFinite_of_lt_of_lt (hxy : x < y) (hyz : y < z) : y.isFinite := by
  rw [lt_iff_unpacked, UnpackedFloat.lt, beq_iff_eq] at hxy hyz
  change y.toModel.unpack.isFinite
  generalize x.toModel.unpack = u at hxy
  generalize z.toModel.unpack = w at hyz
  generalize y.toModel.unpack = v at hxy hyz ⊢
  -- nothing is above the positive infinity or below the negative one, and a NaN is not ordered
  cases v with
  | notANumber => cases hyz
  | infinity s =>
    cases s with
    | positive =>
      cases w with
      | infinity s => cases s <;> cases hyz
      | _ => cases hyz
    | negative =>
      cases u with
      | infinity s => cases s <;> cases hxy
      | _ => cases hxy
  | zero | finite => rfl

/-- Only a finite number has a magnitude that is at most a finite number. -/
theorem exists_reads_of_abs_le (h : x.abs ≤ y) (hy : Reads y q) : ∃ p, Reads x p ∧ |p| ≤ q := by
  have hfinite : x.isFinite := by
    have hy := reads_iff.1 hy
    rw [le_iff_unpacked, unpack_abs] at h
    change x.toModel.unpack.isFinite
    generalize y.toModel.unpack = w at h hy
    generalize x.toModel.unpack = u at h
    -- the magnitude of an infinity is the positive one, which no finite number reaches
    cases u with
    | notANumber => cases hy <;> cases h
    | infinity s =>
      rw [show (infinity s).abs = .infinity .positive from rfl, unpack_pack_infinity] at h
      cases hy <;> cases h
    | zero | finite => rfl
  obtain ⟨p, hp⟩ := exists_reads hfinite
  exact ⟨p, hp, (le_iff (reads_abs hp) hy).1 h⟩

/-! ## Rounding -/

/-- `x` is `v`, rounded to single precision. -/
def Rounds (x : Float32) (v : ℚ) : Prop :=
  ∃ u q, x = .ofModel (.pack u) ∧ Rounded u q ∧ Nearest q v

/-- A sum is rounded to single precision. -/
theorem rounds_add (hx : Reads x p) (hy : Reads y q) : Rounds (x + y) (p + q) := by
  obtain ⟨r, hrounded, hnearest⟩ := exists_add (reads_iff.1 hx) (reads_iff.1 hy)
  exact ⟨_, r, rfl, hrounded, hnearest⟩

/-- A difference is rounded to single precision. -/
theorem rounds_sub (hx : Reads x p) (hy : Reads y q) : Rounds (x - y) (p - q) := by
  obtain ⟨r, hrounded, hnearest⟩ := exists_sub (reads_iff.1 hx) (reads_iff.1 hy)
  exact ⟨_, r, rfl, hrounded, hnearest⟩

/-- A product is rounded to single precision. -/
theorem rounds_mul (hx : Reads x p) (hy : Reads y q) : Rounds (x * y) (p * q) := by
  obtain ⟨r, hrounded, hnearest⟩ := exists_mul (reads_iff.1 hx) (reads_iff.1 hy)
  exact ⟨_, r, rfl, hrounded, hnearest⟩

/-- Finite numbers have short mantissas. -/
theorem Reads.grid (h : Reads x q) : Grid q := (reads_iff.1 h).grid

/-- Finite numbers stay below the greatest power of two. -/
theorem Reads.abs_lt (h : Reads x q) : |q| < 2 ^ 128 := (reads_iff.1 h).abs_lt

/-- A number between two that can be represented does not overflow, and it is rounded to one that
lies between them, too. -/
theorem Rounds.exists_reads {a b : ℚ} (h : Rounds x v) (ha : Representable a)
    (hb : Representable b) (hav : a ≤ v) (hvb : v ≤ b) :
    ∃ q, Reads x q ∧ a ≤ q ∧ q ≤ b ∧ Nearest q v := by
  obtain ⟨u, q, rfl, hrounded, hnearest⟩ := h
  obtain ⟨_, ha⟩ := ha
  obtain ⟨_, hb⟩ := hb
  have haq := hnearest.ge_of_ge ha.grid hav
  have hqb := hnearest.le_of_le hb.grid hvb
  -- an overflow would be beyond one of the ends
  have habs : |q| < 2 ^ 128 := (abs_le_max_abs_abs haq hqb).trans_lt (max_lt ha.abs_lt hb.abs_lt)
  rcases hrounded.denotes_or_pack_eq with hdenotes | ⟨hlarge, -⟩
  · exact ⟨q, reads_ofModel hdenotes, haq, hqb, hnearest⟩
  · exact absurd hlarge (not_le.2 habs)

/-- Rounding gives a number or an infinity. -/
theorem Rounds.reads_or_infinite (h : Rounds x v) :
    (∃ q, Reads x q ∧ Nearest q v) ∨
      ∃ s, x.toModel.unpack = .infinity s ∧ (0 ≤ v → s = .positive) := by
  obtain ⟨u, q, rfl, hrounded, hnearest⟩ := h
  rcases hrounded.denotes_or_pack_eq with hdenotes | ⟨hlarge, s, hsign, hpack⟩
  · exact .inl ⟨q, reads_ofModel hdenotes, hnearest⟩
  · refine .inr ⟨s, ?_, fun hv => ?_⟩
    · exact (congrArg (UnpackedFloat.unpack .binary32) hpack).trans (unpack_pack_infinity s)
    · -- rounding does not change the sign
      have hq := hnearest.ge_of_ge grid_zero hv
      cases s with
      | positive => rfl
      | negative =>
        simp only [Sign.apply, Int.cast_neg, Int.cast_one, neg_one_mul] at hsign
        rw [abs_of_nonneg hq] at hsign hlarge
        linarith

/-- The magnitude of what is rounded is at most positive infinity. -/
theorem Rounds.abs_le_infinity (h : Rounds x v) (hy : y.toModel.unpack = .infinity .positive) :
    x.abs ≤ y := by
  rw [le_iff_unpacked, hy]
  rcases h.reads_or_infinite with ⟨q, hq, -⟩ | ⟨s, hs, -⟩
  · have hdenotes := reads_iff.1 (reads_abs hq)
    generalize x.abs.toModel.unpack = w, |q| = q at hdenotes
    cases hdenotes <;> rfl
  · rw [unpack_abs, hs]
    cases s <;> rfl

/-- Two numbers that are rounded keep their order in magnitude, if the greater one is on the grid:
an overflow of the latter is an infinity. -/
theorem Rounds.abs_le_of_abs_le {b : ℚ} (h : Rounds x v) (hy : Rounds y b) (hb : Grid b)
    (hle : |v| ≤ b) : x.abs ≤ y := by
  rcases hy.reads_or_infinite with ⟨q, hq, hnearest⟩ | ⟨s, hs, hsign⟩
  · obtain rfl := hnearest.eq hb
    obtain ⟨r, hr, hqr, hrq, -⟩ := h.exists_reads ⟨_, reads_neg hq⟩ ⟨y, hq⟩
      (neg_le_of_abs_le hle) (le_of_abs_le hle)
    exact (le_iff (reads_abs hr) hq).2 (abs_le.2 ⟨hqr, hrq⟩)
  · rw [hsign ((abs_nonneg v).trans hle)] at hs
    exact h.abs_le_infinity hs

/-! ## Moving towards zero -/

theorem reads_one : Reads 1 1 := by
  have h := reads_ofInt (n := 1) (representable_of_natAbs_le (by decide))
  rwa [show ofInt 1 = 1 by decide +kernel, Int.cast_one] at h

theorem reads_two : Reads 2 2 := by
  have h := reads_ofInt (n := 2) (representable_of_natAbs_le (by decide))
  rwa [show ofInt 2 = 2 by decide +kernel, Int.cast_ofNat] at h

theorem reads_half : Reads 0.5 (1 / 2) :=
  ⟨⟨false, 2 ^ 23, -24⟩, by decide +kernel, by
    rw [Dyadic.value, Dyadic.fraction_eq]
    norm_num⟩

/-- A positive number below one half is below its complement. -/
theorem not_one_sub_lt {ε : Float32} (hpos : 0 < ε) (hhalf : ε < 0.5) : ¬1 - ε < ε := by
  obtain ⟨q, hq⟩ := exists_reads (isFinite_of_lt_of_lt hpos hhalf)
  have hq_pos : 0 < q := (lt_iff reads_zero hq).1 hpos
  have hq_half : q < 1 / 2 := (lt_iff hq reads_half).1 hhalf
  -- the complement lies between one half and one, and so does what it is rounded to
  obtain ⟨r, hr, hle, -⟩ := (rounds_sub reads_one hq).exists_reads ⟨_, reads_half⟩ ⟨_, reads_one⟩
    (by linarith) (by linarith)
  rw [lt_iff hr hq]
  linarith

/-- Scaling a number by at most one does not overflow and does not change its side of zero. -/
theorem exists_reads_mul (hx : Reads x p) (hz : Reads z r) (hp : 0 ≤ p) (hr : |r| ≤ 1) :
    ∃ q, Reads (x * z) q ∧ |q| ≤ p ∧ (0 ≤ r → 0 ≤ q) ∧ (r ≤ 0 → q ≤ 0) := by
  obtain ⟨hrl, hru⟩ := abs_le.1 hr
  obtain ⟨q, hq, hpq, hqp, hnearest⟩ := (rounds_mul hx hz).exists_reads ⟨_, reads_neg hx⟩ ⟨x, hx⟩
    (by nlinarith) (by nlinarith)
  exact ⟨q, hq, abs_le.2 ⟨hpq, hqp⟩,
    fun h => hnearest.ge_of_ge grid_zero (mul_nonneg hp h),
    fun h => hnearest.le_of_le grid_zero (mul_nonpos_of_nonneg_of_nonpos hp h)⟩

/-- Adding numbers on different sides of zero does not overflow, and moves the first one by at most
twice the second one. -/
theorem exists_reads_add (hx : Reads x p) (hy : Reads y q)
    (hopposite : 0 ≤ q ∧ p ≤ 0 ∨ q ≤ 0 ∧ 0 ≤ p) : ∃ r, Reads (x + y) r ∧ |r - p| ≤ 2 * |q| := by
  obtain ⟨r, hr, hnearest⟩ : ∃ r, Reads (x + y) r ∧ Nearest r (p + q) := by
    have hsum := rounds_add hx hy
    rcases hopposite with ⟨hq, hp⟩ | ⟨hq, hp⟩
    · obtain ⟨r, hr, -, -, hnearest⟩ :=
        hsum.exists_reads ⟨x, hx⟩ ⟨y, hy⟩ (by linarith) (by linarith)
      exact ⟨r, hr, hnearest⟩
    · obtain ⟨r, hr, -, -, hnearest⟩ :=
        hsum.exists_reads ⟨y, hy⟩ ⟨x, hx⟩ (by linarith) (by linarith)
      exact ⟨r, hr, hnearest⟩
  -- the result is at least as near to the sum as the first number is
  have hnear := hnearest.le p hx.grid
  rw [sub_add_cancel_left, abs_neg] at hnear
  have htriangle := abs_sub_le r (p + q) p
  rw [add_sub_cancel_left] at htriangle
  exact ⟨r, hr, by linarith⟩

/-- Infinities absorb what is added to them, or nothing is left that is a number. -/
theorem add_of_not_isFinite (hu : ¬u.isFinite) (w : UnpackedFloat) :
    UnpackedFloat.add .binary32 u w = u ∨ UnpackedFloat.add .binary32 u w = .notANumber := by
  -- infinities of opposite signs are the only ones that cancel to a NaN
  cases u with
  | notANumber => cases w <;> exact .inl rfl
  | infinity s =>
    cases w with
    | notANumber => exact .inr rfl
    | infinity s' =>
      simp only [UnpackedFloat.add]
      split
      · exact .inl rfl
      · exact .inr rfl
    | zero | finite => exact .inl rfl
  | zero | finite => exact absurd rfl hu

/-- No number is at a distance from a number that is not finite. -/
theorem not_abs_sub_le (hx : ¬x.isFinite) (y b : Float32) : ¬(x + y - x).abs ≤ b := by
  have hx : ¬x.toModel.unpack.isFinite := hx
  have hdifference : UnpackedFloat.sub .binary32 (x + y).toModel.unpack x.toModel.unpack =
      .notANumber := by
    -- the sum is the infinity itself, or nothing that is a number
    rw [unpack_add]
    generalize x.toModel.unpack = u at hx
    rcases add_of_not_isFinite hx y.toModel.unpack with hsum | hsum <;> rw [hsum]
    · cases u with
      | notANumber => rfl
      | infinity s => cases s <;> rfl
      | zero | finite => exact absurd rfl hx
    · cases u <;> rfl
  rw [le_iff_unpacked, unpack_abs, unpack_sub, hdifference]
  intro h
  cases h

end TensorGraph.Single
