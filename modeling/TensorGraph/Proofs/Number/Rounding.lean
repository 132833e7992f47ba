import TensorGraph.Proofs.Number.Unpacked

/-!
# Rounding to the nearest number

A mantissa that is too long for single precision is shifted to the right until 24 bits are left, and
two further bits keep the first of those that were shifted out and whether any other one was set.
They decide to which of its two neighbours the number is rounded. The result is as near to the exact
number as numbers with mantissas of 24 bits come. Only an exponent that is too large makes packing
lose it: then an infinity is packed.

## Main definitions

* `Single.Grid`: the numbers with mantissas of 24 bits, however large their exponents are.
* `Single.Nearest`: the numbers on the grid that are nearest to a given one.
* `Single.Rounded`: what rounding leaves.

## Main results

* `Single.exists_roundWithAccuracy` and `Single.exists_round`: rounding is to the nearest number.
* `Single.exists_add`, `Single.exists_sub` and `Single.exists_mul`: so is arithmetic.
* `Single.Rounded.denotes_or_pack_eq`: what is packed of a rounded number.
* `Single.denotes_of_nearest`: rounding leaves what is packed without loss as it is.
-/

namespace TensorGraph.Single

open Float.Model Float.Model.UnpackedFloat

/-! ## The bits that are shifted out -/

/-- Each doubling makes a number one binary digit longer. -/
theorem log2_mul_two_pow {m : Nat} (pos : 0 < m) (j : Nat) : (m * 2 ^ j).log2 = m.log2 + j := by
  obtain ⟨hle, hlt⟩ := (Nat.log2_eq_iff (Nat.ne_of_gt pos)).1 rfl
  rw [Nat.log2_eq_iff (Nat.ne_of_gt (Nat.mul_pos pos (Nat.two_pow_pos j)))]
  constructor
  · rw [Nat.pow_add]
    exact Nat.mul_le_mul_right _ hle
  · rw [Nat.add_right_comm, Nat.pow_add]
    exact Nat.mul_lt_mul_of_pos_right hlt (Nat.two_pow_pos j)

/-- Shifting keeps the first of the bits that it drops and whether any other one is set. -/
theorem shiftRight_eq (k j : Nat) :
    ExtendedMantissa.ofMantissaAndAccuracy k .exact >>> j =
      ⟨k / 2 ^ j, decide (2 ^ j ≤ 2 * (k % 2 ^ j)),
        decide (k % 2 ^ j ≠ 0 ∧ 2 * (k % 2 ^ j) ≠ 2 ^ j)⟩ := by
  induction j with
  | zero =>
    change ExtendedMantissa.ofMantissaAndAccuracy k .exact = _
    simp [ExtendedMantissa.ofMantissaAndAccuracy, Nat.mod_one]
  | succ j ih =>
    change ExtendedMantissa.shiftRightOne
      (ExtendedMantissa.ofMantissaAndAccuracy k .exact >>> j) = _
    have hlt : k % 2 ^ j < 2 ^ j := Nat.mod_lt _ (Nat.two_pow_pos j)
    have hquotient : k / 2 ^ (j + 1) = k / 2 ^ j / 2 := by
      rw [Nat.div_div_eq_div_mul, Nat.pow_succ]
    have hrest : k % 2 ^ (j + 1) = k % 2 ^ j + 2 ^ j * (k / 2 ^ j % 2) := by
      rw [Nat.pow_succ, Nat.mod_mul]
    rw [ih, hquotient, hrest, Nat.pow_succ']
    -- the first bit that is dropped is the last one of the mantissa before
    rcases Nat.mod_two_eq_zero_or_one (k / 2 ^ j) with hbit | hbit <;>
      simp only [ExtendedMantissa.shiftRightOne, hbit, ExtendedMantissa.mk.injEq, true_and] <;>
      refine ⟨?_, Bool.eq_iff_iff.2 ?_⟩ <;> simp <;> omega

/-- Rounding goes to the nearer one of two neighbours. -/
theorem roundedMantissa_eq (k j : Nat) :
    (ExtendedMantissa.ofMantissaAndAccuracy k .exact >>> j).roundedMantissa = k / 2 ^ j ∧
        2 * (k % 2 ^ j) ≤ 2 ^ j ∨
      (ExtendedMantissa.ofMantissaAndAccuracy k .exact >>> j).roundedMantissa = k / 2 ^ j + 1 ∧
        2 ^ j ≤ 2 * (k % 2 ^ j) := by
  rw [shiftRight_eq, ExtendedMantissa.roundedMantissa]
  rcases Nat.lt_trichotomy (2 * (k % 2 ^ j)) (2 ^ j) with hlt | heq | hgt
  · left
    rw [decide_eq_false (Nat.not_le.2 hlt)]
    refine ⟨?_, hlt.le⟩
    cases decide (k % 2 ^ j ≠ 0 ∧ 2 * (k % 2 ^ j) ≠ 2 ^ j) <;> rfl
  · -- a tie goes to the even one
    rw [decide_eq_true heq.ge, decide_eq_false (by simp [heq])]
    rcases Nat.mod_two_eq_zero_or_one (k / 2 ^ j) with hbit | hbit
    · exact .inl ⟨by simp [ExtendedMantissa.accuracy, Accuracy.roundToNearestEven, hbit], heq.le⟩
    · exact .inr ⟨by simp [ExtendedMantissa.accuracy, Accuracy.roundToNearestEven, hbit], heq.ge⟩
  · right
    rw [decide_eq_true hgt.le, decide_eq_true ⟨by omega, hgt.ne'⟩]
    exact ⟨rfl, hgt.le⟩

/-- Rounding a mantissa moves it by at most half of the unit that is left. -/
theorem abs_roundedMantissa_sub_le (k j : Nat) :
    2 * |((ExtendedMantissa.ofMantissaAndAccuracy k .exact >>> j).roundedMantissa : ℚ) * 2 ^ j - k|
      ≤ 2 ^ j := by
  have hdiv : (2 : ℚ) ^ j * (k / 2 ^ j : Nat) + (k % 2 ^ j : Nat) = k := by
    exact_mod_cast Nat.div_add_mod k (2 ^ j)
  have hrest : ((k % 2 ^ j : Nat) : ℚ) < 2 ^ j := by
    exact_mod_cast Nat.mod_lt k (Nat.two_pow_pos j)
  have hnonneg : (0 : ℚ) ≤ (k % 2 ^ j : Nat) := Nat.cast_nonneg _
  -- rounding down loses the remainder, rounding up adds what the remainder lacks of the unit
  rcases roundedMantissa_eq k j with ⟨heq, hle⟩ | ⟨heq, hle⟩ <;> rw [heq]
  · have hle : 2 * ((k % 2 ^ j : Nat) : ℚ) ≤ 2 ^ j := by exact_mod_cast hle
    have hdown : ((k / 2 ^ j : Nat) : ℚ) * 2 ^ j - k = -(k % 2 ^ j : Nat) := by linarith
    rw [hdown, abs_neg, abs_of_nonneg hnonneg]
    exact hle
  · have hle : (2 : ℚ) ^ j ≤ 2 * (k % 2 ^ j : Nat) := by exact_mod_cast hle
    have hup : ((k / 2 ^ j + 1 : Nat) : ℚ) * 2 ^ j - k = 2 ^ j - (k % 2 ^ j : Nat) := by
      push_cast
      linarith
    rw [hup, abs_of_nonneg (by linarith)]
    linarith

/-! ## Nearest numbers -/

/-- The numbers with a mantissa of 24 bits. Their exponents have no upper bound. -/
def Grid (q : ℚ) : Prop := ∃ n f : Int, n.natAbs < 2 ^ 24 ∧ -149 ≤ f ∧ q = n * 2 ^ f

/-- `q` is as near to `v` as numbers with mantissas of 24 bits come. -/
structure Nearest (q v : ℚ) : Prop where
  grid : Grid q
  le : ∀ c, Grid c → |q - v| ≤ |c - v|

variable {p q v : ℚ}

theorem grid_zero : Grid 0 := ⟨0, -149, by decide, le_rfl, by simp⟩

/-- The numbers with short mantissas are symmetric about zero. -/
theorem Grid.neg (h : Grid q) : Grid (-q) := by
  obtain ⟨n, f, hn, hf, rfl⟩ := h
  exact ⟨-n, f, by rwa [Int.natAbs_neg], hf, by push_cast; ring⟩

/-- Doubling only changes the exponent. -/
theorem Grid.double (h : Grid q) : Grid (2 * q) := by
  obtain ⟨n, f, hn, hf, rfl⟩ := h
  refine ⟨n, f + 1, hn, by omega, ?_⟩
  rw [zpow_add₀ two_ne_zero]
  ring

/-- A number on the grid is nearest to itself. -/
theorem Nearest.refl (h : Grid q) : Nearest q q :=
  ⟨h, fun c _ => by rw [sub_self, abs_zero]; exact abs_nonneg _⟩

/-- Rounding to the nearest number is symmetric about zero. -/
theorem Nearest.neg (h : Nearest q v) : Nearest (-q) (-v) := by
  refine ⟨h.grid.neg, fun c hc => ?_⟩
  have hle := h.le (-c) hc.neg
  rw [show -c - v = -(c - -v) by ring, abs_neg] at hle
  rwa [show -q - -v = -(q - v) by ring, abs_neg]

/-- No other number on the grid is nearest to a number that is on it. -/
theorem Nearest.eq (h : Nearest q v) (hv : Grid v) : q = v := by
  have hle := h.le v hv
  rw [sub_self, abs_zero, abs_nonpos_iff] at hle
  exact sub_eq_zero.1 hle

/-- Rounding keeps to the same side of a number on the grid. -/
theorem Nearest.le_of_le {b : ℚ} (h : Nearest q v) (hb : Grid b) (hvb : v ≤ b) : q ≤ b := by
  have hle := h.le b hb
  rw [abs_of_nonneg (sub_nonneg.2 hvb)] at hle
  linarith [le_abs_self (q - v)]

/-- The nearest number to a bound or more is not below the bound. -/
theorem Nearest.ge_of_ge {a : ℚ} (h : Nearest q v) (ha : Grid a) (hav : a ≤ v) : a ≤ q :=
  neg_le_neg_iff.1 (h.neg.le_of_le ha.neg (neg_le_neg hav))

/-- Among the multiples of a unit, none is nearer than one that is at most half a unit away. -/
theorem abs_sub_le_of_half {u : ℚ} {r : Int} (hu : 0 < u) (hhalf : 2 * |r * u - v| ≤ u) (n : Int) :
    |r * u - v| ≤ |n * u - v| := by
  rcases eq_or_ne n r with rfl | hne
  · exact le_rfl
  · -- two multiples are at least a unit apart, so the other one is at least half a unit away
    have hone : (1 : ℚ) ≤ |(n : ℚ) - r| := by
      exact_mod_cast Int.one_le_abs (sub_ne_zero.2 hne)
    have happart : u ≤ |(n : ℚ) * u - r * u| := by
      rw [← sub_mul, abs_mul, abs_of_pos hu]
      exact le_mul_of_one_le_left hu.le hone
    have htriangle := abs_sub_le ((n : ℚ) * u) v (r * u)
    rw [abs_sub_comm v] at htriangle
    linarith

/-- A number on the grid is a multiple of a power of two, or has a smaller exponent. -/
theorem Grid.multiple_or_le {c : ℚ} (h : Grid c) {t : Int} (ht : -149 ≤ t) :
    (∃ n : Int, c = n * 2 ^ t) ∨ -149 < t ∧ c ≤ 2 ^ (t + 23) := by
  obtain ⟨n, f, hn, hf, rfl⟩ := h
  -- an exponent below the unit's leaves room for 24 bits only, one above it is absorbed by the
  -- mantissa
  rcases lt_or_ge f t with hlt | hge
  · refine .inr ⟨by omega, ?_⟩
    have hcast : (n : ℚ) ≤ 2 ^ 24 := by exact_mod_cast (by omega : n ≤ 2 ^ 24)
    calc (n : ℚ) * 2 ^ f ≤ 2 ^ 24 * 2 ^ f := by gcongr
      _ = 2 ^ (24 + f) := by rw [zpow_add₀ two_ne_zero]; norm_num
      _ ≤ 2 ^ (t + 23) := zpow_le_zpow_right₀ one_le_two (by omega)
  · obtain ⟨j, hj⟩ := Int.eq_ofNat_of_zero_le (Int.sub_nonneg.2 hge)
    obtain rfl : f = t + j := by omega
    refine .inl ⟨n * 2 ^ j, ?_⟩
    rw [zpow_add₀ two_ne_zero, zpow_natCast]
    push_cast
    ring

/-- The nearest multiple of a unit is as near as any number on the grid, if the unit is the least
one or the mantissa is full. -/
theorem nearest_of_half {t : Int} {r : Nat} (hr : r ≤ 2 ^ 24) (ht : -149 ≤ t)
    (hv : t = -149 ∨ 2 ^ (t + 23) ≤ v) (hhalf : 2 * |(r : ℚ) * 2 ^ t - v| ≤ 2 ^ t) :
    Nearest (r * 2 ^ t) v := by
  have hmultiple (n : Int) : |(r : ℚ) * 2 ^ t - v| ≤ |n * 2 ^ t - v| :=
    abs_sub_le_of_half (r := r) (by positivity) hhalf n
  have hfull : (2 : ℚ) ^ (t + 23) = (2 ^ 23 : Int) * 2 ^ t := by
    rw [zpow_add₀ two_ne_zero]
    push_cast
    ring
  constructor
  · -- a mantissa that reaches 25 bits is a power of two, so the grid holds it with one bit less
    rcases Nat.lt_or_eq_of_le hr with hlt | rfl
    · exact ⟨r, t, by simpa using hlt, ht, rfl⟩
    · refine ⟨2 ^ 23, t + 1, by decide, by omega, ?_⟩
      rw [zpow_add₀ two_ne_zero]
      push_cast
      ring
  · intro c hc
    rcases hc.multiple_or_le ht with ⟨n, rfl⟩ | ⟨hlt, hle⟩
    · exact hmultiple n
    · -- a finer number is below the least multiple with a full mantissa
      have hv := hv.resolve_left (by omega)
      have hnear := hmultiple (2 ^ 23)
      rw [← hfull, abs_of_nonpos (by linarith : (2 : ℚ) ^ (t + 23) - v ≤ 0)] at hnear
      rw [abs_of_nonpos (by linarith : c - v ≤ 0)]
      linarith

/-! ## Rounding -/

/-- What rounding leaves: like what is packed without loss, but the exponent may be too large. -/
inductive Rounded : UnpackedFloat → ℚ → Prop
  | zero (s : Sign) : Rounded (.zero s) 0
  | finite {s : Sign} {m : Nat} {e : Int} {pos : 0 < m} (lt : m < 2 ^ 24) (least : -149 ≤ e)
      (leading : 2 ^ 23 ≤ m ∨ e = -149) :
      Rounded (.finite s m e pos) ((s.apply m : Int) * (2 : ℚ) ^ e)

theorem targetExponent_binary32 (k : Nat) (d : Int) :
    Format.binary32.targetExponent (totalExponent k d) =
      max ((k.log2 : Int) + 1 + d - 24) (-149) := rfl

/-- Rounding up can make a mantissa of 25 bits, which is shifted once more. -/
theorem exists_shiftToTargetExponent {r : Nat} {t : Int} (hr : r ≤ 2 ^ 24) (ht : -149 ≤ t)
    (hleading : 2 ^ 23 ≤ r ∨ t = -149) :
    ∃ m e, shiftToTargetExponent .binary32 r t .exact =
        (ExtendedMantissa.ofMantissaAndAccuracy m .exact, e) ∧
      (m : ℚ) * 2 ^ e = r * 2 ^ t ∧ m < 2 ^ 24 ∧ -149 ≤ e ∧ (2 ^ 23 ≤ m ∨ e = -149) := by
  rcases Nat.lt_or_eq_of_le hr with hlt | rfl
  · -- a mantissa that is short enough is not shifted
    have hlog : r.log2 < 24 := by
      rcases Nat.eq_zero_or_pos r with rfl | pos
      · decide
      · exact (Nat.log2_lt (Nat.ne_of_gt pos)).2 hlt
    have hamount : (Format.binary32.targetExponent (totalExponent r t) - t).toNat = 0 := by
      rw [targetExponent_binary32]
      omega
    refine ⟨r, t, ?_, rfl, hlt, ht, hleading⟩
    simp only [shiftToTargetExponent, shiftToExponent, hamount, Int.natCast_zero, Int.add_zero]
    rfl
  · -- the only one that is too long is a power of two, so the bit that it loses is not set
    have hamount : (Format.binary32.targetExponent (totalExponent (2 ^ 24) t) - t).toNat = 1 := by
      rw [targetExponent_binary32, Nat.log2_two_pow]
      omega
    refine ⟨2 ^ 23, t + 1, ?_, ?_, by decide, by omega, .inl le_rfl⟩
    · simp only [shiftToTargetExponent, shiftToExponent, hamount]
      exact congrArg (·, t + 1) (shiftRight_eq (2 ^ 24) 1)
    · rw [zpow_add₀ two_ne_zero]
      push_cast
      ring

section Shifting

variable {k j : Nat} {d : Int} (hk : 0 < k)
  (htarget : Format.binary32.targetExponent (totalExponent k d) = d + j)

include htarget in
/-- The mantissa that is aimed at does not reach below the least exponent. -/
theorem least_of_target : -149 ≤ d + (j : Int) := by
  rw [← htarget, targetExponent_binary32]
  exact le_max_right _ _

include hk htarget

/-- Shifting to the exponent that rounding aims at leaves at most 24 bits, and rounding up what is
left carries into one more at most. -/
theorem roundedMantissa_le :
    (ExtendedMantissa.ofMantissaAndAccuracy k .exact >>> j).roundedMantissa ≤ 2 ^ 24 := by
  rw [targetExponent_binary32] at htarget
  have hlt : k < 2 ^ (k.log2 + 1) := (Nat.log2_lt (Nat.ne_of_gt hk)).1 (Nat.lt_succ_self _)
  have hshort : k / 2 ^ j < 2 ^ 24 := by
    rw [Nat.div_lt_iff_lt_mul (Nat.two_pow_pos j), ← Nat.pow_add]
    exact hlt.trans_le (Nat.pow_le_pow_right Nat.two_pos (by omega))
  have hneighbour := roundedMantissa_eq k j
  omega

/-- It leaves as many as 24 bits unless the exponent is the least one. -/
theorem le_of_target : d + j = -149 ∨ 2 ^ (23 + j) ≤ k := by
  rw [targetExponent_binary32] at htarget
  rw [← Nat.le_log2 (Nat.ne_of_gt hk)]
  omega

theorem le_roundedMantissa :
    2 ^ 23 ≤ (ExtendedMantissa.ofMantissaAndAccuracy k .exact >>> j).roundedMantissa ∨
      d + j = -149 := by
  rcases le_of_target hk htarget with h | h
  · exact .inr h
  · have hneighbour := roundedMantissa_eq k j
    rw [Nat.pow_add, ← Nat.le_div_iff_mul_le (Nat.two_pow_pos j)] at h
    exact .inl (by omega)

/-- A mantissa that is shifted to the exponent that rounding aims at is rounded to the nearest. -/
theorem nearest_roundedMantissa :
    Nearest ((ExtendedMantissa.ofMantissaAndAccuracy k .exact >>> j).roundedMantissa *
      2 ^ (d + j : Int)) (k * 2 ^ d) := by
  refine nearest_of_half (roundedMantissa_le hk htarget) (least_of_target htarget)
    ((le_of_target hk htarget).imp_right fun h => ?_) ?_
  · -- the mantissa that is left is full, or its exponent is the least one
    have hcast : (2 : ℚ) ^ (23 + j) ≤ k := by exact_mod_cast h
    calc (2 : ℚ) ^ (d + j + 23) = 2 ^ (23 + j) * 2 ^ d := by
          rw [← zpow_natCast, ← zpow_add₀ two_ne_zero]
          congr 1
          push_cast
          ring
      _ ≤ k * 2 ^ d := by gcongr
  · -- half of a unit after the shift, scaled by the exponent before it
    have hhalf := abs_roundedMantissa_sub_le k j
    have hpos : (0 : ℚ) < 2 ^ d := by positivity
    rw [zpow_add₀ two_ne_zero, zpow_natCast, mul_left_comm, mul_comm (2 ^ d : ℚ), ← sub_mul,
      abs_mul, abs_of_pos hpos]
    nlinarith

end Shifting

/-- What is left of a mantissa makes a rounded number. -/
theorem rounded_of_mantissa (s : Sign) {m : Nat} {e : Int} (hlt : m < 2 ^ 24) (hleast : -149 ≤ e)
    (hleading : 2 ^ 23 ≤ m ∨ e = -149) :
    Rounded (if h : m = 0 then .zero s else .finite s m e (Nat.pos_of_ne_zero h))
      ((s.apply m : Int) * 2 ^ e) := by
  split
  · next h =>
    subst h
    have hzero : ((s.apply 0 : Int) : ℚ) * 2 ^ e = 0 := by cases s <;> simp [Sign.apply]
    exact hzero ▸ .zero s
  · exact .finite hlt hleast hleading

/-- Rounding gives a number nearest to the exact one. -/
theorem exists_roundWithAccuracy {s : Sign} {k : Nat} {d : Int} (hk : 0 < k)
    (hd : d ≤ Format.binary32.targetExponent (totalExponent k d)) :
    ∃ q, Rounded (roundWithAccuracy .binary32 s k d .exact) q ∧
      Nearest q ((s.apply k : Int) * 2 ^ d) := by
  obtain ⟨j, hj⟩ := Int.eq_ofNat_of_zero_le (Int.sub_nonneg.2 hd)
  have htarget : Format.binary32.targetExponent (totalExponent k d) = d + j := by omega
  -- one shift to the exponent that is aimed at, and after rounding one for the carry
  have hfirst : shiftToTargetExponent .binary32 k d .exact =
      (ExtendedMantissa.ofMantissaAndAccuracy k .exact >>> j, d + j) := by
    have hamount : (d + j - d).toNat = j := by omega
    simp only [shiftToTargetExponent, htarget, shiftToExponent, hamount]
  obtain ⟨m, e, hsecond, hvalue, hlt, hleast, hleading⟩ :=
    exists_shiftToTargetExponent (roundedMantissa_le hk htarget) (least_of_target htarget)
      (le_roundedMantissa hk htarget)
  have hround : roundWithAccuracy .binary32 s k d .exact =
      if h : m = 0 then .zero s else .finite s m e (Nat.pos_of_ne_zero h) := by
    have hmantissa : (ExtendedMantissa.ofMantissaAndAccuracy m .exact).mantissa = m := rfl
    simp only [roundWithAccuracy, hfirst, hsecond, hmantissa]
  have hnearest := nearest_roundedMantissa hk htarget
  rw [← hvalue] at hnearest
  rw [hround]
  refine ⟨_, rounded_of_mantissa s hlt hleast hleading, ?_⟩
  cases s with
  | positive => simpa [Sign.apply] using hnearest
  | negative => simpa [Sign.apply] using hnearest.neg

/-- What rounding an exact mantissa gives is as near as possible. -/
theorem exists_round {s : Sign} {k : Nat} {d : Int} (hk : 0 < k) :
    ∃ q, Rounded (UnpackedFloat.round .binary32 s k d) q ∧
      Nearest q ((s.apply k : Int) * 2 ^ d) := by
  obtain ⟨j, hj⟩ : ∃ j : Nat,
      j = (d - Format.binary32.targetExponent (totalExponent k d)).toNat := ⟨_, rfl⟩
  -- a mantissa that is too short is made longer first, which changes no number
  have hround : UnpackedFloat.round .binary32 s k d =
      roundWithAccuracy .binary32 s (k * 2 ^ j) (d - j) .exact := by
    simp only [UnpackedFloat.round, decreaseExponent, ← hj, Nat.shiftLeft_eq]
  have hvalue :
      ((s.apply (k * 2 ^ j : Nat) : Int) : ℚ) * 2 ^ (d - j) = (s.apply k : Int) * 2 ^ d := by
    rw [zpow_sub₀ two_ne_zero, zpow_natCast]
    cases s <;> simp only [Sign.apply] <;> push_cast <;> field_simp
  rw [hround, ← hvalue]
  refine exists_roundWithAccuracy (Nat.mul_pos hk (Nat.two_pow_pos j)) ?_
  rw [targetExponent_binary32] at hj ⊢
  rw [log2_mul_two_pow hk]
  omega

/-- What normalizing an exact sum gives is as near as possible. -/
theorem exists_normalize (z d : Int) (s : Sign) :
    ∃ q, Rounded (UnpackedFloat.normalize .binary32 z d s) q ∧ Nearest q (z * 2 ^ d) := by
  unfold UnpackedFloat.normalize
  -- the sign is split off, and the magnitude is rounded
  rcases lt_trichotomy z 0 with hz | rfl | hz
  · have happly : Sign.apply .negative (-z).toNat = z := by simp only [Sign.apply]; omega
    have hround := exists_round (s := .negative) (k := (-z).toNat) (d := d) (by omega)
    rw [show compare z 0 = .lt from Int.compare_eq_lt.2 hz]
    rwa [happly] at hround
  · exact ⟨0, .zero s, by simpa using Nearest.refl grid_zero⟩
  · have happly : Sign.apply .positive z.toNat = z := by simp only [Sign.apply]; omega
    have hround := exists_round (s := .positive) (k := z.toNat) (d := d) (by omega)
    rw [show compare z 0 = .gt from Int.compare_eq_gt.2 hz]
    rwa [happly] at hround

/-! ## Arithmetic -/

variable {u w : UnpackedFloat}

/-- Unpacked numbers have short mantissas. -/
theorem Denotes.grid (h : Denotes u q) : Grid q := by
  cases h with
  | zero => exact grid_zero
  | @finite s m e pos canonical =>
    have hlt : (s.apply m : Int).natAbs < 2 ^ 24 := by
      rw [show (s.apply m : Int).natAbs = m by cases s <;> simp [Sign.apply]]
      exact canonical.lt
    exact ⟨_, e, hlt, canonical.least, rfl⟩

/-- An unpacked number is what rounding it leaves. -/
theorem Denotes.rounded (h : Denotes u q) : Rounded u q := by
  cases h with
  | zero s => exact .zero s
  | finite canonical => exact .finite canonical.lt canonical.least canonical.leading

/-- What is packed without loss is rounded to itself. -/
theorem Denotes.exists_rounded (h : Denotes u q) : ∃ r, Rounded u r ∧ Nearest r q :=
  ⟨q, h.rounded, .refl h.grid⟩

/-- A sum is rounded to the nearest number. -/
theorem exists_add (hu : Denotes u p) (hw : Denotes w q) :
    ∃ r, Rounded (UnpackedFloat.add .binary32 u w) r ∧ Nearest r (p + q) := by
  -- a zero returns the other summand unrounded; only two finite summands are aligned and rounded
  cases hu with
  | zero s =>
    rw [zero_add]
    cases hw with
    | zero s' =>
      simp only [UnpackedFloat.add]
      split <;> exact (Denotes.zero _).exists_rounded
    | finite canonical => exact (Denotes.finite canonical).exists_rounded
  | @finite s m e pos canonical =>
    cases hw with
    | zero s' =>
      rw [add_zero]
      exact (Denotes.finite canonical).exists_rounded
    | @finite s' m' e' pos' canonical' =>
      rw [apply_add_apply]
      exact exists_normalize _ _ _

/-- A difference is rounded to the nearest number. -/
theorem exists_sub (hu : Denotes u p) (hw : Denotes w q) :
    ∃ r, Rounded (UnpackedFloat.sub .binary32 u w) r ∧ Nearest r (p - q) := by
  rw [sub_eq_add_neg_of_denotes hu hw, sub_eq_add_neg]
  exact exists_add hu (denotes_neg hw)

/-- A product is rounded to the nearest number. -/
theorem exists_mul (hu : Denotes u p) (hw : Denotes w q) :
    ∃ r, Rounded (UnpackedFloat.mul .binary32 u w) r ∧ Nearest r (p * q) := by
  cases hu with
  | zero s =>
    rw [zero_mul]
    cases hw <;> exact (Denotes.zero _).exists_rounded
  | @finite s m e pos canonical =>
    cases hw with
    | zero s' =>
      rw [mul_zero]
      exact (Denotes.zero _).exists_rounded
    | @finite s' m' e' pos' canonical' =>
      rw [apply_mul_apply]
      refine exists_roundWithAccuracy (Nat.mul_pos pos pos') ?_
      rw [targetExponent_binary32]
      -- a short product is one of two numbers with the least exponent
      rcases canonical.full_mul canonical' pos pos' with hfull | hleast
      · rw [← Nat.le_log2 (Nat.ne_of_gt (Nat.mul_pos pos pos'))] at hfull
        omega
      · omega

/-! ## Packing -/

/-- Finite numbers stay below the greatest power of two. -/
theorem Denotes.abs_lt (h : Denotes u q) : |q| < 2 ^ 128 := by
  cases h with
  | zero => norm_num
  | @finite s m e pos canonical =>
    have hlt : (m : ℚ) < 2 ^ 24 := by exact_mod_cast canonical.lt
    have hle : (2 : ℚ) ^ e ≤ 2 ^ (104 : Int) := zpow_le_zpow_right₀ one_le_two canonical.greatest
    rw [abs_apply_mul]
    calc (m : ℚ) * 2 ^ e ≤ m * 2 ^ (104 : Int) := by gcongr
      _ < 2 ^ 24 * 2 ^ (104 : Int) := by gcongr
      _ = 2 ^ 128 := by norm_num

/-- A rounded number is packed without loss unless it is too large, and then as an infinity. -/
theorem Rounded.denotes_or_pack_eq (h : Rounded u q) :
    Denotes u q ∨ 2 ^ 128 ≤ |q| ∧ ∃ s : Sign, q = (s.apply 1 : Int) * |q| ∧
      UnpackedFloat.pack .binary32 u = UnpackedFloat.pack .binary32 (.infinity s) := by
  cases h with
  | zero s => exact .inl (.zero s)
  | @finite s m e pos lt least leading =>
    -- the exponent field has room for 104 and no more
    rcases le_or_gt e 104 with hle | hgt
    · exact .inl (.finite ⟨lt, least, hle, leading⟩)
    · refine .inr ⟨?_, s, ?_, ?_⟩
      · have hfull : (2 : ℚ) ^ 23 ≤ m := by exact_mod_cast (by omega : 2 ^ 23 ≤ m)
        have hle : (2 : ℚ) ^ (105 : Int) ≤ 2 ^ e := zpow_le_zpow_right₀ one_le_two (by omega)
        rw [abs_apply_mul]
        calc (2 : ℚ) ^ 128 = (2 : ℚ) ^ 23 * (2 : ℚ) ^ (105 : Int) := by norm_num
          _ ≤ m * (2 : ℚ) ^ e := by gcongr
      · rw [abs_apply_mul]
        cases s <;> simp [Sign.apply]
      · have hbias : Format.binary32.exponentBias = 127 := rfl
        simp only [UnpackedFloat.pack, hbias]
        rw [if_pos (by omega)]

/-! ## Numbers that need no rounding -/

/-- What is packed without loss is not changed by rounding. -/
theorem denotes_of_nearest (h : ∃ r, Rounded u r ∧ Nearest r q) (hw : Denotes w q) :
    Denotes u q := by
  obtain ⟨r, hrounded, hnearest⟩ := h
  obtain rfl := hnearest.eq hw.grid
  rcases hrounded.denotes_or_pack_eq with hdenotes | ⟨hlarge, -⟩
  · exact hdenotes
  · exact absurd hlarge (not_le.2 hw.abs_lt)

/-- What is on the grid and not too large can be packed without loss. -/
theorem Grid.exists_denotes (h : Grid q) (hlt : |q| < 2 ^ 128) : ∃ u, Denotes u q := by
  obtain ⟨n, f, hn, hf, rfl⟩ := h
  obtain ⟨r, hrounded, hnearest⟩ := exists_normalize n f .positive
  obtain rfl := hnearest.eq ⟨n, f, hn, hf, rfl⟩
  rcases hrounded.denotes_or_pack_eq with hdenotes | ⟨hlarge, -⟩
  · exact ⟨_, hdenotes⟩
  · exact absurd hlarge (not_le.2 hlt)

/-- Rounding changes nothing about a number that can be denoted. -/
theorem denotes_round {s : Sign} {k : Nat} {d : Int} (hk : 0 < k)
    (h : Denotes u ((s.apply k : Int) * (2 : ℚ) ^ d)) :
    Denotes (UnpackedFloat.round .binary32 s k d) ((s.apply k : Int) * (2 : ℚ) ^ d) :=
  denotes_of_nearest (exists_round hk) h

variable {x : UnpackedFloat}

/-- A sum that can be denoted is what is added up. -/
theorem denotes_add (hu : Denotes u p) (hw : Denotes w q) (hx : Denotes x (p + q)) :
    Denotes (UnpackedFloat.add .binary32 u w) (p + q) :=
  denotes_of_nearest (exists_add hu hw) hx

/-- A difference that can be denoted is what subtraction gives. -/
theorem denotes_sub (hu : Denotes u p) (hw : Denotes w q) (hx : Denotes x (p - q)) :
    Denotes (UnpackedFloat.sub .binary32 u w) (p - q) :=
  denotes_of_nearest (exists_sub hu hw) hx

/-- A product that can be denoted is what is multiplied out. -/
theorem denotes_mul (hu : Denotes u p) (hw : Denotes w q) (hx : Denotes x (p * q)) :
    Denotes (UnpackedFloat.mul .binary32 u w) (p * q) :=
  denotes_of_nearest (exists_mul hu hw) hx

end TensorGraph.Single
