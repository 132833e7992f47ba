import TensorGraph.Proofs.Number.Rounding

/-!
# Exact single-precision arithmetic

Single-precision arithmetic rounds. But where the exact result of an operation is itself a
single-precision number, the operation gives it. This is so for sums, differences and products, for
changes of the sign, for reading an integer, and for what becomes of an integer as it is fetched.

## Main definitions

* `Single.Reads`: the rational number that a finite single-precision number is.
* `Single.Representable`: the rational numbers that single precision holds.
* `Single.number`: what a single-precision number is as a number, whichever zero it may be.

## Main results

* `Single.reads_add`, `Single.reads_sub` and `Single.reads_mul`: exact operations.
* `Single.reads_ofInt` and `Single.toInt64_eq`: from integers and back.
* `Single.representable_of_natAbs_le`: integers of at most 24 bits.
* `Single.number_add_of_reads_zero`: adding a zero changes no number.
-/

namespace TensorGraph

/-- The number that a dyadic number is. -/
def Dyadic.value (d : Dyadic) : ℚ := (if d.negative then -1 else 1) * (d.fraction.1 / d.fraction.2)

/-- A dyadic number is what its numerator and its denominator say. -/
theorem Dyadic.fraction_eq (d : Dyadic) :
    (d.fraction.1 : ℚ) / d.fraction.2 = d.mantissa * 2 ^ d.exponent := by
  obtain ⟨negative, m, e⟩ := d
  simp only [fraction, Nat.pow_eq]
  split
  · next he =>
    obtain ⟨j, rfl⟩ := Int.eq_ofNat_of_zero_le he
    simp
  · next he =>
    obtain ⟨j, hj⟩ := Int.eq_ofNat_of_zero_le (by omega : 0 ≤ -e)
    obtain rfl : e = -j := by omega
    simp [zpow_neg, div_eq_mul_inv]

theorem Dyadic.fraction_pos (d : Dyadic) : 0 < d.fraction.2 := by
  unfold fraction
  split
  · exact Nat.one_pos
  · exact Nat.two_pow_pos _

namespace Single

open Float.Model Float.Model.UnpackedFloat

variable {x y : Float32} {p q : ℚ}

/-- The number that a finite single-precision number is. -/
def Reads (x : Float32) (q : ℚ) : Prop := ∃ d, read x = .finite d ∧ d.value = q

/-- The numbers that single precision holds. -/
def Representable (q : ℚ) : Prop := ∃ x, Reads x q

/-! ## Reading and unpacking -/

/-- The value of a number that is read from a sign, a mantissa and an exponent. -/
theorem value_of_reading (s : Sign) (m : Nat) (e : Int) :
    Dyadic.value ⟨isNegative s, m, e⟩ = (s.apply m : Int) * (2 : ℚ) ^ e := by
  rw [Dyadic.value, Dyadic.fraction_eq]
  cases s <;> simp [isNegative, Sign.apply]

theorem value_zero (s : Sign) (e : Int) : Dyadic.value ⟨isNegative s, 0, e⟩ = 0 := by
  rw [value_of_reading]
  cases s <;> simp [Sign.apply]

/-- A finite unpacked number is read as what it denotes. -/
theorem reading_of_denotes {u : UnpackedFloat} (h : Denotes u q) :
    ∃ d, reading u = .finite d ∧ d.value = q := by
  cases h with
  | zero s => exact ⟨_, rfl, value_zero s _⟩
  | finite => exact ⟨_, rfl, value_of_reading _ _ _⟩

/-- Unpacking gives canonical numbers. -/
theorem denotes_unpack {b : BitVec 32} {d : Dyadic}
    (h : reading (UnpackedFloat.unpack .binary32 b) = .finite d) :
    Denotes (UnpackedFloat.unpack .binary32 b) d.value := by
  have hmantissa : (@unpackMantissa .binary32 b).toNat < 2 ^ 23 := BitVec.isLt _
  have hexponent : (@unpackExponent .binary32 b).toNat < 2 ^ 8 := BitVec.isLt _
  have hbias : Format.binary32.exponentBias = 127 := rfl
  simp only [UnpackedFloat.unpack, toNat_implicit, hbias] at h ⊢
  split at h
  · split at h <;> cases h
  · next hspecial =>
    rw [if_neg hspecial]
    have hfinite : (@unpackExponent .binary32 b).toNat ≠ 255 := fun heq =>
      hspecial (BitVec.eq_of_toNat_eq heq)
    split at h
    · next hsmall =>
      -- without a leading bit: zeros and the numbers with the least exponent
      rw [if_pos hsmall]
      have hleast : (@unpackExponent .binary32 b).toNat = 0 := by rw [hsmall]; rfl
      split at h
      · next hzero =>
        rw [dif_pos hzero]
        cases h
        rw [value_zero]
        exact .zero _
      · next hzero =>
        rw [dif_neg hzero]
        cases h
        rw [value_of_reading]
        refine .finite ⟨?_, ?_, ?_, .inr ?_⟩ <;> omega
    · next hsmall =>
      rw [if_neg hsmall]
      have hpos : (@unpackExponent .binary32 b).toNat ≠ 0 := fun heq =>
        hsmall (BitVec.eq_of_toNat_eq heq)
      cases h
      rw [value_of_reading]
      refine .finite ⟨?_, ?_, ?_, .inl ?_⟩ <;> omega

/-- A number is read as what it denotes once it is unpacked. -/
theorem reads_iff : Reads x q ↔ Denotes x.toModel.unpack q := by
  unfold Reads
  rw [read_eq]
  refine ⟨?_, reading_of_denotes⟩
  rintro ⟨d, hd, rfl⟩
  exact denotes_unpack hd

/-- A number that is packed is read as what it denoted. -/
theorem reads_ofModel {u : UnpackedFloat} (h : Denotes u q) : Reads (.ofModel (.pack u)) q := by
  rw [reads_iff]
  have hunpack : (Float32.Model.pack u).unpack = u := unpack_pack h
  rwa [hunpack]

/-! ## Operations -/

theorem reads_zero : Reads 0 0 :=
  ⟨⟨false, 0, -149⟩, by decide +kernel, by simp [Dyadic.value, Dyadic.fraction]⟩

/-- Negation is exact. -/
theorem reads_neg (hx : Reads x p) : Reads (-x) (-p) :=
  reads_ofModel (denotes_neg (reads_iff.1 hx))

/-- The absolute value is exact. -/
theorem reads_abs (hx : Reads x p) : Reads x.abs |p| :=
  reads_ofModel (denotes_abs (reads_iff.1 hx))

/-- A representable number is denoted by some unpacked one. -/
theorem Representable.exists_denotes (h : Representable q) : ∃ u, Denotes u q := by
  obtain ⟨x, hx⟩ := h
  exact ⟨_, reads_iff.1 hx⟩

/-- A sum that single precision can hold is exact. -/
theorem reads_add (hx : Reads x p) (hy : Reads y q) (h : Representable (p + q)) :
    Reads (x + y) (p + q) := by
  obtain ⟨w, hw⟩ := h.exists_denotes
  exact reads_ofModel (denotes_add (reads_iff.1 hx) (reads_iff.1 hy) hw)

/-- A difference that single precision can hold is exact. -/
theorem reads_sub (hx : Reads x p) (hy : Reads y q) (h : Representable (p - q)) :
    Reads (x - y) (p - q) := by
  obtain ⟨w, hw⟩ := h.exists_denotes
  exact reads_ofModel (denotes_sub (reads_iff.1 hx) (reads_iff.1 hy) hw)

/-- A product that single precision can hold is exact. -/
theorem reads_mul (hx : Reads x p) (hy : Reads y q) (h : Representable (p * q)) :
    Reads (x * y) (p * q) := by
  obtain ⟨w, hw⟩ := h.exists_denotes
  exact reads_ofModel (denotes_mul (reads_iff.1 hx) (reads_iff.1 hy) hw)

/-! ## Integers -/

/-- Rounding keeps an integer that can be held. -/
theorem reads_round {s : Sign} {m : Nat} {n : Int} (hm : 0 < m) (hs : s.apply m = n)
    (h : Representable n) : Reads (.ofModel (.pack (UnpackedFloat.round .binary32 s m 0))) n := by
  obtain ⟨w, hw⟩ := h.exists_denotes
  have happly : ((s.apply m : Int) : ℚ) * 2 ^ (0 : Int) = n := by rw [zpow_zero, mul_one, hs]
  rw [← happly] at hw ⊢
  exact reads_ofModel (denotes_round hm hw)

/-- An integer that single precision can hold is converted exactly. -/
theorem reads_ofInt {n : Int} (h : Representable n) : Reads (ofInt n) n := by
  rcases Int.lt_trichotomy n 0 with hn | rfl | hn
  · have hround : ofInt n =
        .ofModel (.pack (UnpackedFloat.round .binary32 .negative n.natAbs 0)) := by
      simp [ofInt, nearest, hn]
    exact hround ▸ reads_round (by omega) (by simp only [Sign.apply]; omega) h
  · exact reads_zero
  · have hround : ofInt n =
        .ofModel (.pack (UnpackedFloat.round .binary32 .positive n.natAbs 0)) := by
      simp [ofInt, nearest, Int.not_lt.2 hn.le]
    exact hround ▸ reads_round (by omega) (by simp only [Sign.apply]; omega) h

/-- An integer is not changed by rounding to the nearest one. -/
theorem roundMagnitude_eq {d : Dyadic} {n : Int} (h : d.value = n) :
    roundMagnitude d = n.natAbs ∧ (if d.negative then -(n.natAbs : Int) else n.natAbs) = n := by
  have hpos : (0 : ℚ) < d.fraction.2 := by exact_mod_cast d.fraction_pos
  have hmagnitude : (0 : ℚ) ≤ d.fraction.1 / d.fraction.2 := by positivity
  obtain ⟨hnatural, hsigned⟩ : (d.fraction.1 : ℚ) / d.fraction.2 = (n.natAbs : Int) ∧
      (if d.negative then -(n.natAbs : Int) else n.natAbs) = n := by
    rw [Dyadic.value] at h
    cases hnegative : d.negative
    · rw [hnegative, if_neg Bool.false_ne_true, one_mul] at h
      have hn : 0 ≤ n := by exact_mod_cast h ▸ hmagnitude
      have habs : (n.natAbs : Int) = n := by omega
      exact ⟨by rw [h, habs], habs⟩
    · rw [hnegative, if_pos rfl, neg_one_mul, neg_eq_iff_eq_neg] at h
      have hn : 0 ≤ -n := by exact_mod_cast h ▸ hmagnitude
      have habs : (n.natAbs : Int) = -n := by omega
      exact ⟨by rw [h, habs, Int.cast_neg], by rw [if_pos rfl, habs, Int.neg_neg]⟩
  refine ⟨?_, hsigned⟩
  -- the numerator is a multiple of the denominator, so adding half of it and dividing leaves that
  rw [div_eq_iff hpos.ne'] at hnatural
  have hfraction : d.fraction.1 = n.natAbs * d.fraction.2 := by exact_mod_cast hnatural
  have hhalf : 2 * (n.natAbs * d.fraction.2) + d.fraction.2 =
      (2 * n.natAbs + 1) * d.fraction.2 := by ring
  simp only [roundMagnitude, hfraction, hhalf]
  rw [Nat.mul_div_mul_right _ _ d.fraction_pos]
  omega

/-- An integer is converted back to itself. -/
theorem toInt64_eq {n : Int64} (h : Reads x n.toInt) : toInt64 x = n := by
  obtain ⟨d, hd, hvalue⟩ := h
  obtain ⟨hmagnitude, hsigned⟩ := roundMagnitude_eq hvalue
  have hleast := Int64.le_toInt n
  have hgreatest := Int64.toInt_lt n
  have hmin : Int64.minValue.toInt = -2 ^ 63 := by decide
  have hmax : Int64.maxValue.toInt = 2 ^ 63 - 1 := by decide
  simp only [toInt64, hd, hmagnitude, hsigned, hmin, hmax]
  rw [min_eq_right (by omega), max_eq_right (by omega), Int64.ofInt_toInt]

/-- Single precision holds the integers with at most 24 significant bits. -/
theorem representable_of_natAbs_eq {n : Int} {m k : Nat} (h : n.natAbs = m * 2 ^ k)
    (hm : m < 2 ^ 24) (hk : k ≤ 104) : Representable n := by
  -- the grid holds the magnitude, and with every number also its negative
  have hmagnitude : Grid (m * 2 ^ k : Nat) :=
    ⟨m, k, by simpa using hm, by omega, by push_cast; rw [zpow_natCast]⟩
  have hgrid : Grid n := by
    rcases Int.natAbs_eq n with hn | hn <;> rw [hn, h]
    · exact hmagnitude
    · exact_mod_cast hmagnitude.neg
  -- the bounds on mantissa and exponent keep the magnitude below the largest power
  have hlt : |(n : ℚ)| < 2 ^ 128 := by
    have hcast : |(n : ℚ)| = (m * 2 ^ k : Nat) := by rw [← h, Nat.cast_natAbs, Int.cast_abs]
    have hpow : 2 ^ k ≤ 2 ^ 104 := Nat.pow_le_pow_right Nat.two_pos hk
    rw [hcast]
    exact_mod_cast (Nat.mul_lt_mul_of_lt_of_le hm hpow (by decide) : m * 2 ^ k < 2 ^ 24 * 2 ^ 104)
  obtain ⟨u, hu⟩ := hgrid.exists_denotes hlt
  exact ⟨_, reads_ofModel hu⟩

/-- Single precision holds the integers up to `2 ^ 24`. -/
theorem representable_of_natAbs_le {n : Int} (h : n.natAbs ≤ 2 ^ 24) : Representable n := by
  rcases Nat.lt_or_eq_of_le h with hlt | heq
  · exact representable_of_natAbs_eq (k := 0) (by simp) hlt (by omega)
  · exact representable_of_natAbs_eq (m := 1) (k := 24) (by omega) (by omega) (by omega)

/-! ## Zeros -/

/-- What a single-precision number is as a number: both zeros are the same. -/
inductive Number where
  | nan
  | infinite (negative : Bool)
  | finite (value : ℚ)

def number (x : Float32) : Number :=
  match read x with
  | .nan => .nan
  | .infinite negative => .infinite negative
  | .finite d => .finite d.value

/-- The finite numbers are those that are read as some rational number. -/
theorem number_eq_finite_iff : number x = .finite q ↔ Reads x q := by
  unfold number Reads
  cases read x <;> simp

/-- A number that is finite is read. -/
theorem exists_reads (h : x.isFinite) : ∃ q, Reads x q := by
  have hfinite : x.toModel.unpack.isFinite := h
  have hread := read_eq x
  cases hu : x.toModel.unpack with
  | notANumber | infinity =>
    rw [hu] at hfinite
    cases hfinite
  | zero | finite =>
    rw [hu] at hread
    exact ⟨_, _, hread, rfl⟩

/-- Adding a finite number to an infinite one changes nothing. -/
theorem Denotes.add_infinity {u : UnpackedFloat} (hu : Denotes u q) (s : Sign) :
    UnpackedFloat.add .binary32 (.infinity s) u = .infinity s := by
  cases hu <;> rfl

/-- Infinities and what is no number are packed without loss. -/
theorem unpack_pack_infinity (s : Sign) : UnpackedFloat.unpack .binary32
    (UnpackedFloat.pack .binary32 (.infinity s)) = .infinity s := by
  cases s <;> rfl

theorem unpack_pack_notANumber : UnpackedFloat.unpack .binary32
    (UnpackedFloat.pack .binary32 .notANumber) = .notANumber := rfl

/-- Adding a zero leaves every number as it is, also one that is not finite. -/
theorem number_add_of_reads_zero (hy : Reads y 0) : number (x + y) = number x := by
  have hsum : read (x + y) = reading (UnpackedFloat.unpack .binary32 (UnpackedFloat.pack .binary32
      (UnpackedFloat.add .binary32 x.toModel.unpack y.toModel.unpack))) := read_eq _
  have hread := read_eq x
  -- exactness says nothing of a number that is not finite, so those two cases go by the rules for
  -- special values
  cases hu : x.toModel.unpack with
  | notANumber =>
    rw [hu, UnpackedFloat.add, unpack_pack_notANumber] at hsum
    rw [number, number, hsum, hread, hu]
  | infinity s =>
    rw [hu, (reads_iff.1 hy).add_infinity, unpack_pack_infinity] at hsum
    rw [number, number, hsum, hread, hu]
  | zero | finite =>
    rw [hu] at hread
    have hx : Reads x _ := ⟨_, hread, rfl⟩
    have hadd := reads_add hx hy
    rw [add_zero] at hadd
    rw [number_eq_finite_iff.2 hx, number_eq_finite_iff.2 (hadd ⟨x, hx⟩)]

/-- Scaling a zero by a finite number gives a zero. -/
theorem reads_mul_zero (hx : x.isFinite) (hy : Reads y 0) : Reads (x * y) 0 := by
  obtain ⟨p, hp⟩ := exists_reads hx
  have hmul := reads_mul hp hy
  rw [mul_zero] at hmul
  exact hmul ⟨0, reads_zero⟩

end Single
end TensorGraph
