import Mathlib
import TensorGraph.Number.Single

/-!
# Unpacked numbers

Single-precision arithmetic unpacks its operands into a sign, a mantissa and a power of two. These
are canonical, and a number that is canonical is packed without loss.

## Main definitions

* `Single.Canonical`: the mantissas and exponents that are packed without loss.
* `Single.Denotes`: the number that an unpacked number stands for.

## Main results

* `Single.read_eq`: numbers are read as they are unpacked.
* `Single.unpack_pack`: what is canonical is packed without loss.
-/

namespace TensorGraph.Single

open Float.Model Float.Model.UnpackedFloat

/-- The mantissas and exponents of single-precision numbers: a mantissa has 24 bits, but numbers of
the least exponent may have fewer. -/
structure Canonical (m : Nat) (e : Int) : Prop where
  lt : m < 2 ^ 24
  least : -149 ≤ e
  greatest : e ≤ 104
  leading : 2 ^ 23 ≤ m ∨ e = -149

/-- The number that an unpacked number stands for. -/
inductive Denotes : UnpackedFloat → ℚ → Prop
  | zero (s : Sign) : Denotes (.zero s) 0
  | finite {s : Sign} {m : Nat} {e : Int} {pos : 0 < m} (canonical : Canonical m e) :
    Denotes (.finite s m e pos) ((s.apply m : Int) * (2 : ℚ) ^ e)

/-! ## Packing -/

/-- The implicit bit stands above the 23 bits of the mantissa. -/
theorem toNat_implicit (b : BitVec 23) : (1#1 ++ b).toNat = b.toNat + 2 ^ 23 := by
  rw [BitVec.toNat_append, ← Nat.shiftLeft_add_eq_or_of_lt b.isLt, Nat.add_comm]
  rfl

/-- The mantissa is the lowest 23 bits. -/
theorem toNat_unpackMantissa (b : BitVec 32) :
    (unpackMantissa b : BitVec (Format.binary32).mantissaBitsWithoutImplicit).toNat =
      b.toNat % 2 ^ 23 := by
  simp [unpackMantissa, BitVec.extractLsb]

/-- The exponent is the eight bits above the mantissa. -/
theorem toNat_unpackExponent (b : BitVec 32) :
    (unpackExponent b : BitVec (Format.binary32).exponentBits).toNat =
      b.toNat / 2 ^ 23 % 2 ^ 8 := by
  simp [unpackExponent, BitVec.extractLsb, Nat.shiftRight_eq_div_pow]

/-- The sign is the highest bit. -/
theorem toNat_unpackSign (b : BitVec 32) :
    (@unpackSign .binary32 b).toNat = b.toNat / 2 ^ 31 % 2 := by
  simp [unpackSign, BitVec.extractLsb, Nat.shiftRight_eq_div_pow]

/-- Whether a sign is that of negative numbers. -/
def isNegative : Sign → Bool
  | .negative => true
  | .positive => false

/-- A number is negative exactly if its highest bit is set. -/
theorem isNegative_unpackSign (b : BitVec 32) :
    isNegative (Sign.ofBitVec (@unpackSign .binary32 b)) = decide (2 ^ 31 ≤ b.toNat) := by
  have hb := b.isLt
  have hsign := toNat_unpackSign b
  unfold Sign.ofBitVec
  -- the sign bit is the top one, so it is set from the middle of the range on
  split
  · next hzero =>
    rw [hzero] at hsign
    simp only [isNegative, BitVec.toNat_ofNat] at hsign ⊢
    exact (decide_eq_false (by omega)).symm
  · next hone =>
    have hne : (@unpackSign .binary32 b).toNat ≠ 0 := fun h => hone (BitVec.eq_of_toNat_eq h)
    simp only [isNegative]
    exact (decide_eq_true (by omega)).symm

theorem unpackExponent_eq_iff (b : BitVec 32) (n : Nat) (hn : n < 2 ^ 8) :
    @unpackExponent .binary32 b = BitVec.ofNat 8 n ↔ b.toNat / 2 ^ 23 % 2 ^ 8 = n := by
  rw [← BitVec.toNat_inj, toNat_unpackExponent, BitVec.toNat_ofNat, Nat.mod_eq_of_lt hn]

theorem unpackMantissa_eq_zero_iff (b : BitVec 32) :
    @unpackMantissa .binary32 b = 0#23 ↔ b.toNat % 2 ^ 23 = 0 := by
  rw [← BitVec.toNat_inj, toNat_unpackMantissa]
  rfl

/-- What an unpacked number stands for. -/
def reading : UnpackedFloat → Reading
  | .notANumber => .nan
  | .infinity s => .infinite (isNegative s)
  | .zero s => .finite ⟨isNegative s, 0, -149⟩
  | .finite s m e _ => .finite ⟨isNegative s, m, e⟩

/-- Numbers are read as they are unpacked. -/
theorem read_eq (x : Float32) : read x = reading x.toModel.unpack := by
  have hbits : x.toBits.toNat = x.toModel.toBits.toBitVec.toNat := rfl
  simp only [read, Float32.Model.unpack, UnpackedFloat.unpack, hbits, Nat.pow_eq]
  generalize x.toModel.toBits.toBitVec = b
  rw [← isNegative_unpackSign]
  -- both look at the same fields, one as numbers and the other one as bits
  have hspecial : @unpackExponent .binary32 b = -1#8 ↔ b.toNat / 2 ^ 23 % 2 ^ 8 = 255 :=
    unpackExponent_eq_iff b 255 (by decide)
  have hsmall := unpackExponent_eq_iff b 0 (by decide)
  have hzero := unpackMantissa_eq_zero_iff b
  have hmantissa := toNat_unpackMantissa b
  have hexponent := toNat_unpackExponent b
  by_cases h255 : b.toNat / 2 ^ 23 % 2 ^ 8 = 255
  · rw [if_pos h255, if_pos (hspecial.2 h255)]
    by_cases hm : b.toNat % 2 ^ 23 = 0
    · rw [if_pos hm, if_pos (hzero.2 hm)]
      rfl
    · rw [if_neg hm, if_neg fun h => hm (hzero.1 h)]
      rfl
  · rw [if_neg h255, if_neg fun h => h255 (hspecial.1 h)]
    by_cases h0 : b.toNat / 2 ^ 23 % 2 ^ 8 = 0
    · rw [if_pos h0, if_pos (hsmall.2 h0)]
      by_cases hm : b.toNat % 2 ^ 23 = 0
      · rw [dif_pos (hzero.2 hm), hm]
        rfl
      · rw [dif_neg fun h => hm (hzero.1 h)]
        simp only [reading, hmantissa, hexponent, h0]
        rfl
    · rw [if_neg h0, if_neg fun h => h0 (hsmall.1 h)]
      simp only [reading, toNat_implicit, hmantissa, hexponent]
      rfl

/-- The sign that was packed is unpacked. -/
theorem unpackSign_packComponents (spec : Format) (s : Sign) (e : BitVec spec.exponentBits)
    (m : BitVec spec.mantissaBitsWithoutImplicit) :
    unpackSign (packComponents spec s e m) = s.toBitVec := by
  apply BitVec.eq_of_getLsbD_eq
  intro i hi
  obtain rfl : i = 0 := by omega
  simp [unpackSign, packComponents, BitVec.getLsbD_append, BitVec.getElem_append]

/-- A sign, an exponent and a mantissa that are packed are unpacked as a zero, a subnormal number or
a normal one. -/
theorem unpack_packComponents {s : Sign} {e m : Nat} (he : e < 255) (hm : m < 2 ^ 23) :
    UnpackedFloat.unpack .binary32 (packComponents .binary32 s (.ofNat 8 e) (.ofNat 23 m)) =
      if e = 0 then if h : m = 0 then .zero s else .finite s m (-149) (Nat.pos_of_ne_zero h)
      else .finite s (m + 2 ^ 23) (e - 150) (Nat.add_pos_right _ (by decide)) := by
  have hsign : Sign.ofBitVec s.toBitVec = s := by cases s <;> rfl
  have hexponent : (BitVec.ofNat 8 e).toNat = e := Nat.mod_eq_of_lt (by omega)
  have hmantissa : (BitVec.ofNat 23 m).toNat = m := Nat.mod_eq_of_lt hm
  have hspecial : BitVec.ofNat 8 e ≠ -1#8 := by
    rw [← BitVec.toNat_inj.ne, hexponent]
    exact Nat.ne_of_lt he
  have hsmall : BitVec.ofNat 8 e = 0#8 ↔ e = 0 := by rw [← BitVec.toNat_inj, hexponent]; rfl
  have hzero : BitVec.ofNat 23 m = 0#23 ↔ m = 0 := by rw [← BitVec.toNat_inj, hmantissa]; rfl
  -- what is left of unpacking is the case split between subnormal numbers and the others
  simp only [UnpackedFloat.unpack, unpackMantissa_packComponents, unpackExponent_packComponents,
    unpackSign_packComponents, hsign, toNat_implicit, hexponent, hmantissa, hspecial, hsmall, hzero,
    if_false]
  split
  · next h0 =>
    subst h0
    rfl
  · rfl

/-- A canonical number is packed without loss. -/
theorem unpack_pack {u : UnpackedFloat} {q : ℚ} (h : Denotes u q) :
    UnpackedFloat.unpack .binary32 (UnpackedFloat.pack .binary32 u) = u := by
  cases h with
  | zero s => cases s <;> rfl
  | @finite s m e pos canonical =>
    obtain ⟨hlt, hleast, hgreatest, hleading⟩ := canonical
    have hbias : Format.binary32.exponentBias = 127 := rfl
    have hbits : m.log2 + 1 = Format.binary32.mantissaBits ↔ 2 ^ 23 ≤ m := by
      have hle : m.log2 < 24 := (Nat.log2_lt (Nat.ne_of_gt pos)).2 hlt
      rw [← Nat.le_log2 (Nat.ne_of_gt pos), show Format.binary32.mantissaBits = 24 from rfl]
      omega
    simp only [UnpackedFloat.pack, hbias, hbits]
    rw [if_neg (by omega)]
    split
    · next hnormal =>
      -- the leading bit of a full mantissa is not stored, and unpacking puts it back
      have hm : BitVec.ofNat 23 m = BitVec.ofNat 23 (m - 2 ^ 23) := by
        apply BitVec.eq_of_toNat_eq
        rw [BitVec.toNat_ofNat, BitVec.toNat_ofNat]
        omega
      rw [hm, unpack_packComponents (by omega) (by omega), if_neg (by omega)]
      congr 1 <;> omega
    · next hsubnormal =>
      -- a short mantissa has the least exponent, which is stored as zero
      obtain rfl : e = -149 := by omega
      rw [unpack_packComponents (by decide) (by omega), if_pos rfl, dif_neg (by omega)]

/-! ## Signs and exponents -/

variable {u v : UnpackedFloat} {p q : ℚ}

theorem apply_neg (s : Sign) (m : Nat) : ((-s).apply m : Int) = -s.apply m := by
  cases s
  · exact (Int.neg_neg _).symm
  · rfl

/-- Negation is exact on unpacked numbers. -/
theorem denotes_neg (h : Denotes u p) : Denotes u.neg (-p) := by
  cases h with
  | zero s => simpa using .zero (-s)
  | @finite s m e pos canonical =>
    rw [← neg_mul, ← Int.cast_neg, ← apply_neg]
    exact .finite canonical

theorem abs_apply_mul (s : Sign) (m : Nat) (e : Int) :
    |((s.apply m : Int) : ℚ) * 2 ^ e| = m * 2 ^ e := by
  rw [abs_mul, abs_of_pos (by positivity : (0 : ℚ) < 2 ^ e)]
  cases s <;> simp [Sign.apply]

/-- The absolute value is exact on unpacked numbers. -/
theorem denotes_abs (h : Denotes u p) : Denotes u.abs |p| := by
  cases h with
  | zero s => simpa using .zero .positive
  | @finite s m e pos canonical =>
    rw [abs_apply_mul]
    exact .finite (s := .positive) canonical

/-- A smaller exponent with a longer mantissa stands for the same number. -/
theorem apply_decreaseExponent {s : Sign} {m : Nat} {e d : Int} (h : d ≤ e) :
    ((s.apply (decreaseExponent m e d).1 : Int) : ℚ) * 2 ^ d = (s.apply m : Int) * 2 ^ e := by
  obtain ⟨j, hj⟩ := Int.eq_ofNat_of_zero_le (Int.sub_nonneg.2 h)
  obtain rfl : e = d + j := by omega
  have hamount : (d + j - d).toNat = j := by omega
  simp only [decreaseExponent, hamount, Nat.shiftLeft_eq]
  rw [zpow_add₀ two_ne_zero, zpow_natCast]
  cases s <;> simp only [Sign.apply] <;> push_cast <;> ring

/-- Numbers are added at the smaller one of their exponents. -/
theorem apply_add_apply (s s' : Sign) (m m' : Nat) (e e' : Int) :
    ((s.apply m : Int) : ℚ) * 2 ^ e + (s'.apply m' : Int) * 2 ^ e' =
      ((s.apply (decreaseExponent m e (min e e')).1 +
        s'.apply (decreaseExponent m' e' (min e e')).1 : Int) : ℚ) * 2 ^ min e e' := by
  rw [Int.cast_add, add_mul, apply_decreaseExponent (min_le_left e e'),
    apply_decreaseExponent (min_le_right e e')]

/-- Signs and mantissas are multiplied apart from each other. -/
theorem apply_mul (s s' : Sign) (m m' : Nat) :
    ((s * s').apply (m * m' : Nat) : Int) = s.apply m * s'.apply m' := by
  cases s <;> cases s'
  · exact (Int.neg_mul_neg m m').symm
  · exact (Int.neg_mul m m').symm
  · exact (Int.mul_neg m m').symm
  · rfl

/-- Numbers are multiplied by their mantissas, and their exponents are added. -/
theorem apply_mul_apply (s s' : Sign) (m m' : Nat) (e e' : Int) :
    ((s.apply m : Int) : ℚ) * 2 ^ e * ((s'.apply m' : Int) * 2 ^ e') =
      ((s * s').apply (m * m' : Nat) : Int) * 2 ^ (e + e') := by
  rw [apply_mul, zpow_add₀ two_ne_zero]
  push_cast
  ring

/-! ## Arithmetic -/

/-- Subtracting a number is adding the opposite one. -/
theorem sub_eq_add_neg_of_denotes (hu : Denotes u p) (hv : Denotes v q) :
    UnpackedFloat.sub .binary32 u v = UnpackedFloat.add .binary32 u v.neg := by
  cases hu with
  | zero s => cases hv <;> rfl
  | @finite s m e pos canonical =>
    cases hv with
    | zero s' => rfl
    | @finite s' m' e' pos' canonical' =>
      -- both bring the mantissas to the same exponent first
      simp only [UnpackedFloat.sub, UnpackedFloat.add, UnpackedFloat.neg, apply_neg,
        Int.sub_eq_add_neg]

/-- The product of two mantissas is full unless both numbers have the least exponent. -/
theorem Canonical.full_mul {m m' : Nat} {e e' : Int} (h : Canonical m e) (h' : Canonical m' e')
    (pos : 0 < m) (pos' : 0 < m') : 2 ^ 23 ≤ m * m' ∨ e + e' ≤ -149 := by
  rcases h.leading with hm | rfl
  · exact .inl (Nat.le_trans hm (Nat.le_mul_of_pos_right m pos'))
  · rcases h'.leading with hm' | rfl
    · exact .inl (Nat.le_trans hm' (Nat.le_mul_of_pos_left m' pos))
    · exact .inr (by omega)

end TensorGraph.Single
