/-!
# Single-precision numbers read exactly

A finite single-precision number is a sign, a natural mantissa and a power of two. This module
reads a `Float32` into that form, rounds a dyadic number to the nearest single-precision number,
and converts between singles, doubles and 64-bit integers.

* `Single.read` gives the exact value of a number, or says that it is not finite.
* `Single.nearest` rounds `± m * 2 ^ e` to the nearest single, ties to the even mantissa.
* `Single.toInt64` rounds to the nearest integer, ties away from zero, and saturates.
-/

namespace TensorGraph

/-- A finite number `± mantissa * 2 ^ exponent`. -/
structure Dyadic where
  /-- The sign; it is kept for a zero mantissa. -/
  negative : Bool
  /-- The magnitude without its power of two. -/
  mantissa : Nat
  exponent : Int
  deriving DecidableEq, Repr

namespace Dyadic

/-- The magnitude as a fraction of natural numbers whose denominator is positive. -/
def fraction (d : Dyadic) : Nat × Nat :=
  if 0 ≤ d.exponent then (d.mantissa * Nat.pow 2 d.exponent.toNat, 1)
  else (d.mantissa, Nat.pow 2 (-d.exponent).toNat)

end Dyadic

namespace Single

/-- What a single-precision bit pattern stands for. -/
inductive Reading where
  | nan
  | infinite (negative : Bool)
  | finite (value : Dyadic)
  deriving DecidableEq, Repr

/-- The exact value of a single-precision number. -/
def read (x : Float32) : Reading :=
  let bits := x.toBits.toNat
  let negative := decide (Nat.pow 2 31 ≤ bits)
  let exponent : Nat := bits / Nat.pow 2 23 % Nat.pow 2 8
  let mantissa : Nat := bits % Nat.pow 2 23
  -- the greatest exponent field is kept for infinities and for what is no number
  if exponent = 255 then
    if mantissa = 0 then .infinite negative else .nan
  else if exponent = 0 then .finite ⟨negative, mantissa, -149⟩
  -- the leading bit of all other mantissas is not stored
  else .finite ⟨negative, mantissa + Nat.pow 2 23, (exponent : Int) - 150⟩

/-- The single-precision number nearest to `± mantissa * 2 ^ exponent`, ties to the even mantissa;
an overflow gives an infinity. -/
def nearest (d : Dyadic) : Float32 :=
  let sign : Float.Model.UnpackedFloat.Sign := if d.negative then .negative else .positive
  .ofModel (.pack (.round .binary32 sign d.mantissa d.exponent))

/-- The single-precision number nearest to a double-precision one. -/
def ofDouble (x : Float) : Float32 :=
  let bits := x.toBits.toNat
  let negative := decide (Nat.pow 2 63 ≤ bits)
  let exponent : Nat := bits / Nat.pow 2 52 % Nat.pow 2 11
  let mantissa : Nat := bits % Nat.pow 2 52
  -- the fields are read like those of a single-precision number
  if exponent = 2047 then
    if mantissa = 0 then (if negative then -1 / 0 else 1 / 0) else 0 / 0
  else if exponent = 0 then nearest ⟨negative, mantissa, -1074⟩
  else nearest ⟨negative, mantissa + Nat.pow 2 52, (exponent : Int) - 1075⟩

/-- The single-precision number nearest to an integer. -/
def ofInt (n : Int) : Float32 := nearest ⟨decide (n < 0), n.natAbs, 0⟩

/-- The magnitude rounded to the nearest natural number, ties away from zero. -/
def roundMagnitude (d : Dyadic) : Nat :=
  let (num, den) := d.fraction
  (2 * num + den) / (2 * den)

/-- The nearest 64-bit integer, ties away from zero. Numbers beyond the range give its ends and
no number gives zero. -/
def toInt64 (x : Float32) : Int64 :=
  match read x with
  | .nan => 0
  | .infinite true => Int64.minValue
  | .infinite false => Int64.maxValue
  | .finite d =>
    let magnitude : Int := roundMagnitude d
    let signed := if d.negative then -magnitude else magnitude
    -- beyond the range, the nearest end of it
    Int64.ofInt (max Int64.minValue.toInt (min Int64.maxValue.toInt signed))

/-- The next single-precision number towards zero of a positive one. -/
def below (x : Float32) : Float32 := .ofBits (x.toBits - 1)

end Single
end TensorGraph
