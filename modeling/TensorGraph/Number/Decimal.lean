import TensorGraph.Number.Single

/-!
# Decimal forms of a positive fraction

Three ways to write a number `num / den` in base ten.

* `Decimal.roundDiv` rounds a quotient to the nearest natural number, ties to even.
* `Decimal.decade` finds the power of ten that the number's leading digit stands for.
* `Decimal.shortest` finds the shortest digits that read back to the same single-precision
  number: the coarsest grid of powers of ten with a point among the reals that round to it, and of
  two such points the nearer one.
-/

namespace TensorGraph.Decimal

/-- The natural number nearest to `num / den`, a tie to the even one. -/
def roundDiv (num den : Nat) : Nat :=
  let quotient := num / den
  let twice := 2 * (num % den)
  if den < twice ∨ (twice = den ∧ quotient % 2 = 1) then quotient + 1 else quotient

/-- The number of decimal digits of `n`; zero has none. -/
def digitCount (n : Nat) : Nat := if n = 0 then 0 else (Nat.toDigits 10 n).length

/-- The exponent `e` with `10 ^ e ≤ num / den < 10 ^ (e + 1)` for a positive fraction. -/
def decade (num den : Nat) : Int :=
  if den ≤ num then (digitCount (num / den) : Int) - 1
  else -(digitCount ((den - 1) / num) : Int)

/-- `num / den` rounded to `digits` significant digits: a coefficient of exactly that many digits
and the exponent of its leading digit. -/
def significant (digits : Nat) (num den : Nat) : Nat × Int :=
  let e := decade num den
  let shift := (digits : Int) - 1 - e
  let coefficient :=
    if 0 ≤ shift then roundDiv (num * Nat.pow 10 shift.toNat) den
    else roundDiv num (den * Nat.pow 10 (-shift).toNat)
  -- rounding up may have carried into the next decade
  if coefficient = Nat.pow 10 digits then (Nat.pow 10 (digits - 1), e + 1) else (coefficient, e)

/-- The reals that round to one number, as multiples of a common unit. -/
structure Interval where
  low : Nat
  value : Nat
  high : Nat
  /-- Whether the ends round to the number, too. -/
  closed : Bool

namespace Interval

/-- Whether a real, given as a multiple of the interval's unit, rounds to its number. -/
def holds (i : Interval) (x : Nat) : Bool :=
  if i.closed then decide (i.low ≤ x ∧ x ≤ i.high) else decide (i.low < x ∧ x < i.high)

/-- The point of the grid `unit * ℕ` in the interval that is nearest to its number. -/
def gridPoint? (i : Interval) (unit : Nat) : Option Nat :=
  let down := i.value / unit
  let up := down + 1
  match i.holds (down * unit), i.holds (up * unit) with
  -- a tie goes to the lower point
  | true, true => if i.value - down * unit ≤ up * unit - i.value then some down else some up
  | true, false => some down
  | false, true => some up
  | false, false => none

end Interval

/-- The coarsest of the grids `10 ^ k`, from `k = level - 60` downwards, with a point in the
interval, as the point's coefficient and `k`. The interval is counted in units of `1 / den`. -/
def coarsest (i : Interval) (den : Nat) : Nat → Option (Nat × Int)
  | 0 => none
  | level + 1 =>
    let k : Int := (level : Int) - 60
    let scale := Nat.pow 10 (-k).toNat
    let scaled : Interval := ⟨i.low * scale, i.value * scale, i.high * scale, i.closed⟩
    match scaled.gridPoint? (den * Nat.pow 10 k.toNat) with
    | some c => some (c, k)
    | none => coarsest i den level

/-- The shortest decimal `c * 10 ^ k` that reads back to the magnitude of a finite nonzero
single-precision number, as `(c, k)`. -/
def shortest (d : Dyadic) : Nat × Int :=
  -- in quarters of the last place the midpoints to the neighbours are two away, but only one below
  -- a power of two, where the numbers get closer
  let m := 4 * d.mantissa
  let gap := if d.mantissa = Nat.pow 2 23 ∧ -149 < d.exponent then 1 else 2
  let e := d.exponent - 2
  let scale := Nat.pow 2 e.toNat
  let interval : Interval :=
    ⟨(m - gap) * scale, m * scale, (m + 2) * scale, d.mantissa % 2 = 0⟩
  (coarsest interval (Nat.pow 2 (-e).toNat) 100).getD (0, 0)

end TensorGraph.Decimal
