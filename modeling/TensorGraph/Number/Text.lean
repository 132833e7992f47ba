import TensorGraph.Number.Decimal

/-!
# Number text

The written forms of single-precision numbers.

* `Style` says when a shortest decimal is written with an exponent and whether a whole number
  shows a fraction; `Style.plain`, `Style.detailed` and `Style.document` are the three in use.
* `fixed` writes a number of decimal places, `scientific` a number of significant digits; both
  round the exact value, ties to even.
-/

namespace TensorGraph

/-- How a shortest decimal is laid out. -/
structure Style where
  /-- Whether a positional whole number ends in `.0`. -/
  wholeMark : Bool
  /-- Least exponent of the leading digit that is written positionally, if there is one. -/
  least : Option Int
  /-- Least exponent of the leading digit that is too great for positional writing. -/
  limit : Option Int

namespace Style

/-- Messages write every number positionally and a whole number without a fraction. -/
def plain : Style := ⟨false, none, none⟩

/-- Descriptions of values keep a fraction, and use an exponent below `10 ^ -4` and from
`10 ^ 16` on. -/
def detailed : Style := ⟨true, some (-4), some 16⟩

/-- Documents keep a fraction, and use an exponent below `10 ^ -5` and from `10 ^ 16` on. -/
def document : Style := ⟨true, some (-5), some 16⟩

/-- Whether a number whose leading digit stands for `10 ^ e` is written positionally. -/
def isPositional (s : Style) (e : Int) : Bool :=
  s.least.all (· ≤ e) && s.limit.all (e < ·)

end Style

namespace NumberText

/-- The decimal digits of a natural number. -/
def digits (n : Nat) : List Char := Nat.toDigits 10 n

/-- The digits of an integer, after a minus sign when it is negative. -/
def integer (n : Int) : String :=
  if n < 0 then "-" ++ String.ofList (digits n.natAbs) else String.ofList (digits n.natAbs)

/-- `coefficient * 10 ^ exponent` without an exponent part. -/
def positional (wholeMark : Bool) (coefficient : Nat) (exponent : Int) : List Char :=
  let ds := digits coefficient
  if 0 ≤ exponent then
    ds ++ List.replicate exponent.toNat '0' ++ (if wholeMark then ['.', '0'] else [])
  else
    let places := (-exponent).toNat
    -- the point falls inside of the digits, or zeros come before them
    if places < ds.length then
      ds.take (ds.length - places) ++ '.' :: ds.drop (ds.length - places)
    else
      '0' :: '.' :: (List.replicate (places - ds.length) '0' ++ ds)

/-- Digits with a point after the first, then the exponent of the first. -/
def exponential (ds : List Char) (e : Int) : List Char :=
  let mantissa := match ds with
    | [] => []
    | [d] => [d]
    | d :: rest => d :: '.' :: rest
  mantissa ++ 'e' :: (integer e).toList

/-- A decimal `± coefficient * 10 ^ exponent` laid out in a style. -/
def decimal (s : Style) (negative : Bool) (coefficient : Nat) (exponent : Int) : String :=
  let ds := digits coefficient
  let leading := exponent + ds.length - 1
  let body :=
    if coefficient = 0 then positional s.wholeMark 0 0
    else if s.isPositional leading then positional s.wholeMark coefficient exponent
    else exponential ds leading
  String.ofList (if negative then '-' :: body else body)

/-- The shortest decimal that reads back to the number, laid out in a style. -/
def render (s : Style) (x : Float32) : String :=
  match Single.read x with
  | .nan => "NaN"
  | .infinite true => "-inf"
  | .infinite false => "inf"
  | .finite d =>
    let (c, k) := if d.mantissa = 0 then (0, 0) else Decimal.shortest d
    decimal s d.negative c k

/-- The number with exactly `places` decimal places. -/
def fixed (places : Nat) (x : Float32) : String :=
  match Single.read x with
  | .nan => "NaN"
  | .infinite true => "-inf"
  | .infinite false => "inf"
  | .finite d =>
    let (num, den) := d.fraction
    -- counted in units of the last place, with zeros in front for a whole part
    let ds := digits (Decimal.roundDiv (num * Nat.pow 10 places) den)
    let padded := List.replicate (places + 1 - ds.length) '0' ++ ds
    let body := padded.take (padded.length - places) ++
      (if places = 0 then [] else '.' :: padded.drop (padded.length - places))
    String.ofList (if d.negative then '-' :: body else body)

/-- The number in scientific form with a count of significant digits; a zero of either sign
is `0`. -/
def scientific (count : Nat) (x : Float32) : String :=
  match Single.read x with
  | .nan => "NaN"
  | .infinite true => "-inf"
  | .infinite false => "inf"
  | .finite d =>
    if d.mantissa = 0 then "0"
    else
      let (num, den) := d.fraction
      let (c, e) := Decimal.significant count num den
      let body := exponential (digits c) e
      String.ofList (if d.negative then '-' :: body else body)

/-- Texts between brackets, separated by a comma and a blank. -/
def bracketed (items : List String) : String := "[" ++ String.intercalate ", " items ++ "]"

def integers (ns : List Int) : String := bracketed (ns.map integer)

def natural (n : Nat) : String := String.ofList (digits n)

def naturals (ns : List Nat) : String := bracketed (ns.map natural)

end NumberText
end TensorGraph
