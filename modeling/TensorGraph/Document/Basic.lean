import TensorGraph.Number.Text

/-!
# Documents

JSON documents. A number keeps the digits it was written with: an integer is a sign and a magnitude,
any other number a decimal coefficient and a power of ten. Reading it as a single-precision number
or as a word is a question put to the document later.

* `Document.Number.toSingle?` reads a number in single precision.
* `Document.Number.toWord?` reads an unsigned 64-bit word.
* `Document.ofSingle` writes a single-precision number by its shortest digits.
-/

namespace TensorGraph

/-- A number of a document. -/
inductive Document.Number where
  | integer (negative : Bool) (magnitude : Nat)
  /-- The number `± coefficient * 10 ^ exponent`. -/
  | fractional (negative : Bool) (coefficient : Nat) (exponent : Int)
  deriving DecidableEq, Repr

/-- A JSON document. -/
inductive Document where
  | null
  | bool (value : Bool)
  | number (value : Document.Number)
  /-- A text, or `none` for a string whose escapes name half of a surrogate pair. -/
  | text (value : Option String)
  | array (items : List Document)
  /-- Named documents in the order in which they are written. -/
  | object (fields : List (Option String × Document))

namespace Document

namespace Number

/-- The longest leading part of a coefficient that fits 64 bits, and the number of digits after
it. -/
def leadingPart (coefficient : Nat) : Nat × Nat :=
  -- a number of 64 bits has at most twenty digits, and not every number of twenty digits fits
  let dropped := Decimal.digitCount coefficient - 20
  let part := coefficient / Nat.pow 10 dropped
  if part < Nat.pow 2 64 then (part, dropped) else (part / 10, dropped + 1)

/-- The double nearest to a power of ten. -/
def tenTo (n : Nat) : Float := Float.ofScientific 1 false n

/-- A double divided by `10 ^ n`, in steps of at most `10 ^ 308`. Two such steps leave nothing of a
number of 64 bits. -/
def scaleDown (x : Float) (n : Nat) : Float :=
  if n ≤ 308 then x / tenTo n
  else if n ≤ 616 then x / tenTo 308 / tenTo (n - 308)
  else 0

/-- A double multiplied by `10 ^ n`, unless the product exceeds every double. -/
def scaleUp? (x : Float) (n : Nat) : Option Float :=
  if n ≤ 308 then
    let product := x * tenTo n
    if product.isFinite then some product else none
  else if x == 0 then some 0
  else none

/-- `± coefficient * 10 ^ exponent` as a double: the digits that fit 64 bits, scaled in double
precision. A number that exceeds every double is refused. -/
def toDouble? (negative : Bool) (coefficient : Nat) (exponent : Int) : Option Float :=
  let (part, dropped) := leadingPart coefficient
  let e := exponent + dropped
  let x := Float.ofScientific part false 0
  let magnitude := if 0 ≤ e then scaleUp? x e.toNat else some (scaleDown x (-e).toNat)
  magnitude.map fun x => if negative then -x else x

/-- The number in single precision. An integer of at most 64 bits is rounded once; any other number
is read as a double first and must not exceed every double. A negative zero keeps its sign. -/
def toSingle? : Number → Option Float32
  | integer false n =>
    if n < Nat.pow 2 64 then some (Single.ofInt n) else (toDouble? false n 0).map Single.ofDouble
  | integer true n =>
    -- no integer is a negative zero, so its sign is kept here
    if n = 0 then some (Single.nearest ⟨true, 0, 0⟩)
    else if n ≤ Nat.pow 2 63 then some (Single.ofInt (-n))
    else (toDouble? true n 0).map Single.ofDouble
  | fractional negative c e => (toDouble? negative c e).map Single.ofDouble

/-- The number as an unsigned word of 64 bits, if it is written as one. -/
def toWord? : Number → Option UInt64
  | integer false n => if n < Nat.pow 2 64 then some (UInt64.ofNat n) else none
  | _ => none

end Number

def natural (n : Nat) : Document := number (.integer false n)

def integer (n : Int) : Document := number (.integer (decide (n < 0)) n.natAbs)

def string (s : String) : Document := text (some s)

def record (fields : List (String × Document)) : Document :=
  object (fields.map fun (name, value) => (some name, value))

/-- A single-precision number by its shortest digits; a number that is not finite is null. -/
def ofSingle (x : Float32) : Document :=
  match Single.read x with
  | .nan | .infinite _ => null
  | .finite d =>
    if d.mantissa = 0 then number (.fractional d.negative 0 0)
    else
      let (c, k) := Decimal.shortest d
      number (.fractional d.negative c k)

/-- Null in place of a missing document. -/
def ofOption : Option Document → Document
  | none => null
  | some d => d

end Document
end TensorGraph
