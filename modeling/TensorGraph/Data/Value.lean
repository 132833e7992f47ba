import TensorGraph.Failure

/-!
# Values

Host-side arrays that are fed into a graph and fetched out of it: a shape and the elements in
row-major order. The number of elements is the size of the shape, which every constructor checks.

* `Value.ofNumbers`, `Value.ofIntegers` and `Value.ofRows` build values from data.
* `Value.sliceRows` copies a range of rows along the leading axis.
* `Value.fits` says whether a value may be fed into a node of a declared shape.
-/

namespace TensorGraph

/-- The elements of a value in row-major order. -/
inductive Elements where
  | numbers (xs : Array Float32)
  | integers (xs : Array Int64)

namespace Elements

def size : Elements → Nat
  | numbers xs => xs.size
  | integers xs => xs.size

def type : Elements → ElementType
  | numbers _ => .f32
  | integers _ => .i64

def toNumbers : Elements → Array Float32
  | numbers xs => xs
  | integers xs => xs.map fun n => Single.ofInt n.toInt

/-- The elements from `start` to `stop`. -/
def extract (start stop : Nat) : Elements → Elements
  | numbers xs => numbers (xs.extract start stop)
  | integers xs => integers (xs.extract start stop)

/-- Whether two lists of elements have one type and equal elements in the same places. Numbers are
compared as numbers: no number differs from itself and zeros of both signs are equal. -/
def agree : Elements → Elements → Bool
  | numbers xs, numbers ys => xs.size == ys.size && (xs.zip ys).all fun (x, y) => x == y
  | integers xs, integers ys => xs == ys
  | _, _ => false

end Elements

/-- A dense array with an explicit shape. -/
structure Value where
  shape : Shape
  /-- The elements in row-major order. -/
  elements : Elements
  size_eq : elements.size = shape.size

namespace Value

/-- A value with the given shape, if the elements fill it. The size of a shape is a natural number
without a bound. Multiplied as machine words, the axes of a shape beyond them overflow; here its
size is compared with the number of elements like that of any other shape. -/
def ofElements (shape : Shape) (elements : Elements) : Except Error Value :=
  if h : elements.size = shape.size then .ok ⟨shape, elements, h⟩
  else .error (.invalidData (.elementCount shape elements.size))

def ofNumbers (shape : Shape) (xs : Array Float32) : Except Error Value :=
  ofElements shape (.numbers xs)

def ofIntegers (shape : Shape) (xs : Array Int64) : Except Error Value :=
  ofElements shape (.integers xs)

def scalar (x : Float32) : Value := ⟨[], .numbers #[x], rfl⟩

def integer (n : Int64) : Value := ⟨[], .integers #[n], rfl⟩

/-- A list of numbers along one axis. -/
def vector (xs : Array Float32) : Value :=
  ⟨[xs.size], .numbers xs, by simp [Elements.size, Shape.size]⟩

/-- A value with every element equal. -/
def full (shape : Shape) (x : Float32) : Value :=
  ⟨shape, .numbers (Array.replicate shape.size x), by simp [Elements.size]⟩

/-- A value built from rows of equal length. -/
def ofRows (rows : List (List Float32)) : Except Error Value :=
  -- the first row says how long the others must be
  let columns := (rows.head?.map List.length).getD 0
  match rows.find? fun row => row.length != columns with
  | some row => .error (.invalidData (.raggedRows columns row.length))
  | none => ofNumbers [rows.length, columns] rows.flatten.toArray

def type (v : Value) : ElementType := v.elements.type

def size (v : Value) : Nat := v.elements.size

def rows (v : Value) : Option Nat := v.shape.head?

def toNumbers (v : Value) : Array Float32 := v.elements.toNumbers

/-- The element of a value with one element. -/
def toScalar (v : Value) : Option Float32 := if v.size = 1 then v.toNumbers[0]? else none

/-- The mean of the elements: their sum from left to right over their number. -/
def mean (v : Value) : Option Float32 :=
  if v.size = 0 then none
  else some (v.toNumbers.foldl (· + ·) 0 / Single.ofInt v.size)

/-- Whether two values have one shape and equal elements. -/
def agrees (v w : Value) : Bool := v.shape == w.shape && v.elements.agree w.elements

/-- Whether a value may be fed into a node of a declared shape. -/
def fits (v : Value) (declared : DeclaredShape) : Bool := declared.admits v.shape

def isFinite (v : Value) : Bool :=
  match v.elements with
  | .numbers xs => xs.all Float32.isFinite
  | .integers _ => true

/-- Copy `count` rows from row `start` on. -/
def sliceRows (v : Value) (start count : Nat) : Except Error Value :=
  match v.shape with
  | [] => .error (.invalidData .rowsOfScalar)
  | rows :: rest =>
    if rows < start + count then
      .error (.invalidData (.rowRange start (start + count) rows))
    else
      -- rows stand one after the other, so a range of rows is a range of elements
      let width := Shape.size rest
      ofElements (count :: rest) (v.elements.extract (start * width) ((start + count) * width))

end Value
end TensorGraph
