import TensorGraph.Tensor.Basic

/-!
# Tensor arithmetic

The operations of a graph on tensors whose shapes are known to fit.

* Row reductions work on the last axis and drop it.
* `Tensor.softmax` and `Tensor.logSoftmax` shift every row by its maximum before they exponentiate.
* `Tensor.sigmoidCrossEntropy` is the cross entropy of logits in the form that does not overflow.
-/

namespace TensorGraph.Tensor

open Scalar

variable {S : Type} [Scalar S]

/-- The sum of two tensors of one shape. -/
def add (a b : Tensor S) : Tensor S := combine a.shape (· + ·) a b

/-- The product of two tensors of one shape, entry by entry. -/
def hadamard (a b : Tensor S) : Tensor S := combine a.shape (· * ·) a b

def negate (t : Tensor S) : Tensor S := t.map (-·)

def matmul (l r : Tensor S) : Tensor S :=
  tabulate [l.rows, r.cols] fun i j => sumTo (fun k => l.entry i k * r.entry k j) l.cols

def transpose (t : Tensor S) : Tensor S := tabulate [t.cols, t.rows] fun i j => t.entry j i

/-- The sum of all entries, row by row. -/
def total (t : Tensor S) : S := sumTo (fun i => sumTo (t.entry i) t.cols) t.rows

/-- A column with one entry for every row. -/
def rowwise (t : Tensor S) (f : Nat → S) : Tensor S := tabulate [t.rows, 1] fun i _ => f i

/-- The sums of the rows as a column. -/
def rowSums (t : Tensor S) : Tensor S := t.rowwise fun i => sumTo (t.entry i) t.cols

/-- The greatest of `f 0, …, f n`. -/
def greatest (f : Nat → S) : Nat → S
  | 0 => f 0
  | n + 1 => greater (greatest f n) (f (n + 1))

/-- The maxima of the rows as a column. -/
def rowMaxima (t : Tensor S) : Tensor S := t.rowwise fun i => greatest (t.entry i) (t.cols - 1)

/-- A tensor without its last axis, with one entry for every row. -/
def dropLastAxis (t : Tensor S) (f : Nat → S) : Tensor S :=
  -- what is left counts the rows in row-major order
  let shape : Shape := t.shape.dropLast
  tabulate shape fun i j => f (i * Shape.cols shape + j)

/-- Every row shifted so that its greatest entry is zero. -/
def shiftRows (t : Tensor S) : Tensor S := combine t.shape (· - ·) t t.rowMaxima

/-- The exponentials of the shifted rows. -/
def shiftedExp (t : Tensor S) : Tensor S := t.shiftRows.map exp

/-- Every row exponentiated and divided by its sum. -/
def softmax (t : Tensor S) : Tensor S :=
  let e := t.shiftedExp
  -- the column of sums is stretched over its rows
  combine t.shape (· / ·) e e.rowSums

/-- The logarithm of the softmax, without dividing. -/
def logSoftmax (t : Tensor S) : Tensor S :=
  let shifted := t.shiftRows
  combine t.shape (· - ·) shifted ((shifted.map exp).rowSums.map log)

def meanLast (t : Tensor S) : Tensor S :=
  let sums := t.rowSums
  t.dropLastAxis fun k => sums.entry k 0 / ofInt t.cols

/-- The cross entropy of one logit and one target: `max x 0 - x * z + log (1 + exp (-|x|))`. -/
def sigmoidCrossEntropyAt (z x : S) : S :=
  capBelow 0 x - x * z + log (exp (-(abs x)) + 1)

def sigmoidCrossEntropy (shape : Shape) (targets logits : Tensor S) : Tensor S :=
  combine shape sigmoidCrossEntropyAt targets logits

/-- The cross entropy of rows of logits and label weights. -/
def softmaxCrossEntropy (logits labels : Tensor S) : Tensor S :=
  let sums := (hadamard labels logits.logSoftmax).rowSums
  logits.dropLastAxis fun k => -(sums.entry k 0)

end TensorGraph.Tensor
