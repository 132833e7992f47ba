import TensorGraph.Document.Parser
import TensorGraph.Learning.Descent
import TensorGraph.Learning.Objective
import TensorGraph.Learning.Plan
import TensorGraph.Network.Layer

/-!
# Configurations as documents

How the parts of a model are written to documents and read back.

* A choice is written as its name, or as an object whose only field is its name if it has
  parameters. Reading also accepts an object with a null field for a choice without parameters.
* A group of parameters is written as an object with all its fields. Reading also accepts an array
  with the fields in order, fields that are missing and have a default, and fields that are not
  known; a known field must not occur twice.
* Reading a descent, a dense layer or a dropout checks it as its constructor does.
* `Document.readText` reads a configuration from a text.
-/

namespace TensorGraph

/-- Why a document is not a configuration. -/
inductive Unreadable where
  /-- The document has another form. -/
  | malformed
  /-- The document has the right form and describes nothing that can be built. -/
  | invalid (cause : Error)

namespace Document

/-- What is read from a document. -/
abbrev Reading (α : Type) := Except Unreadable α

/-- Something that was found, or a malformed document. -/
def found {α : Type} : Option α → Reading α
  | some a => .ok a
  | none => .error .malformed

/-- A checked construction. -/
def checked {α : Type} : Except Error α → Reading α
  | .ok a => .ok a
  | .error e => .error (.invalid e)

def single : Document → Reading Float32
  | number n => found n.toSingle?
  | _ => .error .malformed

def word : Document → Reading UInt64
  | number n => found n.toWord?
  | _ => .error .malformed

/-- A count, written as a word. -/
def count (d : Document) : Reading Nat := (word d).map UInt64.toNat

def truth : Document → Reading Bool
  | bool b => .ok b
  | _ => .error .malformed

def plainText : Document → Reading String
  | text s => found s
  | _ => .error .malformed

/-- Something that may be null. -/
def optional {α : Type} (read : Document → Reading α) : Document → Reading (Option α)
  | null => .ok none
  | d => (read d).map some

/-- The fields of an object whose names are texts. -/
def namedFields : List (Option String × Document) → Option (List (String × Document))
  | [] => some []
  | (some name, d) :: fields => (namedFields fields).map ((name, d) :: ·)
  | (none, _) :: _ => none

/-- The given fields of a group of parameters, at most one for every known name. -/
def group (known : List String) : Document → Reading (List (String × Document))
  | object fields => do
    let fields ← found (namedFields fields)
    let given := fields.filter fun (name, _) => known.contains name
    -- fields that are not known are skipped, repeated or not
    if known.all fun name => given.countP (·.1 == name) ≤ 1 then return given
    else .error .malformed
  -- the items of an array stand for the first fields in order
  | array items =>
    if items.length ≤ known.length then .ok (known.zip items) else .error .malformed
  | _ => .error .malformed

/-- A field that must be given. -/
def required {α : Type} (fields : List (String × Document)) (name : String)
    (read : Document → Reading α) : Reading α :=
  match fields.lookup name with
  | some d => read d
  | none => .error .malformed

/-- A field with a default. -/
def defaulted {α : Type} (fields : List (String × Document)) (name : String) (default_ : α)
    (read : Document → Reading α) : Reading α :=
  match fields.lookup name with
  | some d => read d
  | none => .ok default_

/-- The name of a choice and its parameters, if it is written with any. -/
def choice : Document → Reading (String × Option Document)
  | text (some name) => .ok (name, none)
  | object [(some name, d)] => .ok (name, some d)
  | _ => .error .malformed

/-- A choice among names without parameters. -/
def named {α : Type} (names : List (String × α)) (d : Document) : Reading α := do
  match ← choice d with
  | (name, none) | (name, some null) => found (names.lookup name)
  | _ => .error .malformed

/-- Read a configuration from a text. The configuration is checked before what follows it, of which
only blanks are allowed. -/
def readText {α : Type} (read : Document → Reading α) (s : String) : Reading α := do
  let (d, rest) ← found (leading? s)
  let a ← read d
  if (skipBlanks rest).isEmpty then return a else .error .malformed

/-- A choice with parameters. -/
def tagged (name : String) (d : Document) : Document := record [(name, d)]

end Document

open Document

namespace Activation

/-- Every activation under its name. -/
def names : List (String × Activation) :=
  [linear, relu, sigmoid, tanh, softmax].map fun a => (a.name, a)

def toDocument (a : Activation) : Document := .string a.name

def ofDocument (d : Document) : Reading Activation := named names d

end Activation

namespace PartialBatch

def toDocument (p : PartialBatch) : Document := .string p.name

def ofDocument (d : Document) : Reading PartialBatch :=
  named [(PartialBatch.include.name, .include), (drop.name, drop)] d

end PartialBatch

namespace Phase

def toDocument (p : Phase) : Document := .string p.name

def ofDocument (d : Document) : Reading Phase :=
  named [(train.name, train), (inference.name, inference)] d

end Phase

namespace ElementType

def toDocument (t : ElementType) : Document := .string t.name

def ofDocument (d : Document) : Reading ElementType :=
  named [(f32.name, f32), (i64.name, i64)] d

end ElementType

namespace Initializer

/-- A seed as a document. -/
def seedDocument (seed : Option UInt64) : Document :=
  .ofOption (seed.map fun s => .natural s.toNat)

/-- Two numbers and a seed as a document. -/
def samplingDocument (first second : String) (a b : Float32) (seed : Option UInt64) : Document :=
  .record [(first, .ofSingle a), (second, .ofSingle b), ("seed", seedDocument seed)]

def toDocument : Initializer → Document
  | randomNormal mean stddev seed =>
    tagged "random_normal" (samplingDocument "mean" "stddev" mean stddev seed)
  | randomUniform min max seed =>
    tagged "random_uniform" (samplingDocument "min" "max" min max seed)
  | truncatedNormal mean stddev seed =>
    tagged "truncated_normal" (samplingDocument "mean" "stddev" mean stddev seed)
  | zeros => .string "zeros"
  | ones => .string "ones"
  | constant x => tagged "constant" (.ofSingle x)

/-- Two numbers and a seed that a document describes. -/
def sampling (make : Float32 → Float32 → Option UInt64 → Initializer) (first second : String)
    (d : Document) : Reading Initializer := do
  let fields ← group [first, second, "seed"] d
  let a ← required fields first single
  let b ← required fields second single
  let seed ← defaulted fields "seed" none (optional word)
  return make a b seed

def ofDocument (d : Document) : Reading Initializer := do
  match ← choice d with
  | ("zeros", none) | ("zeros", some null) => return zeros
  | ("ones", none) | ("ones", some null) => return ones
  | ("constant", some d) => return constant (← single d)
  | ("random_normal", some d) => sampling randomNormal "mean" "stddev" d
  | ("random_uniform", some d) => sampling randomUniform "min" "max" d
  | ("truncated_normal", some d) => sampling truncatedNormal "mean" "stddev" d
  | _ => .error .malformed

end Initializer

namespace Loss

def toDocument : Loss → Document
  | meanSquaredError => .string "mean_squared_error"
  | binaryCrossEntropy => .string "binary_cross_entropy"
  | categoricalCrossEntropy => .string "categorical_cross_entropy"
  | negativeLogLikelihood e =>
    tagged "negative_log_likelihood" (.record [("epsilon", .ofSingle e)])

def ofDocument (d : Document) : Reading Loss := do
  match ← choice d with
  | ("mean_squared_error", none) | ("mean_squared_error", some null) => return meanSquaredError
  | ("binary_cross_entropy", none) | ("binary_cross_entropy", some null) =>
    return binaryCrossEntropy
  | ("categorical_cross_entropy", none) | ("categorical_cross_entropy", some null) =>
    return categoricalCrossEntropy
  | ("negative_log_likelihood", some d) =>
    let fields ← group ["epsilon"] d
    return negativeLogLikelihood (← required fields "epsilon" single)
  | _ => .error .malformed

end Loss

namespace Metric

def toDocument : Metric → Document
  | meanSquaredError => .string "mean_squared_error"
  | meanAbsoluteError => .string "mean_absolute_error"
  | loss l => tagged "loss" l.toDocument

def ofDocument (d : Document) : Reading Metric := do
  match ← choice d with
  | ("mean_squared_error", none) | ("mean_squared_error", some null) => return meanSquaredError
  | ("mean_absolute_error", none) | ("mean_absolute_error", some null) =>
    return meanAbsoluteError
  | ("loss", some d) => return loss (← Loss.ofDocument d)
  | _ => .error .malformed

end Metric

namespace TrainingPlan

def toDocument (p : TrainingPlan) : Document :=
  .record [("epochs", .natural p.epochs), ("batch_size", .natural p.batchSize),
    ("verbose", .bool p.verbose), ("partial_batch", p.partialBatch.toDocument)]

def ofDocument (d : Document) : Reading TrainingPlan := do
  let fields ← group ["epochs", "batch_size", "verbose", "partial_batch"] d
  let standard : TrainingPlan := {}
  let epochs ← defaulted fields "epochs" standard.epochs count
  let batchSize ← defaulted fields "batch_size" standard.batchSize count
  let verbose ← defaulted fields "verbose" standard.verbose truth
  let partialBatch ←
    defaulted fields "partial_batch" standard.partialBatch PartialBatch.ofDocument
  return { epochs := epochs, batchSize := batchSize, verbose := verbose,
           partialBatch := partialBatch }

end TrainingPlan

namespace Descent

def toDocument (d : Descent) : Document :=
  .record [("learning_rate", .ofSingle d.learningRate), ("momentum", .ofSingle d.momentum)]

def ofDocument (d : Document) : Reading Descent := do
  let fields ← group ["learning_rate", "momentum"] d
  let rate ← defaulted fields "learning_rate" standard.learningRate single
  let momentum ← defaulted fields "momentum" standard.momentum single
  -- the rate is checked before the momentum
  let plain ← checked (ofLearningRate rate)
  checked (plain.withMomentum momentum)

end Descent

namespace Dense

def toDocument (d : Dense) : Document :=
  .record [("units", .natural d.units),
    ("activation", .ofOption (d.activation.map Activation.toDocument)),
    ("weights_initializer", .ofOption (d.weightsInitializer.map Initializer.toDocument)),
    ("bias_initializer", .ofOption (d.biasInitializer.map Initializer.toDocument)),
    ("name", .ofOption (d.name.map .string))]

def ofDocument (d : Document) : Reading Dense := do
  let fields ← group ["units", "activation", "weights_initializer", "bias_initializer", "name"] d
  let units ← required fields "units" count
  let activation ← defaulted fields "activation" none (optional Activation.ofDocument)
  let weights ← defaulted fields "weights_initializer" none (optional Initializer.ofDocument)
  let bias ← defaulted fields "bias_initializer" none (optional Initializer.ofDocument)
  let name ← defaulted fields "name" none (optional plainText)
  let plain ← checked (create units)
  return { plain with activation := activation, weightsInitializer := weights,
                      biasInitializer := bias, name := name }

end Dense

namespace Dropout

def toDocument (d : Dropout) : Document :=
  .record [("rate", .ofSingle d.rate), ("seed", Initializer.seedDocument d.seed),
    ("name", .ofOption (d.name.map .string))]

def ofDocument (d : Document) : Reading Dropout := do
  let fields ← group ["rate", "seed", "name"] d
  let rate ← required fields "rate" single
  let seed ← defaulted fields "seed" none (optional word)
  let name ← defaulted fields "name" none (optional plainText)
  let plain ← checked (create rate)
  return { plain with seed := seed, name := name }

end Dropout
end TensorGraph
