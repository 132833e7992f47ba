import TensorGraph.Data.ElementType
import TensorGraph.Data.Shape
import TensorGraph.Graph.Handle
import TensorGraph.Random.Sampler

/-!
# Failures

Why a call gives no value. An error is one of the library's own: it has a cause, a kind that says
in which stage it belongs, and a message. A fault is an operation that was asked for something it
has no answer to, such as stretching three rows to two.

* `ArgumentFault`, `CompilationFault` and `DataFault` list the causes of the three largest errors.
* `Error.kind` and `Error.message` classify and describe an error.
-/

namespace TensorGraph

open NumberText

/-- A text between grave accents, as messages quote names. -/
def quoted (s : String) : String := "\x60" ++ s ++ "\x60"

/-- What is wrong with an argument. -/
inductive ArgumentFault where
  | strayDefault (node : Node)
  | strayOverride (node : Node)
  | valueCount (expected actual : Nat)
  | badDeviation (stddev : Float32)
  | emptyRange (min max : Float32)
  | badRate (rate : Float32)
  | crossedBounds (min max : Float32)
  | badEpsilon (epsilon : Float32)
  | badLearningRate (rate : Float32)
  | badMomentum (momentum : Float32)
  | badInputDimension (dim : Int) (dims : List Int)
  | noUnits
  | foreignFeeder
  | takenLayerName (name : String)
  | foreignLayer
  | foreignContext
  | noInputs
  | noOutputs
  | lossCount (outputs losses : Nat)
  | metricCount (outputs metrics : Nat)
  | notAnInputLayer (name : String)
  | unlistedInput (output input : String)
  | featureCount (expected actual : Nat)
  | targetCount (expected actual : Nat)
  | noEpochs
  | emptyBatch

namespace ArgumentFault

def argument : ArgumentFault → String
  | strayDefault _ => "input"
  | strayOverride _ => "overrides"
  | valueCount _ _ => "values"
  | badDeviation _ => "stddev"
  | emptyRange _ _ | crossedBounds _ _ => "max"
  | badRate _ => "rate"
  | badEpsilon _ => "epsilon"
  | badLearningRate _ => "learning_rate"
  | badMomentum _ => "momentum"
  | badInputDimension _ _ => "dims"
  | noUnits => "units"
  | foreignFeeder => "upstream"
  | takenLayerName _ => "name"
  | foreignLayer => "layer"
  | foreignContext => "backend"
  | noInputs | notAnInputLayer _ | unlistedInput _ _ => "inputs"
  | noOutputs => "outputs"
  | lossCount _ _ => "losses"
  | metricCount _ _ => "metrics"
  | featureCount _ _ => "features"
  | targetCount _ _ => "targets"
  | noEpochs => "epochs"
  | emptyBatch => "batch_size"

def message : ArgumentFault → String
  | strayDefault node | strayOverride node => node.label ++ " is not an input of this function"
  | valueCount expected actual =>
    "expected " ++ natural expected ++ " input values, got " ++ natural actual
  | badDeviation x => "must be finite and non-negative, got " ++ render .plain x
  | emptyRange min max =>
    "must be greater than min (" ++ render .plain min ++ " >= " ++ render .plain max ++ ")"
  | badRate x => "must be in [0, 1), got " ++ render .plain x
  | crossedBounds min max =>
    "must not be below min (" ++ render .plain min ++ " > " ++ render .plain max ++ ")"
  | badEpsilon x => "must be in (0, 0.5), got " ++ render .plain x
  | badLearningRate x => "must be positive and finite, got " ++ render .plain x
  | badMomentum x => "must be non-negative and finite, got " ++ render .plain x
  | badInputDimension dim dims =>
    "input dimensions must be positive, got " ++ integer dim ++ " in " ++ integers dims
  | noUnits => "a dense layer needs at least one unit"
  | foreignFeeder | foreignLayer => "layer is not part of this graph"
  | takenLayerName name => "a layer named " ++ quoted name ++ " already exists"
  | foreignContext => "compile context is bound to another backend"
  | noInputs => "a model needs at least one input"
  | noOutputs => "a model needs at least one output"
  | lossCount outputs losses =>
    "expected one loss per output (" ++ natural outputs ++ "), got " ++ natural losses
  | metricCount outputs metrics =>
    "expected one metric per output (" ++ natural outputs ++ "), got " ++ natural metrics
  | notAnInputLayer name => "layer " ++ quoted name ++ " is not an input layer"
  | unlistedInput output input =>
    "output " ++ quoted output ++ " depends on input " ++ quoted input ++
      " which is not a model input"
  | featureCount expected actual =>
    "expected " ++ natural expected ++ " feature values, got " ++ natural actual
  | targetCount expected actual =>
    "expected " ++ natural expected ++ " target values, got " ++ natural actual
  | noEpochs => "training needs at least one epoch"
  | emptyBatch => "training needs a batch size of at least one"

end ArgumentFault

/-- Why a node or a layer cannot be built. Operations and nodes appear by name. -/
inductive CompilationFault where
  | floatExpected (operation node : String) (type : ElementType)
  | mixedOperands (operation : String) (left right : ElementType)
  | noBroadcast (operation : String) (left right : DeclaredShape)
  | tooManyAxes (shape : DeclaredShape)
  | badDimension (shape : DeclaredShape) (dim : Int)
  | initializerShape (name : String) (actual expected : DeclaredShape)
  | openInitializer (shape : DeclaredShape)
  | updateType (target : ElementType) (node : String) (source : ElementType)
  | updateShape (node : String) (target source : DeclaredShape)
  | dotShapes (left right : DeclaredShape)
  | biasShapes (bias input : DeclaredShape)
  | targetShapes (targets logits : DeclaredShape)
  | labelShapes (labels logits : DeclaredShape)
  | meanOfScalar (node : String)
  | noInputDimensions (layer : String)
  | openInputSize (layer : String) (fed : DeclaredShape)
  | noLosses

namespace CompilationFault

def message : CompilationFault → String
  | floatExpected operation node type =>
    operation ++ " expects f32 input, " ++ node ++ " is " ++ type.title
  | mixedOperands operation left right =>
    operation ++ " mixes " ++ left.title ++ " and " ++ right.title ++ " operands"
  | noBroadcast operation left right =>
    operation ++ " cannot broadcast " ++ integers left ++ " with " ++ integers right
  | tooManyAxes shape =>
    "shape " ++ integers shape ++ " has rank " ++ natural shape.length ++
      ", at most 2 is supported"
  | badDimension shape dim =>
    "shape " ++ integers shape ++ " has invalid dimension " ++ integer dim
  | initializerShape name actual expected =>
    "initializer for " ++ quoted name ++ " produced shape " ++ integers actual ++ ", expected " ++
      integers expected
  | openInitializer shape =>
    "constant initializer needs a fully known shape, got " ++ integers shape
  | updateType target node source =>
    "cannot update " ++ target.title ++ " variable " ++ node ++ " with a " ++ source.title ++
      " value"
  | updateShape node target source =>
    "cannot update variable " ++ node ++ " of shape " ++ integers target ++
      " with a value of shape " ++ integers source
  | dotShapes left right => "DOT cannot multiply " ++ integers left ++ " by " ++ integers right
  | biasShapes bias input =>
    "BIAS_ADD cannot add bias " ++ integers bias ++ " to " ++ integers input
  | targetShapes targets logits =>
    "targets " ++ integers targets ++ " do not match logits " ++ integers logits
  | labelShapes labels logits =>
    "labels " ++ integers labels ++ " do not match logits " ++ integers logits
  | meanOfScalar node => "MEAN needs at least one axis, " ++ node ++ " is a scalar"
  | noInputDimensions layer => "input " ++ quoted layer ++ " declares no dimensions"
  | openInputSize layer fed =>
    "dense layer " ++ quoted layer ++ " needs a known input size, upstream shape is " ++
      integers fed
  | noLosses => "no losses to aggregate"

end CompilationFault

/-- What is wrong with host-side data. -/
inductive DataFault where
  | elementCount (shape : Shape) (actual : Nat)
  | raggedRows (columns actual : Nat)
  | rowsOfScalar
  | rowRange (start stop rows : Nat)
  | emptyAxis (node : String) (shape : Shape)
  | noLeadingAxis
  | rowCounts (expected actual : Nat)
  | noBatch (size rows : Nat)

namespace DataFault

def message : DataFault → String
  | elementCount shape actual =>
    "shape " ++ naturals shape ++ " requires " ++ natural shape.size ++ " elements, got " ++
      natural actual
  | raggedRows columns actual =>
    "all rows must have " ++ natural columns ++ " columns, found a row with " ++ natural actual
  | rowsOfScalar => "cannot slice rows of a rank-0 value"
  | rowRange start stop rows =>
    "row range " ++ natural start ++ ".." ++ natural stop ++ " is out of bounds for " ++
      natural rows ++ " rows"
  | emptyAxis node shape =>
    "value fed into " ++ node ++ " has an empty axis: " ++ naturals shape
  | noLeadingAxis => "batched values need a leading axis"
  | rowCounts expected actual =>
    "row counts differ: " ++ natural expected ++ " and " ++ natural actual
  | noBatch size rows =>
    "no batch of " ++ natural size ++ " rows fits in " ++ natural rows ++ " rows"

end DataFault

/-- What the engine found missing or unusable while it evaluated a node. -/
inductive EngineFault where
  | noVariable (node : String)
  | openShape (node : String) (shape : DeclaredShape)
  | badDistribution

namespace EngineFault

def message : EngineFault → String
  | noVariable node => "variable " ++ node ++ " has no value"
  | openShape node shape => "node " ++ node ++ " has unbound shape " ++ integers shape
  | badDistribution =>
    "invalid normal distribution: " ++
      "variation parameter is non-finite in (log)normal distribution"

end EngineFault

/-- The stage that an error belongs to. -/
inductive ErrorKind where
  /-- An object was described wrongly. -/
  | construction
  /-- An object does not fit the graph it is built into. -/
  | compilation
  /-- Values do not fit the graph they are run through. -/
  | execution
  | invalidState
  deriving DecidableEq, Repr

/-- An error of building, compiling or running a model. -/
inductive Error where
  | invalidArgument (cause : ArgumentFault)
  | compilation (cause : CompilationFault)
  | duplicateName (name : String)
  | unknownNode (node : Node)
  | foreignFunction (graph : Nat)
  | invalidNodeKind (node expected actual : String)
  | shapeMismatch (node : String) (expected : DeclaredShape) (actual : Shape)
  | typeMismatch (node : String) (expected actual : ElementType)
  | unresolvedInput (node : String)
  | invalidData (cause : DataFault)
  | engine (cause : EngineFault)
  | disposed

namespace Error

def kind : Error → ErrorKind
  | invalidArgument _ => .construction
  | compilation _ | duplicateName _ | unknownNode _ | foreignFunction _ | invalidNodeKind _ _ _ =>
    .compilation
  | shapeMismatch _ _ _ | typeMismatch _ _ _ | unresolvedInput _ | invalidData _ | engine _ =>
    .execution
  | disposed => .invalidState

def message : Error → String
  | invalidArgument cause => "Invalid argument " ++ quoted cause.argument ++ ": " ++ cause.message
  | compilation cause => "Compilation failed: " ++ cause.message
  | duplicateName name => "A node named " ++ quoted name ++ " is already registered"
  | unknownNode node => "Node " ++ node.label ++ " is not part of this graph"
  | foreignFunction graph =>
    "Node function over graph " ++ natural graph ++ " is not part of this graph"
  | invalidNodeKind node expected actual =>
    "Invalid node kind for " ++ node ++ ": expected " ++ expected ++ ", got " ++ actual
  | shapeMismatch node expected actual =>
    "Shape mismatch for " ++ quoted node ++ ": expected " ++ integers expected ++ ", got " ++
      naturals actual
  | typeMismatch node expected actual =>
    "DType mismatch for " ++ quoted node ++ ": expected " ++ expected.title ++ ", got " ++
      actual.title
  | unresolvedInput node => "No value provided for input " ++ quoted node
  | invalidData cause => "Invalid data: " ++ cause.message
  | engine cause => "Execution engine error: " ++ cause.message
  | disposed => "The backend has been disposed"

end Error

/-- An operation without an answer. -/
inductive Fault where
  /-- An array that does not stretch to the dimensions of a variable. -/
  | cannotStretch (source target : Shape)
  /-- A distribution that cannot be sampled. -/
  | cannotSample (cause : SamplingDefect)

/-- Why a call gives no value. -/
inductive Failure where
  | error (cause : Error)
  | fault (cause : Fault)

/-- How a run fails when a distribution cannot be sampled: only a bad deviation is reported. -/
def SamplingDefect.failure : SamplingDefect → Failure
  | .badDeviation => .error (.engine .badDistribution)
  | defect => .fault (.cannotSample defect)

end TensorGraph
