import TensorGraph.Network.Activation

/-!
# Layers

The three kinds of layer. The conditions on their parameters are part of their types, so a layer
that exists is well formed; `Input.create`, `Dense.create` and `Dropout.create` check them.
-/

namespace TensorGraph

/-- The fed entry of a network, by the dimensions of one example. -/
structure Input where
  /-- The dimensions of one example. -/
  dims : List Int
  name : Option String
  dims_pos : ∀ d ∈ dims, 0 < d

namespace Input

def create (dims : List Int) : Except Error Input :=
  if h : ∀ d ∈ dims, 0 < d then .ok ⟨dims, none, h⟩
  else
    -- the first dimension at fault is the one that is reported
    let bad := (dims.find? fun d => decide (d ≤ 0)).getD 0
    .error (.invalidArgument (.badInputDimension bad dims))

/-- The shape with the batch axis in front. -/
def shape (i : Input) : DeclaredShape := openAxis :: i.dims

end Input

/-- A fully connected layer. -/
structure Dense where
  units : Nat
  activation : Option Activation
  weightsInitializer : Option Initializer
  biasInitializer : Option Initializer
  name : Option String
  units_pos : 0 < units

namespace Dense

def create (units : Nat) : Except Error Dense :=
  if h : 0 < units then .ok ⟨units, none, none, none, none, h⟩
  else .error (.invalidArgument .noUnits)

def withActivation (d : Dense) (a : Activation) : Dense := { d with activation := some a }

def withWeightsInitializer (d : Dense) (i : Initializer) : Dense :=
  { d with weightsInitializer := some i }

def withBiasInitializer (d : Dense) (i : Initializer) : Dense :=
  { d with biasInitializer := some i }

def withName (d : Dense) (name : String) : Dense := { d with name := some name }

/-- The activation that the layer applies. -/
def resolvedActivation (d : Dense) : Activation := d.activation.getD .standard

/-- The number of outputs as the size of an axis, a signed 64-bit word. -/
def width (d : Dense) : Int := Int.bmod d.units (Nat.pow 2 64)

/-- The shape of the output: the last axis of the shape that feeds the layer becomes the
outputs. -/
def outputShape (d : Dense) (fed : DeclaredShape) : DeclaredShape :=
  fed.dropLast ++ [d.width]

end Dense

/-- A layer that drops elements while training. -/
structure Dropout where
  /-- The probability of dropping an element. -/
  rate : Float32
  seed : Option UInt64
  name : Option String
  rate_mem : 0 ≤ rate ∧ rate < 1

namespace Dropout

def create (rate : Float32) : Except Error Dropout :=
  if h : 0 ≤ rate ∧ rate < 1 then .ok ⟨rate, none, none, h⟩
  else .error (.invalidArgument (.badRate rate))

def withSeed (d : Dropout) (seed : UInt64) : Dropout := { d with seed := some seed }

def withName (d : Dropout) (name : String) : Dropout := { d with name := some name }

end Dropout

/-- A layer and the layer it is fed by. -/
inductive Layer where
  | input (layer : Input)
  | dense (layer : Dense) (feeder : LayerId)
  | dropout (layer : Dropout) (feeder : LayerId)

namespace Layer

/-- The name of the kind, from which names are generated. -/
def kind : Layer → String
  | input _ => "input"
  | dense _ _ => "dense"
  | dropout _ _ => "dropout"

def feeder? : Layer → Option LayerId
  | input _ => none
  | dense _ feeder | dropout _ feeder => some feeder

def requestedName? : Layer → Option String
  | input i => i.name
  | dense d _ => d.name
  | dropout d _ => d.name

def isInput : Layer → Bool
  | input _ => true
  | _ => false

end Layer
end TensorGraph
