import TensorGraph.Number.Text

/-!
# Records

What an engine reports while it works. A record has a level and a text, and an engine keeps its
records in the order in which it made them.
-/

namespace TensorGraph

open NumberText

/-- The phase a function is executed in. Dropout alters values while training only. -/
inductive Phase where
  /-- Dropout is active. -/
  | train
  /-- Dropout passes its input through. -/
  | inference
  deriving DecidableEq, Repr

namespace Phase

def title : Phase → String
  | train => "Train"
  | inference => "Inference"

def name : Phase → String
  | train => "train"
  | inference => "inference"

end Phase

/-- The importance of a record. -/
inductive Level where
  | trace
  | debug
  | info
  | warn
  deriving DecidableEq, Repr

namespace Level

def name : Level → String
  | trace => "TRACE"
  | debug => "DEBUG"
  | info => "INFO"
  | warn => "WARN"

end Level

/-- Something an engine reports. Nodes and layers appear by name. -/
inductive Record where
  | createdVariable (name : String) (shape : List Int)
  /-- A value that is not finite was fed. -/
  | nonFiniteFeed (node : String)
  | running (outputs updates : Nat) (phase : Phase)
  /-- A loss does not depend on the variable it is differentiated by. -/
  | noGradient (loss weight : String)
  | disposedSession (graph : Nat)
  | compiledLayer (name : String) (parameters : Nat)
  | aggregatedLosses (count : Nat)
  | compiledUpdates (updates weights : Nat)
  | compiledModel (inputs outputs weights : Nat)
  /-- Rows that fill no batch are left out. -/
  | droppedRows (rows : Nat)
  | epoch (number total : Nat) (loss : Float32)

namespace Record

/-- The importance of a record. -/
def level : Record → Level
  | nonFiniteFeed _ | droppedRows _ => .warn
  | running _ _ _ | noGradient _ _ => .trace
  | epoch _ _ _ => .info
  | createdVariable _ _ | disposedSession _ | compiledLayer _ _ | aggregatedLosses _
  | compiledUpdates _ _ | compiledModel _ _ _ => .debug

def text : Record → String
  | createdVariable name shape =>
    "Created variable \x60" ++ name ++ "\x60 with shape " ++ integers shape
  | nonFiniteFeed node => "Non-finite value fed into " ++ node
  | running outputs updates phase =>
    "Running " ++ natural outputs ++ " outputs and " ++ natural updates ++ " updates in " ++
      phase.title ++ " phase"
  | noGradient loss weight =>
    "No gradient from " ++ loss ++ " reaches " ++ weight ++ ", using zeros"
  | disposedSession graph => "Disposed session of graph " ++ natural graph
  | compiledLayer name parameters =>
    "Compiled layer \x60" ++ name ++ "\x60 with " ++ natural parameters ++ " parameters"
  | aggregatedLosses count =>
    "Aggregated " ++ natural count ++ " losses into the training objective"
  | compiledUpdates updates weights =>
    "SGD compiled " ++ natural updates ++ " updates for " ++ natural weights ++ " weights"
  | compiledModel inputs outputs weights =>
    "Compiled model with " ++ natural inputs ++ " inputs, " ++ natural outputs ++
      " outputs and " ++ natural weights ++ " trainable weights"
  | droppedRows rows => "Dropping " ++ natural rows ++ " trailing rows each epoch"
  | epoch number total loss =>
    "Epoch " ++ natural number ++ "/" ++ natural total ++ ": loss = " ++ fixed 6 loss

/-- A record as it is written out: its level and its text. -/
def line (r : Record) : String := r.level.name ++ " " ++ r.text

end Record
end TensorGraph
