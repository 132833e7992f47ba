import TensorGraph.Evaluation.Sensitivity

/-!
# Evaluating a schedule

A run evaluates the nodes of a schedule one after the other and keeps every value, so that a node
with several users is computed once. The working state (`Evaluation`) also holds the streams of the
sampling nodes, which advance as they are drawn from, the assignments made so far, and the records.

* `evaluateSlot` evaluates one node whose operands have values.
* `evaluateAll` evaluates a schedule.

A failing run leaves its streams and records behind; its assignments are never committed.
-/

namespace TensorGraph

/-- The working state of a run. -/
structure Evaluation (S : Type) where
  values : SlotMap (Tensor S)
  /-- What the sampling nodes drew. -/
  noise : SlotMap (Tensor S)
  /-- The sensitivities of the losses differentiated so far. -/
  sensitivities : SlotMap (SlotMap (Tensor S))
  streams : SlotMap Stream
  /-- The assignments in the order in which they were made. -/
  assignments : Array (Nat × Tensor S)
  journal : Array Record

/-- Steps of a run. The working state survives a failure. -/
abbrev Evaluating (S : Type) := EStateM Failure (Evaluation S)

namespace Evaluation

variable {S : Type}

/-- The working state before the first step. -/
def start (streams : SlotMap Stream) : Evaluation S :=
  { values := .empty, noise := .empty, sensitivities := .empty, streams := streams,
    assignments := #[], journal := #[] }

variable [Scalar S]

/-- What is known of the nodes evaluated so far. -/
def known (e : Evaluation S) : Known S :=
  { value := fun slot => (e.values.get? slot).getD (.full [] 0)
    noise := e.noise.get?
    sensitivity := fun loss target => (e.sensitivities.get? loss).bind (·.get? target) }

end Evaluation

namespace Setting

variable {S : Type} [Scalar S]

def lift {α : Type} : Except Failure α → Evaluating S α
  | .ok a => pure a
  | .error f => throw f

/-- The stream of a slot, started from its seed when it is first drawn from. -/
def streamOf (env : Setting S) (streams : SlotMap Stream) (slot : Nat) (seed : Option UInt64) :
    Stream :=
  (streams.get? slot).getD (Stream.ofSeed (seed.getD (env.entropy + UInt64.ofNat slot)))

/-- Keep what a slot drew. -/
def keepNoise (slot : Nat) (shape : Shape) (xs : Array Float32) : Evaluating S Unit :=
  let drawn : Tensor S :=
    .tabulate shape fun i j => Scalar.ofSingle (xs.getD (i * shape.cols + j) 0)
  modify fun e => { e with noise := e.noise.insert slot drawn }

/-- Keep how far the stream of a slot has been drawn from. -/
def keepStream (slot : Nat) (s : Stream) : Evaluating S Unit :=
  modify fun e => { e with streams := e.streams.insert slot s }

/-- Draw what a node needs before it can be computed: the samples of a random node, and the factors
of an active dropout. -/
def drawNoise (env : Setting S) (slot : Nat) : Op → Evaluating S Unit
  | .random sampler seed => do
    let shape ← lift (env.staticShape slot)
    let (drawn, stream) := sampler.draw shape.size (env.streamOf (← get).streams slot seed)
    -- what was drawn stays drawn, whether the samples were accepted or not
    keepStream slot stream
    match drawn with
    | .ok xs => keepNoise slot shape xs
    | .error defect => throw defect.failure
  | .dropout input rate seed => do
    -- the factors have the run-time shape of the operand, which has been evaluated
    if env.dropsAt rate then
      let shape := ((← get).known.value input).shape
      let (factors, stream) :=
        Dropping.mask rate shape.size (env.streamOf (← get).streams slot seed)
      keepStream slot stream
      keepNoise slot shape factors
  | _ => pure ()

/-- Differentiate the loss of a gradient node unless that has been done in this run, and report a
loss that does not depend on the variable. -/
def differentiate (env : Setting S) : Op → Evaluating S Unit
  | .gradient loss target => do
    -- one sweep serves all variables that a loss is differentiated by
    if !(← get).sensitivities.contains loss then
      modify fun e => { e with
        sensitivities := e.sensitivities.insert loss (env.graph.sensitivities e.known loss) }
    if ((← get).known.sensitivity loss target).isNone then
      modify fun e => { e with
        journal := e.journal.push (.noGradient (env.graph.label loss) (env.graph.label target)) }
  | _ => pure ()

/-- Keep the value of an update as an assignment to its variable. -/
def recordAssignment (t : Tensor S) : Op → Evaluating S Unit
  | .assign target _ | .assignAdd target _ =>
    modify fun e => { e with assignments := e.assignments.push (target, t) }
  | _ => pure ()

/-- Evaluate one node whose operands have values. -/
def evaluateSlot (env : Setting S) (slot : Nat) : Evaluating S Unit := do
  match env.graph.nodes[slot]? with
  | none => pure ()
  | some node =>
    env.drawNoise slot node.op
    env.differentiate node.op
    let t ← lift (env.compute (← get).known slot node.op)
    -- the variable keeps its value until the whole run has given a result
    recordAssignment t node.op
    modify fun e => { e with values := e.values.insert slot t }

/-- Evaluate the nodes of a schedule. -/
def evaluateAll (env : Setting S) : List Nat → Evaluating S Unit
  | [] => pure ()
  | slot :: rest => do
    env.evaluateSlot slot
    env.evaluateAll rest

/-- Evaluate some targets and everything they need. -/
def evaluate (env : Setting S) (targets : List Nat) : Evaluating S Unit :=
  env.evaluateAll (env.graph.schedule targets)

end Setting
end TensorGraph
