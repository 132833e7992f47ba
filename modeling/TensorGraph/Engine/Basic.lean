import TensorGraph.Evaluation.Run

/-!
# Engines

An engine owns a graph and, until it is disposed, a session with the values of the variables and
the streams of the sampling nodes. A call on an engine either gives a value or fails; in both cases
it gives the engine as the call left it.

* `Engine.register` appends a node and binds its name, which is refused for a name in use.
* `Engine.evaluate` evaluates slots of the graph and keeps the streams it drew from, also when it
  fails.
-/

namespace TensorGraph

/-- What an engine keeps from call to call until it is disposed. -/
structure Session where
  store : SlotMap (Tensor Float32)
  /-- The streams of the sampling nodes that have been drawn from. -/
  streams : SlotMap Stream
  /-- What the streams of nodes without a seed are derived from. -/
  entropy : UInt64

/-- A graph with its session. -/
structure Engine where
  graph : Graph
  /-- The session, until it is disposed. -/
  session : Option Session
  journal : Array Record

/-- Calls on an engine. The engine survives a failure. -/
abbrev Call := EStateM Failure Engine

namespace Engine

/-- An engine with an empty graph and a live session. -/
def create (id : Nat) (entropy : UInt64) : Engine :=
  { graph := .empty id
    session := some ⟨.empty, .empty, entropy⟩
    journal := #[] }

def refuse {α : Type} (e : Error) : Call α := throw (.error e)

def lift {α : Type} : Except Error α → Call α
  | .ok a => pure a
  | .error e => refuse e

def report (r : Record) : Call Unit := modify fun e => { e with journal := e.journal.push r }

def currentGraph : Call Graph := return (← get).graph

/-- Refuse a call on a disposed engine. -/
def checkActive : Call Unit := do
  if (← get).session.isNone then refuse .disposed

/-- The slot of a handle and the node in it. -/
def locate (n : Node) : Call (Nat × GraphNode) := do
  let g ← currentGraph
  match (g.slot? n).bind fun slot => (g.nodes[slot]?).map (slot, ·) with
  | some found => pure found
  | none => refuse (.unknownNode n)

/-- Refuse a name that is bound. -/
def checkFresh (name : String) : Call Unit := do
  if ((← currentGraph).find? name).isSome then refuse (.duplicateName name)

/-- Append a node, under a name if one is given. -/
def register (n : GraphNode) (name : Option String) : Call Node := do
  checkActive
  match name with
  | some name => checkFresh name
  | none => pure ()
  let g ← currentGraph
  modify fun e => { e with graph := e.graph.push { n with name := name } }
  return g.handle g.size

/-- Refuse a node that is not a variable. -/
def expectVariable (slot : Nat) (n : GraphNode) : Call Unit := do
  if !n.op.isVariable then
    refuse (.invalidNodeKind (n.label slot) "VARIABLE" n.op.name)

/-- Refuse a node of integers as the operand of an operation on numbers. -/
def expectFloat (operation : String) (slot : Nat) (n : GraphNode) : Call Unit := do
  if n.type ≠ .f32 then
    refuse (.compilation (.floatExpected operation (n.label slot) n.type))

/-- Refuse a shape with more than two axes, or with an axis that is neither positive nor, where that
is allowed, open. -/
def checkShape (shape : DeclaredShape) (allowOpen : Bool) : Call Unit := do
  if 2 < shape.length then refuse (.compilation (.tooManyAxes shape))
  -- the first axis at fault is the one that is reported
  match shape.find? fun d => decide (d ≤ 0) && !(allowOpen && d == openAxis) with
  | some d => refuse (.compilation (.badDimension shape d))
  | none => pure ()

/-- The engine after a run that left the given working state. -/
def absorb (e : Engine) (session : Session) (ev : Evaluation Float32) : Engine :=
  { e with
    session := some { session with streams := ev.streams }
    journal := e.journal ++ ev.journal }

/-- Evaluate slots of the graph. -/
def evaluate (phase : Phase) (feeds : SlotMap (Tensor Float32)) (targets : List Nat) :
    Call (Evaluation Float32) := fun e =>
  match e.session with
  | none => .error (.error .disposed) e
  | some session =>
    let env : Setting Float32 :=
      { graph := e.graph, store := session.store, feeds := feeds, phase := phase,
        entropy := session.entropy }
    match env.evaluate targets (.start session.streams) with
    -- a failing run keeps its draws and its records, too
    | .ok () ev => .ok ev (e.absorb session ev)
    | .error failure ev => .error failure (e.absorb session ev)

/-- Give variables new values, one after the other. -/
def commit (assignments : List (Nat × Tensor Float32)) : Call Unit :=
  modify fun e => { e with
    session := e.session.map fun s => { s with
      store := assignments.foldl (fun vs (slot, t) => vs.insert slot t) s.store } }

end Engine
end TensorGraph
