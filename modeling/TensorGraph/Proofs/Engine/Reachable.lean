import TensorGraph.Proofs.Engine.Running

/-!
# Reachable engines

An engine is reachable when requests, one after the other, lead to it from an engine with an empty
graph. A request is one call with its arguments; it may fail, and the next request then finds the
engine as the failing one left it.

## Main definitions

* `Request` and `Request.call`: the calls that an engine offers, with their arguments.
* `Request.appended?`: the one node that most requests append.
* `Engine.Reachable`: the engines that requests lead to.

## Main results

* `Request.exists_appends`: a request with such a node appends it, or leaves the engine alone.
* `Request.changing`: a request only makes changes.
* `Engine.Reachable.sound`: a reachable engine is sound.
-/

namespace TensorGraph

/-- A call on an engine with its arguments. -/
inductive Request where
  | placeholder (name : String) (shape : DeclaredShape)
  | constant (value : Value) (name : Option String)
  | weights (shape : DeclaredShape) (initializer : Initializer) (name : String)
  | stateVariable (shape : DeclaredShape) (initializer : Initializer) (name : String)
  | counter (initial : Int64) (name : String)
  | update (target value : Node)
  | updateAdd (target delta : Node)
  | randomNormal (shape : DeclaredShape) (mean stddev : Float32) (seed : Option UInt64)
  | randomUniform (shape : DeclaredShape) (min max : Float32) (seed : Option UInt64)
  | truncatedNormal (shape : DeclaredShape) (mean stddev : Float32) (seed : Option UInt64)
  | zeros (shape : DeclaredShape)
  | ones (shape : DeclaredShape)
  | dot (left right : Node) (name : Option String)
  | biasAdd (input bias : Node) (name : Option String)
  | binary (op : BinaryOp) (left right : Node) (name : Option String)
  | unary (op : UnaryOp) (input : Node) (name : Option String)
  | clip (input : Node) (min max : Float32) (name : Option String)
  | float (input : Node) (name : Option String)
  | dropout (input : Node) (rate : Float32) (seed : Option UInt64) (name : Option String)
  | mean (input : Node) (name : Option String)
  | reduceSum (input : Node) (name : Option String)
  | sigmoidCrossEntropy (targets logits : Node) (name : Option String)
  | softmaxCrossEntropy (logits labels : Node) (name : Option String)
  | gradients (loss : Node) (targets : List Node)
  | function (inputs outputs updates : List Node)
  | run (f : Function) (feeds : List (Node × Value))
  | execute (f : Function) (overrides : List (Node × Value))
  | executePositional (f : Function) (values : List Value)
  | readVariable (handle : Node)
  | readShape (handle : Node)
  | readType (handle : Node)
  | readInitializer (handle : Node)
  | dispose

namespace Request

/-- The call of a request, without its value. -/
def call : Request → Call Unit
  | placeholder name shape => discard (Engine.placeholder name shape)
  | constant value name => discard (Engine.constant value name)
  | weights shape initializer name => discard (Engine.weights shape initializer name)
  | stateVariable shape initializer name => discard (Engine.stateVariable shape initializer name)
  | counter initial name => discard (Engine.counter initial name)
  | update target value => discard (Engine.update target value)
  | updateAdd target delta => discard (Engine.updateAdd target delta)
  | randomNormal shape m stddev seed => discard (Engine.randomNormal shape m stddev seed)
  | randomUniform shape min max seed => discard (Engine.randomUniform shape min max seed)
  | truncatedNormal shape m stddev seed =>
    discard (Engine.truncatedNormal shape m stddev seed)
  | zeros shape => discard (Engine.zeros shape)
  | ones shape => discard (Engine.ones shape)
  | dot left right name => discard (Engine.dot left right name)
  | biasAdd input bias name => discard (Engine.biasAdd input bias name)
  | binary op left right name => discard (Engine.binary op left right name)
  | unary op input name => discard (Engine.unary op input name)
  | clip input min max name => discard (Engine.clip input min max name)
  | float input name => discard (Engine.float input name)
  | dropout input rate seed name => discard (Engine.dropout input rate seed name)
  | mean input name => discard (Engine.mean input name)
  | reduceSum input name => discard (Engine.reduceSum input name)
  | sigmoidCrossEntropy targets logits name =>
    discard (Engine.sigmoidCrossEntropy targets logits name)
  | softmaxCrossEntropy logits labels name =>
    discard (Engine.softmaxCrossEntropy logits labels name)
  | gradients loss targets => discard (Engine.gradients loss targets)
  | function inputs outputs updates => discard (Engine.function inputs outputs updates)
  | run f feeds => discard (Engine.run f feeds)
  | execute f overrides => discard (Engine.execute f overrides)
  | executePositional f values => discard (Engine.executePositional f values)
  | readVariable handle => discard (Engine.readVariable handle)
  | readShape handle => discard (Engine.shape handle)
  | readType handle => discard (Engine.type handle)
  | readInitializer handle => discard (Engine.initializer handle)
  | dispose => Engine.dispose

/-- The operation and the name of the node that a request appends, if appending it is all that the
request does. -/
def appended? : Request → Option (Op × Option String)
  | constant value name => some (.constant value, name)
  | update target value => some (.assign target.index value.index, none)
  | updateAdd target delta => some (.assignAdd target.index delta.index, none)
  | randomNormal _ m stddev seed => some (.random (.normal m stddev) seed, none)
  | randomUniform _ min max seed => some (.random (.uniform min max) seed, none)
  | truncatedNormal _ m stddev seed => some (.random (.truncatedNormal m stddev) seed, none)
  | zeros _ => some (.fill 0, none)
  | ones _ => some (.fill 1, none)
  | dot left right name => some (.dot left.index right.index, name)
  | biasAdd input bias name => some (.biasAdd input.index bias.index, name)
  | binary op left right name => some (.binary op left.index right.index, name)
  | unary op input name => some (.unary op input.index, name)
  | clip input min max name => some (.clip input.index min max, name)
  | float input name => some (.cast input.index, name)
  | dropout input rate seed name => some (.dropout input.index rate seed, name)
  | mean input name => some (.mean input.index, name)
  | reduceSum input name => some (.reduceSum input.index, name)
  | sigmoidCrossEntropy targets logits name =>
    some (.sigmoidCrossEntropy targets.index logits.index, name)
  | softmaxCrossEntropy logits labels name =>
    some (.softmaxCrossEntropy logits.index labels.index, name)
  | _ => none

open Engine in
/-- Such a request is a call that appends a node with this operation and this name. -/
theorem exists_appends {r : Request} {op : Op} {name : Option String}
    (h : r.appended? = some (op, name)) :
    ∃ c : Call Node, r.call = discard c ∧ ∀ e, Appends c e fun n => n.op = op ∧ n.name = name := by
  -- nodes that are made for a shape have no name
  have shaped {c : Call Node} {shape : DeclaredShape} {op : Op}
      (hc : ∀ e, Appends c e fun n => n.op = op ∧ n.shape = shape ∧ n.name = none) :
      ∀ e, Appends c e fun n => n.op = op ∧ n.name = none :=
    fun e => (hc e).imp fun _ hn => ⟨hn.1, hn.2.2⟩
  cases r <;> cases h
  case constant value => exact ⟨_, rfl, fun _ => appends_constant value⟩
  case update target value => exact ⟨_, rfl, fun _ => appends_update target value⟩
  case updateAdd target delta => exact ⟨_, rfl, fun _ => appends_updateAdd target delta⟩
  case randomNormal shape m stddev seed =>
    exact ⟨_, rfl, shaped fun _ => appends_randomNormal shape m stddev seed⟩
  case randomUniform shape min max seed =>
    exact ⟨_, rfl, shaped fun _ => appends_randomUniform shape min max seed⟩
  case truncatedNormal shape m stddev seed =>
    exact ⟨_, rfl, shaped fun _ => appends_truncatedNormal shape m stddev seed⟩
  case zeros shape => exact ⟨_, rfl, shaped fun _ => appends_fill shape 0⟩
  case ones shape => exact ⟨_, rfl, shaped fun _ => appends_fill shape 1⟩
  case dot left right => exact ⟨_, rfl, fun _ => appends_dot left right⟩
  case biasAdd input bias => exact ⟨_, rfl, fun _ => appends_biasAdd input bias⟩
  case binary op left right => exact ⟨_, rfl, fun _ => appends_binary op left right⟩
  case unary op input => exact ⟨_, rfl, fun _ => appends_unary op input⟩
  case clip input min max => exact ⟨_, rfl, fun _ => appends_clip input min max⟩
  case float input => exact ⟨_, rfl, fun _ => appends_float input⟩
  case dropout input rate seed => exact ⟨_, rfl, fun _ => appends_dropout input rate seed⟩
  case mean input => exact ⟨_, rfl, fun _ => appends_mean input⟩
  case reduceSum input => exact ⟨_, rfl, fun _ => appends_reduceSum input⟩
  case sigmoidCrossEntropy targets logits =>
    exact ⟨_, rfl, fun _ => appends_sigmoidCrossEntropy targets logits⟩
  case softmaxCrossEntropy logits labels =>
    exact ⟨_, rfl, fun _ => appends_softmaxCrossEntropy logits labels⟩

open Engine in
/-- A request only makes changes, whether it fails or not. -/
theorem changing (r : Request) : Changing r.call := by
  cases happended : r.appended? with
  | some appended =>
    obtain ⟨c, hcall, hc⟩ := exists_appends happended
    rw [hcall]
    exact (Appends.changing hc).discard
  | none =>
    cases r with
    | placeholder name shape => exact (changing_placeholder name shape).discard
    | weights shape initializer name =>
      exact (changing_createVariable shape initializer name true).discard
    | stateVariable shape initializer name =>
      exact (changing_createVariable shape initializer name false).discard
    | counter initial name => exact (changing_counter initial name).discard
    | gradients loss targets => exact (changing_gradients loss targets).discard
    | function inputs outputs updates =>
      exact (keeps_function inputs outputs updates).changing.discard
    | run f feeds => exact (changing_run f feeds).discard
    | execute f overrides => exact (changing_execute f overrides).discard
    | executePositional f values => exact (changing_executePositional f values).discard
    | readVariable handle => exact (changing_readVariable handle).discard
    | readShape handle => exact (keeps_shape handle).changing.discard
    | readType handle => exact (keeps_type handle).changing.discard
    | readInitializer handle => exact (keeps_initializer handle).changing.discard
    | dispose => exact changing_dispose
    | _ => cases happended

end Request

namespace Engine

/-- The engines that requests lead to from an engine with an empty graph. -/
inductive Reachable : Engine → Prop
  | create (id : Nat) (entropy : UInt64) : Reachable (.create id entropy)
  | request {e : Engine} (reachable : Reachable e) (r : Request) : Reachable (e.after r.call)

/-- A reachable engine is sound. -/
theorem Reachable.sound {e : Engine} (h : e.Reachable) : e.Sound := by
  induction h with
  | create id entropy => exact sound_create id entropy
  | request _ r ih => exact ((r.changing _ ih).after).sound ih

/-- The engine that some requests lead to, one after the other, from an engine with an empty graph.
-/
def built (requests : List Request) : Engine :=
  requests.foldl (fun e r => e.after r.call) (create 0 0)

theorem reachable_built (requests : List Request) : (built requests).Reachable := by
  -- the requests may start from any reachable engine
  suffices h : ∀ e : Engine, e.Reachable →
      (requests.foldl (fun e r => e.after r.call) e).Reachable from h _ (.create 0 0)
  induction requests with
  | nil => exact fun e he => he
  | cons r requests ih => exact fun e he => ih _ (he.request r)

/-- An engine with a counter of steps, a constant, their sum in slot 2, and two updates of the
counter. -/
def counting : Engine :=
  built [.counter 5 "steps", .constant (.integer 2) none, .binary .add ⟨0, 0⟩ ⟨0, 1⟩ none,
    .updateAdd ⟨0, 0⟩ ⟨0, 1⟩, .update ⟨0, 0⟩ ⟨0, 2⟩]

theorem reachable_counting : counting.Reachable := reachable_built _

/-- The function that fetches the sum twice, with an update between, and makes both updates. -/
def countSteps : Function :=
  .ofNodes 0 [] [⟨0, 2⟩, ⟨0, 3⟩, ⟨0, 2⟩] [⟨0, 3⟩, ⟨0, 4⟩]

theorem counting_gives : gives (run countSteps []) counting := by decide +kernel

end Engine
end TensorGraph
