import TensorGraph.Proofs.Engine.Reachable

/-!
# Disposed engines

An engine whose session has ended stays as it is, whatever is asked of it. What it answers depends
on when a request looks at the session. Some look at it first and are refused as disposed. A
request that appends a node checks its arguments first, by the graph alone, so that arguments at
fault are refused as they are on a live engine. Derivatives by no variables never look at the
session.

## Main definitions

* `Request.looksFirst` and `Request.looksLast`: when a request looks at the session.
* `Request.needsSession`: requests that are not granted without a session.
* `Engine.revive`: an engine with another session.
* `Engine.LooksLast`: calls that are refused for their arguments or else as disposed.
* `Engine.Refuses`: calls that fail and leave the engine as it is.

## Main results

* `Engine.refuses_of_needsSession`: what a disposed engine does not grant.
* `Engine.disposed_answer`: what a disposed engine answers.
* `Engine.not_always_refused_as_disposed`: it does not refuse everything as disposed.
-/

namespace TensorGraph

namespace Request

/-- Whether a request looks at the session before it looks at its arguments. -/
def looksFirst : Request → Bool
  | placeholder _ _ | weights _ _ _ | stateVariable _ _ _ | counter _ _ | function _ _ _
  | run _ _ | readShape _ | readType _ | readInitializer _ => true
  | _ => false

/-- Whether a request looks at the session only when its arguments have passed. -/
def looksLast : Request → Bool
  | constant _ _ | update _ _ | updateAdd _ _ | randomNormal _ _ _ _ | randomUniform _ _ _ _
  | truncatedNormal _ _ _ _ | zeros _ | ones _ | dot _ _ _ | biasAdd _ _ _ | binary _ _ _ _
  | unary _ _ _ | clip _ _ _ _ | float _ _ | dropout _ _ _ _ | mean _ _ | reduceSum _ _
  | sigmoidCrossEntropy _ _ _ | softmaxCrossEntropy _ _ _ => true
  | _ => false

/-- Whether a request can only be granted while there is a session: all but ending it, and asking
for the derivatives by no variables. -/
def needsSession : Request → Bool
  | dispose | gradients _ [] => false
  | _ => true

end Request

namespace Engine

variable {α β γ : Type} {e : Engine} {name : Option String}

/-- An engine with another session. -/
def revive (e : Engine) (s : Session) : Engine := { e with session := some s }

/-- What a disposed engine refuses a call for, from the answer on a live one. The name of a new node
is checked after the session. -/
def cutShort : Except Failure α → Failure
  | .ok _ | .error (.error (.duplicateName _)) => .error .disposed
  | .error failure => failure

/-- A disposed engine refuses one call for what a live one refuses another for, or else as
disposed. -/
def CutsShort (c : Call α) (d : Call β) : Prop :=
  ∀ (e : Engine) (s : Session), e.isDisposed →
    c e = .error (cutShort (answer d (e.revive s))) e

/-- A call that a disposed engine refuses for its arguments, or else as disposed. -/
abbrev LooksLast (c : Call α) : Prop := CutsShort c c

/-- A check that does not depend on the session and leaves the engine as it is. -/
def Inspects (c : Call α) : Prop :=
  ∀ (e : Engine) (s : Session),
    (∃ a, c e = .ok a e ∧ c (e.revive s) = .ok a (e.revive s)) ∨
    ∃ err, (∀ name, err ≠ .duplicateName name) ∧ c e = .error (.error err) e ∧
      c (e.revive s) = .error (.error err) (e.revive s)

/-- A refusal is cut short to its error, unless it is one over a name. -/
theorem cutShort_refusal {err : Error} (h : ∀ name, err ≠ .duplicateName name) :
    cutShort (.error (.error err) : Except Failure α) = .error err := by
  cases err with
  | duplicateName name => exact absurd rfl (h name)
  | _ => rfl

/-- A disposed engine refuses every call that checks first. -/
theorem checkActive_disposed (h : e.isDisposed) : checkActive e = .error (.error .disposed) e := by
  unfold isDisposed at h
  change (if e.session.isNone then refuse .disposed else pure () : Call Unit) e = _
  rw [if_pos h]
  rfl

/-- A call that looks at the session first is refused as disposed. -/
theorem checkActive_bind_disposed (h : e.isDisposed) (f : Unit → Call β) :
    (checkActive >>= f) e = .error (.error .disposed) e :=
  bind_of_error (checkActive_disposed h)

/-! ## Checks -/

/-- Two looks at an engine are one. -/
theorem Inspects.bind {c : Call α} {f : α → Call β} (hc : Inspects c)
    (hf : ∀ a, Inspects (f a)) : Inspects (c >>= f) := by
  intro e s
  rcases hc e s with ⟨a, hdead, hlive⟩ | ⟨err, herr, hdead, hlive⟩
  · rw [bind_of_ok hdead, bind_of_ok hlive]
    exact hf a e s
  · exact .inr ⟨err, herr, bind_of_error hdead, bind_of_error hlive⟩

/-- A call that checks something before it looks at the session. -/
theorem Inspects.after {c : Call α} {f : α → Call β} {g : α → Call γ} (hc : Inspects c)
    (h : ∀ a, CutsShort (f a) (g a)) : CutsShort (c >>= f) (c >>= g) := by
  intro e s hdisposed
  unfold answer
  -- the check passes on both engines, or refuses on both
  rcases hc e s with ⟨a, hdead, hlive⟩ | ⟨err, herr, hdead, hlive⟩
  · rw [bind_of_ok hdead, bind_of_ok hlive]
    exact h a e s hdisposed
  · rw [bind_of_error hdead, bind_of_error hlive, cutShort_refusal herr]

/-- A disposed engine does not come to what follows a call that looks at the session. -/
theorem CutsShort.bind {c : Call α} {d : Call β} (h : CutsShort c d) (f : α → Call γ) :
    CutsShort (c >>= f) d :=
  fun e s hdisposed => bind_of_error (h e s hdisposed)

/-- What is made of a result does not matter to how a call is cut short. -/
theorem CutsShort.bind_pure {c : Call α} {d : Call β} (h : CutsShort c d) (f : β → γ) :
    CutsShort c (d >>= fun b => pure (f b)) := by
  intro e s hdisposed
  rw [h e s hdisposed]
  congr 1
  unfold answer
  -- what is made of a result changes no failure, and only failures are compared
  cases heq : d (e.revive s) with
  | ok b e' => rw [bind_of_ok heq]; rfl
  | error failure e' =>
    rw [bind_of_error heq]
    cases failure with
    | error err => cases err <;> rfl
    | fault cause => rfl

/-- A call may forget what it gives. -/
theorem CutsShort.discard {c : Call α} (h : LooksLast c) : LooksLast (discard c) := by
  rw [discard_eq_bind]
  exact (h.bind _).bind_pure _

/-- Refusing looks at nothing. -/
theorem inspects_refuse {err : Error} (herr : ∀ name, err ≠ .duplicateName name) :
    Inspects (refuse err : Call α) :=
  fun _ _ => .inr ⟨err, herr, rfl, rfl⟩

/-- A call that is refused in any case does not come to look at the session. -/
theorem looksLast_refuse {err : Error} (h : ∀ name, err ≠ .duplicateName name) :
    LooksLast (refuse err : Call α) := by
  intro e s _
  change _ = EStateM.Result.error (cutShort (.error (.error err))) e
  rw [cutShort_refusal h]
  rfl

/-- A check in front of both calls refuses both or neither. -/
theorem CutsShort.unless {p : Prop} [Decidable p] {err : Error} {f : Unit → Call β}
    {g : Unit → Call γ} (herr : ∀ name, err ≠ .duplicateName name)
    (h : CutsShort (f ()) (g ())) :
    CutsShort (if p then refuse err >>= f else f ()) (if p then refuse err >>= g else g ()) := by
  split
  · exact (inspects_refuse herr).after fun a => h
  · exact h

theorem inspects_pure (a : α) : Inspects (pure a : Call α) :=
  fun _ _ => .inl ⟨a, rfl, rfl⟩

/-- A check looks and changes nothing. -/
theorem inspects_check {p : Prop} [Decidable p] {err : Error}
    (herr : ∀ name, err ≠ .duplicateName name) :
    Inspects (if p then refuse err else pure ()) := by
  split
  · exact inspects_refuse herr
  · exact inspects_pure ()

/-- A check in front of a look is a look. -/
theorem Inspects.unless {p : Prop} [Decidable p] {err : Error} {f : Unit → Call β}
    (herr : ∀ name, err ≠ .duplicateName name) (hf : Inspects (f ())) :
    Inspects (if p then refuse err >>= f else f ()) := by
  split
  · exact fun e s => inspects_refuse herr e s
  · exact hf

/-- Both engines have one graph. -/
theorem inspects_currentGraph {f : Graph → Call β} (h : ∀ g, Inspects (f g)) :
    Inspects (currentGraph >>= f) :=
  fun e s => h e.graph e s

/-- Finding a node looks at the graph. -/
theorem inspects_locate (handle : Node) : Inspects (locate handle) := by
  refine inspects_currentGraph fun g => ?_
  split
  · exact inspects_pure _
  · exact inspects_refuse nofun

theorem inspects_expectVariable (slot : Nat) (n : GraphNode) :
    Inspects (expectVariable slot n) := inspects_check nofun

theorem inspects_expectFloat (operation : String) (slot : Nat) (n : GraphNode) :
    Inspects (expectFloat operation slot n) := inspects_check nofun

/-- Checking a shape looks at the shape. -/
theorem inspects_checkShape (shape : DeclaredShape) (allowOpen : Bool) :
    Inspects (checkShape shape allowOpen) := by
  unfold checkShape
  dsimp only
  refine .unless nofun ?_
  split
  · exact inspects_refuse nofun
  · exact inspects_pure _

/-- Checking a deviation looks at the deviation. -/
theorem inspects_checkDeviation (stddev : Float32) : Inspects (checkDeviation stddev) :=
  inspects_check nofun

/-- Whether a name is free depends on the graph, and asking changes nothing. -/
theorem checkFresh_eq (name : String) (e : Engine) :
    checkFresh name e = if (e.graph.find? name).isSome then
      .error (.error (.duplicateName name)) e else .ok () e := by
  change (if (e.graph.find? name).isSome then refuse (.duplicateName name) else pure () :
    Call Unit) e = _
  split <;> rfl

/-- Registering a node looks at the session before it looks at the name. -/
theorem looksLast_register (n : GraphNode) (name : Option String) :
    LooksLast (register n name) := by
  intro e s hdisposed
  have hactive : checkActive (e.revive s) = .ok () (e.revive s) := checkActive_eq rfl
  have hlive : cutShort (answer (register n name) (e.revive s)) = .error .disposed := by
    unfold answer
    rw [register, bind_of_ok hactive]
    cases name with
    | none => rfl
    | some name =>
      dsimp only
      -- a name in use is what a live engine refuses the node for
      have hfresh := checkFresh_eq name (e.revive s)
      split at hfresh
      · rw [bind_of_error hfresh]
        rfl
      · rw [bind_of_ok hfresh]
        rfl
  rw [hlive]
  exact checkActive_bind_disposed hdisposed _

/-! ## Calls that append a node -/

/-- A constant is checked by itself before the session is. -/
theorem looksLast_constant (value : Value) : LooksLast (constant value name) :=
  (inspects_checkShape _ _).after fun _ => looksLast_register _ _

theorem looksLast_random (shape : DeclaredShape) (sampler : Sampler) (seed : Option UInt64) :
    LooksLast (random shape sampler seed) :=
  (inspects_checkShape _ _).after fun _ => looksLast_register _ _

theorem looksLast_randomUniform (shape : DeclaredShape) (min max : Float32)
    (seed : Option UInt64) : LooksLast (randomUniform shape min max seed) := by
  unfold randomUniform
  exact .unless nofun (looksLast_random _ _ _)

theorem looksLast_fill (shape : DeclaredShape) (value : Float32) : LooksLast (fill shape value) :=
  (inspects_checkShape _ _).after fun _ => looksLast_register _ _

/-- The operand of a unary operation is checked before the session is. -/
theorem looksLast_unary (op : UnaryOp) (input : Node) : LooksLast (unary op input name) := by
  refine (inspects_locate input).after fun x => ?_
  dsimp only
  split
  · exact (inspects_expectFloat _ _ _).after fun _ => looksLast_register _ _
  · exact looksLast_register _ _

/-- So are the operands of a binary operation. -/
theorem looksLast_binary (op : BinaryOp) (left right : Node) :
    LooksLast (binary op left right name) := by
  refine (inspects_locate left).after fun l => (inspects_locate right).after fun r => ?_
  dsimp only
  refine .unless nofun ?_
  -- the operands of a division are checked once more before their shapes are
  split
  · refine (inspects_expectFloat _ _ _).after fun _ => ?_
    split
    · exact looksLast_register _ _
    · exact looksLast_refuse nofun
  · split
    · exact looksLast_register _ _
    · exact looksLast_refuse nofun

theorem looksLast_dot (left right : Node) : LooksLast (dot left right name) := by
  refine (inspects_locate left).after fun l => (inspects_locate right).after fun r =>
    (inspects_expectFloat _ _ _).after fun _ => (inspects_expectFloat _ _ _).after fun _ => ?_
  split
  · split
    · exact looksLast_register _ _
    · exact looksLast_refuse nofun
  · exact looksLast_refuse nofun

theorem looksLast_biasAdd (input bias : Node) : LooksLast (biasAdd input bias name) := by
  refine (inspects_locate input).after fun x => (inspects_locate bias).after fun b =>
    (inspects_expectFloat _ _ _).after fun _ => (inspects_expectFloat _ _ _).after fun _ => ?_
  split
  · split
    · exact looksLast_register _ _
    · exact looksLast_refuse nofun
  · exact looksLast_refuse nofun

theorem looksLast_clip (input : Node) (min max : Float32) :
    LooksLast (clip input min max name) := by
  unfold clip
  exact .unless nofun ((inspects_locate input).after fun _ =>
    (inspects_expectFloat _ _ _).after fun _ => looksLast_register _ _)

theorem looksLast_float (input : Node) : LooksLast (float input name) :=
  (inspects_locate input).after fun _ => looksLast_register _ _

/-- The rate of a dropout is checked before its operand, and both before the session. -/
theorem looksLast_dropout (input : Node) (rate : Float32) (seed : Option UInt64) :
    LooksLast (dropout input rate seed name) := by
  unfold dropout
  exact .unless nofun ((inspects_locate input).after fun _ =>
    (inspects_expectFloat _ _ _).after fun _ => looksLast_register _ _)

theorem looksLast_mean (input : Node) : LooksLast (mean input name) :=
  (inspects_locate input).after fun _ => (inspects_expectFloat _ _ _).after fun _ =>
    .unless nofun (looksLast_register _ _)

theorem looksLast_reduceSum (input : Node) : LooksLast (reduceSum input name) :=
  (inspects_locate input).after fun _ => looksLast_register _ _

theorem looksLast_sigmoidCrossEntropy (targets logits : Node) :
    LooksLast (sigmoidCrossEntropy targets logits name) := by
  refine (inspects_locate targets).after fun z => (inspects_locate logits).after fun x =>
    (inspects_expectFloat _ _ _).after fun _ => (inspects_expectFloat _ _ _).after fun _ => ?_
  split
  · exact looksLast_register _ _
  · exact looksLast_refuse nofun

theorem looksLast_softmaxCrossEntropy (logits labels : Node) :
    LooksLast (softmaxCrossEntropy logits labels name) := by
  refine (inspects_locate logits).after fun x => (inspects_locate labels).after fun z =>
    (inspects_expectFloat _ _ _).after fun _ => (inspects_expectFloat _ _ _).after fun _ => ?_
  extract_lets compatible
  split
  · exact looksLast_register _ _
  · exact looksLast_refuse nofun

/-- A derivative by one weight checks the weight first. -/
theorem looksLast_gradient (loss : Nat) (weight : Node) : LooksLast (gradient loss weight) :=
  (inspects_locate weight).after fun _ => (inspects_expectVariable _ _).after fun _ =>
    (inspects_expectFloat _ _ _).after fun _ => looksLast_register _ _

/-- Whether a node can be assigned to is a look at the graph. -/
theorem inspects_assignable (target value : Node) : Inspects (assignable target value) :=
  (inspects_locate target).bind fun _ => (inspects_locate value).bind fun _ =>
    (inspects_expectVariable _ _).bind fun _ =>
      .unless nofun (.unless nofun (inspects_pure _))

/-- An update checks its target and its value before the session. -/
theorem looksLast_update (target value : Node) : LooksLast (update target value) :=
  (inspects_assignable target value).after fun _ => looksLast_register _ _

theorem looksLast_updateAdd (target delta : Node) : LooksLast (updateAdd target delta) :=
  (inspects_assignable target delta).after fun _ => looksLast_register _ _

/-! ## Derivatives -/

/-- The derivatives by several variables are refused like the one by the first. -/
theorem cutsShort_gradients (loss target : Node) (targets : List Node) :
    CutsShort (gradients loss (target :: targets)) (gradients loss [target]) := by
  refine (inspects_locate loss).after fun found => (inspects_expectFloat _ _ _).after fun _ => ?_
  rw [List.mapM_cons, List.mapM_cons, List.mapM_nil]
  exact ((looksLast_gradient _ _).bind _).bind_pure _

/-- The derivatives by no variables only check the loss. -/
theorem inspects_gradients_nil (loss : Node) : Inspects (gradients loss []) :=
  (inspects_locate loss).bind fun _ => (inspects_expectFloat _ _ _).bind fun _ => inspects_pure []

/-- A look at an engine sees the same with and without a session. -/
theorem Inspects.answer_revive {c : Call α} (h : Inspects c) (e : Engine) (s : Session) :
    answer c (e.revive s) = answer c e := by
  unfold answer
  rcases h e s with ⟨a, hdead, hlive⟩ | ⟨err, -, hdead, hlive⟩
  · rw [hdead, hlive]
  · rw [hdead, hlive]

/-! ## Requests -/

/-- A request that checks the session first is refused as disposed. -/
theorem looksFirst_disposed {r : Request} (hr : r.looksFirst) (h : e.isDisposed) :
    r.call e = .error (.error .disposed) e := by
  have hdiscard {α : Type} {c : Call α} (hc : c e = .error (.error .disposed) e) :
      discard c e = .error (.error .disposed) e := by
    rw [discard_eq_bind]
    exact bind_of_error hc
  -- all of these begin with the same check
  cases r with
  | placeholder name shape => exact hdiscard (checkActive_bind_disposed h _)
  | weights shape initializer name => exact hdiscard (checkActive_bind_disposed h _)
  | stateVariable shape initializer name => exact hdiscard (checkActive_bind_disposed h _)
  | counter initial name =>
    exact hdiscard (bind_of_error (checkActive_bind_disposed h _))
  | function inputs outputs updates => exact hdiscard (checkActive_bind_disposed h _)
  | run f feeds => exact hdiscard (checkActive_bind_disposed h _)
  | readShape handle => exact hdiscard (checkActive_bind_disposed h _)
  | readType handle => exact hdiscard (checkActive_bind_disposed h _)
  | readInitializer handle => exact hdiscard (checkActive_bind_disposed h _)
  | _ => cases hr

/-- A request that checks the session last is cut short by it. -/
theorem looksLast_call {r : Request} (hr : r.looksLast) : LooksLast r.call := by
  -- all of these inspect their arguments and then register a node, which is where the session is
  -- asked for
  cases r with
  | constant value name => exact (looksLast_constant value).discard
  | update target value => exact (looksLast_update target value).discard
  | updateAdd target delta => exact (looksLast_updateAdd target delta).discard
  | randomNormal shape mean stddev seed =>
    exact ((inspects_checkDeviation _).after fun _ => looksLast_random _ _ _).discard
  | randomUniform shape min max seed => exact (looksLast_randomUniform shape min max seed).discard
  | truncatedNormal shape mean stddev seed =>
    exact ((inspects_checkDeviation _).after fun _ => looksLast_random _ _ _).discard
  | zeros shape => exact (looksLast_fill shape 0).discard
  | ones shape => exact (looksLast_fill shape 1).discard
  | dot left right name => exact (looksLast_dot left right).discard
  | biasAdd input bias name => exact (looksLast_biasAdd input bias).discard
  | binary op left right name => exact (looksLast_binary op left right).discard
  | unary op input name => exact (looksLast_unary op input).discard
  | clip input min max name => exact (looksLast_clip input min max).discard
  | float input name => exact (looksLast_float input).discard
  | dropout input rate seed name => exact (looksLast_dropout input rate seed).discard
  | mean input name => exact (looksLast_mean input).discard
  | reduceSum input name => exact (looksLast_reduceSum input).discard
  | sigmoidCrossEntropy targets logits name =>
    exact (looksLast_sigmoidCrossEntropy targets logits).discard
  | softmaxCrossEntropy logits labels name =>
    exact (looksLast_softmaxCrossEntropy logits labels).discard
  | _ => cases hr

/-- A call that fails and leaves the engine as it is. -/
abbrev Refuses (c : Call α) (e : Engine) : Prop := Leads c e (e = ·) fun _ _ => False

/-- A call that fails and leaves the engine alone refuses. -/
theorem refuses_of_eq_error {c : Call α} {failure : Failure} (h : c e = .error failure e) :
    Refuses c e := by
  unfold Refuses Leads
  rw [h]

theorem Refuses.discard {c : Call α} (h : Refuses c e) : Refuses (discard c) e := Leads.discard h

/-- A refused call leaves the engine as it is. -/
theorem Refuses.after {c : Call α} (h : Refuses c e) : e.after c = e :=
  (Leads.after (h.mono fun _ _ => False.elim)).symm

/-- A refused call gives nothing. -/
theorem Refuses.not_gives {c : Call α} (h : Refuses c e) : gives c e = false := by
  unfold Refuses Leads at h
  unfold gives
  split at h
  · exact h.elim
  · rfl

/-- A call that is cut short refuses on a disposed engine. -/
theorem CutsShort.refuses {c : Call α} {d : Call β} (hc : CutsShort c d) (h : e.isDisposed) :
    Refuses c e :=
  refuses_of_eq_error (hc e ⟨.empty, .empty, 0⟩ h)

/-- A look leads nowhere else. -/
theorem Inspects.leads {c : Call α} (hc : Inspects c) :
    Leads c e (e = ·) fun _ e' => e = e' := by
  unfold Leads
  rcases hc e ⟨.empty, .empty, 0⟩ with ⟨a, heq, -⟩ | ⟨err, -, heq, -⟩
  · rw [heq]
  · rw [heq]

/-- A function is refused for what it is to be given, or else as disposed. -/
theorem refuses_execute (h : e.isDisposed) (f : Function) (overrides : List (Node × Value)) :
    Refuses (execute f overrides) e :=
  leads_lift rfl fun _ _ => refuses_of_eq_error (checkActive_bind_disposed h _)

/-- Functions cannot be executed on a disposed engine, with values in order either. -/
theorem refuses_executePositional (h : e.isDisposed) (f : Function) (values : List Value) :
    Refuses (executePositional f values) e := by
  unfold executePositional
  exact leads_unless rfl fun _ => refuses_execute h f _

/-- The node is looked at first, and its value is not there. -/
theorem refuses_readVariable (h : e.isDisposed) (handle : Node) :
    Refuses (readVariable handle) e := by
  refine leads_locate rfl fun slot n _ => leads_expectVariable rfl fun _ => ?_
  have hnone : e.session = none := Option.isNone_iff_eq_none.1 h
  have hevaluate : evaluate .inference .empty [slot] e = .error (.error .disposed) e := by
    unfold evaluate
    rw [hnone]
  exact leads_bind_iff.2 ((refuses_of_eq_error hevaluate).mono fun _ _ => False.elim)

/-- A disposed engine grants nothing that needs a session. -/
theorem refuses_of_needsSession {r : Request} (hr : r.needsSession) (h : e.isDisposed) :
    Refuses r.call e := by
  by_cases hfirst : r.looksFirst
  · exact refuses_of_eq_error (looksFirst_disposed hfirst h)
  by_cases hlast : r.looksLast
  · exact (looksLast_call hlast).refuses h
  -- what is left looks at the session in between, or not at all
  cases r with
  | gradients loss targets =>
    cases targets with
    | nil => cases hr
    | cons target targets => exact ((cutsShort_gradients loss target targets).refuses h).discard
  | execute f overrides => exact (refuses_execute h f overrides).discard
  | executePositional f values => exact (refuses_executePositional h f values).discard
  | readVariable handle => exact (refuses_readVariable h handle).discard
  | dispose => cases hr
  | _ => simp [Request.looksFirst, Request.looksLast] at hfirst hlast

/-- Whatever is asked of a disposed engine, it stays as it is. -/
theorem after_disposed (r : Request) (h : e.isDisposed) : e.after r.call = e := by
  by_cases hr : r.needsSession
  · exact (refuses_of_needsSession hr h).after
  -- what is left needs no session, so it only has to leave the engine alone
  suffices hleads : Leads r.call e (e = ·) fun _ e' => e = e' from hleads.after.symm
  cases r with
  | gradients loss targets =>
    cases targets with
    | nil =>
      exact (inspects_gradients_nil loss).leads.discard
    | cons target targets => exact absurd rfl hr
  | dispose =>
    refine leads_get ?_
    rw [h]
    exact leads_pure rfl
  | _ => exact absurd rfl hr

/-- A disposed engine stays as it is. It refuses a request that looks at the session first as
disposed. A request that appends a node it refuses for its arguments, if a live engine does so for
more than the name of the node, and otherwise as disposed. Derivatives by some variables it
refuses like the derivative by the first of them, and it answers derivatives by no variables as if
it were live. -/
theorem disposed_answer (h : e.isDisposed) (s : Session) :
    (∀ r : Request, e.after r.call = e) ∧
    (∀ r : Request, r.looksFirst → answer r.call e = .error (.error .disposed)) ∧
    (∀ r : Request, r.looksLast →
      answer r.call e = .error (cutShort (answer r.call (e.revive s)))) ∧
    (∀ loss target targets, answer (gradients loss (target :: targets)) e =
      .error (cutShort (answer (gradients loss [target]) (e.revive s)))) ∧
    ∀ loss, answer (gradients loss []) e = answer (gradients loss []) (e.revive s) := by
  have hanswer {α : Type} {c : Call α} {failure : Failure} (hc : c e = .error failure e) :
      answer c e = .error failure := by
    unfold answer
    rw [hc]
  refine ⟨fun r => after_disposed r h, fun r hr => hanswer (looksFirst_disposed hr h),
    fun r hr => hanswer (looksLast_call hr e s h), fun loss target targets => ?_, fun loss => ?_⟩
  · -- the first variable decides, since no other one is looked at after it has been refused
    exact hanswer (cutsShort_gradients loss target targets e s h)
  · exact ((inspects_gradients_nil loss).answer_revive e s).symm

/-- An engine with a number and a vector, the session of which has ended. -/
def ended : Engine :=
  built [.constant (.scalar 1) none, .constant (.vector #[1, 2]) none, .dispose]

/-- A run is refused as disposed, and so is adding the number to itself, while a product of vectors
is refused for their shapes. -/
theorem ended_answers :
    ended.isDisposed ∧
    answer (Request.run (.ofNodes 0 [] [⟨0, 0⟩] []) []).call ended = .error (.error .disposed) ∧
    answer (Request.binary .add ⟨0, 0⟩ ⟨0, 0⟩ none).call ended = .error (.error .disposed) ∧
    answer (Request.dot ⟨0, 1⟩ ⟨0, 1⟩ none).call ended =
      .error (.error (.compilation (.dotShapes [2] [2]))) := by
  have hended : ended.isDisposed := by decide +kernel
  obtain ⟨-, hfirst, hlast, -, -⟩ := disposed_answer hended ⟨.empty, .empty, 0⟩
  refine ⟨hended, hfirst _ rfl, ?_, ?_⟩
  · rw [hlast _ rfl]
    rfl
  · rw [hlast _ rfl]
    rfl

/-- Not every call on a disposed engine is refused as disposed: derivatives by no variables are
given. -/
theorem not_always_refused_as_disposed :
    ¬ ∀ (e : Engine) (r : Request), e.Reachable → e.isDisposed →
      (r.looksFirst ∨ r.looksLast ∨ ∃ loss targets, r = .gradients loss targets) →
      answer r.call e = .error (.error .disposed) := by
  intro h
  have hrefused := h ended (.gradients ⟨0, 0⟩ []) (reachable_built _) (by decide +kernel)
    (.inr (.inr ⟨_, _, rfl⟩))
  have hgives : gives (Request.gradients ⟨0, 0⟩ []).call ended := by decide +kernel
  obtain ⟨u, e', hgiven⟩ := exists_of_gives hgives
  unfold answer at hrefused
  rw [hgiven] at hrefused
  cases hrefused

end Engine
end TensorGraph
