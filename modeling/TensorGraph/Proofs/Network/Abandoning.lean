import TensorGraph.Proofs.Engine.Lasting
import TensorGraph.Proofs.Network.Workshop

/-!
# Layers that fail to compile

Nothing that has been registered is taken back. A dense layer registers its weights, then its bias,
and then the operations on them, so when a later one of these steps fails the variables of the
earlier steps stay behind: they are trained variables from then on, and belong to no compiled layer.
Every other failure leaves the trained variables as they were.

## Main definitions

* `Engine.Leaves`: an engine with further trained variables.
* `Dense.Stops`: how far compiling a dense layer came.
* `Network.Prepared`: the layers above a layer have been compiled.
* `Network.Abandons`: what a layer leaves behind that fails to compile.

## Main results

* `Network.abandons_of_compileLayer`: a layer fails to compile.
-/

namespace TensorGraph

open Engine

variable {e e' e'' : Engine} {failure : Failure} {name : String}

/-! ## Trained variables -/

namespace Engine

/-- An engine after changes that append the given trained variables and no other ones. -/
structure Leaves (e : Engine) (ws : List Node) (e' : Engine) : Prop where
  changes : Changes e e'
  weights : e'.trainableWeights = e.trainableWeights ++ ws

theorem Leaves.refl (e : Engine) : Leaves e [] e := ⟨.refl, (List.append_nil _).symm⟩

/-- Trained variables are left behind in the order of the changes. -/
theorem Leaves.trans {ws ws' : List Node} (h : Leaves e ws e') (h' : Leaves e' ws' e'') :
    Leaves e (ws ++ ws') e'' where
  changes := h.changes.trans h'.changes
  weights := by rw [h'.weights, h.weights, List.append_assoc]

/-- Variables that a layer is made of are left in the engine. -/
theorem Advances.leaves {ws : List Node} (h : Advances e ws e') : Leaves e ws e' :=
  ⟨h.changes, h.weights⟩

/-- The trained variables that are appended have not been there. -/
theorem Leaves.fresh {ws : List Node} (h : Leaves e ws e') (hsound : e.Sound) :
    ∀ node ∈ ws, node ∉ e.trainableWeights := by
  intro node hnode hold
  have hnodup := (h.changes.sound hsound).nodup_trainableWeights
  rw [h.weights, List.nodup_append] at hnodup
  exact hnodup.2.2 node hold node hnode rfl

/-- They stay, whatever is asked of the engine later. -/
theorem Leaves.lasting {ws : List Node} (h : Leaves e ws e') (hsound : e.Sound) :
    ∀ node ∈ ws, ∀ rs, node ∈ (e'.afterAll rs).trainableWeights := by
  intro node hnode rs
  have hsound' := h.changes.sound hsound
  refine (hsound'.changes_afterAll rs).mem_trainableWeights hsound' ?_
  rw [h.weights]
  exact List.mem_append_right _ hnode

/-- An engine after changes that append no trained variable. -/
def Spares (e e' : Engine) : Prop := Leaves e [] e'

instance : IsTrans Engine Spares := ⟨fun _ _ _ h h' => h.trans h'⟩

/-- A call that appends a node leaves no trained variable behind. -/
theorem Appends.spares {c : Call Node} {P : Engine → GraphNode → Prop}
    (h : ∀ e, Appends c e (P e)) : Keeps Spares c := by
  refine fun e => Leads.imp (h e) ?_ ?_
  · rintro _ rfl
    exact .refl _
  · rintro handle e' ⟨n, -, happended⟩
    exact happended.advances.leaves

/-- A call that leaves the engine as it is leaves no trained variable behind. -/
theorem Keeps.spares {α : Type} {c : Call α} (h : Keeps Eq c) : Keeps Spares c := by
  refine fun e => (h e).imp ?_ ?_
  · rintro _ rfl
    exact .refl _
  · rintro _ _ rfl
    exact .refl _

/-- A node of a first value that is left behind is not trained. -/
theorem Attempted.spares {op : Op} (h : Attempted op e e') : Spares e e' := by
  refine ⟨h.changes, ?_⟩
  obtain ⟨e₁, hfirst, _, _, rfl⟩ := h
  rw [List.append_nil]
  rcases hfirst with rfl | ⟨made, init, -, happended⟩
  · rfl
  · exact (happended.advances.weights).trans (List.append_nil _)

/-- A weight that is created is the one new trained variable, and none is when this fails. -/
theorem leads_weights (hsound : e.Sound) (shape : DeclaredShape) (initializer : Initializer)
    (name : String) :
    Leads (weights shape initializer name) e (Spares e) fun handle e' => Leaves e [handle] e' := by
  refine (leads_createVariable shape initializer name true).imp (fun _ h => h.spares) ?_
  rintro handle e' ⟨made, init, e₁, s, ev, -, h⟩
  exact (h.advances hsound rfl).leaves

end Engine

/-! ## Dense layers -/

namespace Dense

/-- The operations of a dense layer, once its variables are there. -/
def connect (d : Dense) (name : String) (input weights bias : Node) : Call Blueprint := do
  let projected ← dot input weights none
  let shifted ← biasAdd projected bias none
  let output ← d.resolvedActivation.compile shifted (some name)
  let ofWeights ← initializer weights
  let ofBias ← initializer bias
  return { output := output, parameters := [weights, bias],
           initializers := ofWeights.toList ++ ofBias.toList }

/-- None of them is a trained variable. -/
theorem spares_connect (d : Dense) (name : String) (input weights bias : Node) :
    Keeps Spares (d.connect name input weights bias) :=
  (Appends.spares fun _ => appends_dot input weights).bind fun projected =>
    (Appends.spares fun _ => appends_biasAdd projected bias).bind fun shifted =>
    (Appends.spares fun _ => appends_unary d.resolvedActivation.op shifted).bind fun _ =>
    (keeps_initializer weights).spares.bind fun _ =>
    (keeps_initializer bias).spares.bind fun _ e => leads_pure (.refl e)

/-- The step that compiling a dense layer fails at, with the failure, the trained variables that
have been registered by then, and the engine that is left. -/
inductive Stops (d : Dense) (name : String) (input : Node) (fed : DeclaredShape) (e : Engine) :
    Failure → List Node → Engine → Prop
  /-- The number of inputs is not known. -/
  | size (unknown : ∀ size, fed.getLast? = some size → size ≤ 0) :
    Stops d name input fed e (.error (.compilation (.openInputSize name fed))) [] e
  /-- The weights are not registered. -/
  | weights {size : Int} {failure : Failure} {e' : Engine} (last : fed.getLast? = some size)
      (failed : Engine.weights [size, d.width] (d.weightsInitializer.getD .standard)
        (name ++ "/weights") e = .error failure e') :
    Stops d name input fed e failure [] e'
  /-- The weights are registered, and the bias is not. -/
  | bias {size : Int} {weights : Node} {failure : Failure} {e₁ e' : Engine}
      (last : fed.getLast? = some size)
      (ofWeights : Engine.weights [size, d.width] (d.weightsInitializer.getD .standard)
        (name ++ "/weights") e = .ok weights e₁)
      (failed : Engine.weights [d.width] (d.biasInitializer.getD .standard) (name ++ "/bias") e₁ =
        .error failure e') :
    Stops d name input fed e failure [weights] e'
  /-- Both are registered, and an operation on them is not. -/
  | operation {size : Int} {weights bias : Node} {failure : Failure} {e₁ e₂ e' : Engine}
      (last : fed.getLast? = some size)
      (ofWeights : Engine.weights [size, d.width] (d.weightsInitializer.getD .standard)
        (name ++ "/weights") e = .ok weights e₁)
      (ofBias : Engine.weights [d.width] (d.biasInitializer.getD .standard) (name ++ "/bias") e₁ =
        .ok bias e₂)
      (failed : d.connect name input weights bias e₂ = .error failure e') :
    Stops d name input fed e failure [weights, bias] e'

/-- A dense layer that fails to compile leaves behind the trained variables that it has registered
by then, and no other ones. -/
theorem stops_of_compile (hsound : e.Sound) {d : Dense} {input : Node} {fed : DeclaredShape}
    (h : d.compile name input fed e = .error failure e') :
    ∃ ws, d.Stops name input fed e failure ws e' ∧ Leaves e ws e' := by
  unfold Dense.compile at h
  cases hlast : fed.getLast? with
  | none =>
    rw [hlast] at h
    cases h
    exact ⟨[], .size fun size hsize => absurd (hlast.symm.trans hsize) nofun, .refl e⟩
  | some size =>
    by_cases hpos : 0 < size
    · -- one step after the other: what the earlier ones have left is there when the next one fails
      simp only [hlast, if_pos hpos, pure_bind] at h
      rcases bind_eq_error_iff.1 h with hweights | ⟨weights, e₁, hweights, h⟩
      · exact ⟨[], .weights hlast hweights, (leads_weights hsound _ _ _).of_eq_error hweights⟩
      have h₁ : Leaves e [weights] e₁ := (leads_weights hsound _ _ _).of_eq_ok hweights
      have hsound₁ := h₁.changes.sound hsound
      rcases bind_eq_error_iff.1 h with hbias | ⟨bias, e₂, hbias, h⟩
      · exact ⟨[weights], .bias hlast hweights hbias,
          h₁.trans ((leads_weights hsound₁ _ _ _).of_eq_error hbias)⟩
      have h₂ : Leaves e₁ [bias] e₂ := (leads_weights hsound₁ _ _ _).of_eq_ok hbias
      exact ⟨[weights, bias], .operation hlast hweights hbias h,
        h₁.trans (h₂.trans ((d.spares_connect name input weights bias e₂).of_eq_error h))⟩
    · simp only [hlast, if_neg hpos] at h
      cases h
      refine ⟨[], .size fun size' hsize => ?_, .refl e⟩
      obtain rfl := Option.some.inj (hlast.symm.trans hsize)
      exact Int.not_lt.1 hpos

end Dense

/-! ## Other layers -/

/-- An input layer that fails to compile leaves the trained variables as they are. -/
theorem Input.spares_compile (i : Input) (name : String) : Keeps Spares (i.compile name) := by
  intro e
  unfold Input.compile
  refine leads_unless (.refl e) fun _ =>
    leads_bind_iff.2 ((leads_placeholder name i.shape).imp ?_ ?_)
  · rintro _ rfl
    exact .refl _
  · rintro output e' (⟨rfl, -⟩ | ⟨n, -, happended⟩)
    · exact .refl _
    · exact happended.advances.leaves

/-- A dropout layer leaves no trained variable behind. -/
theorem Dropout.spares_compile (d : Dropout) (name : String) (input : Node) :
    Keeps Spares (d.compile name input) :=
  (Appends.spares fun _ => appends_dropout input d.rate d.seed).bind fun _ e => leads_pure (.refl e)

/-! ## Networks -/

namespace Network

open Compiling

variable {n : Network} {c : CompileContext} {w w' : Workspace} {id feeder : LayerId}
  {named : NamedLayer}

/-- The layers above a layer have been compiled. -/
def Prepared (n : Network) (c : CompileContext) (id : LayerId) : Prop :=
  ∀ ls, n.lineage id = .ok ls → ∀ up ∈ ls.tail, c.isCompiled up.1

/-- Then so has the one that feeds it. -/
theorem Prepared.exists_blueprint (h : n.Prepared c id) (hn : n.WellFed)
    (hid : n.layer? id = some named) (hf : named.layer.feeder? = some feeder) :
    ∃ b, c.blueprint? feeder = some b := by
  obtain ⟨namedFeeder, hfeeder⟩ := contains_iff.1 (hn.earlier hid hf).2
  obtain ⟨above, habove, -⟩ := hn.exists_lineage hfeeder
  have hlineage := hn.lineage_of_feeder hid hf
  rw [habove] at hlineage
  exact Option.isSome_iff_exists.1 (h _ hlineage (feeder, namedFeeder.layer) (by simp))

/-- The step that compiling a layer fails at when the layers above it have been compiled, with the
failure, the trained variables that have been registered by then, and the engine that is left. -/
inductive Stops (n : Network) (w : Workspace) (id : LayerId) : Failure → List Node → Engine → Prop
  | foreignContext (foreign : w.engine.graph.id ≠ w.context.engine) :
    Stops n w id (.error (.invalidArgument .foreignContext)) [] w.engine
  | foreignLayer (absent : n.layer? id = none) :
    Stops n w id (.error (.invalidArgument .foreignLayer)) [] w.engine
  | input {name : String} {i : Input} {failure : Failure} {e : Engine}
      (layer : n.layer? id = some ⟨name, .input i⟩)
      (failed : i.compile name w.engine = .error failure e) : Stops n w id failure [] e
  | dense {name : String} {d : Dense} {feeder : LayerId} {b : Blueprint} {fed : DeclaredShape}
      {failure : Failure} {ws : List Node} {e : Engine}
      (layer : n.layer? id = some ⟨name, .dense d feeder⟩)
      (fedBy : w.context.blueprint? feeder = some b) (shape : n.shape feeder = .ok fed)
      (stops : d.Stops name b.output fed w.engine failure ws e) : Stops n w id failure ws e
  | dropout {name : String} {d : Dropout} {feeder : LayerId} {b : Blueprint} {failure : Failure}
      {e : Engine} (layer : n.layer? id = some ⟨name, .dropout d feeder⟩)
      (fedBy : w.context.blueprint? feeder = some b)
      (failed : d.compile name b.output w.engine = .error failure e) : Stops n w id failure [] e

/-- What a layer leaves behind that fails to compile: trained variables that have not been there and
that stay, while the context does not remember the layer. -/
structure Abandons (n : Network) (w : Workspace) (id : LayerId) (failure : Failure) (w' : Workspace)
    (ws : List Node) : Prop where
  stops : n.Stops w id failure ws w'.engine
  context : w'.context = w.context
  uncompiled : w.engine.graph.id = w'.context.engine → w'.context.isCompiled id = false
  weights : w'.engine.trainableWeights = w.engine.trainableWeights ++ ws
  fresh : ∀ node ∈ ws, node ∉ w.engine.trainableWeights
  lasting : ∀ node ∈ ws, ∀ rs, node ∈ (w'.engine.afterAll rs).trainableWeights

/-- A call of the engine fails in a workspace as it does by itself. -/
theorem onEngine_eq_error_iff {α : Type} {call : Call α} {failure : Failure} :
    onEngine call w = .error failure w' ↔
      ∃ e, call w.engine = .error failure e ∧ w' = { w with engine := e } := by
  unfold onEngine
  cases heq : call w.engine with
  | ok a e => simp
  | error failure' e => simp [eq_comm]

/-- A computation that fails leaves the workspace as it is. -/
theorem lift_eq_error_iff {α : Type} {r : Except Error α} {failure : Failure} :
    Compiling.lift r w = .error failure w' ↔
      ∃ err, r = .error err ∧ failure = .error err ∧ w' = w := by
  cases r with
  | ok b => simp [Compiling.lift]
  | error err => simp [Compiling.lift, eq_comm]

/-- Asking for a layer fails only if it is not found. -/
theorem layer_eq_error_iff {err : Error} :
    n.layer id = .error err ↔ n.layer? id = none ∧ err = .invalidArgument .foreignLayer := by
  unfold layer
  cases n.layer? id with
  | some named => simp
  | none => simp [eq_comm]

/-- Looking at the workspace does not fail. -/
theorem get_bind_eq_error_iff {α : Type} {f : Workspace → Compiling α} {failure : Failure} :
    (get >>= f) w = .error failure w' ↔ f w w = .error failure w' := Iff.rfl

/-- Once the nodes of a layer have been made, nothing fails. -/
theorem made_of_eq_error {f : Compiling Blueprint} {name : String} {failure : Failure}
    (h : (do
      let made ← f
      onEngine (Engine.report (.compiledLayer name made.parameters.length))
      modify fun w => { w with context.blueprints := w.context.blueprints ++ [(id, made)] }
      return made.output : Compiling Node) w = .error failure w') : f w = .error failure w' := by
  rcases bind_eq_error_iff.1 h with hmade | ⟨made, w₁, hmade, h⟩
  · exact hmade
  · cases h

/-- A layer that feeds another one has a shape. -/
theorem WellFed.exists_shape (hn : n.WellFed) (hid : n.layer? id = some named)
    (hf : named.layer.feeder? = some feeder) : ∃ shape, n.shape feeder = .ok shape := by
  obtain ⟨namedFeeder, hfeeder⟩ := contains_iff.1 (hn.earlier hid hf).2
  obtain ⟨above, habove, -⟩ := hn.exists_lineage hfeeder
  exact ⟨_, except_map_eq_ok_iff.2 ⟨_, habove, rfl⟩⟩

/-- Compiling the feeder of a layer gives its node again when it has been compiled. -/
theorem Prepared.compileWithin_eq {depth : Nat} (h : n.Prepared w.context id) (hn : n.WellFed)
    (hcontext : w.context.engine = w.engine.graph.id) (hdepth : id.index ≤ depth)
    (hid : n.layer? id = some named) (hf : named.layer.feeder? = some feeder) :
    ∃ b, w.context.blueprint? feeder = some b ∧
      n.compileWithin depth feeder w = .ok b.output w := by
  obtain ⟨b, hb⟩ := h.exists_blueprint hn hid hf
  obtain ⟨hlt, -⟩ := hn.earlier hid hf
  obtain ⟨depth, rfl⟩ : ∃ k, depth = k + 1 := ⟨depth - 1, by omega⟩
  exact ⟨b, hb, Workshop.compileWithin_eq hcontext hb n depth⟩

/-- A layer whose feeder has been compiled fails at a step of its own. -/
theorem stops_of_compileWithin {depth : Nat} {failure : Failure} (hn : n.WellFed)
    (hsound : w.engine.Sound) (hprepared : n.Prepared w.context id) (hdepth : id.index ≤ depth)
    (h : n.compileWithin (depth + 1) id w = .error failure w') :
    ∃ ws, n.Stops w id failure ws w'.engine ∧ w'.context = w.context ∧
      (w.engine.graph.id = w.context.engine → w.context.isCompiled id = false) ∧
      Leaves w.engine ws w'.engine := by
  unfold compileWithin at h
  rw [get_bind_eq_error_iff, get_bind_eq_error_iff] at h
  split at h
  · next hforeign =>
    cases h
    exact ⟨[], .foreignContext hforeign, rfl, fun hown => absurd hown hforeign, .refl _⟩
  next hown =>
  have hcontext : w.context.engine = w.engine.graph.id := (not_not.1 hown).symm
  rw [get_bind_eq_error_iff] at h
  cases hb : w.context.blueprint? id with
  | some b =>
    -- a layer that has been compiled does not fail
    rw [hb] at h
    cases h
  | none =>
    rw [hb] at h
    have hfresh : w.engine.graph.id = w.context.engine → w.context.isCompiled id = false :=
      fun _ => by rw [CompileContext.isCompiled, hb, Option.isSome_none]
    rcases bind_eq_error_iff.1 h with hlift | ⟨⟨name, l⟩, _, hlift, h⟩
    · obtain ⟨err, hlayer, rfl, rfl⟩ := lift_eq_error_iff.1 hlift
      obtain ⟨habsent, rfl⟩ := layer_eq_error_iff.1 hlayer
      exact ⟨[], .foreignLayer habsent, rfl, hfresh, .refl _⟩
    obtain ⟨hlayer, rfl⟩ := lift_eq_ok_iff.1 hlift
    have hid := layer_eq_ok_iff.1 hlayer
    cases l with
    | input i =>
      obtain ⟨e, hfailed, rfl⟩ := onEngine_eq_error_iff.1 (made_of_eq_error h)
      exact ⟨[], .input hid hfailed, rfl, hfresh, (i.spares_compile name _).of_eq_error hfailed⟩
    | dense d feeder =>
      -- neither its feeder nor the shape of it is what fails
      obtain ⟨b, hfeeder, hinput⟩ := hprepared.compileWithin_eq hn hcontext hdepth hid rfl
      obtain ⟨fed, hshape⟩ := hn.exists_shape hid rfl
      dsimp only at h
      rw [bind_of_ok hinput, bind_of_ok (lift_eq_ok_iff.2 ⟨hshape, rfl⟩)] at h
      obtain ⟨e, hfailed, rfl⟩ := onEngine_eq_error_iff.1 (made_of_eq_error h)
      obtain ⟨ws, hstops, hleaves⟩ := Dense.stops_of_compile hsound hfailed
      exact ⟨ws, .dense hid hfeeder hshape hstops, rfl, hfresh, hleaves⟩
    | dropout d feeder =>
      obtain ⟨b, hfeeder, hinput⟩ := hprepared.compileWithin_eq hn hcontext hdepth hid rfl
      dsimp only at h
      rw [bind_of_ok hinput] at h
      obtain ⟨e, hfailed, rfl⟩ := onEngine_eq_error_iff.1 (made_of_eq_error h)
      exact ⟨[], .dropout hid hfeeder hfailed, rfl, hfresh,
        (d.spares_compile name b.output _).of_eq_error hfailed⟩

/-- A layer fails to compile although the layers above it have been compiled. Then the context does
not remember the layer. Nothing is taken back: the trained variables are followed by those that the
layer had registered before the step that failed, which are none unless the layer is dense; the
weights alone when its bias could not be registered; and both when an operation on them could not.
These have not been there before, and stay whatever is asked of the engine later. -/
theorem abandons_of_compileLayer {failure : Failure} (hn : n.WellFed) (hsound : w.engine.Sound)
    (hprepared : n.Prepared w.context id) (h : n.compileLayer id w = .error failure w') :
    ∃ ws, n.Abandons w id failure w' ws := by
  obtain ⟨ws, hstops, hcontext, hfresh, hleaves⟩ :=
    stops_of_compileWithin hn hsound hprepared (Nat.le_refl _) h
  exact ⟨ws, hstops, hcontext, hcontext ▸ hfresh, hleaves.weights, hleaves.fresh hsound,
    hleaves.lasting hsound⟩

/-! ## A layer with a bad bias -/

/-- An input, and a dense layer on it whose bias is to be drawn with a negative deviation. -/
def spoiledLayers : List Layer :=
  [.input (.pairs (some "x")),
    .dense ⟨3, none, some .ones, some (.randomNormal 0 (-1) none), some "y",
      Dense.units_pos_three⟩ ⟨0, 0⟩]

/-- A network with as many of these layers as given. -/
def spoiled (size : Nat) : Network :=
  ⟨0, ((List.zipWith NamedLayer.mk ["x", "y"] spoiledLayers).take size).toArray⟩

/-- The layers of the spoiled network are added one after the other. -/
theorem add_spoiled : ∀ k (h : k < spoiledLayers.length),
    (spoiled k).add spoiledLayers[k] = .ok (⟨0, k⟩, spoiled (k + 1))
  | 0, _ => add_eq_ok_iff.2 ⟨nofun, "x", by decide +kernel, rfl, rfl, rfl⟩
  | 1, _ => add_eq_ok_iff.2 ⟨by rintro _ ⟨⟩; rfl, "y", by decide +kernel, rfl, rfl, rfl⟩

/-- The dense layer fails to compile after the input has been compiled, and the weights stay. -/
theorem exists_spoiled : ∃ (s : Workshop) (failure : Failure) (w' : Workspace),
    s.Reachable ∧ s.networks 0 = spoiled 2 ∧ (spoiled 2).Prepared s.workspace.context ⟨0, 1⟩ ∧
    (spoiled 2).compileLayer ⟨0, 1⟩ s.workspace = .error failure w' ∧
    s.workspace.engine.trainableWeights = [] ∧ w'.engine.trainableWeights = [⟨0, 2⟩] := by
  have hfails : (match (spoiled 1).compileLayer ⟨0, 0⟩ ⟨.ofEngine (.create 0 0), .create 0 0⟩ with
      | .ok _ w => match (spoiled 2).compileLayer ⟨0, 1⟩ w with
        | .ok _ _ => false
        | .error _ w' => w.context.isCompiled ⟨0, 0⟩ && w.engine.trainableWeights == [] &&
          w'.engine.trainableWeights == [⟨0, 2⟩]
      | .error _ _ => false) = true := by decide +kernel
  split at hfails
  · next x w hx =>
    split at hfails
    · cases hfails
    · next failure w' hfailed =>
      simp only [Bool.and_eq_true, beq_iff_eq] at hfails
      obtain ⟨⟨hcompiled, hbefore⟩, hafter⟩ := hfails
      -- the network grows by the input, which is compiled, and then by the dense layer
      have h₁ := Workshop.Reachable.start (.create 0 0)
      have h₂ := (h₁.grow (i := 0) (add_spoiled 0 (by decide))).compile (i := 0) hx
      have h₃ := h₂.grow (i := 0) (add_spoiled 1 (by decide))
      refine ⟨_, failure, w', h₃, rfl, fun ls hls => ?_, hfailed, hbefore, hafter⟩
      -- above the dense layer there is only the input
      cases (rfl : (spoiled 2).lineage ⟨0, 1⟩ = _).symm.trans hls
      simpa using hcompiled
  · cases hfails

/-- Not every layer that fails to compile registers no weights: one with a bad bias does. -/
theorem not_weightless :
    ¬ ∀ (s : Workshop) (i : Nat) (id : LayerId) (failure : Failure) (w' : Workspace),
      s.Reachable → (s.networks i).Prepared s.workspace.context id →
      (s.networks i).compileLayer id s.workspace = .error failure w' →
      w'.engine.trainableWeights = s.workspace.engine.trainableWeights := by
  intro h
  obtain ⟨s, failure, w', hs, hn, hprepared, hfailed, hbefore, hafter⟩ := exists_spoiled
  have hsame := h s 0 ⟨0, 1⟩ failure w' hs (hn ▸ hprepared) (hn ▸ hfailed)
  rw [hbefore, hafter] at hsame
  cases hsame

/-- The weights of the layer with a bad bias are what it leaves behind. -/
theorem spoiled_abandons : ∃ (w w' : Workspace) (failure : Failure), (spoiled 2).WellFed ∧
    w.engine.Sound ∧ (spoiled 2).Prepared w.context ⟨0, 1⟩ ∧
    (spoiled 2).compileLayer ⟨0, 1⟩ w = .error failure w' ∧
    (spoiled 2).Abandons w ⟨0, 1⟩ failure w' [⟨0, 2⟩] := by
  obtain ⟨s, failure, w', hs, hn, hprepared, hfailed, hbefore, hafter⟩ := exists_spoiled
  have hwell : (spoiled 2).WellFed := hn ▸ (hs.invariant.grown 0).1.wellFed
  have hsound := hs.invariant.chronicled.sound
  obtain ⟨ws, habandons⟩ := abandons_of_compileLayer hwell hsound hprepared hfailed
  obtain rfl : [⟨0, 2⟩] = ws := by
    have hweights := habandons.weights
    rwa [hbefore, hafter, List.nil_append] at hweights
  exact ⟨_, w', failure, hwell, hsound, hprepared, hfailed, habandons⟩

end Network
end TensorGraph
