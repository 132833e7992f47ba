import TensorGraph.Proofs.Engine.Renaming
import TensorGraph.Proofs.Network.Chronicle

/-!
# Compiling layers once more

Layers that have been compiled on an engine can be compiled there again in a new context. An input
layer gets its placeholder back. A dense layer or a dropout asks for a name that is in use and is
refused before anything has been appended. So compiling again either gives back what there is, or
fails for such a name, and makes nothing but records.

## Main definitions

* `Network.Retracing`: a workspace in which layers are compiled again.
* `Network.Retraces`: an outcome of compiling again.

## Main results

* `Network.retraces_compileWithin`: compiling a layer again.
-/

namespace TensorGraph

open Engine

variable {e : Engine} {shape : DeclaredShape} {name : String}

namespace Engine

/-! ## Asking for what there is -/

/-- Asking for a placeholder that there is gives it back. -/
theorem placeholder_eq_of_holds {handle : Node} (hsound : e.Sound) (hactive : e.session.isSome)
    (h : e.graph.Holds handle ⟨.placeholder, shape, .f32, some name⟩) :
    placeholder name shape e = .ok handle e := by
  have hfind : e.graph.find? name = some handle.index :=
    hsound.indexed.find?_eq_some_iff.2 ⟨_, h.2, rfl⟩
  have hhandle : e.graph.handle handle.index = handle := by rw [Graph.handle, ← h.1]
  have hshape : shape.Held := hsound.typed.held h.2
  unfold placeholder
  rw [bind_of_ok (checkActive_eq hactive), bind_of_ok (checkShape_of_held hshape),
    bind_of_ok (rfl : currentGraph e = .ok e.graph e), hfind]
  simp [h.2, Op.isPlaceholder, hhandle]

/-- A node is not appended under a name in use. -/
theorem register_of_taken {n : GraphNode} {slot : Nat} (hactive : e.session.isSome)
    (hfind : e.graph.find? name = some slot) :
    register n (some name) e = .error (.error (.duplicateName name)) e := by
  unfold register
  rw [bind_of_ok (checkActive_eq hactive)]
  exact bind_of_error (checkFresh_of_some hfind)

/-- A variable under a name in use is refused before its initializer is appended. -/
theorem weights_of_taken {initializer : Initializer} {slot : Nat} (hactive : e.session.isSome)
    (hshape : shape.Closed) (hfind : e.graph.find? name = some slot) :
    weights shape initializer name e = .error (.error (.duplicateName name)) e := by
  unfold weights createVariable
  rw [bind_of_ok (checkActive_eq hactive), bind_of_ok (checkShape_of_closed hshape)]
  exact bind_of_error (checkFresh_of_some hfind)

end Engine

/-! ## Layers that are there -/

section Layers

variable {b : Blueprint} {fed : Option (Node × DeclaredShape)} (hsound : e.Sound)
  (hactive : e.session.isSome)
include hsound hactive

/-- An input layer becomes the placeholder that it has become before. -/
theorem Input.compile_of_realizes {i : Input} (h : b.Realizes e.graph name (.input i) fed) :
    i.compile name e = .ok b e := by
  cases h with
  | input dims holds =>
    unfold Input.compile
    rw [if_neg (by simpa using dims)]
    exact bind_of_ok (placeholder_eq_of_holds hsound hactive holds)

/-- The name of the weights of a dense layer is in use. -/
theorem Dense.compile_of_realizes {d : Dense} {feeder : LayerId} {input : Node}
    {shape : DeclaredShape}
    (h : b.Realizes e.graph name (.dense d feeder) (some (input, shape))) :
    d.compile name input shape e = .error (.error (.duplicateName (name ++ "/weights"))) e := by
  cases h with
  | @dense _ _ rows size init init' _ weights bias projected shifted output _ positive ofWeights =>
    have hfind : e.graph.find? (name ++ "/weights") = some weights.index :=
      hsound.indexed.find?_eq_some_iff.2 ⟨_, ofWeights.2, rfl⟩
    have hclosed : DeclaredShape.Closed [size, d.width] :=
      hsound.typed.closed_of_isVariable ofWeights.2 rfl
    -- the size is still known and positive, so the first variable is asked for
    unfold Dense.compile
    have hlast : List.getLast? [rows, size] = some size := rfl
    simp only [hlast, if_pos positive, pure_bind]
    exact bind_of_error (weights_of_taken hactive hclosed hfind)

/-- The name of a dropout is in use. -/
theorem Dropout.compile_of_realizes {d : Dropout} {feeder : LayerId} {input : Node}
    {shape : DeclaredShape} {op : Op} {inputName : Option String}
    (hinput : e.graph.Holds input ⟨op, shape, .f32, inputName⟩)
    (h : b.Realizes e.graph name (.dropout d feeder) (some (input, shape))) :
    d.compile name input e = .error (.error (.duplicateName name)) e := by
  cases h with
  | @dropout _ _ _ output _ holds =>
    have hfind : e.graph.find? name = some output.index :=
      hsound.indexed.find?_eq_some_iff.2 ⟨_, holds.2, rfl⟩
    have hrate : (decide (0 ≤ d.rate) && decide (d.rate < 1)) = true := by
      simpa using d.rate_mem
    have hfloat : expectFloat "DROPOUT" input.index ⟨op, shape, .f32, inputName⟩ e = .ok () e := rfl
    -- all checks of the operation pass, and registering the node is what is refused
    unfold Dropout.compile Engine.dropout
    refine bind_of_error ?_
    rw [hrate]
    refine (bind_of_ok hinput.located.locate_eq).trans ?_
    refine (bind_of_ok hfloat).trans ?_
    exact register_of_taken hactive hfind

end Layers

/-! ## Compiling again -/

namespace Network

open Compiling

variable {n : Network} {made : List (LayerId × Blueprint)} {w : Workspace} {α β : Type}
  {P : α → Prop} {Q : β → Prop}

/-- A workspace in which layers are compiled again: nothing but records has been made on the engine,
and the context remembers layers as what they became before. -/
structure Retracing (made : List (LayerId × Blueprint)) (e : Engine) (w : Workspace) : Prop where
  reported : Reported e w.engine
  context : w.context.engine = e.graph.id
  remembered : w.context.blueprints ⊆ made

/-- Either a value of a kind is given, or a name is in use; only records are made. -/
inductive Retraces (made : List (LayerId × Blueprint)) (e : Engine) (P : α → Prop) :
    EStateM.Result Failure Workspace α → Prop
  | given {a : α} {w : Workspace} (value : P a) (workspace : Retracing made e w) :
      Retraces made e P (.ok a w)
  | refused {f : Failure} {w : Workspace} (taken : f.NameTaken) (reported : Reported e w.engine) :
      Retraces made e P (.error f w)

namespace Retraces

theorem bind {c : Compiling α} {f : α → Compiling β} (hc : Retraces made e P (c w))
    (hf : ∀ a w', P a → Retracing made e w' → Retraces made e Q (f a w')) :
    Retraces made e Q ((c >>= f) w) := by
  generalize hr : c w = r at hc
  cases hc with
  | given value workspace =>
    rw [bind_of_ok hr]
    exact hf _ _ value workspace
  | refused taken reported =>
    rw [bind_of_error hr]
    exact .refused taken reported

theorem get_bind {f : Workspace → Compiling β} (hf : Retraces made e Q (f w w)) :
    Retraces made e Q ((get >>= f) w) := hf

end Retraces

namespace Retracing

variable (hw : Retracing made e w)
include hw

/-- Records change neither the graph nor the session. -/
theorem unchanged : w.engine.graph = e.graph ∧ w.engine.session = e.session :=
  ⟨hw.reported.graph_eq, hw.reported.session_eq⟩

/-- A call that gives a value and makes only records. -/
theorem onEngine_of_ok {call : Call α} {a : α} {e' : Engine} (h : call w.engine = .ok a e')
    (hreported : Reported w.engine e') (ha : P a) : Retraces made e P (onEngine call w) := by
  rw [onEngine, h]
  exact .given ha ⟨hw.reported.trans hreported, hw.context, hw.remembered⟩

/-- A call that asks for a name in use. -/
theorem onEngine_of_taken {call : Call α} {s : String}
    (h : call w.engine = .error (.error (.duplicateName s)) w.engine) :
    Retraces made e (fun _ => False) (onEngine call w) := by
  rw [onEngine, h]
  exact .refused ⟨s, rfl⟩ hw.reported

/-- What follows once a layer has been found again. -/
theorem remember {id : LayerId} {b : Blueprint} (hmem : (id, b) ∈ made) (r : Record) :
    Retraces made e (· = b.output)
      ((do
        onEngine (report r)
        modify fun w => { w with context.blueprints := w.context.blueprints ++ [(id, b)] }
        return b.output : Compiling Node) w) := by
  have hreport : report r w.engine = .ok () _ := rfl
  refine (hw.onEngine_of_ok (P := fun _ => True) hreport (reported_report r) trivial).bind
    fun _ w' _ hw' => ?_
  refine .given rfl ⟨hw'.reported, hw'.context, ?_⟩
  exact List.append_subset.2 ⟨hw'.remembered, by simpa using hmem⟩

end Retracing

/-- A layer that has been compiled before is found again, or a name that it asks for is in use. -/
theorem retraces_compileWithin (hfed : n.WellFed) (hsound : e.Sound)
    (hactive : e.session.isSome) (hchronicle : Chronicle (fun _ => n) e.graph made) {depth : Nat}
    {id : LayerId} {b : Blueprint} (hdepth : id.index < depth) (hmem : (id, b) ∈ made)
    (hw : Retracing made e w) : Retraces made e (· = b.output) (n.compileWithin depth id w) := by
  induction depth generalizing id b w with
  | zero => cases hdepth
  | succ depth ih =>
    obtain ⟨⟨name, l⟩, hnamed, fed, hfeeds, hrealizes⟩ := hchronicle.exists_layer hmem
    have hlayer : n.layer id = .ok ⟨name, l⟩ := layer_eq_ok_iff.2 hnamed
    have hown : ¬w.engine.graph.id ≠ w.context.engine := by
      rw [hw.context, hw.reported.graph_eq]
      exact not_not.2 rfl
    unfold compileWithin
    refine .get_bind (.get_bind ?_)
    rw [if_neg hown]
    refine .get_bind ?_
    cases hb : w.context.blueprint? id with
    | some b' =>
      -- what the context remembers is what the layer became before
      have hmem' : (id, b') ∈ made := hw.remembered (Chronicle.mem_of_lookup hb)
      obtain rfl : b = b' :=
        Option.some.inj ((hchronicle.lookup_eq hmem).symm.trans (hchronicle.lookup_eq hmem'))
      exact .given rfl hw
    | none =>
      rw [hlayer]
      refine Retraces.bind (P := (· = ⟨name, l⟩)) (.given rfl hw) ?_
      rintro _ w₁ rfl hw₁
      cases hfeeds with
      | nothing source =>
        cases l with
        | input i =>
          obtain ⟨hgraph, hsession⟩ := hw₁.unchanged
          have hagain : i.compile name w₁.engine = .ok b w₁.engine :=
            Input.compile_of_realizes (hw₁.reported.changes.sound hsound) (hsession ▸ hactive)
              (hgraph ▸ hrealizes)
          refine (hw₁.onEngine_of_ok (P := (· = b)) hagain .refl rfl).bind ?_
          rintro _ w₂ rfl hw₂
          exact hw₂.remember hmem _
        | dense | dropout => cases source
      | @layer feeder b' shape fedBy earlier hshape =>
        have hlt : feeder.index < depth :=
          Nat.lt_of_lt_of_le (hfed.earlier hnamed fedBy).1 (Nat.le_of_lt_succ hdepth)
        cases l with
        | input i => cases fedBy
        | dense d feeder =>
          cases fedBy
          refine (ih hlt earlier hw₁).bind ?_
          rintro _ w₂ rfl hw₂
          rw [hshape]
          refine Retraces.bind (P := (· = shape)) (.given rfl hw₂) ?_
          rintro shape w₃ rfl hw₃
          obtain ⟨hgraph, hsession⟩ := hw₃.unchanged
          have htaken : d.compile name b'.output shape w₃.engine = _ :=
            Dense.compile_of_realizes (hw₃.reported.changes.sound hsound) (hsession ▸ hactive)
              (hgraph ▸ hrealizes)
          exact (hw₃.onEngine_of_taken htaken).bind fun _ w₄ hfalse _ => hfalse.elim
        | dropout d feeder =>
          cases fedBy
          refine (ih hlt earlier hw₁).bind ?_
          rintro _ w₂ rfl hw₂
          obtain ⟨hgraph, hsession⟩ := hw₂.unchanged
          obtain ⟨shape', op, inputName, hshape', hholds⟩ :=
            hchronicle.exists_holds (fun _ => hfed) earlier
          obtain rfl := Except.ok.inj (hshape.symm.trans hshape')
          have htaken : d.compile name b'.output w₂.engine = _ :=
            Dropout.compile_of_realizes (hw₂.reported.changes.sound hsound) (hsession ▸ hactive)
              (hgraph ▸ hholds) (hgraph ▸ hrealizes)
          exact (hw₂.onEngine_of_taken htaken).bind fun _ w₃ hfalse _ => hfalse.elim

end Network
end TensorGraph
