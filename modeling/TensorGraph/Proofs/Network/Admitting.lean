import TensorGraph.Proofs.Engine.Creating
import TensorGraph.Proofs.Engine.Laying
import TensorGraph.Proofs.Model.Compiling
import TensorGraph.Proofs.Network.Abandoning
import TensorGraph.Proofs.Network.Naming

/-!
# Layers that can be compiled

Whether a layer can be compiled depends on the layer that feeds it, on its own parameters, and on
what its initializers sample. The latter depends on the place of the layer on the engine. Wherever
that is, the layer appends a fixed number of nodes under names of its own.

## Main definitions

* `Network.Admits`: a layer can be compiled at a place.

## Main results

* `Dense.makes_of_compile`: what compiling a dense layer shows about its initializers.
* `Dense.exists_compile`: a dense layer over inputs of a known size is compiled.
-/

namespace TensorGraph

open Engine

/-- The number of nodes that a layer becomes. -/
def Layer.nodeCount : Layer → Nat
  | .dense _ _ => 7
  | .input _ | .dropout _ _ => 1

/-- A layer can be compiled where streams without seeds are derived from the given number. The bias
of a dense layer comes two nodes after its weights. -/
inductive Network.Admits (n : Network) (key : UInt64) : Layer → Prop
  | input {i : Input} (dims : i.dims ≠ []) (held : i.shape.Held) : Admits n key (.input i)
  | dense {d : Dense} {feeder : LayerId} {rows size : Int} (fed : n.shape feeder = .ok [rows, size])
      (positive : 0 < size) (width : 0 < d.width)
      (weights : (d.weightsInitializer.getD .standard).Makes [size, d.width] key)
      (bias : (d.biasInitializer.getD .standard).Makes [d.width] (key + 2)) :
      Admits n key (.dense d feeder)
  | dropout {d : Dropout} {feeder : LayerId} : Admits n key (.dropout d feeder)

variable {n : Network} {e e' : Engine} {name : String} {b : Blueprint} {input : Node}
  {feeder : LayerId}

/-! ## One layer -/

/-- A dense layer gives names to its parameters and to its output. -/
theorem NamedLayer.labels_dense (name : String) (d : Dense) (feeder : LayerId) :
    labels ⟨name, .dense d feeder⟩ = [name ++ "/weights", name ++ "/bias", name] := by
  simp [labels, Layer.endings]

theorem NamedLayer.labels_input (name : String) (i : Input) :
    labels ⟨name, .input i⟩ = [name] := by
  simp [labels, Layer.endings]

theorem NamedLayer.labels_dropout (name : String) (d : Dropout) (feeder : LayerId) :
    labels ⟨name, .dropout d feeder⟩ = [name] := by
  simp [labels, Layer.endings]

namespace Input

variable {i : Input}

/-- An input layer lays down its placeholder, unless there is one. -/
theorem lays_compile (hfree : e.graph.find? name = none) (h : i.compile name e = .ok b e') :
    Lays 1 [name] e e' := by
  have hleads : Leads (i.compile name) e (fun _ => True) fun _ e' => Lays 1 [name] e e' := by
    unfold Input.compile
    refine leads_unless trivial fun _ => leads_bind_iff.2
      ((leads_placeholder name i.shape).imp (fun _ _ => trivial) ?_)
    rintro output e' (⟨-, slot, n, -, hfind, -⟩ | ⟨n, ⟨-, -, hname⟩, happended⟩)
    · cases hfree.symm.trans hfind
    · exact happended.lays hname
  exact hleads.of_eq_ok h

/-- An input layer with sizes compiles under a name that is free. -/
theorem exists_compile (hactive : e.session.isSome) (hdims : i.dims ≠ []) (hheld : i.shape.Held)
    (hfree : e.graph.find? name = none) : ∃ b e', i.compile name e = .ok b e' := by
  unfold Input.compile
  exact ⟨_, _, (unless_apply (by simpa using hdims)).trans
    (bind_of_ok (placeholder_eq hactive hheld hfree))⟩

end Input

namespace Dropout

variable {d : Dropout} {n : GraphNode}

/-- A dropout layer lays down one node under its name. -/
theorem laying_compile : Laying 1 [name] (d.compile name input) :=
  (Appends.laying (fun _ => appends_dropout input d.rate d.seed) fun _ _ h => h.2).bind fun _ =>
    laying_pure _

/-- A dropout layer compiles on floating-point elements under a name that is free. -/
theorem exists_compile (hactive : e.session.isSome) (hn : e.graph.Holds input n)
    (htype : n.type = .f32) (hfree : e.graph.find? name = none) :
    ∃ b e', d.compile name input e = .ok b e' :=
  ⟨_, _, bind_of_ok (dropout_eq hactive (free_some_iff.2 hfree) d.rate_mem hn htype)⟩

end Dropout

namespace Dense

variable {d : Dense} {fed : DeclaredShape} {size : Int}

/-- A dense layer over inputs of a known size creates its variables and connects them. -/
theorem compile_eq (hlast : fed.getLast? = some size) (hpos : 0 < size) :
    d.compile name input fed = (do
      let weights ← Engine.weights [size, d.width] (d.weightsInitializer.getD .standard)
        (name ++ "/weights")
      let bias ← Engine.weights [d.width] (d.biasInitializer.getD .standard) (name ++ "/bias")
      d.connect name input weights bias) := by
  simp only [compile, hlast, if_pos hpos, pure_bind]
  rfl

/-- Connecting the parameters of a dense layer lays down three nodes. -/
theorem laying_connect (weights bias : Node) :
    Laying 3 [name] (d.connect name input weights bias) :=
  (Appends.laying (fun _ => appends_dot input weights) fun _ _ h => h.2).bind fun projected =>
    (Appends.laying (fun _ => appends_biasAdd projected bias) fun _ _ h => h.2).bind fun shifted =>
    (Appends.laying (fun _ => appends_unary d.resolvedActivation.op shifted)
      fun _ _ h => h.2).bind fun _ =>
    (keeps_initializer weights).laying.bind fun _ =>
    (keeps_initializer bias).laying.bind fun _ => laying_pure _

/-- A dense layer lays down seven nodes, three of them under names. -/
theorem laying_compile :
    Laying 7 [name ++ "/weights", name ++ "/bias", name] (d.compile name input fed) := by
  have hbuild : ∀ size, fed.getLast? = some size → 0 < size →
      Laying 7 [name ++ "/weights", name ++ "/bias", name] (d.compile name input fed) := by
    intro size hlast hpos
    rw [compile_eq hlast hpos]
    exact (laying_createVariable _ _ _ _).bind fun weights =>
      (laying_createVariable _ _ _ _).bind fun bias => laying_connect weights bias
  -- a layer is refused before it has laid anything when the last axis is not known
  unfold Dense.compile at hbuild ⊢
  split
  · next size hlast =>
    split
    · next hpos => simpa [hlast, hpos] using hbuild size hlast hpos
    · exact fun _ => leads_refuse trivial
  · exact fun _ => leads_refuse trivial

/-- What connects the variables of a dense layer. -/
theorem exists_connect {weights bias : Node} {rows : Int} {op : Op} {nodeName : Option String}
    {init init' : Nat} {weightsName biasName : Option String} (hactive : e.session.isSome)
    (hinput : e.graph.Holds input ⟨op, [rows, size], .f32, nodeName⟩)
    (hweights : e.graph.Holds weights
      ⟨.variable true (some init), [size, d.width], .f32, weightsName⟩)
    (hbias : e.graph.Holds bias ⟨.variable true (some init'), [d.width], .f32, biasName⟩)
    (hfree : e.graph.find? name = none) :
    ∃ b e', d.connect name input weights bias e = .ok b e' := by
  have hproduct := dot_eq hactive e.free_none hinput hweights (DeclaredShape.axesAgree_self _)
  let e₁ := e.push ⟨.dot input.index weights.index, [rows, d.width], .f32, none⟩
  have h₁ : e.Unnamed e₁ := unnamed_push rfl
  have hsum := biasAdd_eq (e := e₁) hactive e₁.free_none (e.graph.holds_push _)
    (hbias.extend h₁.grown) (DeclaredShape.axesAgree_self _)
  let e₂ := e₁.push ⟨.biasAdd e.graph.size bias.index, [rows, d.width], .f32, none⟩
  have h₂ : e.Unnamed e₂ := h₁.push rfl
  have houtput := unary_eq (e := e₂) hactive (h₂.free (free_some_iff.2 hfree))
    d.resolvedActivation.op (e₁.graph.holds_push _) rfl
  let e₃ := e₂.push ⟨.unary d.resolvedActivation.op e₁.graph.size, [rows, d.width], .f32,
    some name⟩
  have h₃ : e.graph.Extends e₃.graph := h₂.grown.trans (Graph.extends_push _ _)
  -- product, sum and activation are appended; the two reads of initializers append nothing
  exact ⟨_, _, (bind_of_ok hproduct).trans ((bind_of_ok hsum).trans ((bind_of_ok houtput).trans
    ((bind_of_ok (initializer_eq (e := e₃) hactive (hweights.extend h₃) rfl)).trans
      (bind_of_ok (initializer_eq (e := e₃) hactive (hbias.extend h₃) rfl)))))⟩

variable {entropy : UInt64} {rows : Int} {op : Op} {nodeName : Option String}

/-- The slot of the bias. -/
theorem key_of_bias {e₁ : Engine} {names : List String} (h : Lays 2 names e e₁) :
    entropy + .ofNat e₁.graph.size = entropy + .ofNat e.graph.size + 2 := by
  rw [h.size, UInt64.ofNat_add, UInt64.add_assoc]
  rfl

/-- What compiling a dense layer shows about its initializers. -/
theorem makes_of_compile (he : e.Initialized)
    (hentropy : e.session.map (·.entropy) = some entropy) (hpos : 0 < size)
    (h : d.compile name input [rows, size] e = .ok b e') :
    0 < d.width ∧
      (d.weightsInitializer.getD .standard).Makes [size, d.width]
        (entropy + .ofNat e.graph.size) ∧
      (d.biasInitializer.getD .standard).Makes [d.width]
        (entropy + .ofNat e.graph.size + 2) := by
  rw [compile_eq rfl hpos] at h
  obtain ⟨weights, e₁, hweights, h⟩ := bind_eq_ok_iff.1 h
  obtain ⟨bias, e₂, hbias, -⟩ := bind_eq_ok_iff.1 h
  have hlays := (laying_createVariable _ _ _ _).of_eq_ok hweights
  have he₁ : e₁.Initialized := buildable_initialized.createVariable _ _ _ true _ _ _ he hweights
  obtain ⟨-, hmakes⟩ := makes_of_createVariable he hentropy hweights
  -- the bias is drawn with the key of its place, which follows the node and the initializer of the
  -- weights
  obtain ⟨hclosed, hmakes'⟩ := makes_of_createVariable he₁ (hlays.entropy.trans hentropy) hbias
  exact ⟨hclosed.pos _ List.mem_cons_self, hmakes, key_of_bias hlays ▸ hmakes'⟩

/-- A dense layer compiles if its names are free and its initializers make first values. -/
theorem exists_compile (he : e.Initialized)
    (hentropy : e.session.map (·.entropy) = some entropy) (hpos : 0 < size) (hwidth : 0 < d.width)
    (hinput : e.graph.Holds input ⟨op, [rows, size], .f32, nodeName⟩)
    (hweights : (d.weightsInitializer.getD .standard).Makes [size, d.width]
      (entropy + .ofNat e.graph.size))
    (hbias : (d.biasInitializer.getD .standard).Makes [d.width]
      (entropy + .ofNat e.graph.size + 2))
    (hfree : ∀ label ∈ [name ++ "/weights", name ++ "/bias", name], e.graph.find? label = none) :
    ∃ b e', d.compile name input [rows, size] e = .ok b e' := by
  have hclosed : DeclaredShape.Closed [size, d.width] := ⟨by simp, by simp [hpos, hwidth]⟩
  have hclosed' : DeclaredShape.Closed [d.width] := ⟨by simp, by simp [hwidth]⟩
  have hne : name ++ "/weights" ≠ name := by simp
  have hne' : name ++ "/bias" ≠ name := by simp
  -- the weights
  obtain ⟨weights, e₁, hcreate⟩ := exists_createVariable true he hentropy hclosed
    (hfree (name ++ "/weights") (by simp)) hweights
  have hlays := (laying_createVariable _ _ _ _).of_eq_ok hcreate
  have he₁ : e₁.Initialized := buildable_initialized.createVariable _ _ _ true _ _ _ he hcreate
  obtain ⟨_, _, _, _, _, -, hmade⟩ := (leads_createVariable _ _ _ _).of_eq_ok hcreate
  -- the bias
  obtain ⟨bias, e₂, hcreate'⟩ := exists_createVariable true he₁
    (hlays.entropy.trans hentropy) hclosed' (hlays.free _ (by simp)
      (hfree (name ++ "/bias") (by simp))) (key_of_bias hlays ▸ hbias)
  have hlays' := (laying_createVariable _ _ _ _).of_eq_ok hcreate'
  obtain ⟨_, _, _, _, _, -, hmade'⟩ := (leads_createVariable _ _ _ _).of_eq_ok hcreate'
  have hg : e.graph.Extends e₁.graph := (hmade.changes he.sound).extends
  have hg' : e₁.graph.Extends e₂.graph := (hmade'.changes he₁.sound).extends
  have hactive : e₂.session.isSome := by rw [hmade'.session]; rfl
  obtain ⟨b, e', hconnect⟩ := exists_connect (d := d) hactive (hinput.extend (hg.trans hg'))
    (hmade.holds.extend hg') hmade'.holds (hlays'.free name (by simpa using hne'.symm)
      (hlays.free name (by simpa using hne.symm) (hfree name (by simp))))
  rw [compile_eq rfl hpos]
  exact ⟨b, e', (bind_of_ok hcreate).trans ((bind_of_ok hcreate').trans hconnect)⟩

end Dense
end TensorGraph
