import TensorGraph.Proofs.Model.Reaching
import TensorGraph.Proofs.Network.Lineage

/-!
# Chronicles of compiling

A context lists what became of the layers that were compiled through it, in the order in which they
were compiled. Such a list is a chronicle: a layer comes after the layer that feeds it, no layer
comes twice, and every layer became the nodes that its kind asks for, declared with the shape that
the network declares for it.

## Main definitions

* `Blueprint.Realizes`: the nodes that a layer becomes.
* `Chronicle`: the lists of compiled layers.
* `Engine.Advances`: an engine with further nodes, of which some are trained.

## Main results

* `Chronicle.exists_holds`: the node of a layer has the shape of the layer.
* `Network.adds_compileWithin`: what compiling a layer adds.
-/

namespace TensorGraph

open Engine

variable {e e' e'' : Engine} {g g' : Graph} {n : GraphNode} {handle : Node}

namespace Engine

/-- An engine after changes that leave its session alive and append the given trained variables. -/
structure Advances (e : Engine) (weights : List Node) (e' : Engine) : Prop where
  changes : Changes e e'
  active : e'.session.isSome
  weights : e'.trainableWeights = e.trainableWeights ++ weights

/-- Variables are appended in the order of the changes. -/
theorem Advances.trans {ws ws' : List Node} (h : Advances e ws e') (h' : Advances e' ws' e'') :
    Advances e (ws ++ ws') e'' where
  changes := h.changes.trans h'.changes
  active := h'.active
  weights := by rw [h'.weights, h.weights, List.append_assoc]

/-- Doing nothing appends no variables. -/
theorem advances_of_active (h : e.session.isSome) : Advances e [] e :=
  ⟨.refl, h, (List.append_nil _).symm⟩

/-- A record appends no variables. -/
theorem Reported.advances (h : Reported e e') (hactive : e.session.isSome) : Advances e [] e' := by
  obtain ⟨records, rfl⟩ := h
  exact ⟨.single (.report records), hactive, (List.append_nil _).symm⟩

/-- A node that was appended is in the slot that its handle names. -/
theorem Appended.holds (h : Appended e n handle e') : e'.graph.Holds handle n := by
  refine ⟨?_, h.getElem?⟩
  rw [h.handle, h.engine]
  rfl

/-- A node that is not a variable appends no variables. -/
theorem Appended.advances (h : Appended e n handle e') : Advances e [] e' where
  changes := .single h.change
  active := by
    obtain rfl := h.engine
    exact h.active
  weights := by
    rw [trainableWeights, h.trainable, h.engine, List.append_nil]
    rfl

section Created

variable {made : GraphNode} {init : Node} {e₁ : Engine} {s : Session} {ev : Evaluation Float32}

/-- A variable that was created is in the slot that its handle names. -/
theorem Created.holds (h : Created e n made init e₁ s ev handle e') : e'.graph.Holds handle n := by
  refine ⟨?_, h.getElem?⟩
  rw [h.graph, h.handle, Graph.id_declare]
  rfl

/-- A trained variable that was created is appended to the others. -/
theorem Created.advances (h : Created e n made init e₁ s ev handle e') (hsound : e.Sound)
    (hn : n.op.isTrainable) : Advances e [handle] e' where
  changes := h.changes hsound
  active := by rw [h.session]; rfl
  weights := by
    have hhandle : e'.graph.handle = e.graph.handle := by
      funext slot
      rw [Graph.handle, h.graph, Graph.id_declare, h.appended.engine]
      rfl
    rw [trainableWeights, hhandle, h.graph, Graph.trainable_declare, if_pos hn,
      h.appended.trainable, List.map_append, h.handle, h.appended.engine]
    rfl

end Created

/-- A call that first asks for a live session gives a value on a live engine only. -/
theorem isSome_of_checkActive {α : Type} {f : Unit → Call α} {a : α}
    (h : (checkActive >>= f) e = .ok a e') : e.session.isSome := by
  obtain ⟨_, _, hcheck, -⟩ := bind_eq_ok_iff.1 h
  have hleads : Leads (checkActive >>= pure) e (fun _ => True) fun _ _ => e.session.isSome :=
    leads_checkActive trivial fun hactive => hactive
  rw [bind_pure] at hleads
  exact hleads.of_eq_ok hcheck

/-- A placeholder has its name and its shape, whether it is a new one or not. -/
theorem leads_placeholder_holds (hsound : e.Sound) (name : String) (shape : DeclaredShape) :
    Leads (placeholder name shape) e (fun _ => True) fun handle e' =>
      Advances e [] e' ∧ e'.graph.Holds handle ⟨.placeholder, shape, .f32, some name⟩ := by
  refine leads_of_ok fun handle e' h => ?_
  have hactive := isSome_of_checkActive h
  rcases (leads_placeholder name shape).of_eq_ok h with
    ⟨rfl, slot, ⟨op, shape, type, nodeName⟩, rfl, hfind, hn, hop, rfl⟩ |
      ⟨⟨op, shape, type, nodeName⟩, ⟨rfl, rfl, rfl⟩, happended⟩
  · -- the placeholder that there is has the name, and placeholders are of numbers
    obtain ⟨m, hm, hname⟩ := hsound.indexed.find?_eq_some_iff.1 hfind
    obtain rfl := Option.some.inj (hn.symm.trans hm)
    obtain rfl : nodeName = some name := hname
    have htyped := hsound.typed.node hn
    cases htyped <;> cases hop
    exact ⟨advances_of_active hactive, rfl, hn⟩
  · have htyped := happended.typed
    cases htyped
    exact ⟨happended.advances, happended.holds⟩

section Operands

variable {input left right : Node} {l r : GraphNode} {name : Option String}

/-- A product that is accepted has two matrices for factors. -/
theorem leads_dot_holds (hl : e.graph.Holds left l) (hr : e.graph.Holds right r) :
    Leads (dot left right name) e (fun _ => True) fun handle e' => Advances e [] e' ∧
      ∃ rows inner inner' cols, l.shape = [rows, inner] ∧ r.shape = [inner', cols] ∧
        e'.graph.Holds handle ⟨.dot left.index right.index, [rows, cols], .f32, name⟩ := by
  refine Leads.imp (appends_dot left right) (fun _ _ => trivial) ?_
  rintro handle e' ⟨⟨op, shape, type, nodeName⟩, ⟨rfl, rfl⟩, happended⟩
  cases happended.typed with
  | dot foundLeft foundRight _ _ leftShape rightShape _ =>
    obtain rfl := Option.some.inj ((Graph.before_size hl.2).symm.trans foundLeft)
    obtain rfl := Option.some.inj ((Graph.before_size hr.2).symm.trans foundRight)
    exact ⟨happended.advances, _, _, _, _, leftShape, rightShape, happended.holds⟩

/-- A sum with a bias has the shape of its input. -/
theorem leads_biasAdd_holds (bias : Node) (hn : e.graph.Holds input n) :
    Leads (biasAdd input bias name) e (fun _ => True) fun handle e' => Advances e [] e' ∧
      e'.graph.Holds handle ⟨.biasAdd input.index bias.index, n.shape, .f32, name⟩ := by
  refine Leads.imp (appends_biasAdd input bias) (fun _ _ => trivial) ?_
  rintro handle e' ⟨⟨op, shape, type, nodeName⟩, ⟨rfl, rfl⟩, happended⟩
  cases happended.typed with
  | biasAdd found _ _ _ _ _ _ =>
    obtain rfl := Option.some.inj ((Graph.before_size hn.2).symm.trans found)
    exact ⟨happended.advances, happended.holds⟩

/-- A function of one argument has the shape of its argument. -/
theorem leads_unary_holds (op : UnaryOp) (hn : e.graph.Holds input n) :
    Leads (unary op input name) e (fun _ => True) fun handle e' => Advances e [] e' ∧
      e'.graph.Holds handle ⟨.unary op input.index, n.shape, n.type, name⟩ := by
  refine Leads.imp (appends_unary op input) (fun _ _ => trivial) ?_
  rintro handle e' ⟨⟨_, shape, type, nodeName⟩, ⟨rfl, rfl⟩, happended⟩
  cases happended.typed with
  | unary found _ =>
    obtain rfl := Option.some.inj ((Graph.before_size hn.2).symm.trans found)
    exact ⟨happended.advances, happended.holds⟩

/-- A dropout has the shape of its input. -/
theorem leads_dropout_holds (rate : Float32) (seed : Option UInt64) (hn : e.graph.Holds input n) :
    Leads (dropout input rate seed name) e (fun _ => True) fun handle e' => Advances e [] e' ∧
      e'.graph.Holds handle ⟨.dropout input.index rate seed, n.shape, .f32, name⟩ := by
  refine Leads.imp (appends_dropout input rate seed) (fun _ _ => trivial) ?_
  rintro handle e' ⟨⟨op, shape, type, nodeName⟩, ⟨rfl, rfl⟩, happended⟩
  cases happended.typed with
  | dropout found _ =>
    obtain rfl := Option.some.inj ((Graph.before_size hn.2).symm.trans found)
    exact ⟨happended.advances, happended.holds⟩

end Operands

end Engine

/-! ## What layers become -/

/-- The number of variables that a layer trains. -/
def Layer.parameterCount : Layer → Nat
  | .dense _ _ => 2
  | .input _ | .dropout _ _ => 0

/-- The nodes of a layer under its name, when it is fed by a node of a declared shape. -/
inductive Blueprint.Realizes (g : Graph) (name : String) :
    Blueprint → Layer → Option (Node × DeclaredShape) → Prop
  | input {i : Input} {output : Node} (dims : i.dims ≠ [])
      (holds : g.Holds output ⟨.placeholder, i.shape, .f32, some name⟩) :
      Realizes g name ⟨output, [], []⟩ (.input i) none
  | dense {d : Dense} {feeder : LayerId} {rows size : Int} {init init' : Nat}
      {input weights bias projected shifted output : Node} {initializers : List Node}
      (positive : 0 < size)
      (ofWeights : g.Holds weights
        ⟨.variable true (some init), [size, d.width], .f32, some (name ++ "/weights")⟩)
      (ofBias : g.Holds bias
        ⟨.variable true (some init'), [d.width], .f32, some (name ++ "/bias")⟩)
      (product : g.Holds projected
        ⟨.dot input.index weights.index, [rows, d.width], .f32, none⟩)
      (sum : g.Holds shifted
        ⟨.biasAdd projected.index bias.index, [rows, d.width], .f32, none⟩)
      (holds : g.Holds output
        ⟨.unary d.resolvedActivation.op shifted.index, [rows, d.width], .f32, some name⟩) :
      Realizes g name ⟨output, [weights, bias], initializers⟩ (.dense d feeder)
        (some (input, [rows, size]))
  | dropout {d : Dropout} {feeder : LayerId} {input output : Node} {fed : DeclaredShape}
      (holds : g.Holds output ⟨.dropout input.index d.rate d.seed, fed, .f32, some name⟩) :
      Realizes g name ⟨output, [], []⟩ (.dropout d feeder) (some (input, fed))

namespace Blueprint.Realizes

variable {b : Blueprint} {name : String} {l : Layer} {fed : Option (Node × DeclaredShape)}

/-- What a layer has become stays there as the graph grows. -/
theorem extend (h : b.Realizes g name l fed) (hg : g.Extends g') : b.Realizes g' name l fed := by
  cases h with
  | input dims holds => exact .input dims (holds.extend hg)
  | dense positive ofWeights ofBias product sum holds =>
    exact .dense positive (ofWeights.extend hg) (ofBias.extend hg) (product.extend hg)
      (sum.extend hg) (holds.extend hg)
  | dropout holds => exact .dropout (holds.extend hg)

/-- The node of the output is declared with the shape of the layer. -/
theorem exists_holds (h : b.Realizes g name l fed) :
    ∃ op, g.Holds b.output ⟨op, Network.layerShape l (fed.map (·.2)), .f32, some name⟩ := by
  cases h with
  | input _ holds => exact ⟨_, holds⟩
  | dense _ _ _ _ _ holds => exact ⟨_, holds⟩
  | dropout holds => exact ⟨_, holds⟩

/-- A layer has as many parameters as its kind tells. -/
theorem length_parameters (h : b.Realizes g name l fed) :
    b.parameters.length = l.parameterCount := by
  cases h <;> rfl

end Blueprint.Realizes

/-- An input layer becomes a placeholder without parameters. -/
theorem Input.leads_compile (hsound : e.Sound) (i : Input) (name : String) :
    Leads (i.compile name) e (fun _ => True) fun b e' =>
      Advances e b.parameters e' ∧ b.Realizes e'.graph name (.input i) none := by
  unfold Input.compile
  refine leads_unless trivial fun hdims => ?_
  refine leads_bind_iff.2 ((leads_placeholder_holds hsound name i.shape).mono ?_)
  rintro output e' ⟨hadvances, hholds⟩
  exact ⟨hadvances, .input (by simpa using hdims) hholds⟩

/-- A dropout layer becomes a dropout of the node that feeds it. -/
theorem Dropout.leads_compile (d : Dropout) (name : String) {feeder : LayerId} {input : Node}
    (hn : e.graph.Holds input n) :
    Leads (d.compile name input) e (fun _ => True) fun b e' =>
      Advances e b.parameters e' ∧
        b.Realizes e'.graph name (.dropout d feeder) (some (input, n.shape)) := by
  refine leads_bind_iff.2 ((leads_dropout_holds d.rate d.seed hn).mono ?_)
  rintro output e' ⟨hadvances, hholds⟩
  exact ⟨hadvances, .dropout hholds⟩

/-- A dense layer over a node, made for rows of a given shape. Its weights have a row for every
entry of the given rows, whether or not these are the rows of the node. -/
theorem Dense.leads_compile_over (hsound : e.Sound) (d : Dense) (name : String) (feeder : LayerId)
    {input : Node} (fed : DeclaredShape) (hn : e.graph.Holds input n) :
    Leads (d.compile name input fed) e (fun _ => True) fun b e' =>
      Advances e b.parameters e' ∧ ∃ rows inner size, n.shape = [rows, inner] ∧
        fed.getLast? = some size ∧
        b.Realizes e'.graph name (.dense d feeder) (some (input, [rows, size])) := by
  unfold Dense.compile
  extract_lets build
  have hbuild : ∀ size, fed.getLast? = some size → 0 < size →
      Leads (build size) e (fun _ => True) fun b e' =>
        Advances e b.parameters e' ∧ ∃ rows inner size, n.shape = [rows, inner] ∧
          fed.getLast? = some size ∧
          b.Realizes e'.graph name (.dense d feeder) (some (input, [rows, size])) := by
    intro size hlast hpos
    refine leads_bind_iff.2 ((leads_createVariable _ _ _ true).imp (fun _ _ => trivial) ?_)
    rintro weights e₁ ⟨made, init, _, s, ev, -, hweights⟩
    have h₁ := hweights.advances hsound rfl
    have hsound₁ := h₁.changes.sound hsound
    refine leads_bind_iff.2 ((leads_createVariable _ _ _ true).imp (fun _ _ => trivial) ?_)
    rintro bias e₂ ⟨made', init', _, s', ev', -, hbias⟩
    have h₂ := hbias.advances hsound₁ rfl
    have hn₂ := (hn.extend h₁.changes.extends).extend h₂.changes.extends
    have hw₂ := hweights.holds.extend h₂.changes.extends
    refine leads_bind_iff.2 ((leads_dot_holds hn₂ hw₂).mono ?_)
    rintro projected e₃ ⟨h₃, rows, inner, inner', cols, hshape, hsizes, hprojected⟩
    obtain ⟨rfl, rfl⟩ : size = inner' ∧ d.width = cols := by simpa using hsizes
    refine leads_bind_iff.2 ((leads_biasAdd_holds bias hprojected).mono ?_)
    rintro shifted e₄ ⟨h₄, hshifted⟩
    refine leads_bind_iff.2 ((leads_unary_holds d.resolvedActivation.op hshifted).mono ?_)
    rintro output e₅ ⟨h₅, houtput⟩
    -- what is still asked for changes nothing
    refine leads_bind_iff.2 ((keeps_initializer weights e₅).imp (fun _ _ => trivial) ?_)
    rintro ofWeights _ rfl
    refine leads_bind_iff.2 ((keeps_initializer bias e₅).imp (fun _ _ => trivial) ?_)
    rintro ofBias _ rfl
    have h₂₅ := ((h₃.trans h₄).trans h₅).changes.extends
    refine ⟨(((h₁.trans h₂).trans h₃).trans h₄).trans h₅, rows, inner, size, hshape, hlast, ?_⟩
    exact .dense hpos (hw₂.extend h₂₅) (hbias.holds.extend h₂₅)
      (hprojected.extend (h₄.trans h₅).changes.extends) (hshifted.extend h₅.changes.extends) houtput
  split
  · next size hlast =>
    split
    · next hpos => exact hbuild size hlast hpos
    · exact leads_refuse trivial
  · exact leads_refuse trivial

/-- A dense layer over a node with rows of a known size. -/
theorem Dense.leads_compile (hsound : e.Sound) (d : Dense) (name : String) {feeder : LayerId}
    {input : Node} (hn : e.graph.Holds input n) :
    Leads (d.compile name input n.shape) e (fun _ => True) fun b e' =>
      Advances e b.parameters e' ∧
        b.Realizes e'.graph name (.dense d feeder) (some (input, n.shape)) := by
  refine (d.leads_compile_over hsound name feeder n.shape hn).mono ?_
  rintro b e' ⟨hadvances, rows, inner, size, hshape, hlast, hrealizes⟩
  obtain rfl : inner = size := by simpa [hshape] using hlast
  exact ⟨hadvances, hshape ▸ hrealizes⟩

/-! ## Chronicles -/

/-- The node and the shape that feed a layer, as far as other layers have been compiled. -/
inductive Network.Feeds (n : Network) (made : List (LayerId × Blueprint)) (l : Layer) :
    Option (Node × DeclaredShape) → Prop
  | nothing (source : l.feeder? = none) : Feeds n made l none
  | layer {feeder : LayerId} {b : Blueprint} {fed : DeclaredShape}
      (fedBy : l.feeder? = some feeder) (earlier : (feeder, b) ∈ made)
      (shape : n.shape feeder = .ok fed) : Feeds n made l (some (b.output, fed))

/-- What feeds a layer does so whatever else is compiled. -/
theorem Network.Feeds.append {n : Network} {made : List (LayerId × Blueprint)} {l : Layer}
    {fed : Option (Node × DeclaredShape)} (h : n.Feeds made l fed)
    (added : List (LayerId × Blueprint)) : n.Feeds (made ++ added) l fed := by
  cases h with
  | nothing source => exact .nothing source
  | layer fedBy earlier shape => exact .layer fedBy (List.mem_append_left _ earlier) shape

/-- Layers of some networks in the order in which they were compiled, with the nodes of a graph that
they became. A layer comes after the layer that feeds it. -/
inductive Chronicle (networks : Nat → Network) (g : Graph) : List (LayerId × Blueprint) → Prop
  | nil : Chronicle networks g []
  | compiled {made : List (LayerId × Blueprint)} {id : LayerId} {b : Blueprint} {named : NamedLayer}
      {fed : Option (Node × DeclaredShape)} (earlier : Chronicle networks g made)
      (fresh : id ∉ made.map (·.1)) (layer : (networks id.graph).layer? id = some named)
      (feeds : (networks id.graph).Feeds made named.layer fed)
      (realizes : b.Realizes g named.name named.layer fed) :
      Chronicle networks g (made ++ [(id, b)])

namespace Chronicle

variable {networks networks' : Nat → Network} {made : List (LayerId × Blueprint)} {id : LayerId}
  {b : Blueprint}

/-- What has been compiled stays what it is when the graph and the networks grow. -/
theorem extend (h : Chronicle networks g made) (hn : ∀ i, (networks i).Extends (networks' i))
    (hg : g.Extends g') : Chronicle networks' g' made := by
  induction h with
  | nil => exact .nil
  | compiled _ fresh layer feeds realizes ih =>
    refine .compiled ih fresh ((hn _).layer layer) ?_ (realizes.extend hg)
    cases feeds with
    | nothing source => exact .nothing source
    | layer fedBy earlier shape => exact .layer fedBy earlier ((hn _).shape_eq shape)

/-- No layer is compiled twice. -/
theorem nodup (h : Chronicle networks g made) : (made.map (·.1)).Nodup := by
  induction h with
  | nil => exact List.nodup_nil
  | compiled _ fresh _ _ _ ih =>
    rw [List.map_append, List.nodup_append]
    refine ⟨ih, by simp, ?_⟩
    rintro id hid _ hnew rfl
    obtain rfl : id = _ := List.mem_singleton.1 hnew
    exact fresh hid

/-- The context finds what a layer became. -/
theorem lookup_eq (h : Chronicle networks g made) (hmem : (id, b) ∈ made) :
    made.lookup id = some b := by
  obtain ⟨before, after, rfl⟩ := List.append_of_mem hmem
  refine List.lookup_eq_some_iff.2 ⟨before, after, rfl, fun p hp => ?_⟩
  have hnodup := h.nodup
  rw [List.map_append, List.map_cons, List.nodup_append] at hnodup
  exact bne_iff_ne.2 fun heq =>
    hnodup.2.2 p.1 (List.mem_map_of_mem hp) id List.mem_cons_self heq.symm

/-- The nodes that are found for a layer are in the chronicle. -/
theorem mem_of_lookup (hlookup : made.lookup id = some b) : (id, b) ∈ made := by
  obtain ⟨before, after, rfl, -⟩ := List.lookup_eq_some_iff.1 hlookup
  simp

/-- A compiled layer is one of its network. -/
theorem exists_layer (h : Chronicle networks g made) (hmem : (id, b) ∈ made) :
    ∃ named, (networks id.graph).layer? id = some named ∧
      ∃ fed, (networks id.graph).Feeds made named.layer fed ∧
        b.Realizes g named.name named.layer fed := by
  induction h with
  | nil => cases hmem
  | compiled _ _ layer feeds realizes ih =>
    rcases List.mem_append.1 hmem with hold | hnew
    · obtain ⟨named, hnamed, fed, hfeeds, hrealizes⟩ := ih hold
      exact ⟨named, hnamed, fed, hfeeds.append _, hrealizes⟩
    · cases List.mem_singleton.1 hnew
      exact ⟨_, layer, _, feeds.append _, realizes⟩

/-- The node of a compiled layer is declared with the shape of the layer. -/
theorem exists_holds (h : Chronicle networks g made) (hfed : ∀ i, (networks i).WellFed)
    (hmem : (id, b) ∈ made) :
    ∃ shape op name, (networks id.graph).shape id = .ok shape ∧
      g.Holds b.output ⟨op, shape, .f32, name⟩ := by
  obtain ⟨named, hnamed, fed, hfeeds, hrealizes⟩ := h.exists_layer hmem
  obtain ⟨op, hholds⟩ := hrealizes.exists_holds
  refine ⟨_, op, _, ?_, hholds⟩
  cases hfeeds with
  | nothing source => exact Network.shape_of_input hnamed source
  | layer fedBy _ shape => exact (hfed _).shape_of_feeder hnamed fedBy shape

/-- The layers that a compiled layer depends on have been compiled. -/
theorem mem_of_lineage (h : Chronicle networks g made) (hfed : ∀ i, (networks i).WellFed)
    (hmem : (id, b) ∈ made) {ls : List (LayerId × Layer)}
    (hls : (networks id.graph).lineage id = .ok ls) : ∀ up ∈ ls, up.1 ∈ made.map (·.1) := by
  induction h generalizing id b ls with
  | nil => cases hmem
  | compiled _ _ layer feeds _ ih =>
    -- a layer that was compiled before depends on layers before it, the last one on its feeder
    -- besides
    rw [List.map_append]
    rcases List.mem_append.1 hmem with hold | hnew
    · exact fun up hup => List.mem_append_left _ (ih hold hls up hup)
    · cases List.mem_singleton.1 hnew
      cases feeds with
      | nothing source =>
        rw [Network.lineage_of_input layer source] at hls
        cases hls
        simp
      | layer fedBy earlier _ =>
        rw [(hfed _).lineage_of_feeder layer fedBy] at hls
        obtain ⟨above, habove, rfl⟩ := except_map_eq_ok_iff.1 hls
        rw [← (hfed _).graph_eq layer fedBy] at habove
        exact List.forall_mem_cons.2 ⟨by simp, fun up hup =>
          List.mem_append_left _ (ih earlier habove up hup)⟩

end Chronicle

/-! ## Compiling -/

namespace Network

open Compiling

variable {n : Network} {networks : Nat → Network} {id : LayerId} {w w' : Workspace} {node : Node}
  {done : List LayerId} {named : NamedLayer}

/-- The layers that a layer depends on, itself included, that are not yet done, from its input
on. -/
def unseen (n : Network) (done : List LayerId) (id : LayerId) : List LayerId :=
  match n.lineage id with
  | .ok ls => (ls.reverse.map (·.1)).filter (· ∉ done)
  | .error _ => []

/-- Nothing is left to compile if the whole lineage has been compiled. -/
theorem unseen_eq_nil {ls : List (LayerId × Layer)} (hls : n.lineage id = .ok ls)
    (hdone : ∀ up ∈ ls, up.1 ∈ done) : n.unseen done id = [] := by
  simp only [unseen, hls]
  refine List.filter_eq_nil_iff.2 fun up hup => ?_
  obtain ⟨l, hl, rfl⟩ := List.mem_map.1 hup
  simpa using hdone l (List.mem_reverse.1 hl)

/-- A layer that nothing feeds has only itself to compile. -/
theorem unseen_of_input (hid : n.layer? id = some named) (hf : named.layer.feeder? = none)
    (hfresh : id ∉ done) : n.unseen done id = [id] := by
  simp [unseen, lineage_of_input hid hf, hfresh]

/-- Whatever is left of the feeder comes first, and then the layer. -/
theorem unseen_of_feeder (h : n.WellFed) (hid : n.layer? id = some named) {feeder : LayerId}
    (hf : named.layer.feeder? = some feeder) (hfresh : id ∉ done) :
    n.unseen done id = n.unseen done feeder ++ [id] := by
  obtain ⟨named', hnamed⟩ := contains_iff.1 (h.earlier hid hf).2
  obtain ⟨above, habove, -⟩ := h.exists_lineage hnamed
  have hlineage := h.lineage_of_feeder hid hf
  rw [habove] at hlineage
  rw [unseen, unseen, habove, hlineage]
  simp only [Except.map, List.reverse_cons, List.map_append, List.map_singleton,
    List.filter_append]
  rw [List.filter_singleton (a := id)]
  simp [hfresh]

/-- A layer depends on itself and on layers before it. -/
theorem index_le_of_mem_unseen (h : n.WellFed) {up : LayerId} (hup : up ∈ n.unseen done id) :
    up.index ≤ id.index := by
  unfold unseen at hup
  split at hup
  · next ls hls =>
    obtain ⟨named, hid⟩ := exists_layer_of_lineage hls
    obtain ⟨above, habove, hearlier⟩ := h.exists_lineage hid
    cases hls.symm.trans habove
    obtain ⟨l, hl, rfl⟩ := List.mem_map.1 (List.mem_of_mem_filter hup)
    -- the lineage holds the layer and earlier ones
    rcases List.mem_cons.1 (List.mem_reverse.1 hl) with rfl | hl
    · exact Nat.le_refl _
    · exact Nat.le_of_lt (hearlier l hl)
  · cases hup

/-- Making the nodes of a layer after those of its feeder. The workspace `w₁` is the one in which
the layer itself is compiled. -/
inductive Makes (n : Network) (depth : Nat) (w : Workspace) :
    NamedLayer → Workspace → Blueprint → Engine → Prop
  | input {name : String} {i : Input} {b : Blueprint} {e : Engine}
      (made : i.compile name w.engine = .ok b e) : Makes n depth w ⟨name, .input i⟩ w b e
  | dense {name : String} {d : Dense} {feeder : LayerId} {w₁ : Workspace} {input : Node}
      {fed : DeclaredShape} {b : Blueprint} {e : Engine}
      (ofFeeder : n.compileWithin depth feeder w = .ok input w₁) (shape : n.shape feeder = .ok fed)
      (made : d.compile name input fed w₁.engine = .ok b e) :
      Makes n depth w ⟨name, .dense d feeder⟩ w₁ b e
  | dropout {name : String} {d : Dropout} {feeder : LayerId} {w₁ : Workspace} {input : Node}
      {b : Blueprint} {e : Engine} (ofFeeder : n.compileWithin depth feeder w = .ok input w₁)
      (made : d.compile name input w₁.engine = .ok b e) :
      Makes n depth w ⟨name, .dropout d feeder⟩ w₁ b e

/-- A call on the engine that gives a value leaves the context alone. -/
theorem onEngine_eq_ok_iff {α : Type} {call : Call α} {a : α} :
    onEngine call w = .ok a w' ↔ ∃ e, call w.engine = .ok a e ∧ w' = { w with engine := e } := by
  unfold onEngine
  split
  · next a' e heq =>
    simp only [EStateM.Result.ok.injEq]
    constructor
    · rintro ⟨rfl, rfl⟩
      exact ⟨e, ⟨heq, rfl⟩⟩
    · rintro ⟨e', h, rfl⟩
      rw [heq] at h
      cases h
      exact ⟨rfl, rfl⟩
  · next heq => simp [heq]

theorem lift_eq_ok_iff {α : Type} {r : Except Error α} {a : α} :
    Compiling.lift r w = .ok a w' ↔ r = .ok a ∧ w' = w := by
  cases r with
  | ok b => simp [Compiling.lift, eq_comm]
  | error err => simp [Compiling.lift]

/-- A layer that is remembered is given back, and another one is made and then remembered. -/
theorem compileWithin_eq_ok {depth : Nat} (h : n.compileWithin (depth + 1) id w = .ok node w') :
    w.engine.graph.id = w.context.engine ∧
      ((∃ b, w.context.blueprint? id = some b ∧ node = b.output ∧ w' = w) ∨
        ∃ named w₁ b e, w.context.blueprint? id = none ∧ n.layer? id = some named ∧
          n.Makes depth w named w₁ b e ∧ node = b.output ∧
          w' = ⟨{ w₁.context with blueprints := w₁.context.blueprints ++ [(id, b)] },
            e.after (Engine.report (.compiledLayer named.name b.parameters.length))⟩) := by
  obtain ⟨_, _, hget, h⟩ := bind_eq_ok_iff.1 h
  cases hget
  obtain ⟨_, _, hget, h⟩ := bind_eq_ok_iff.1 h
  cases hget
  split at h
  · obtain ⟨_, _, hlift, -⟩ := bind_eq_ok_iff.1 h
    cases hlift
  · next hcontext =>
    refine ⟨not_not.1 hcontext, ?_⟩
    obtain ⟨_, _, hget, h⟩ := bind_eq_ok_iff.1 h
    cases hget
    cases hb : w.context.blueprint? id with
    | some b =>
      rw [hb] at h
      cases h
      exact .inl ⟨b, rfl, rfl, rfl⟩
    | none =>
      rw [hb] at h
      right
      obtain ⟨named, _, hlift, h⟩ := bind_eq_ok_iff.1 h
      obtain ⟨hnamed, rfl⟩ := lift_eq_ok_iff.1 hlift
      have hid := layer_eq_ok_iff.1 hnamed
      obtain ⟨name, l⟩ := named
      -- what follows once the nodes of the layer have been made
      have hend : ∀ {b : Blueprint} {w₁ : Workspace},
          (do
            onEngine (Engine.report (.compiledLayer name b.parameters.length))
            modify fun w => { w with context.blueprints := w.context.blueprints ++ [(id, b)] }
            return b.output : Compiling Node) w₁ = .ok node w' →
          node = b.output ∧
            w' = ⟨{ w₁.context with blueprints := w₁.context.blueprints ++ [(id, b)] },
              w₁.engine.after (Engine.report (.compiledLayer name b.parameters.length))⟩ := by
        rintro b w₁ ⟨⟩
        exact ⟨rfl, rfl⟩
      cases l with
      | input i =>
        obtain ⟨b, _, hcall, h⟩ := bind_eq_ok_iff.1 h
        obtain ⟨e, hmade, rfl⟩ := onEngine_eq_ok_iff.1 hcall
        obtain ⟨rfl, rfl⟩ := hend h
        exact ⟨_, _, b, e, rfl, hid, .input hmade, rfl, rfl⟩
      | dense d feeder =>
        obtain ⟨input, w₁, hinput, h⟩ := bind_eq_ok_iff.1 h
        obtain ⟨fed, _, hshape, hrest⟩ := bind_eq_ok_iff.1 h
        obtain ⟨hfed, rfl⟩ := lift_eq_ok_iff.1 hshape
        obtain ⟨b, _, hcall, hlast⟩ := bind_eq_ok_iff.1 hrest
        obtain ⟨e, hmade, rfl⟩ := onEngine_eq_ok_iff.1 hcall
        obtain ⟨rfl, rfl⟩ := hend hlast
        exact ⟨_, _, b, e, rfl, hid, .dense hinput hfed hmade, rfl, rfl⟩
      | dropout d feeder =>
        obtain ⟨input, w₁, hinput, h⟩ := bind_eq_ok_iff.1 h
        obtain ⟨b, _, hcall, h⟩ := bind_eq_ok_iff.1 h
        obtain ⟨e, hmade, rfl⟩ := onEngine_eq_ok_iff.1 hcall
        obtain ⟨rfl, rfl⟩ := hend h
        exact ⟨_, _, b, e, rfl, hid, .dropout hinput hmade, rfl, rfl⟩

/-- A layer without a feeder is made at once, and another one is made from the node of its
feeder. -/
theorem Makes.realizes {depth : Nat} {w₁ : Workspace} {b : Blueprint} {e : Engine}
    (h : n.Makes depth w named w₁ b e) :
    (named.layer.feeder? = none ∧ w₁ = w ∧ (w.engine.Sound →
        Advances w.engine b.parameters e ∧ b.Realizes e.graph named.name named.layer none)) ∨
      ∃ feeder input, named.layer.feeder? = some feeder ∧
        n.compileWithin depth feeder w = .ok input w₁ ∧
        ∀ k, w₁.engine.Sound → w₁.engine.graph.Holds input k → n.shape feeder = .ok k.shape →
          Advances w₁.engine b.parameters e ∧
            b.Realizes e.graph named.name named.layer (some (input, k.shape)) := by
  -- an input needs no node, a dense layer also needs the shape, and a dropout only the node of its
  -- feeder
  cases h with
  | input made =>
    exact .inl ⟨rfl, rfl, fun hsound => (Input.leads_compile hsound _ _).of_eq_ok made⟩
  | dense ofFeeder shape made =>
    refine .inr ⟨_, _, rfl, ofFeeder, fun k hsound hk hshape => ?_⟩
    cases shape.symm.trans hshape
    exact (Dense.leads_compile hsound _ _ hk).of_eq_ok made
  | dropout ofFeeder made =>
    exact .inr ⟨_, _, rfl, ofFeeder, fun k _ hk _ => (Dropout.leads_compile _ _ hk).of_eq_ok made⟩

/-- A workspace with a chronicle of what has been compiled. -/
structure Chronicled (networks : Nat → Network) (w : Workspace) : Prop where
  sound : w.engine.Sound
  context : w.context.engine = w.engine.graph.id
  chronicle : Chronicle networks w.engine.graph w.context.blueprints
  /-- Only a live engine compiles. -/
  active : w.context.blueprints ≠ [] → w.engine.session.isSome

/-- What compiling a layer adds to a workspace: the layers that it depends on and that have not been
compiled, with their parameters. -/
structure Adds (networks : Nat → Network) (w : Workspace) (id : LayerId) (node : Node)
    (w' : Workspace) : Prop where
  chronicled : Chronicled networks w'
  changes : Changes w.engine w'.engine
  added : ∃ added, w'.context.blueprints = w.context.blueprints ++ added ∧
    added.map (·.1) = (networks id.graph).unseen (w.context.blueprints.map (·.1)) id ∧
    w'.engine.trainableWeights =
      w.engine.trainableWeights ++ added.flatMap (·.2.parameters)
  /-- The node of the layer is given. -/
  made : ∃ b, (id, b) ∈ w'.context.blueprints ∧ b.output = node

/-- A later layer is not compiled on the way. -/
theorem Adds.not_mem {id' : LayerId} (h : Adds networks w id node w')
    (hfed : (networks id.graph).WellFed) (hlt : id.index < id'.index)
    (hfresh : id' ∉ w.context.blueprints.map (·.1)) :
    id' ∉ w'.context.blueprints.map (·.1) := by
  obtain ⟨added, hadded, hunseen, -⟩ := h.added
  rw [hadded, List.map_append, hunseen]
  intro hin
  rcases List.mem_append.1 hin with hin | hin
  · exact hfresh hin
  · exact Nat.lt_irrefl _ (Nat.lt_of_lt_of_le hlt (index_le_of_mem_unseen hfed hin))

/-- Once its feeder has been compiled, the nodes of a layer are appended and the layer is
remembered. -/
theorem adds_of_made {w₁ : Workspace} {named : NamedLayer} {b : Blueprint} {e : Engine}
    {fed : Option (Node × DeclaredShape)} {added : List (LayerId × Blueprint)} {r : Record}
    (hw₁ : Chronicled networks w₁) (hchanges : Changes w.engine w₁.engine)
    (hadded : w₁.context.blueprints = w.context.blueprints ++ added)
    (hweights : w₁.engine.trainableWeights =
      w.engine.trainableWeights ++ added.flatMap (·.2.parameters))
    (hunseen : added.map (·.1) ++ [id] =
      (networks id.graph).unseen (w.context.blueprints.map (·.1)) id)
    (hfresh : id ∉ w₁.context.blueprints.map (·.1))
    (hid : (networks id.graph).layer? id = some named)
    (hfeeds : (networks id.graph).Feeds w₁.context.blueprints named.layer fed)
    (hadvances : Advances w₁.engine b.parameters e)
    (hrealizes : b.Realizes e.graph named.name named.layer fed) :
    Adds networks w id b.output
      ⟨{ w₁.context with blueprints := w₁.context.blueprints ++ [(id, b)] },
        e.after (Engine.report r)⟩ := by
  -- making a record afterwards changes nothing that the nodes rely on
  have hlater := hadvances.trans ((reported_report r).advances hadvances.active)
  have hext := hadvances.changes.extends
  refine ⟨⟨hlater.changes.sound hw₁.sound, ?_, ?_, fun _ => hlater.active⟩,
    hchanges.trans hlater.changes, ⟨added ++ [(id, b)], ?_, ?_, ?_⟩, b, by simp, rfl⟩
  · exact hw₁.context.trans hlater.changes.extends.id.symm
  · exact .compiled (hw₁.chronicle.extend (fun _ => .refl _) hext) hfresh hid hfeeds hrealizes
  · rw [hadded, List.append_assoc]
  · rw [List.map_append, ← hunseen, List.map_singleton]
  · have hlast := hlater.weights
    rw [List.append_nil] at hlast
    refine hlast.trans ?_
    rw [hweights]
    simp

/-- Compiling a layer adds what is unseen of its lineage, if the depth allows for it. -/
theorem adds_compileWithin (hfed : ∀ i, (networks i).WellFed) (hn : networks n.id = n)
    {depth : Nat} (hdepth : id.index < depth) (hw : Chronicled networks w)
    (h : n.compileWithin depth id w = .ok node w') : Adds networks w id node w' := by
  induction depth generalizing id w w' node with
  | zero => cases hdepth
  | succ depth ih =>
    obtain ⟨hcontext, ⟨b, hb, rfl, rfl⟩ | ⟨named, w₁, b, e, hb, hid, hmakes, rfl, rfl⟩⟩ :=
      compileWithin_eq_ok h
    · -- a remembered layer adds nothing, since all that it depends on has been compiled as well
      have hmem := Chronicle.mem_of_lookup hb
      obtain ⟨named, hnamed, -⟩ := hw.chronicle.exists_layer hmem
      obtain ⟨above, habove, -⟩ := (hfed _).exists_lineage hnamed
      refine ⟨hw, .refl, ⟨[], by simp, ?_, by simp⟩, b, hmem, rfl⟩
      rw [unseen_eq_nil habove (hw.chronicle.mem_of_lineage hfed hmem habove), List.map_nil]
    · have hfresh : id ∉ w.context.blueprints.map (·.1) := by
        intro hin
        obtain ⟨p, hp, rfl⟩ := List.mem_map.1 hin
        simpa using List.lookup_eq_none_iff.1 hb p hp
      have hgraph : networks id.graph = n := by rw [(layer?_eq_some_iff.1 hid).1, hn]
      rcases hmakes.realizes with
        ⟨hf, rfl, hmade⟩ | ⟨feeder, input, hf, hfeeder, hmade⟩
      · obtain ⟨hadvances, hrealizes⟩ := hmade hw.sound
        refine adds_of_made hw .refl (List.append_nil _).symm (by simp) ?_ hfresh (hgraph ▸ hid)
          (.nothing hf) hadvances hrealizes
        rw [hgraph, unseen_of_input hid hf hfresh]
        rfl
      · -- the feeder is compiled first, and is an earlier layer
        have hwell : n.WellFed := hgraph ▸ hfed id.graph
        obtain ⟨hlt, -⟩ := hwell.earlier hid hf
        have hfeederGraph : networks feeder.graph = n := by rw [hwell.graph_eq hid hf, hgraph]
        have hadds := ih (Nat.lt_of_lt_of_le hlt (Nat.le_of_lt_succ hdepth)) hw hfeeder
        have hlater := hadds.not_mem (hfed _) hlt hfresh
        obtain ⟨hw₁, hchanges, ⟨added, hadded, hunseen, hweights⟩, b', hb', rfl⟩ := hadds
        obtain ⟨shape, op, name, hshape, hholds⟩ := hw₁.chronicle.exists_holds hfed hb'
        rw [hfeederGraph] at hshape hunseen
        obtain ⟨hadvances, hrealizes⟩ := hmade _ hw₁.sound hholds hshape
        refine adds_of_made hw₁ hchanges hadded hweights ?_ hlater (hgraph ▸ hid)
          (.layer hf hb' (hgraph.symm ▸ hshape)) hadvances hrealizes
        rw [hunseen, hgraph, unseen_of_feeder hwell hid hf hfresh]

end Network

end TensorGraph
