import TensorGraph.Proofs.Network.Abandoning

/-!
# Compiling networks and copies of them

A copy of a network has the number of the network, so a handle is one of both, even when they have
grown apart and have different layers there. A context asks what it remembers before it looks at a
network. So it gives the node of the layer that it compiled first, whichever network it is asked
about. Below, the courses of events with copies carry along which network each layer was compiled
from.

## Main definitions

* `Portrays`: the nodes under a node are those of a layer and of the layers above it.
* `Network.Recording` and `Network.Records`: workspaces and outcomes of compiling whose remembered
  nodes portray their layers.
* `Copyshop.Reachable`: the courses of events.

## Main results

* `Network.records_compileWithin`: compiling a layer portrays it, and what it leaves portrays its
  layers also when it fails.
* `Copyshop.Reachable.answers`: what a context answers.
-/

namespace TensorGraph

open Engine

/-! ## Nodes of a layer -/

/-- The nodes of a graph under a node are those of a layer, as they are found under handles, and of
the layers above it: each layer under its name with its own size or rate and activation, on the node
of the layer that feeds it. -/
inductive Portrays (g : Graph) (find : LayerId → Option NamedLayer) : LayerId → Node → Prop
  | source {id : LayerId} {named : NamedLayer} {b : Blueprint} (layer : find id = some named)
      (source : named.layer.feeder? = none)
      (realizes : b.Realizes g named.name named.layer none) : Portrays g find id b.output
  | fed {id feeder : LayerId} {named : NamedLayer} {b : Blueprint} {input : Node}
      {shape : DeclaredShape} (layer : find id = some named)
      (fedBy : named.layer.feeder? = some feeder) (above : Portrays g find feeder input)
      (realizes : b.Realizes g named.name named.layer (some (input, shape))) :
      Portrays g find id b.output

namespace Portrays

variable {g g' : Graph} {find find' : LayerId → Option NamedLayer} {id : LayerId} {node : Node}

/-- Nodes portray a layer as the graph grows. -/
theorem extend (h : Portrays g find id node) (hg : g.Extends g') : Portrays g' find id node := by
  induction h with
  | source layer source realizes => exact .source layer source (realizes.extend hg)
  | fed layer fedBy _ realizes ih => exact .fed layer fedBy ih (realizes.extend hg)

/-- The node is declared with the shape of the layer, under its name. -/
theorem exists_holds (h : Portrays g find id node) : ∃ named shape? op, find id = some named ∧
    g.Holds node ⟨op, Network.layerShape named.layer shape?, .f32, some named.name⟩ := by
  cases h with
  | source layer _ realizes | fed layer _ _ realizes =>
    obtain ⟨op, hholds⟩ := realizes.exists_holds
    exact ⟨_, _, op, layer, hholds⟩

/-- Where the same layers are found under some handles, among them the feeder of each such layer,
the same is portrayed. -/
theorem congr {R : LayerId → Prop} (h : Portrays g find id node) (hid : R id)
    (hclosed : ∀ {id feeder named}, R id → find id = some named →
      named.layer.feeder? = some feeder → R feeder)
    (hfind : ∀ {id}, R id → find' id = find id) : Portrays g find' id node := by
  induction h with
  | source layer source realizes => exact .source ((hfind hid).trans layer) source realizes
  | fed layer fedBy _ realizes ih =>
    exact .fed ((hfind hid).trans layer) fedBy (ih (hclosed hid layer fedBy)) realizes

/-- A layer and those above it are portrayed as they are in a network that has the same layers
there. -/
theorem of_lineage {n : Network} (h : Portrays g find id node) (hn : n.WellFed)
    {ls : List (LayerId × Layer)} (hls : n.lineage id = .ok ls)
    (hsame : ∀ up ∈ ls, find up.1 = n.layer? up.1) : Portrays g n.layer? id node := by
  -- a layer without a feeder ends the lineage, and any other one has that of its feeder below it
  induction h generalizing ls with
  | source layer source realizes =>
    obtain ⟨named, hnamed⟩ := Network.exists_layer_of_lineage hls
    obtain ⟨above, habove, -⟩ := hn.exists_lineage hnamed
    obtain rfl := Except.ok.inj (habove.symm.trans hls)
    exact .source ((hsame _ List.mem_cons_self).symm.trans layer) source realizes
  | fed layer fedBy _ realizes ih =>
    obtain ⟨named, hnamed⟩ := Network.exists_layer_of_lineage hls
    obtain ⟨above, habove, -⟩ := hn.exists_lineage hnamed
    obtain rfl := Except.ok.inj (habove.symm.trans hls)
    have hid := (hsame _ List.mem_cons_self).symm.trans layer
    rw [hn.lineage_of_feeder hid fedBy] at hls
    obtain ⟨rest, hrest, hcons⟩ := except_map_eq_ok_iff.1 hls
    obtain ⟨-, rfl⟩ := List.cons.inj hcons
    exact .fed hid fedBy (ih hrest fun up hup => hsame up (List.mem_cons_of_mem _ hup)) realizes

end Portrays

/-! ## Compiling a layer -/

namespace Network

open Compiling

variable {find : LayerId → Option NamedLayer} {n : Network} {w : Workspace} {id : LayerId}
  {named : NamedLayer} {α β : Type}

/-- A workspace that remembers nodes which portray their layers, and with a layer the one that feeds
it. Layers that it does not remember are found in a network. -/
structure Recording (find : LayerId → Option NamedLayer) (n : Network) (w : Workspace) : Prop where
  sound : w.engine.Sound
  portrayed : ∀ p ∈ w.context.blueprints, Portrays w.engine.graph find p.1 p.2.output
  closed : ∀ {id feeder : LayerId} {named : NamedLayer}, w.context.isCompiled id →
    find id = some named → named.layer.feeder? = some feeder → w.context.isCompiled feeder
  ahead : ∀ {id : LayerId}, w.context.isCompiled id = false → find id = n.layer? id

/-- A step of compiling leaves such a workspace, and a value that it gives is good there. -/
inductive Records (find : LayerId → Option NamedLayer) (n : Network) (good : Workspace → α → Prop) :
    EStateM.Result Failure Workspace α → Prop
  | given {a : α} {w : Workspace} (recording : Recording find n w) (value : good w a) :
      Records find n good (.ok a w)
  | failed {failure : Failure} {w : Workspace} (recording : Recording find n w) :
      Records find n good (.error failure w)

variable {good : Workspace → α → Prop} {good' : Workspace → β → Prop}

/-- The workspace after a step is as good as before, whether the step succeeds or fails. -/
theorem Records.recording {c : Compiling α} (h : Records find n good (c w)) :
    Recording find n (finalState c w) := by
  unfold finalState
  revert h
  generalize c w = r
  rintro (⟨h, -⟩ | h) <;> exact h

/-- One step after the other records nodes that portray their layers. -/
theorem Records.bind {c : Compiling α} {f : α → Compiling β} (hc : Records find n good (c w))
    (hf : ∀ a w₁, Recording find n w₁ → good w₁ a → Records find n good' (f a w₁)) :
    Records find n good' ((c >>= f) w) := by
  change Records find n good' (EStateM.bind c f w)
  unfold EStateM.bind
  revert hc
  generalize c w = r
  rintro (⟨hw, ha⟩ | hw)
  · exact hf _ _ hw ha
  · exact .failed hw

theorem records_get_bind {f : Workspace → Compiling β} (h : Records find n good' (f w w)) :
    Records find n good' ((get >>= f) w) := h

/-- A computation without a workspace leaves it as it is. -/
theorem records_lift (h : Recording find n w) (r : Except Error α) :
    Records find n (fun w' a => w' = w ∧ r = .ok a) (Compiling.lift r w) := by
  cases r with
  | ok a => exact .given h ⟨rfl, rfl⟩
  | error err => exact .failed h

/-- Changes of the engine take no node away that has been recorded. -/
theorem Recording.advance {e : Engine} (h : Recording find n w) (he : Changes w.engine e) :
    Recording find n { w with engine := e } where
  sound := he.sound h.sound
  portrayed p hp := (h.portrayed p hp).extend he.extends
  closed := h.closed
  ahead := h.ahead

/-- A call of the engine records nothing, and gives what it gives. -/
theorem records_onEngine {call : Call α} {post : α → Engine → Prop} (h : Recording find n w)
    (hcall : Leads call w.engine (Changes w.engine) fun a e => Changes w.engine e ∧ post a e) :
    Records find n (fun w' a => w'.context = w.context ∧ post a w'.engine) (onEngine call w) := by
  unfold onEngine
  split
  · next a e heq =>
    obtain ⟨hchanges, ha⟩ := hcall.of_eq_ok heq
    exact .given (h.advance hchanges) ⟨rfl, ha⟩
  · next f e heq => exact .failed (h.advance (hcall.of_eq_error heq))

/-- What is given for a layer: a node that portrays it, and that is remembered. -/
def Answered (find : LayerId → Option NamedLayer) (id : LayerId) (w : Workspace) (node : Node) :
    Prop :=
  w.context.isCompiled id ∧ Portrays w.engine.graph find id node

/-- Nodes of a layer that have been made are remembered and given. -/
theorem records_remember {b : Blueprint} {name : String} {k : Nat} (h : Recording find n w)
    (hb : Portrays w.engine.graph find id b.output)
    (hclosed : ∀ {named feeder}, find id = some named → named.layer.feeder? = some feeder →
      w.context.isCompiled feeder) :
    Records find n (Answered find id) ((do
      onEngine (report (.compiledLayer name k))
      modify fun w => { w with context.blueprints := w.context.blueprints ++ [(id, b)] }
      return b.output : Compiling Node) w) := by
  have hreport := changes_report (e := w.engine) (.compiledLayer name k)
  have hext := hreport.extends
  -- the layer is the only one that is compiled in addition
  have hcompiled : ∀ id' : LayerId, CompileContext.isCompiled
      ⟨w.context.engine, w.context.blueprints ++ [(id, b)]⟩ id' =
        (w.context.isCompiled id' || id' == id) := by
    intro id'
    simp only [CompileContext.isCompiled, CompileContext.blueprint?, List.lookup_append,
      Option.isSome_or, List.lookup_cons, List.lookup_nil]
    cases id' == id <;> rfl
  refine Records.given (w := ⟨⟨w.context.engine, w.context.blueprints ++ [(id, b)]⟩, _⟩)
    ⟨hreport.sound h.sound, ?_, ?_, ?_⟩ ⟨by simp [hcompiled], hb.extend hext⟩
  · intro p hp
    rcases List.mem_append.1 hp with hold | hnew
    · exact (h.portrayed p hold).extend hext
    · obtain rfl := List.mem_singleton.1 hnew
      exact hb.extend hext
  · intro id' feeder named hid' hnamed hfeeder
    rw [hcompiled, Bool.or_eq_true] at hid' ⊢
    rcases hid' with hold | hnew
    · exact .inl (h.closed hold hnamed hfeeder)
    · obtain rfl := beq_iff_eq.1 hnew
      exact .inl (hclosed hnamed hfeeder)
  · intro id' hid'
    rw [hcompiled, Bool.or_eq_false_iff] at hid'
    exact h.ahead hid'.1

/-- An input layer is portrayed by the placeholder that it becomes. -/
theorem leads_input (h : Recording find n w) {name : String} {i : Input}
    (hid : find id = some ⟨name, .input i⟩) :
    Leads (i.compile name) w.engine (Changes w.engine) fun b e =>
      Changes w.engine e ∧ Portrays e.graph find id b.output := by
  refine ((i.spares_compile name w.engine).and (i.leads_compile h.sound name)).imp
    (fun _ hfail => hfail.1.changes) ?_
  rintro b e ⟨hspares, -, hrealizes⟩
  exact ⟨hspares.changes, .source hid rfl hrealizes⟩

/-- A dense layer is portrayed by its output if its feeder is portrayed by the input. -/
theorem leads_dense (h : Recording find n w) {name : String} {d : Dense} {feeder : LayerId}
    {input : Node} (fed : DeclaredShape) (hid : find id = some ⟨name, .dense d feeder⟩)
    (habove : Portrays w.engine.graph find feeder input) :
    Leads (d.compile name input fed) w.engine (Changes w.engine) fun b e =>
      Changes w.engine e ∧ Portrays e.graph find id b.output := by
  obtain ⟨_, _, _, -, hholds⟩ := habove.exists_holds
  -- a layer that fails leaves variables behind, which is a change and no more
  cases hcall : d.compile name input fed w.engine with
  | ok b e =>
    obtain ⟨hadvances, rows, inner, size, -, -, hrealizes⟩ :=
      (d.leads_compile_over h.sound name feeder fed hholds).of_eq_ok hcall
    have hchanges := hadvances.changes
    exact leads_of_eq_ok hcall
      ⟨hchanges, .fed hid rfl (habove.extend hchanges.extends) hrealizes⟩
  | error failure e =>
    obtain ⟨ws, -, hleaves⟩ := Dense.stops_of_compile h.sound hcall
    exact leads_of_eq_error hcall hleaves.changes

/-- A dropout layer is portrayed by its node if its feeder is portrayed by the input. -/
theorem leads_dropout {name : String} {d : Dropout} {feeder : LayerId} {input : Node}
    (hid : find id = some ⟨name, .dropout d feeder⟩)
    (habove : Portrays w.engine.graph find feeder input) :
    Leads (d.compile name input) w.engine (Changes w.engine) fun b e =>
      Changes w.engine e ∧ Portrays e.graph find id b.output := by
  obtain ⟨_, _, _, -, hholds⟩ := habove.exists_holds
  have hmade : Leads (d.compile name input) w.engine (fun _ => True) fun b e =>
      Advances w.engine b.parameters e ∧
        b.Realizes e.graph name (.dropout d feeder) (some (input, _)) :=
    d.leads_compile name hholds
  -- the call spares what there is, and what it makes realizes the layer
  refine ((d.spares_compile name input w.engine).and hmade).imp
    (fun _ hfail => hfail.1.changes) ?_
  rintro b e ⟨hspares, -, hrealizes⟩
  have hchanges := hspares.changes
  exact ⟨hchanges, .fed hid rfl (habove.extend hchanges.extends) hrealizes⟩

/-- Compiling a layer gives a node that portrays it. Whether it gives one or fails, what is then
remembered portrays its layers. -/
theorem records_compileWithin (h : Recording find n w) (depth : Nat) (id : LayerId) :
    Records find n (Answered find id) (n.compileWithin depth id w) := by
  induction depth generalizing id w with
  | zero => exact .failed h
  | succ depth ih =>
    unfold compileWithin
    refine records_get_bind (records_get_bind ?_)
    split
    · exact .failed h
    refine records_get_bind ?_
    cases hb : w.context.blueprint? id with
    | some b =>
      have hmem : (id, b) ∈ w.context.blueprints := Chronicle.mem_of_lookup hb
      have hcompiled : w.context.isCompiled id := by rw [CompileContext.isCompiled, hb]; rfl
      exact .given h ⟨hcompiled, h.portrayed _ hmem⟩
    | none =>
      have hfresh : w.context.isCompiled id = false := by rw [CompileContext.isCompiled, hb]; rfl
      refine (records_lift h (n.layer id)).bind ?_
      rintro named w₁ hw₁ ⟨-, hlayer⟩
      have hid : find id = some named := (h.ahead hfresh).trans (layer_eq_ok_iff.1 hlayer)
      obtain ⟨name, l⟩ := named
      -- the nodes of the layer are remembered when the layer that feeds it is
      have hend : ∀ {b : Blueprint} {w : Workspace}, Recording find n w →
          Portrays w.engine.graph find id b.output →
          (∀ feeder, l.feeder? = some feeder → w.context.isCompiled feeder) →
          Records find n (Answered find id) ((do
            onEngine (report (.compiledLayer name b.parameters.length))
            modify fun w => { w with context.blueprints := w.context.blueprints ++ [(id, b)] }
            return b.output : Compiling Node) w) := by
        intro b w hw hb hfed
        refine records_remember hw hb fun hnamed hfeeder => ?_
        obtain rfl := Option.some.inj (hid.symm.trans hnamed)
        exact hfed _ hfeeder
      cases l with
      | input i =>
        refine (records_onEngine hw₁ (leads_input hw₁ hid)).bind ?_
        rintro b w₂ hw₂ ⟨-, hb⟩
        refine hend hw₂ hb ?_
        rintro _ ⟨⟩
      | dense d feeder =>
        refine (ih hw₁ feeder).bind ?_
        rintro input w₂ hw₂ ⟨hfed, habove⟩
        refine (records_lift hw₂ (n.shape feeder)).bind ?_
        rintro fed w₃ hw₃ ⟨rfl, -⟩
        refine (records_onEngine hw₃ (leads_dense hw₃ fed hid habove)).bind ?_
        rintro b w₄ hw₄ ⟨hcontext, hb⟩
        refine hend hw₄ hb ?_
        rintro _ ⟨⟩
        exact hcontext ▸ hfed
      | dropout d feeder =>
        refine (ih hw₁ feeder).bind ?_
        rintro input w₂ hw₂ ⟨hfed, habove⟩
        refine (records_onEngine hw₂ (leads_dropout hid habove)).bind ?_
        rintro b w₃ hw₃ ⟨hcontext, hb⟩
        refine hend hw₃ hb ?_
        rintro _ ⟨⟩
        exact hcontext ▸ hfed

end Network

/-! ## Courses of events -/

/-- Networks and copies of networks whose layers are compiled through one context. -/
structure Copyshop where
  networks : Nat → Network
  workspace : Workspace
  /-- The network that a layer was compiled from, as it was then, for the layers that have been
  compiled. -/
  origin : LayerId → Network

namespace Copyshop

variable {copying : Prop} {s : Copyshop} {i : Nat} {id : LayerId} {node : Node} {w : Workspace}

/-- The layers as they were compiled. -/
def described (s : Copyshop) (id : LayerId) : Option NamedLayer := (s.origin id).layer? id

/-- After a network has been asked for a layer, with or without success. -/
def compiled (s : Copyshop) (i : Nat) (id : LayerId) : Copyshop :=
  { s with
    workspace := finalState ((s.networks i).compileLayer id) s.workspace
    origin := fun id =>
      if s.workspace.context.isCompiled id then s.origin id else s.networks i }

/-- A layer that has been compiled before stays as it was. -/
theorem described_compiled_of_compiled {id' : LayerId}
    (h : s.workspace.context.isCompiled id') :
    (s.compiled i id).described id' = s.described id' := by
  simp [described, compiled, h]

/-- Any other layer is one of the network that is asked. -/
theorem described_compiled_of_fresh {id' : LayerId}
    (h : s.workspace.context.isCompiled id' = false) :
    (s.compiled i id).described id' = (s.networks i).layer? id' := by
  simp [described, compiled, h]

/-- Courses of events: networks without layers and a new context at first, then networks that grow,
networks that take the place of others as copies, if there is copying, requests of any kind to the
engine, and layers that are asked for. -/
inductive Reachable (copying : Prop) : Copyshop → Prop
  | start {e : Engine} (reachable : e.Reachable) :
      Reachable copying ⟨Network.empty, ⟨.ofEngine e, e⟩, fun id => .empty id.graph⟩
  | grow {s : Copyshop} {i : Nat} {l : Layer} {id : LayerId} {n : Network}
      (reachable : Reachable copying s) (added : (s.networks i).add l = .ok (id, n)) :
      Reachable copying { s with networks := Function.update s.networks i n }
  | copy {s : Copyshop} (reachable : Reachable copying s) (allowed : copying) (i j : Nat) :
      Reachable copying { s with networks := Function.update s.networks j (s.networks i) }
  | use {s : Copyshop} (reachable : Reachable copying s) (r : Request) :
      Reachable copying { s with
        workspace := { s.workspace with engine := s.workspace.engine.after r.call } }
  | compile {s : Copyshop} (reachable : Reachable copying s) (i : Nat) (id : LayerId) :
      Reachable copying (s.compiled i id)

/-- What holds throughout a course of events. -/
structure Invariant (copying : Prop) (s : Copyshop) : Prop where
  grown : ∀ i, (s.networks i).Grown
  sound : s.workspace.engine.Sound
  portrayed : ∀ p ∈ s.workspace.context.blueprints,
    Portrays s.workspace.engine.graph s.described p.1 p.2.output
  closed : ∀ {id feeder : LayerId} {named : NamedLayer}, s.workspace.context.isCompiled id →
    s.described id = some named → named.layer.feeder? = some feeder →
      s.workspace.context.isCompiled feeder
  /-- Without copies every network has a number of its own. -/
  own : ¬copying → ∀ i, (s.networks i).id = i
  /-- Then a compiled layer is still the one that was compiled. -/
  kept : ¬copying → ∀ id, s.workspace.context.isCompiled id →
    (s.origin id).Extends (s.networks id.graph)

namespace Invariant

/-- Nothing is remembered at the start. -/
theorem start {e : Engine} (h : e.Reachable) :
    Invariant copying ⟨Network.empty, ⟨.ofEngine e, e⟩, fun id => .empty id.graph⟩ where
  grown i := .empty i
  sound := h.sound
  portrayed := by simp [CompileContext.ofEngine]
  closed hid := nomatch hid
  own _ _ := rfl
  kept _ id hid := nomatch hid

/-- Layers that are added change nothing about what is remembered of others. -/
theorem grow (h : s.Invariant copying) {l : Layer} {n : Network}
    (hadd : (s.networks i).add l = .ok (id, n)) :
    Invariant copying { s with networks := Function.update s.networks i n } := by
  have hgrowing := Network.extends_update (Network.extends_of_add hadd)
  refine ⟨?_, h.sound, h.portrayed, h.closed, fun hc j => ?_, fun hc id hid => ?_⟩
  · exact (Function.forall_update_iff s.networks fun _ n => n.Grown).2
      ⟨(h.grown i).add hadd, fun j _ => h.grown j⟩
  · exact (hgrowing j).id.trans (h.own hc j)
  · exact (h.kept hc id hid).trans (hgrowing id.graph)

/-- A copied network has all the layers that are remembered, where copies are allowed. -/
theorem copy (h : s.Invariant copying) (hc : copying) (i j : Nat) :
    Invariant copying { s with networks := Function.update s.networks j (s.networks i) } where
  grown := (Function.forall_update_iff s.networks fun _ n => n.Grown).2
    ⟨h.grown i, fun k _ => h.grown k⟩
  sound := h.sound
  portrayed := h.portrayed
  closed := h.closed
  own hnot := absurd hc hnot
  kept hnot := absurd hc hnot

/-- Requests to the engine take no remembered node away. -/
theorem use (h : s.Invariant copying) (r : Request) :
    Invariant copying { s with
      workspace := { s.workspace with engine := s.workspace.engine.after r.call } } := by
  have hchanges : Changes s.workspace.engine (s.workspace.engine.after r.call) :=
    (r.changing _ h.sound).after
  exact ⟨h.grown, hchanges.sound h.sound,
    fun p hp => (h.portrayed p hp).extend hchanges.extends, h.closed, h.own, h.kept⟩

/-- A compiled layer is one of the network that it was compiled from. -/
theorem exists_described (h : s.Invariant copying) (hid : s.workspace.context.isCompiled id) :
    ∃ named, s.described id = some named := by
  obtain ⟨b, hb⟩ := Option.isSome_iff_exists.1 hid
  obtain ⟨named, _, _, hnamed, -⟩ := (h.portrayed _ (Chronicle.mem_of_lookup hb)).exists_holds
  exact ⟨named, hnamed⟩

/-- Before a network is asked for a layer, the layers that are not remembered are found in it. -/
theorem recording (h : s.Invariant copying) (i : Nat) (id : LayerId) :
    Network.Recording (s.compiled i id).described (s.networks i) s.workspace := by
  refine ⟨h.sound, fun p hp => ?_, fun hid' hnamed => ?_, described_compiled_of_fresh⟩
  · refine (h.portrayed p hp).congr ?_ h.closed described_compiled_of_compiled
    rw [CompileContext.isCompiled, Option.isSome_iff_ne_none]
    intro hnone
    simpa using List.lookup_eq_none_iff.1 hnone p hp
  · exact h.closed hid' ((described_compiled_of_compiled hid').symm.trans hnamed)

/-- Compiling remembers further nodes that portray their layers. -/
theorem compile (h : s.Invariant copying) (i : Nat) (id : LayerId) :
    (s.compiled i id).Invariant copying := by
  have hrecording : Network.Recording (s.compiled i id).described (s.networks i)
      (s.compiled i id).workspace :=
    (Network.records_compileWithin (h.recording i id) (id.index + 1) id).recording
  refine ⟨h.grown, hrecording.sound, hrecording.portrayed, hrecording.closed, h.own,
    fun hc id' hid' => ?_⟩
  cases hold : s.workspace.context.isCompiled id' with
  | true => simpa [compiled, hold] using h.kept hc id' hold
  | false =>
    -- the layer is one of the network that has been asked
    obtain ⟨b, hb⟩ := Option.isSome_iff_exists.1 hid'
    obtain ⟨named, _, _, hnamed, -⟩ :=
      (hrecording.portrayed _ (Chronicle.mem_of_lookup hb)).exists_holds
    have horigin : (s.compiled i id).origin id' = s.networks i := by simp [compiled, hold]
    have hnamed : (s.networks i).layer? id' = some named := horigin ▸ hnamed
    have hgraph : id'.graph = i := (Network.layer?_eq_some_iff.1 hnamed).1.trans (h.own hc i)
    rw [horigin, hgraph]
    exact .refl _

end Invariant

/-- The invariant holds after every history. -/
theorem Reachable.invariant (h : s.Reachable copying) : s.Invariant copying := by
  induction h with
  | start reachable => exact .start reachable
  | grow _ added ih => exact ih.grow added
  | copy _ allowed i j ih => exact ih.copy allowed i j
  | use _ r ih => exact ih.use r
  | compile _ i id ih => exact ih.compile i id

/-- A context gives the node of a layer as it compiled it first. Whatever networks have been made,
copied, extended and compiled, with or without success: the node that is given for a layer portrays
the layer, and those above it, as they were in the networks that they were compiled from. Those that
have not been compiled before are compiled from the network that is asked, of which the layer then
is one; a layer that has been compiled before is given without a look at the network, and nothing
changes. So the node portrays the layer as it is in the network that is asked if the layer is one of
it and if each layer above that has been compiled is there the same, which is always so without
copies. -/
theorem Reachable.answers (h : s.Reachable copying)
    (hc : (s.networks i).compileLayer id s.workspace = .ok node w) :
    (s.compiled i id).workspace = w ∧
    Portrays w.engine.graph (s.compiled i id).described id node ∧
    (s.workspace.context.isCompiled id = false → (s.networks i).contains id) ∧
    (s.workspace.context.isCompiled id → w = s.workspace) ∧
    (∀ ls, (s.networks i).lineage id = .ok ls →
      (∀ up ∈ ls, s.workspace.context.isCompiled up.1 →
        s.described up.1 = (s.networks i).layer? up.1) →
      Portrays w.engine.graph (s.networks i).layer? id node) ∧
    (¬copying → (s.networks i).contains id →
      Portrays w.engine.graph (s.networks i).layer? id node) := by
  have hinv := h.invariant
  have hrecording := hinv.recording i id
  have hfed : (s.networks i).WellFed := (hinv.grown i).wellFed
  have hworkspace : (s.compiled i id).workspace = w := finalState_of_ok hc
  have hportrays : Portrays w.engine.graph (s.compiled i id).described id node := by
    have hrecords := Network.records_compileWithin hrecording (id.index + 1) id
    have hcall : (s.networks i).compileWithin (id.index + 1) id s.workspace = .ok node w := hc
    rw [hcall] at hrecords
    cases hrecords with
    | given _ hanswered => exact hanswered.2
  -- a layer that had been compiled is as it was then, and one that had not is as the network asked
  -- has it
  have hagreeing : ∀ ls, (s.networks i).lineage id = .ok ls →
      (∀ up ∈ ls, s.workspace.context.isCompiled up.1 →
        s.described up.1 = (s.networks i).layer? up.1) →
      Portrays w.engine.graph (s.networks i).layer? id node := by
    intro ls hls hsame
    refine hportrays.of_lineage hfed hls fun up hup => ?_
    cases hup' : s.workspace.context.isCompiled up.1 with
    | true => exact (described_compiled_of_compiled hup').trans (hsame up hup hup')
    | false => exact hrecording.ahead hup'
  refine ⟨hworkspace, hportrays, fun hfresh => ?_, fun hcompiled => ?_, hagreeing,
    fun hnot hcontains => ?_⟩
  · obtain ⟨named, _, _, hnamed, -⟩ := hportrays.exists_holds
    exact Network.contains_iff.2 ⟨named, (hrecording.ahead hfresh).symm.trans hnamed⟩
  · obtain ⟨-, ⟨b, -, -, hsame⟩ | ⟨_, _, _, _, hnone, -⟩⟩ := Network.compileWithin_eq_ok hc
    · exact hsame
    · rw [CompileContext.isCompiled, hnone] at hcompiled
      cases hcompiled
  · -- without copies the network that a layer was compiled from has only grown since
    obtain ⟨named, hnamed⟩ := Network.contains_iff.1 hcontains
    obtain ⟨above, hls, -⟩ := hfed.exists_lineage hnamed
    refine hagreeing _ hls fun up hup hup' => ?_
    obtain ⟨above, habove, -⟩ := Network.exists_layer_of_mem_ancestry hls up hup
    obtain ⟨old, hold⟩ := hinv.exists_described hup'
    have hgraph : up.1.graph = i :=
      (Network.layer?_eq_some_iff.1 habove).1.trans (hinv.own hnot i)
    rw [hold, ← hgraph]
    exact ((hinv.kept hnot _ hup').layer hold).symm

/-! ## A copy that has grown apart -/

/-- A network of an input and layers on it. -/
def fork (rest : List NamedLayer) : Network :=
  ⟨0, (⟨"x", .input (.pairs (some "x"))⟩ :: rest).toArray⟩

/-- A dense layer on the input, which has as many units as given. -/
def branch (units : Nat) (h : 0 < units) : NamedLayer :=
  ⟨"y", .dense (.ones units (some .linear) (some "y") h) ⟨0, 0⟩⟩

theorem add_branch (units : Nat) (h : 0 < units) :
    (fork []).add (branch units h).layer = .ok (⟨0, 1⟩, fork [branch units h]) :=
  Network.add_eq_ok_iff.2 ⟨by rintro _ ⟨⟩; rfl, "y", by decide +kernel, rfl, rfl, rfl⟩

/-- A network and its copy get dense layers of three and of five units. -/
theorem exists_forked : ∃ s : Copyshop, s.Reachable True ∧
    s.networks 0 = fork [branch 3 (Nat.succ_pos 2)] ∧
    s.networks 1 = fork [branch 5 (Nat.succ_pos 4)] ∧
    s.workspace = ⟨.ofEngine (.create 0 0), .create 0 0⟩ := by
  have hinput : (Network.empty 0).add (.input (.pairs (some "x"))) =
      .ok (⟨0, 0⟩, fork []) :=
    Network.add_eq_ok_iff.2 ⟨nofun, "x", by decide +kernel, rfl, rfl, rfl⟩
  have h₁ : Reachable True _ := .start (.create 0 0)
  have h₂ := (h₁.grow (i := 0) hinput).copy trivial 0 1
  have h₃ := h₂.grow (i := 0) (add_branch 3 (Nat.succ_pos 2))
  exact ⟨_, h₃.grow (i := 1) (add_branch 5 (Nat.succ_pos 4)), rfl, rfl, rfl⟩

/-- After the layer of three units has been compiled, the copy is asked for its own. -/
theorem exists_grown_apart : ∃ (s : Copyshop) (node : Node) (w : Workspace), s.Reachable True ∧
    s.networks 1 = fork [branch 5 (Nat.succ_pos 4)] ∧
    (s.networks 1).compileLayer ⟨0, 1⟩ s.workspace = .ok node w ∧
    s.workspace.context.isCompiled ⟨0, 1⟩ ∧
    s.described ⟨0, 1⟩ = some (branch 3 (Nat.succ_pos 2)) ∧
    w.engine.graph.nodes[node.index]?.map (·.shape) = some [openAxis, 3] := by
  have hgives : (match (fork [branch 3 (Nat.succ_pos 2)]).compileLayer ⟨0, 1⟩
        ⟨.ofEngine (.create 0 0), .create 0 0⟩ with
      | .ok _ w => match (fork [branch 5 (Nat.succ_pos 4)]).compileLayer ⟨0, 1⟩ w with
        | .ok node w' => w.context.isCompiled ⟨0, 1⟩ &&
          w'.engine.graph.nodes[node.index]?.map (·.shape) == some [openAxis, 3]
        | .error _ _ => false
      | .error _ _ => false) = true := by decide +kernel
  -- the evaluation of the two calls shows that both are granted, and what the second one gives
  split at hgives
  · next x w hx =>
    split at hgives
    · next node w' hnode =>
      rw [Bool.and_eq_true, beq_iff_eq] at hgives
      obtain ⟨s, hs, hzero, hone, hstart⟩ := exists_forked
      have hworkspace : (s.compiled 0 ⟨0, 1⟩).workspace = w := by
        rw [← hzero, ← hstart] at hx
        exact finalState_of_ok hx
      have hdescribed :
          (s.compiled 0 ⟨0, 1⟩).described ⟨0, 1⟩ = some (branch 3 (Nat.succ_pos 2)) := by
        have hfresh : s.workspace.context.isCompiled ⟨0, 1⟩ = false := by rw [hstart]; rfl
        rw [described_compiled_of_fresh hfresh, hzero]
        rfl
      refine ⟨_, node, w', hs.compile 0 ⟨0, 1⟩, hone, ?_, ?_, hdescribed, hgives.2⟩
      · rw [hworkspace]
        exact hone ▸ hnode
      · rw [hworkspace]
        exact hgives.1
    · cases hgives
  · cases hgives

/-- A context does not always answer for the network that it is asked about: asked for a layer of
five units it gives the node of the layer of three units that it compiled in its place. -/
theorem not_answered_for : ¬∀ (s : Copyshop) (i : Nat) (id : LayerId) (node : Node)
    (w : Workspace), s.Reachable True → (s.networks i).compileLayer id s.workspace = .ok node w →
    (s.networks i).contains id ∧ Portrays w.engine.graph (s.networks i).layer? id node := by
  intro h
  obtain ⟨s, node, w, hs, hn, hnode, -, -, hshape⟩ := exists_grown_apart
  obtain ⟨-, hportrays⟩ := h s 1 ⟨0, 1⟩ node w hs hnode
  obtain ⟨named, fed, op, hnamed, -, hholds⟩ := hportrays.exists_holds
  have hbranch : (s.networks 1).layer? ⟨0, 1⟩ = some (branch 5 (Nat.succ_pos 4)) := by
    rw [hn]
    rfl
  obtain rfl := Option.some.inj (hbranch.symm.trans hnamed)
  rw [hholds, Option.map_some] at hshape
  -- a dense layer has its units on the last axis
  have hlast := congrArg List.getLast? (Option.some.inj hshape)
  change (List.dropLast _ ++ [_]).getLast? = _ at hlast
  rw [List.getLast?_concat] at hlast
  exact absurd hlast (by decide +kernel)

/-- The copy is given the nodes of the layer of the network. -/
theorem fork_answers : ∃ (s : Copyshop) (node : Node) (w : Workspace), s.Reachable True ∧
    s.networks 1 = fork [branch 5 (Nat.succ_pos 4)] ∧
    (s.networks 1).compileLayer ⟨0, 1⟩ s.workspace = .ok node w ∧ w = s.workspace ∧
    Portrays w.engine.graph (s.compiled 1 ⟨0, 1⟩).described ⟨0, 1⟩ node ∧
    (s.compiled 1 ⟨0, 1⟩).described ⟨0, 1⟩ = some (branch 3 (Nat.succ_pos 2)) := by
  obtain ⟨s, node, w, hs, hn, hnode, hcompiled, hdescribed, -⟩ := exists_grown_apart
  obtain ⟨-, hportrays, -, hsame, -⟩ := hs.answers hnode
  refine ⟨s, node, w, hs, hn, hnode, hsame hcompiled, hportrays, ?_⟩
  exact (described_compiled_of_compiled hcompiled).trans hdescribed

end Copyshop

end TensorGraph
