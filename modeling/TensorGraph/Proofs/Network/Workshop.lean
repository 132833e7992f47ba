import TensorGraph.Proofs.Engine.Reachable
import TensorGraph.Proofs.Network.Chronicle
import TensorGraph.Proofs.Network.Specimens

/-!
# Compiling again and again

Networks may grow, and the engine may be used for other things, while layers are compiled through
one context. A workshop records such a course of events: which layers were asked for and which nodes
were given, in which order layers were first needed, and which trained variables turned up.

## Main definitions

* `Workshop.Reachable`: the courses of events.
* `Workshop.Faithful`: what the context and the engine then have in common with the networks.

## Main results

* `Workshop.Reachable.faithful`: every layer is compiled once, to the shape that it declares.
-/

namespace TensorGraph

open Engine

/-- Networks whose layers are compiled through one context, and what has been seen of that. -/
structure Workshop where
  /-- The networks, by their numbers. -/
  networks : Nat → Network
  workspace : Workspace
  /-- The layers that were asked for, each with the node that was given. -/
  answers : List (LayerId × Node)
  /-- The layers that were needed, in the order in which they first were. -/
  order : List LayerId
  /-- The trained variables that turned up on the engine while layers were compiled. -/
  registered : List Node

namespace Workshop

/-- Courses of events: networks without layers and a new context at first, then networks that grow,
requests of any kind that leave the session alive, and layers that compile. -/
inductive Reachable : Workshop → Prop
  | start {e : Engine} (reachable : e.Reachable) :
      Reachable ⟨Network.empty, ⟨.ofEngine e, e⟩, [], [], []⟩
  | grow {s : Workshop} {i : Nat} {l : Layer} {id : LayerId} {n : Network} (reachable : Reachable s)
      (added : (s.networks i).add l = .ok (id, n)) :
      Reachable { s with networks := Function.update s.networks i n }
  | use {s : Workshop} {r : Request} (reachable : Reachable s)
      (alive : (s.workspace.engine.after r.call).session.isSome) :
      Reachable { s with
        workspace := { s.workspace with engine := s.workspace.engine.after r.call } }
  | compile {s : Workshop} {i : Nat} {id : LayerId} {node : Node} {w : Workspace}
      (reachable : Reachable s)
      (compiled : (s.networks i).compileLayer id s.workspace = .ok node w) :
      Reachable { s with
        workspace := w
        answers := s.answers ++ [(id, node)]
        order := s.order ++ (s.networks id.graph).unseen s.order id
        registered := s.registered ++
          w.engine.trainableWeights.filter (· ∉ s.workspace.engine.trainableWeights) }

/-- The blueprints of the layers that have been compiled. -/
def blueprints (s : Workshop) : List (LayerId × Blueprint) := s.workspace.context.blueprints

/-- A context that compiles every layer once, on an engine whose nodes have the shapes that the
networks declare. -/
structure Faithful (s : Workshop) : Prop where
  /-- A layer that was asked for gives the same node again, and nothing changes. -/
  again : ∀ answer ∈ s.answers, ∀ n : Network,
    n.compileLayer answer.1 s.workspace = .ok answer.2 s.workspace
  /-- So does a layer that was compiled since another one depends on it. -/
  remembered : ∀ id b, s.workspace.context.blueprint? id = some b → ∀ n : Network,
    n.compileLayer id s.workspace = .ok b.output s.workspace
  /-- The node of a compiled layer has the shape that the network declares for the layer. -/
  shape : ∀ id b, s.workspace.context.blueprint? id = some b → ∃ shape,
    (s.networks id.graph).shape id = .ok shape ∧
      Engine.shape b.output s.workspace.engine = .ok shape s.workspace.engine
  /-- The layers that were needed have been compiled, every one once. -/
  order : s.blueprints.map (·.1) = s.order ∧ s.order.Nodup
  /-- The variables that turned up are the parameters of these layers, in the same order. -/
  registered : s.registered = s.blueprints.flatMap (·.2.parameters) ∧ s.registered.Nodup
  /-- A dense layer has two parameters, and other layers have none. -/
  parameters : ∀ id b, s.workspace.context.blueprint? id = some b → ∃ named,
    (s.networks id.graph).layer? id = some named ∧
      b.parameters.length = named.layer.parameterCount

/-- What holds throughout a course of events. -/
structure Invariant (s : Workshop) : Prop where
  grown : ∀ i, (s.networks i).Grown ∧ (s.networks i).id = i
  chronicled : Network.Chronicled s.networks s.workspace
  answers : ∀ answer ∈ s.answers, ∃ b, (answer.1, b) ∈ s.blueprints ∧ b.output = answer.2
  order : s.blueprints.map (·.1) = s.order
  registered : s.registered = s.blueprints.flatMap (·.2.parameters)
  distinct : s.registered.Nodup
  trained : ∀ node ∈ s.registered, node ∈ s.workspace.engine.trainableWeights

end Workshop

/-! ## Trained variables -/

/-- No trained variable is listed twice. -/
theorem Engine.Sound.nodup_trainableWeights {e : Engine} (h : e.Sound) :
    e.trainableWeights.Nodup := by
  refine List.Nodup.map ?_ h.indexed.pairwise_trainable.nodup
  rintro slot slot' heq
  exact congrArg Node.index heq

/-- Trained variables stay trained variables. -/
theorem Engine.Changes.mem_trainableWeights {e e' : Engine} {node : Node} (h : Changes e e')
    (hsound : e.Sound) (hmem : node ∈ e.trainableWeights) : node ∈ e'.trainableWeights := by
  obtain ⟨slot, hslot, rfl⟩ := List.mem_map.1 hmem
  obtain ⟨n, hn, htrained⟩ := hsound.indexed.mem_trainable_iff.1 hslot
  have hkept := (h.sound hsound).indexed.mem_trainable_iff.2 ⟨n, h.getElem? hn, htrained⟩
  refine List.mem_map.2 ⟨slot, hkept, ?_⟩
  rw [Graph.handle, Graph.handle, h.extends.id]

namespace Workshop

variable {s : Workshop}

/-- Nothing has been compiled at the start. -/
theorem Invariant.start {e : Engine} (h : e.Reachable) :
    Invariant ⟨Network.empty, ⟨.ofEngine e, e⟩, [], [], []⟩ where
  grown i := ⟨.empty i, rfl⟩
  chronicled := ⟨h.sound, rfl, .nil, fun hne => absurd rfl hne⟩
  answers := by simp
  order := rfl
  registered := rfl
  distinct := List.nodup_nil
  trained := by simp

/-- Layers that are added change nothing about what has been compiled. -/
theorem Invariant.grow {i : Nat} {l : Layer} {id : LayerId} {n : Network} (h : s.Invariant)
    (hadd : (s.networks i).add l = .ok (id, n)) :
    Invariant { s with networks := Function.update s.networks i n } := by
  have hext := Network.extends_of_add hadd
  refine ⟨?_, ?_, h.answers, h.order, h.registered, h.distinct, h.trained⟩
  · exact (Function.forall_update_iff s.networks fun j n => n.Grown ∧ n.id = j).2
      ⟨⟨(h.grown i).1.add hadd, hext.id.trans (h.grown i).2⟩, fun j _ => h.grown j⟩
  · obtain ⟨hsound, hcontext, hchronicle, hactive⟩ := h.chronicled
    exact ⟨hsound, hcontext, hchronicle.extend (Network.extends_update hext) (.refl _), hactive⟩

/-- Changes of the engine keep what has been compiled. -/
theorem Invariant.use {e : Engine} (h : s.Invariant) (hchanges : Changes s.workspace.engine e)
    (halive : e.session.isSome) :
    Invariant { s with workspace := { s.workspace with engine := e } } := by
  obtain ⟨hsound, hcontext, hchronicle, -⟩ := h.chronicled
  exact ⟨h.grown, ⟨hchanges.sound hsound, hcontext.trans hchanges.extends.id.symm,
    hchronicle.extend (fun _ => .refl _) hchanges.extends, fun _ => halive⟩, h.answers, h.order,
    h.registered, h.distinct,
    fun node hnode => hchanges.mem_trainableWeights hsound (h.trained node hnode)⟩

/-- Compiling a layer adds it, with the layers that it depends on, to what has been compiled. -/
theorem Invariant.compile {i : Nat} {id : LayerId} {node : Node} {w : Workspace} (h : s.Invariant)
    (hcompile : (s.networks i).compileLayer id s.workspace = .ok node w) :
    Invariant { s with
      workspace := w
      answers := s.answers ++ [(id, node)]
      order := s.order ++ (s.networks id.graph).unseen s.order id
      registered := s.registered ++
        w.engine.trainableWeights.filter (· ∉ s.workspace.engine.trainableWeights) } := by
  have hfed : ∀ j, (s.networks j).WellFed := fun j => (h.grown j).1.wellFed
  have hself : s.networks (s.networks i).id = s.networks i := by rw [(h.grown i).2]
  obtain ⟨hw, hchanges, ⟨added, hadded, hunseen, hweights⟩, b, hb, rfl⟩ :=
    Network.adds_compileWithin hfed hself (Nat.lt_succ_self _) h.chronicled hcompile
  -- the new ones among the trained variables are the parameters of the added layers
  have hnodup := hw.sound.nodup_trainableWeights
  rw [hweights] at hnodup
  obtain ⟨-, hparameters, hdisjoint⟩ := List.nodup_append.1 hnodup
  have hnew : w.engine.trainableWeights.filter (· ∉ s.workspace.engine.trainableWeights) =
      added.flatMap (·.2.parameters) := by
    rw [hweights, List.filter_append, List.filter_eq_nil_iff.2 (by simp), List.nil_append]
    exact List.filter_eq_self.2 fun node hnode => by
      simpa using fun hold => hdisjoint node hold node hnode rfl
  refine ⟨h.grown, hw, ?_, ?_, ?_, ?_, ?_⟩ <;> simp only [blueprints, hadded, hnew]
  · intro answer hanswer
    rcases List.mem_append.1 hanswer with hold | hlast
    · obtain ⟨b', hb', hnode⟩ := h.answers answer hold
      exact ⟨b', List.mem_append_left _ hb', hnode⟩
    · obtain rfl := List.mem_singleton.1 hlast
      exact ⟨b, hadded ▸ hb, rfl⟩
  · rw [List.map_append, hunseen, ← h.order]
    rfl
  · rw [List.flatMap_append, h.registered]
    rfl
  · refine List.nodup_append.2 ⟨h.distinct, hparameters, fun node hold node' hnode heq => ?_⟩
    exact hdisjoint node (h.trained node hold) node' hnode heq
  · intro node hnode
    rw [hweights]
    rcases List.mem_append.1 hnode with hold | hlast
    · exact List.mem_append_left _ (h.trained node hold)
    · exact List.mem_append_right _ hlast

/-- The invariant holds after every history. -/
theorem Reachable.invariant (h : s.Reachable) : s.Invariant := by
  induction h with
  | start reachable => exact .start reachable
  | grow _ added ih => exact ih.grow added
  | use _ alive ih => exact ih.use ((Request.changing _ _ ih.chronicled.sound).after) alive
  | compile _ compiled ih => exact ih.compile compiled

/-- A remembered layer gives its node without a change. -/
theorem compileWithin_eq {w : Workspace} {id : LayerId} {b : Blueprint}
    (hcontext : w.context.engine = w.engine.graph.id) (hb : w.context.blueprint? id = some b)
    (n : Network) (depth : Nat) : n.compileWithin (depth + 1) id w = .ok b.output w := by
  have hget : (get : Compiling Workspace) w = .ok w w := rfl
  unfold Network.compileWithin
  rw [bind_of_ok hget, bind_of_ok hget, if_neg (not_not.2 hcontext.symm)]
  refine (bind_of_ok hget).trans ?_
  rw [hb]
  rfl

/-- A layer that has been compiled is answered from the context. -/
theorem compileLayer_eq {w : Workspace} {id : LayerId} {b : Blueprint}
    (hcontext : w.context.engine = w.engine.graph.id) (hb : w.context.blueprint? id = some b)
    (n : Network) : n.compileLayer id w = .ok b.output w :=
  compileWithin_eq hcontext hb n id.index

/-- Layers compile once, and to the shapes that they declare. However networks grow, whatever else
the engine is used for, and in whatever order layers are asked for: a layer that has been compiled
gives the same node again and changes nothing; the node of a layer has the shape that the network
declares for the layer; and the trained variables that turn up on the engine are the parameters of
the layers in the order in which these were first needed, two of every dense layer and none of
another one, each of them once. -/
theorem Reachable.faithful (h : s.Reachable) : s.Faithful := by
  have hinv := h.invariant
  obtain ⟨hsound, hcontext, hchronicle, hactive⟩ := hinv.chronicled
  have hfed : ∀ j, (s.networks j).WellFed := fun j => (hinv.grown j).1.wellFed
  constructor
  case again =>
    intro answer hanswer n
    obtain ⟨b, hb, hnode⟩ := hinv.answers answer hanswer
    rw [← hnode]
    exact compileLayer_eq hcontext (hchronicle.lookup_eq hb) n
  case remembered => exact fun id b hb n => compileLayer_eq hcontext hb n
  -- a compiled layer has a node of its shape, which the live engine reads
  case shape =>
    intro id b hb
    have hmem := Chronicle.mem_of_lookup hb
    obtain ⟨shape, op, name, hshape, hholds⟩ := hchronicle.exists_holds hfed hmem
    refine ⟨shape, hshape, ?_⟩
    have halive := hactive (List.ne_nil_of_mem hmem)
    exact bind_eq_ok_iff.2 ⟨⟨⟩, _, checkActive_eq halive,
      bind_eq_ok_iff.2 ⟨_, _, hholds.located.locate_eq, rfl⟩⟩
  case order => exact ⟨hinv.order, hinv.order ▸ hchronicle.nodup⟩
  case registered => exact ⟨hinv.registered, hinv.distinct⟩
  case parameters =>
    intro id b hb
    obtain ⟨named, hnamed, fed, -, hrealizes⟩ :=
      hchronicle.exists_layer (Chronicle.mem_of_lookup hb)
    exact ⟨named, hnamed, hrealizes.length_parameters⟩

/-- An input, a dense layer on it, and a dropout on that. -/
def chainedLayers : List Layer :=
  [.input (.pairs (some "x")),
    .dense (.ones 3 (some .softmax) (some "y") Dense.units_pos_three) ⟨0, 0⟩,
    .dropout (.half none (some "z")) ⟨0, 1⟩]

/-- A network with as many of these layers as given. -/
def chained (size : Nat) : Network :=
  ⟨0, ((List.zipWith NamedLayer.mk ["x", "y", "z"] chainedLayers).take size).toArray⟩

/-- The layers of a chain are added one after the other. -/
theorem add_chained : ∀ k (h : k < chainedLayers.length),
    (chained k).add chainedLayers[k] = .ok (⟨0, k⟩, chained (k + 1))
  | 0, _ => Network.add_eq_ok_iff.2 ⟨nofun, "x", by decide +kernel, rfl, rfl, rfl⟩
  | 1, _ => Network.add_eq_ok_iff.2 ⟨by rintro _ ⟨⟩; rfl, "y", by decide +kernel, rfl, rfl, rfl⟩
  | 2, _ => Network.add_eq_ok_iff.2 ⟨by rintro _ ⟨⟩; rfl, "z", by decide +kernel, rfl, rfl, rfl⟩

/-- The input is asked for before the other layers are there, then the dropout, and then the dense
layer between them, which has been compiled by then. -/
def askForLayers : Compiling (Node × Node × Node) := do
  let x ← (chained 1).compileLayer ⟨0, 0⟩
  let z ← (chained 3).compileLayer ⟨0, 2⟩
  let y ← (chained 3).compileLayer ⟨0, 1⟩
  return (x, z, y)

theorem faithful_chained : ∃ s : Workshop, s.Reachable ∧ s.networks 0 = chained 3 ∧
    s.answers.length = 3 ∧ s.order = [⟨0, 0⟩, ⟨0, 1⟩, ⟨0, 2⟩] ∧ s.Faithful := by
  have hgives : (match askForLayers ⟨.ofEngine (.create 0 0), .create 0 0⟩ with
      | .ok _ _ => true
      | .error _ _ => false) = true := by decide +kernel
  -- the evaluation shows that all three requests are granted
  split at hgives
  · next answers w hasked =>
    obtain ⟨x, w₁, hx, hasked⟩ := bind_eq_ok_iff.1 hasked
    obtain ⟨z, w₂, hz, hasked⟩ := bind_eq_ok_iff.1 hasked
    obtain ⟨y, w₃, hy, -⟩ := bind_eq_ok_iff.1 hasked
    have h₁ := Reachable.start (.create 0 0)
    have h₂ := (h₁.grow (i := 0) (add_chained 0 (by decide))).compile (i := 0) hx
    have h₃ := h₂.grow (i := 0) (add_chained 1 (by decide))
    have h₄ := h₃.grow (i := 0) (add_chained 2 (by decide))
    have h₅ := (h₄.compile (i := 0) hz).compile (i := 0) hy
    exact ⟨_, h₅, rfl, rfl, rfl, h₅.faithful⟩
  · cases hgives

end Workshop

end TensorGraph
