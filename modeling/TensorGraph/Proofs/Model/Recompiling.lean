import TensorGraph.Proofs.Model.Mirroring
import TensorGraph.Proofs.Model.Targets
import TensorGraph.Proofs.Network.Retracing
import TensorGraph.Proofs.Run.Widening

/-!
# Compiling a model twice

A model cannot be compiled twice on one engine. Its input layers and its targets are placeholders,
which are given back when they are asked for again, but the first dense layer, the first dropout, or
else the first loss, asks for a name that is in use. What has been appended by then bears no name
and is no variable, so the engine loses nothing by the attempt: the program compiled before runs as
if it had not been made.

## Main definitions

* `Program.Within`: a program whose functions are over the nodes of a graph.

## Main results

* `Program.transcript_widen`: a program over earlier nodes is used in the same way when nodes have
  been appended.
* `Model.exists_refusal`: compiling a model again fails for a name in use.
* `Model.recompiling_is_refused`: and it does so without damage.
-/

namespace TensorGraph

open Engine

variable {n : Network} {m : Model} {p : Program} {g g' : Graph} {e e' e₀ e₁ e₂ : Engine}

/-! ## Nodes without names -/

namespace Engine

theorem Wider.valueOf_eq (h : Wider g g' e e') (hfind : ∀ name, g'.find? name = g.find? name) :
    e'.valueOf = e.valueOf := by
  obtain ⟨rfl, rfl, hsession⟩ := h
  have hstored : e'.stored? = e.stored? := funext fun slot => by rw [stored?, stored?, hsession]
  funext name
  rw [valueOf, valueOf, hfind, hstored]

namespace Padded

variable {P : Option String → Prop}

/-- Nodes without names leave the table of names as it was. -/
theorem find?_eq (h : Padded (· = none) e e') (name : String) :
    e'.graph.find? name = e.graph.find? name := by
  by_contra hne
  cases h.bound hne

theorem handle_eq (h : Padded P e e') : e'.graph.handle = e.graph.handle :=
  funext fun slot => congrArg (Node.mk · slot) h.changes.extends.id

theorem trainableWeights_eq (h : Padded P e e') : e'.trainableWeights = e.trainableWeights := by
  rw [trainableWeights, trainableWeights, h.trainable, h.handle_eq]

theorem wider (h : Padded P e e') : Wider e.graph e'.graph e e' := ⟨rfl, rfl, h.session⟩

end Padded

end Engine

/-! ## Programs over earlier nodes -/

namespace Program

/-- A program whose functions are over the nodes of a graph. -/
def Within (p : Program) (g : Graph) : Prop :=
  ∀ f ∈ [p.trainFunction, p.predictFunction, p.evaluateFunction], f.Within g

theorem Within.extend (h : p.Within g) (hg : g.Extends g') : p.Within g' :=
  fun f hf => (h f hf).extend hg

/-- A program over earlier nodes is used in the same way when nodes without names have been
appended. -/
theorem transcript_widen (hg : g.Typed) (hext : g.Extends g') (hp : p.Within g)
    (hfind : ∀ name, g'.find? name = g.find? name) (us : List Use) (h : Wider g g' e e') :
    p.transcript us e' = p.transcript us e := by
  induction us generalizing e e' with
  | nil => rfl
  | cons u us ih =>
    have hblind : Blind (Wider g g') (u.call p) :=
      blind_call (veiledOn_wider hext).report
        (fun f hf => blind_execute_within hg hext (hp f hf)) u
    have hagree := hblind e e' h
    have hafter := after_of_agree hagree
    rw [transcript, transcript, ih hafter, answer_eq_of_agree hagree, hafter.valueOf_eq hfind]

end Program

namespace Model

/-- The functions of a compiled model are over nodes of the engine. -/
theorem within_of_compile (h : m.compile e = .ok p e') : p.Within e'.graph := by
  obtain ⟨_, _, _, _, _, _, _, -, -, -, hconclude⟩ := compile_eq_ok_iff.1 h
  obtain ⟨_, trained, f, predict, evaluate, -, hf, hg, hk, hreport, rfl⟩ :=
    conclude_eq_ok_iff.1 hconclude
  have htrain : f.Within trained.graph := within_of_function hf
  have hpredict : predict.Within trained.graph := within_of_function hg
  have hevaluate : evaluate.Within trained.graph := within_of_function hk
  cases hreport
  intro f hf
  simp only [List.mem_cons, List.not_mem_nil, or_false] at hf
  rcases hf with rfl | rfl | rfl
  · exact htrain
  · exact hpredict
  · exact hevaluate

/-! ## Layers -/

section Layers

variable {made : List (LayerId × Blueprint)} {w : Workspace} {ids : List LayerId}
  {nodes : List Node} (hfed : m.network.WellFed) (he : e.Sound)
  (hactive : e.session.isSome) (hchronicle : Chronicle (fun _ => m.network) e.graph made)
include hfed he hactive hchronicle

theorem retraces_compileLayers (hfinds : List.Forall₂ (Chronicle.Finds made) ids nodes)
    (hw : Network.Retracing made e w) :
    Network.Retraces made e (· = nodes) (m.compileLayers ids w) := by
  unfold compileLayers
  induction hfinds generalizing w with
  | nil => exact .given rfl hw
  | @cons id node ids nodes hfind _ ih =>
    obtain ⟨b, hmem, rfl⟩ := hfind
    rw [List.mapM_cons]
    refine (Network.retraces_compileWithin hfed he hactive hchronicle (Nat.lt_succ_self _) hmem
      hw).bind ?_
    rintro _ w₁ rfl hw₁
    refine (ih hw₁).bind ?_
    rintro _ w₂ rfl hw₂
    exact .given rfl hw₂

/-- In a new context the inputs and outputs are found again, or a name is in use. -/
theorem retraces_compileEnds {inputs outputs : List Node}
    (hinputs : List.Forall₂ (Chronicle.Finds made) m.inputs inputs)
    (houtputs : List.Forall₂ (Chronicle.Finds made) m.outputs outputs) :
    Network.Retraces made e (· = (inputs, outputs)) (m.compileEnds ⟨.ofEngine e, e⟩) := by
  have hstart : Network.Retracing made e ⟨.ofEngine e, e⟩ := ⟨.refl, rfl, List.nil_subset _⟩
  refine (retraces_compileLayers hfed he hactive hchronicle hinputs hstart).bind ?_
  rintro _ w₁ rfl hw₁
  refine (retraces_compileLayers hfed he hactive hchronicle houtputs hw₁).bind ?_
  rintro _ w₂ rfl hw₂
  exact .given rfl hw₂

end Layers

/-! ## Targets -/

/-- The target of an output is given back. -/
theorem compileTarget_eq_of_holds {id : LayerId} {output target : Node} {name : String}
    {found : Nat × GraphNode} (he : e.Sound) (hactive : e.session.isSome)
    (hname : m.network.name id = .ok name) (hfound : Located e.graph output found)
    (htarget : e.graph.Holds target
      ⟨.placeholder, found.2.shape, .f32, some (name ++ "_Target")⟩) :
    m.compileTarget id output e = .ok target e := by
  have hshape : Engine.shape output e = .ok found.2.shape e := by
    unfold Engine.shape
    rw [bind_of_ok (checkActive_eq hactive), bind_of_ok hfound.locate_eq]
    rfl
  unfold compileTarget
  rw [bind_of_ok hshape, hname]
  exact placeholder_eq_of_holds he hactive htarget

/-- The targets of outputs are given back on an engine on which they have been asked for. -/
theorem compileTargets_again {rows : List (LayerId × Node)} {targets : List Node}
    (hsound : e₁.Sound)
    (hfirst : (rows.mapM fun (id, output) => m.compileTarget id output) e₁ = .ok targets e₂)
    (he : e.Sound) (hactive : e.session.isSome) (hext : e₂.graph.Extends e.graph) :
    (rows.mapM fun (id, output) => m.compileTarget id output) e = .ok targets e := by
  induction rows generalizing e₁ targets with
  | nil =>
    cases hfirst
    rfl
  | cons row rows ih =>
    obtain ⟨target, t, rest, htarget, hrest, rfl⟩ := mapM_cons_eq_ok_iff.1 hfirst
    obtain ⟨hchanges, name, found, hname, hfound, hholds⟩ :=
      (leads_compileTarget hsound m row.1 row.2).of_eq_ok htarget
    have hsound' := hchanges.sound hsound
    obtain ⟨hlater, -⟩ := (leads_compileTargets hsound' m rows).of_eq_ok hrest
    have hafter : t.graph.Extends e.graph := hlater.extends.trans hext
    -- the shape and the placeholder of the first run are found again on the larger graph
    have hagain := compileTarget_eq_of_holds he hactive hname
      (hfound.extend (hchanges.extends.trans hafter)) (hholds.extend hafter)
    exact mapM_cons_eq_ok_iff.2 ⟨_, _, _, hagain, ih hsound' hrest, rfl⟩

/-! ## Losses -/

/-- Once losses have been compiled, the name of the first one is in use. Compiling it again for the
same nodes appends the same nodes up to the last one, which is refused. -/
theorem exists_refused_loss {pairs : List Pairing} {losses : List Node} {targeted lost : Engine}
    (hfirst : m.compileLosses pairs targeted = .ok losses lost) (hne : m.losses.zip pairs ≠ [])
    (hpairs : ∀ pair ∈ pairs, pair.output.index < targeted.graph.size ∧
      pair.target.index < targeted.graph.size)
    (hsound : targeted.Sound) (hactive : targeted.session.isSome)
    (hactive' : e.session.isSome) (hchanges : Changes lost e) :
    ∃ name e', m.compileLosses pairs e = .error (.error (.duplicateName name)) e' ∧
      Padded (· = none) e e' := by
  obtain ⟨⟨loss, pair⟩, rest, hrows⟩ := List.exists_cons_of_ne_nil hne
  obtain ⟨houtput, htarget⟩ := hpairs pair (List.of_mem_zip (hrows ▸ List.mem_cons_self)).2
  unfold compileLosses at hfirst ⊢
  rw [hrows] at hfirst ⊢
  obtain ⟨node, t, nodes, hloss, hrest, -⟩ := mapM_cons_eq_ok_iff.1 hfirst
  rw [List.mapM_cons]
  change loss.compile pair.output pair.target (some (pair.name ++ "_Loss")) targeted = _ at hloss
  have hattaches : Attaches (some (pair.name ++ "_Loss"))
      (loss.compile pair.output pair.target (some (pair.name ++ "_Loss"))) :=
    loss.attaches_compile _ _
  obtain ⟨hpadded, hbound, -⟩ := (hattaches targeted).of_eq_ok hloss
  obtain ⟨hpadded', -, -⟩ := (leads_mapM_attaches
    (fun row : Loss × Pairing => row.2.name ++ "_Loss")
    (fun row => row.1.attaches_compile row.2.output row.2.target) rest t).of_eq_ok hrest
  have hlater : Changes t e := hpadded'.changes.trans hchanges
  have hearlier : Changes targeted e := hpadded.changes.trans hlater
  -- the nodes that have come since are passed over, and the loss starts from nodes before them
  obtain ⟨distance, hsize⟩ := Nat.exists_eq_add_of_le hearlier.size_le
  have hembeds : (Renaming.shift targeted.graph.id targeted.graph.id targeted.graph.size
      distance).Embeds targeted.graph e.graph :=
    Renaming.embeds_shift rfl hearlier.extends.id hsound.indexed.toNamed
      (hearlier.sound hsound).indexed.toNamed hsize
      (fun hn _ ho => hsound.typed.lt_of_mem_inputs hn ho) hearlier.extends.node
  have hconcur := loss.mirrors_compile Renaming.mirroring_embeds pair.output pair.target
    (some (pair.name ++ "_Loss")) targeted e ⟨hembeds, hactive, hactive'⟩
  rw [Renaming.node_shift_self houtput, Renaming.node_shift_self htarget, hloss] at hconcur
  cases hagain : loss.compile pair.output pair.target (some (pair.name ++ "_Loss")) e with
  | ok again e' =>
    obtain ⟨-, -, hfree⟩ := (hattaches e).of_eq_ok hagain
    cases (hfree _ rfl).symm.trans (hlater.find?_eq_some (hbound _ rfl))
  | error failure e' =>
    rw [hagain] at hconcur
    rcases hconcur.exists_right with ⟨_, _, hgiven, -⟩ | ⟨_, _, heq, name, rfl⟩
    · cases hgiven
    · cases heq
      exact ⟨name, e', bind_of_error hagain, (hattaches e).of_eq_error hagain⟩

/-- The outputs and their targets are there before the losses. -/
theorem Assembly.pairs_lt_size {pairs : List Pairing} {updates : List Node}
    {targeted lost summed scored trained : Engine}
    (h : m.Assembly e p pairs updates targeted lost summed scored trained e') (hsound : e.Sound)
    (hreaching : ∀ n ∈ p.inputs ++ p.outputs, Reaching Op.Passive e.graph n) :
    ∀ pair ∈ pairs, pair.output.index < targeted.graph.size ∧
      pair.target.index < targeted.graph.size := by
  obtain ⟨hchanges, names, -, htargets⟩ :=
    (leads_compileTargets hsound m _).of_eq_ok h.targets
  intro pair hpair
  obtain ⟨id, hmem⟩ := mem_of_pairings h.paired pair hpair
  obtain ⟨houtput, htarget⟩ := List.of_mem_zip (List.of_mem_zip hmem).2
  -- the output was reached before the targets, the target is held by the graph they were put in
  constructor
  · have hlt := (hreaching _ (List.mem_append_right _ houtput)).lt_size
    exact Nat.lt_of_lt_of_le hlt hchanges.size_le
  · obtain ⟨_, -, _, hholds⟩ := exists_mem_of_forall₂ htargets.flip htarget
    exact Graph.lt_size_of_getElem? hholds.2

/-! ## Models -/

/-- A model that has been compiled on an engine asks for a name in use when it is compiled there
again, whatever has been done in between. What it has appended by then bears no name. -/
theorem exists_refusal (hfed : m.network.WellFed) (hcounts : m.Counts) (hsound : e₀.Sound)
    (hcompile : m.compile e₀ = .ok p e₁) (hlater : Changes e₁ e) (hactive : e.session.isSome) :
    ∃ name e', m.compile e = .error (.error (.duplicateName name)) e' ∧
      Padded (· = none) e e' := by
  obtain ⟨made, hchronicle, hinputs, houtputs⟩ := exists_chronicle hfed hsound hcompile
  obtain ⟨inputs, outputs, w, hends, hassemble, -⟩ := exists_assembled hcompile
  obtain ⟨rfl, rfl, pairs, updates, targeted, lost, summed, scored, trained, hassembly⟩ :=
    exists_assembly hassemble
  have hsound₁ : e₁.Sound := sound_of_compile hsound hcompile
  have he : e.Sound := hlater.sound hsound₁
  have hagain := retraces_compileEnds hfed he hactive
    (hchronicle.extend (fun _ => .refl _) hlater.extends) hinputs houtputs
  unfold compile
  cases hends' : m.compileEnds ⟨.ofEngine e, e⟩ with
  | error failure w' =>
    rw [hends'] at hagain
    obtain _ | ⟨⟨name, rfl⟩, hreported⟩ := hagain
    exact ⟨name, w'.engine, rfl, hreported.padded⟩
  | ok ends w' =>
    rw [hends'] at hagain
    obtain ⟨rfl, hw'⟩ | _ := hagain
    obtain ⟨hgraph, hsession⟩ := hw'.unchanged
    -- the layers are input layers, and the targets are given back as well
    have hwsound : w.engine.Sound := keeping_compileEnds buildable_sound m _ _ _ hsound hends
    have htargetedSound := (hassembly.changes_targeted hwsound).sound hwsound
    have hscored := hassembly.changes_scored hwsound
    have hafter : Changes lost e :=
      (hassembly.padded_lost.changes.trans
        (hassembly.changes_of_scored (hscored.sound hwsound))).trans hlater
    have hlater' : Changes targeted e :=
      (padded_compileLosses hassembly.losses).1.changes.trans hafter
    have htargets := compileTargets_again hwsound hassembly.targets
      (hw'.reported.changes.sound he) (hsession ▸ hactive) (hgraph ▸ hlater'.extends)
    have hne : m.losses.zip pairs ≠ [] := by
      have hpairCount := (hassembly.lengths hwsound houtputs.length_eq).2
      have houtputCount := List.length_pos_of_ne_nil hcounts.outputs
      refine List.ne_nil_of_length_pos ?_
      rw [List.length_zip, hcounts.losses, hpairCount, Nat.min_self]
      exact houtputCount
    obtain ⟨name, e', hloss, hpadded⟩ := exists_refused_loss (e := w'.engine) hassembly.losses
      hne (hassembly.pairs_lt_size hwsound (reaching_of_compileEnds hends)) htargetedSound
      (hlater'.isSome hactive) (hsession ▸ hactive) (hafter.trans hw'.reported.changes)
    refine ⟨name, e', ?_, hw'.reported.padded.trans hpadded⟩
    have hgoal : m.compileGoal p.outputs w'.engine = .error (.error (.duplicateName name)) e' := by
      unfold compileGoal
      rw [bind_of_ok htargets, hassembly.paired]
      exact (bind_of_ok (lift_eq_ok_iff.2 ⟨rfl, rfl⟩)).trans (bind_of_error hloss)
    dsimp only
    rw [assemble_eq]
    exact bind_of_error hgoal

/-- Compiling a model again on an engine on which it has been compiled is refused for a name in use,
whatever has been done with the engine in between, as long as it is alive. The engine is not
damaged: at most nodes that are no variables and bear no names have been appended, names and trained
variables are the same, and every variable has the value that it had. All functions over the nodes
that there were give the same as before, and so does the program that was compiled the first time,
however it is used. -/
theorem recompiling_is_refused {inputs outputs : List LayerId} {losses : List Loss}
    {descent : Descent} {metrics : List Metric} (hgrown : n.Grown)
    (hcreate : Model.create n inputs outputs losses descent metrics = .ok m)
    (hreachable : e₀.Reachable) (hcompile : m.compile e₀ = .ok p e₁) (hlater : Changes e₁ e)
    (hactive : e.session.isSome) :
    ∃ name e', m.compile e = .error (.error (.duplicateName name)) e' ∧
      Padded (· = none) e e' ∧
      (∀ s, e'.find? s = e.find? s) ∧ e'.trainableWeights = e.trainableWeights ∧
      e'.valueOf = e.valueOf ∧
      (∀ f : Function, f.Within e.graph → ∀ overrides,
        answer (execute f overrides) e' = answer (execute f overrides) e) ∧
      ∀ us, p.transcript us e' = p.transcript us e := by
  have hcounts := counts_of_create hcreate
  obtain ⟨rfl, -⟩ := create_eq_ok hcreate
  have hsound : e.Sound := hlater.sound (sound_of_compile hreachable.sound hcompile)
  obtain ⟨name, e', hrefused, hpadded⟩ :=
    exists_refusal hgrown.wellFed hcounts hreachable.sound hcompile hlater hactive
  -- only nodes without names have been appended, so lookup by name is as it was
  have hext := hpadded.changes.extends
  have hfind := hpadded.find?_eq
  have hwithin : p.Within e.graph := (within_of_compile hcompile).extend hlater.extends
  refine ⟨name, e', hrefused, hpadded, fun s => ?_, hpadded.trainableWeights_eq,
    hpadded.wider.valueOf_eq hfind, fun f hf overrides => ?_, fun us => ?_⟩
  · rw [find?, find?, hfind, hpadded.handle_eq]
  · exact answer_eq_of_agree
      (blind_execute_within hsound.typed hext hf overrides e e' hpadded.wider)
  · exact Program.transcript_widen hsound.typed hext hwithin hfind us hpadded.wider

/-- A chain of layers cannot be compiled twice on one engine, and goes on predicting the same. -/
theorem chained_refuses_recompiling : ∃ p e name e',
    createChained [⟨0, 0⟩] = .ok (chainedModel [⟨0, 0⟩]) ∧
    (chainedModel [⟨0, 0⟩]).compile (.create 0 0) = .ok p e ∧
    (chainedModel [⟨0, 0⟩]).compile e = .error (.error (.duplicateName name)) e' ∧
    ∀ features, p.transcript [.predict features] e' = p.transcript [.predict features] e := by
  have hcreate : createChained [⟨0, 0⟩] = .ok (chainedModel [⟨0, 0⟩]) := rfl
  obtain ⟨p, e, hcompile⟩ := exists_of_gives (c := (chainedModel [⟨0, 0⟩]).compile)
    (e := .create 0 0) (by decide +kernel)
  obtain ⟨name, e', hrefused, -, -, -, -, -, hsame⟩ := recompiling_is_refused grown_chained hcreate
    (.create 0 0) hcompile .refl (isSome_of_compile hcompile)
  exact ⟨p, e, name, e', hcreate, hcompile, hrefused, fun features => hsame [.predict features]⟩

end Model
end TensorGraph
