import TensorGraph.Proofs.Model.Inference
import TensorGraph.Proofs.Model.Layout
import TensorGraph.Proofs.Network.Workshop

/-!
# What a compiled model predicts

A model over a grown network predicts matrices: an output has one row for every row of the features,
and as many columns as its layer declares. A model that lists one of its inputs twice compiles like
any other, but can never be asked: executing a function uses an override up at the first place of
its input, and none is left for the second one.

## Main definitions

* `Model.Stands`: a compiled model as it is found on an engine.

## Main results

* `Model.stands_of_compile`: a compiled model stands on every later engine.
* `Model.predicts_unless_repeated`: a model predicts unless an input of it is repeated.
-/

namespace TensorGraph

open Engine

variable {n : Network} {m : Model} {p : Program} {e e' e₀ e₁ : Engine} {s : Session}
  {features ys : List Value} {rows start count : Nat}

/-- The slots of the inputs of a program. -/
def Program.Feeds (p : Program) (slot : Nat) : Prop := ∃ node ∈ p.inputs, node.index = slot

namespace Model

/-! ## The checks of a model -/

/-- The inputs of a network that a layer depends on are all listed. -/
def Listed (n : Network) (inputs : List LayerId) (id : LayerId) : Prop :=
  ∃ ls, n.lineage id = .ok ls ∧ ∀ up ∈ ls, up.2.isInput → up.1 ∈ inputs

/-- An output that is accepted depends on listed inputs only. -/
theorem listed_of_checkOutput {inputs : List LayerId} {id : LayerId}
    (h : checkOutput n inputs id = .ok ()) : Listed n inputs id := by
  obtain ⟨ids, hids, hfind⟩ := except_bind_eq_ok_iff.1 h
  obtain ⟨ls, hls, rfl⟩ := except_map_eq_ok_iff.1 hids
  refine ⟨ls, hls, fun up hup hinput => ?_⟩
  split at hfind
  · obtain ⟨_, -, hfind⟩ := except_bind_eq_ok_iff.1 hfind
    obtain ⟨_, -, hfind⟩ := except_bind_eq_ok_iff.1 hfind
    cases hfind
  · -- the search for an input that is not listed came to nothing
    next hnone =>
    have hmem : up.1 ∈ (ls.filter (·.2.isInput)).map (·.1) :=
      List.mem_map_of_mem (List.mem_filter.2 ⟨hup, hinput⟩)
    simpa using List.find?_eq_none.1 hnone _ hmem

/-- An input that is accepted is an input layer. -/
theorem isInput_of_checkInput {id : LayerId} (h : checkInput n id = .ok ()) :
    ∃ named, n.layer? id = some named ∧ named.layer.isInput := by
  obtain ⟨named, hnamed, hcheck⟩ := except_bind_eq_ok_iff.1 h
  refine ⟨named, Network.layer_eq_ok_iff.1 hnamed, ?_⟩
  split at hcheck
  · cases hcheck
  · next hinput => simpa using hinput

/-- A model that is accepted lists input layers, among them all those that an output depends on. -/
theorem create_eq_ok {inputs outputs : List LayerId} {losses : List Loss} {descent : Descent}
    {metrics : List Metric} (h : Model.create n inputs outputs losses descent metrics = .ok m) :
    m = ⟨n, inputs, outputs, losses, descent, metrics⟩ ∧
      (∀ id ∈ inputs, ∃ named, n.layer? id = some named ∧ named.layer.isInput) ∧
      ∀ id ∈ outputs, Listed n inputs id := by
  unfold create at h
  -- the four counts
  simp only [unless_throw_eq_ok_iff] at h
  obtain ⟨-, -, -, -, h⟩ := h
  obtain ⟨_, hinputs, h⟩ := except_bind_eq_ok_iff.1 h
  obtain ⟨_, houtputs, h⟩ := except_bind_eq_ok_iff.1 h
  cases h
  exact ⟨rfl, fun id hid => isInput_of_checkInput (forM_eq_ok_iff.1 hinputs id hid),
    fun id hid => listed_of_checkOutput (forM_eq_ok_iff.1 houtputs id hid)⟩

/-! ## A compiled model on an engine -/

/-- A compiled model as it is found on an engine: its inputs are placeholders of matrices, and its
outputs are computed from them row by row. -/
structure Stands (m : Model) (p : Program) (e : Engine) : Prop where
  sound : e.Sound
  predictFunction : p.predictFunction = .ofNodes e.graph.id p.inputs p.outputs []
  inputs : List.Forall₂ (fun id node => ∃ cols : Nat,
    m.network.shape id = .ok [openAxis, (cols : Int)] ∧
      ∃ name, e.graph.Holds node ⟨.placeholder, [openAxis, (cols : Int)], .f32, name⟩)
    m.inputs p.inputs
  outputs : List.Forall₂ (fun id node => ∃ cols : Nat,
    m.network.shape id = .ok [openAxis, (cols : Int)] ∧
      (∃ k, e.graph.Holds node k ∧ k.type = .f32) ∧
      e.graph.Rowwise p.Feeds node.index cols) m.outputs p.outputs
  nodup : m.inputs.Nodup ↔ p.inputs.Nodup

/-- What is known of all nodes that have been made is known of those that are found. -/
theorem forall₂_of_finds {made : List (LayerId × Blueprint)} {R : LayerId → Node → Prop}
    {ids : List LayerId} {nodes : List Node}
    (hfinds : List.Forall₂ (Chronicle.Finds made) ids nodes)
    (h : ∀ id ∈ ids, ∀ b, (id, b) ∈ made → R id b.output) : List.Forall₂ R ids nodes := by
  induction hfinds with
  | nil => exact .nil
  | cons hhead _ ih =>
    obtain ⟨b, hb, rfl⟩ := hhead
    rw [List.forall_mem_cons] at h
    exact .cons (h.1 b hb) (ih h.2)

/-- A compiled model stands on every engine on which it can find itself later. -/
theorem stands_of_compile {inputs outputs : List LayerId} {losses : List Loss} {descent : Descent}
    {metrics : List Metric} (hgrown : n.Grown)
    (hcreate : Model.create n inputs outputs losses descent metrics = .ok m)
    (hreachable : e₀.Reachable) (hcompile : m.compile e₀ = .ok p e₁) (hlater : Changes e₁ e) :
    m.Stands p e := by
  obtain ⟨rfl, hinputs, houtputs⟩ := create_eq_ok hcreate
  have hfed := hgrown.wellFed
  have hsound := hlater.sound (sound_of_compile hreachable.sound hcompile)
  obtain ⟨made, hmade, hfinds, hfinds'⟩ := exists_chronicle hfed hreachable.sound hcompile
  have hchronicle := hmade.extend (fun _ => .refl _) hlater.extends
  -- a layer has one node, so the node that is found for an input is the one that is fed
  have hfeeds : ∀ id ∈ inputs, ∀ node, Chronicle.Finds made id node → p.Feeds node.index := by
    intro id hid node hnode
    obtain ⟨node', hnode', hfind⟩ := exists_mem_of_forall₂ hfinds hid
    rw [(hchronicle.biUnique hfed).2 hnode hfind]
    exact ⟨node', hnode', rfl⟩
  refine ⟨hsound, ((reads_of_compile hreachable.sound hcompile).extend
    hlater.extends).predictFunction, ?_, ?_, hchronicle.nodup_iff hfed hfinds⟩
  · refine forall₂_of_finds hfinds fun id hid b hb => ?_
    obtain ⟨named, hnamed, hinput⟩ := hinputs id hid
    exact hchronicle.exists_placeholder hsound.typed hb hnamed hinput
  · refine forall₂_of_finds hfinds' fun id hid b hb => ?_
    obtain ⟨ls, hls, hall⟩ := houtputs id hid
    obtain ⟨cols, hcols, hrows⟩ :=
      hchronicle.rowwise hfed hsound.typed hfeeds hb hls hall
    obtain ⟨_, _, _, -, hholds⟩ := hchronicle.exists_holds (fun _ => hfed) hb
    exact ⟨cols, hcols, ⟨_, hholds, rfl⟩, hrows⟩

end Model

/-! ## What is fed -/

/-- The last binding of a node is one of its bindings. -/
theorem Function.mem_of_lastBinding? {bindings : List (Node × Value)} {node : Node} {v : Value}
    (h : lastBinding? bindings node = some v) : (node, v) ∈ bindings := by
  obtain ⟨binding, hfind, rfl⟩ := Option.map_eq_some_iff.1 h
  have hnode : binding.1 = node := by simpa using List.find?_some hfind
  exact hnode ▸ List.mem_reverse.1 (List.mem_of_find?_eq_some hfind)

/-- Feeds that differ in what they feed put related tensors into the same slots. -/
theorem get?_feedTable_of_forall₂ {f : Tensor Float32 → Tensor Float32}
    {feeds feeds' : List (Node × Value)}
    (h : List.Forall₂ (fun feed feed' => feed'.1 = feed.1 ∧
      (.ofValue feed'.2 : Tensor Float32) = f (.ofValue feed.2)) feeds feeds')
    {table table' : SlotMap (Tensor Float32)}
    (htable : ∀ {slot t}, table.get? slot = some t → table'.get? slot = some (f t)) {slot : Nat}
    {t : Tensor Float32} (ht : (feedTable feeds table).get? slot = some t) :
    (feedTable feeds' table').get? slot = some (f t) := by
  induction h generalizing table table' with
  | nil => exact htable ht
  | @cons feed feed' _ _ hfeed _ ih =>
    obtain ⟨hnode, hvalue⟩ := hfeed
    refine ih (fun {s u} hu => ?_) ht
    dsimp only at hu ⊢
    rw [hnode]
    -- the last feed of a slot wins in both tables
    by_cases hs : s = feed.1.index
    · subst hs
      rw [SlotMap.get?_insert_self, Option.some.injEq] at hu
      rw [SlotMap.get?_insert_self, hvalue, hu]
    · rw [SlotMap.get?_insert_of_ne _ _ hs] at hu ⊢
      exact htable hu

namespace Program

/-- What a prediction reads. -/
def predictSetting (p : Program) (e : Engine) (s : Session) (features : List Value) :
    Setting Float32 :=
  e.setting s .inference (feedTable (p.inputs.zip features) .empty)

end Program

namespace Model.Stands

/-- Features for the inputs of a model: one matrix for each, all with the same number of rows. -/
structure Fits (p : Program) (e : Engine) (rows : Nat) (features : List Value) : Prop where
  feeds : List.Forall₂ (fun node v => Admitted e.graph (node, v)) p.inputs features
  rows : ∀ v ∈ features, v.rows = some rows

/-- There is one matrix for each input. -/
theorem Fits.length (h : Fits p e rows features) : features.length = p.inputs.length :=
  h.feeds.length_eq.symm

/-- The matrices may be fed into the inputs. -/
theorem Fits.admitted (h : Fits p e rows features) :
    ∀ feed ∈ p.inputs.zip features, Admitted e.graph feed :=
  fun _ hfeed => (List.forall₂_iff_zip.1 h.feeds).2 hfeed

/-- An input is a placeholder of matrices with any number of rows. -/
theorem exists_placeholder (h : m.Stands p e) {node : Node} (hnode : node ∈ p.inputs) :
    ∃ (cols : Nat) (name : Option String),
      e.graph.Holds node ⟨.placeholder, [openAxis, (cols : Int)], .f32, name⟩ := by
  obtain ⟨id, -, cols, -, name, hholds⟩ := exists_mem_of_forall₂ h.inputs.flip hnode
  exact ⟨cols, name, hholds⟩

/-- An output is computed row by row. -/
theorem exists_rowwise (h : m.Stands p e) {node : Node} (hnode : node ∈ p.outputs) :
    ∃ k cols, e.graph.Holds node k ∧ e.graph.Rowwise p.Feeds node.index cols := by
  obtain ⟨id, -, cols, -, ⟨k, hholds, -⟩, hrows⟩ := exists_mem_of_forall₂ h.outputs.flip hnode
  exact ⟨k, cols, hholds, hrows⟩

/-- What may be fed into a placeholder of matrices is a matrix with as many columns. -/
theorem shape_of_admitted {g : Graph} {node : Node} {v : Value} {cols : Nat} {name : Option String}
    (hnode : g.Holds node ⟨.placeholder, [openAxis, (cols : Int)], .f32, name⟩)
    (hv : Admitted g (node, v)) (hrows : v.rows = some rows) :
    v.type = .f32 ∧ v.shape = [rows, cols] ∧ 0 < cols := by
  obtain ⟨found, hfound, htype, hfits, hpos⟩ := hv
  obtain hfound := Option.some.inj (hnode.2.symm.trans hfound.node)
  rw [← hfound] at htype hfits
  obtain ⟨r, c, hshape, -, hcpos, hc⟩ := (DeclaredShape.covers_of_admits hfits hpos).exists_pair rfl
  rw [Value.rows, hshape, List.head?_cons, Option.some.injEq] at hrows
  simp only [openAxis] at hc
  obtain rfl : c = cols := by omega
  exact ⟨htype, by rw [hshape, hrows], hcpos⟩

/-- A matrix with rows may be fed into a placeholder of its width. -/
theorem admitted_of_shape {g : Graph} {node : Node} {v : Value} {cols : Nat} {name : Option String}
    (hnode : g.Holds node ⟨.placeholder, [openAxis, (cols : Int)], .f32, name⟩)
    (htype : v.type = .f32) (hshape : v.shape = [rows, cols]) (hrows : 0 < rows)
    (hcols : 0 < cols) : Admitted g (node, v) := by
  refine ⟨_, hnode.located, htype, ?_, ?_⟩
  · simp [Value.fits, DeclaredShape.admits, hshape]
  · rw [hshape]
    simp
    omega

/-- Features that fit supply every input with as many rows. -/
theorem supplies (h : m.Stands p e) (hs : e.session = some s) (hfits : Fits p e rows features) :
    (p.predictSetting e s features).Supplies p.Feeds rows := by
  have hget : ∀ slot, (feedTable (p.inputs.zip features) .empty).get? slot =
      (Function.lastBinding? (p.inputs.zip features) (e.graph.handle slot)).map .ofValue := by
    intro slot
    have hgraph : ∀ feed ∈ p.inputs.zip features, feed.1.graph = e.graph.id := by
      intro feed hfeed
      obtain ⟨_, hfound, -⟩ := hfits.admitted feed hfeed
      exact hfound.graph
    rw [get?_feedTable hgraph, SlotMap.get?_empty, Option.or_none]
  constructor
  case fits =>
    exact h.sound.fits hs (checked_feedTable hfits.admitted (checked_empty e.graph))
  case stored => exact (h.sound.holds hs).isSome
  case isSome =>
    rintro slot ⟨node, hnode, rfl⟩
    -- every input is fed
    have hkeys : (p.inputs.zip features).map (·.1) = p.inputs :=
      List.map_fst_zip (Nat.le_of_eq hfits.length.symm)
    obtain ⟨feed, hfeed, rfl⟩ := List.mem_map.1 (hkeys.symm ▸ hnode)
    obtain ⟨_, hfound, -⟩ := hfits.admitted feed hfeed
    have hhandle : e.graph.handle feed.1.index = feed.1 := by rw [Graph.handle, ← hfound.graph]
    change ((feedTable (p.inputs.zip features) .empty).get? feed.1.index).isSome
    rw [hget, Option.isSome_map, hhandle, Function.isSome_lastBinding?_iff]
    exact List.mem_map_of_mem hfeed
  case rows =>
    intro slot t ht
    change (feedTable (p.inputs.zip features) .empty).get? slot = some t at ht
    rw [hget] at ht
    obtain ⟨v, hv, rfl⟩ := Option.map_eq_some_iff.1 ht
    rw [Tensor.shape_ofValue]
    exact hfits.rows v (List.of_mem_zip (Function.mem_of_lastBinding? hv)).2

/-! ## Predictions -/

/-- A model whose inputs are not repeated predicts from features that fit. -/
theorem exists_predict (h : m.Stands p e) (hs : e.session = some s) (hnodup : p.inputs.Nodup)
    (hfits : Fits p e rows features) : ∃ ys e', p.predict features e = .ok ys e' := by
  have hcheck : lift (p.checkFeatures features) e = .ok () e := by
    rw [Program.checkFeatures, if_pos hfits.length]
    rfl
  have hresolve : p.predictFunction.resolve (p.inputs.zip features) =
      .ok (p.inputs.zip features) := by
    rw [h.predictFunction]
    exact Function.resolve_zip_of_nodup hnodup hfits.length
  have hresolved : lift (p.predictFunction.resolve (p.inputs.zip features)) e =
      .ok (p.inputs.zip features) e := by
    rw [hresolve]
    rfl
  have hlocated : ∀ node ∈ p.outputs, ∃ found, Located e.graph node found := by
    intro node hnode
    obtain ⟨k, cols, hholds, -⟩ := h.exists_rowwise hnode
    exact ⟨_, hholds.located⟩
  have htargets : ∀ t ∈ p.outputs.map (·.index), ∃ cols, e.graph.Rowwise p.Feeds t cols := by
    refine List.forall_mem_map.2 fun node hnode => ?_
    obtain ⟨k, cols, -, hrows⟩ := h.exists_rowwise hnode
    exact ⟨cols, hrows⟩
  -- every output is computed row by row, and such nodes always have a value
  obtain ⟨ev, hev⟩ := (h.supplies hs hfits).exists_evaluate h.sound.typed htargets s.streams
  rw [← List.append_nil p.outputs] at hlocated hev
  have hrun : gives (run p.predictFunction (p.inputs.zip features)) e := by
    rw [h.predictFunction]
    exact gives_run hs rfl hfits.admitted hlocated hev
  exact exists_of_gives (gives_bind hcheck (gives_bind hresolved hrun))

/-- Whatever is predicted comes from a run on the features. -/
theorem exists_ran (h : m.Stands p e) (hpredict : p.predict features e = .ok ys e')
    (hrows : ∀ v ∈ features, v.rows = some rows) :
    p.inputs.Nodup ∧ Fits p e rows features ∧
      ∃ s ev, Ran e s p.predictFunction (p.inputs.zip features) ev ys e' := by
  obtain ⟨_, e₂, hcheck, hexecute⟩ := bind_eq_ok_iff.1 hpredict
  have hlength : features.length = p.inputs.length := by
    by_contra hne
    rw [Program.checkFeatures, if_neg hne] at hcheck
    cases hcheck
  rw [Program.checkFeatures, if_pos hlength] at hcheck
  cases hcheck
  obtain ⟨feeds, s, ev, hfeeds, hran⟩ := (leads_execute _ _).of_eq_ok hexecute
  have hdefaults : p.predictFunction.defaults = [] := by rw [h.predictFunction]; rfl
  have hinputs : p.predictFunction.inputs = p.inputs := by rw [h.predictFunction]; rfl
  -- inputs without defaults are all resolved only if none of them occurs twice
  have hnodup := Function.nodup_of_resolve hdefaults hfeeds
  rw [← hinputs] at hfeeds hlength
  obtain rfl := Function.resolve_zip hdefaults hlength hfeeds
  rw [hinputs] at hnodup hran hlength
  exact ⟨hnodup, ⟨List.forall₂_iff_zip.2 ⟨hlength.symm, fun hfeed => hran.admitted _ hfeed⟩, hrows⟩,
    s, ev, hran⟩

/-- The evaluation of a prediction. -/
theorem settled (h : m.Stands p e) {ev : Evaluation Float32}
    (hran : Ran e s p.predictFunction (p.inputs.zip features) ev ys e') :
    Settled (p.predictSetting e s features)
        (e.graph.schedule (p.outputs.map (·.index))).reverse ev ∧
      e.graph.Finished (e.graph.schedule (p.outputs.map (·.index))).reverse ∧
      ∀ node ∈ p.outputs, node.index ∈ (e.graph.schedule (p.outputs.map (·.index))).reverse := by
  have hsettled := hran.settled h.sound
  have hfinished := hran.finished h.sound
  have hlisted := fun t => hran.mem_listed_iff h.sound (t := t)
  simp only [h.predictFunction, Function.ofNodes, List.append_nil] at hsettled hfinished hlisted
  exact ⟨hsettled, hfinished, fun node hnode => (hlisted _).2 ⟨node, hnode, .refl⟩⟩

/-- Predictions have the rows of the features and the columns of their layers. -/
theorem shapes (h : m.Stands p e) (hfits : Fits p e rows features) {ev : Evaluation Float32}
    (hran : Ran e s p.predictFunction (p.inputs.zip features) ev ys e') :
    List.Forall₂ (fun id y => ∃ cols : Nat, m.network.shape id = .ok [openAxis, (cols : Int)] ∧
      y.type = .f32 ∧ y.shape = [rows, cols]) m.outputs ys := by
  obtain ⟨hsettled, hfinished, hlisted⟩ := h.settled hran
  have hvalues := hran.values
  simp only [h.predictFunction, Function.ofNodes] at hvalues
  refine forall₂_compose h.outputs hvalues ?_
  rintro id node y hnode ⟨cols, hcols, ⟨k, hholds, htype⟩, hrows⟩ ⟨k', hk', rfl⟩
  obtain rfl := Option.some.inj (hholds.2.symm.trans hk')
  refine ⟨cols, hcols, by rw [Tensor.type_toValue, htype], ?_⟩
  rw [Tensor.shape_toValue]
  exact hsettled.shape_of_rowwise (h.supplies hran.active hfits) hfinished hrows
    (hlisted node hnode)

end Model.Stands

/-! ## Whether a model predicts -/

namespace Function

/-- What is missing is a value for one of the inputs. -/
theorem exists_unresolved {f : Function} {inputs : List Node} {overrides : List (Node × Value)}
    {err : Error} (h : f.resolveInputs inputs overrides = .error err) :
    ∃ input ∈ inputs, err = .unresolvedInput input.label := by
  induction inputs generalizing overrides with
  | nil => cases h
  | cons input inputs ih =>
    simp only [resolveInputs] at h
    split at h
    · cases h
      exact ⟨input, List.mem_cons_self, rfl⟩
    · cases hrest : f.resolveInputs inputs (overrides.filter (·.1 ≠ input)) with
      | ok feeds =>
        rw [hrest] at h
        cases h
      | error err' =>
        rw [hrest] at h
        cases h
        obtain ⟨input', hmem, herr⟩ := ih hrest
        exact ⟨input', List.mem_cons_of_mem _ hmem, herr⟩

/-- Overriding every place of a repeated input leaves a place of it without a value. -/
theorem resolve_zip_of_not_nodup {f : Function} (hdefaults : f.defaults = [])
    (hrepeated : ¬f.inputs.Nodup) (values : List Value) :
    ∃ input ∈ f.inputs,
      f.resolve (f.inputs.zip values) = .error (.unresolvedInput input.label) := by
  cases hresolve : f.resolve (f.inputs.zip values) with
  | ok feeds => exact absurd (nodup_of_resolve hdefaults hresolve) hrepeated
  | error err =>
    have hresolve' := hresolve
    unfold resolve at hresolve'
    split at hresolve'
    · -- every override is of an input, so none of them is stray
      next node _ hstray =>
      have hinput := (List.of_mem_zip (List.mem_of_find?_eq_some hstray)).1
      exact absurd (List.find?_some hstray) (by simp [hinput])
    · obtain ⟨input, hinput, rfl⟩ := exists_unresolved hresolve'
      exact ⟨input, hinput, rfl⟩

end Function

namespace Model

/-- A matrix of numbers for every input, with as many columns as its layer declares and with the
same number of rows, is what a model can be asked with. -/
theorem Stands.fits_of_shapes (h : m.Stands p e) (hrows : 0 < rows)
    (hfeatures : List.Forall₂ (fun id v => ∃ cols : Nat,
      m.network.shape id = .ok [openAxis, (cols : Int)] ∧ v.type = .f32 ∧ v.shape = [rows, cols])
      m.inputs features) : Stands.Fits p e rows features := by
  refine ⟨forall₂_compose h.inputs.flip hfeatures ?_, fun v hv => ?_⟩
  · rintro node id v - ⟨cols, hcols, name, hholds⟩ ⟨cols', hcols', htype, hshape⟩
    cases hcols.symm.trans hcols'
    -- a declared axis is not empty
    have hpos := (h.sound.typed.held hholds.2).pos_or_open cols (by simp)
    exact admitted_of_shape hholds htype hshape hrows (by simp only [openAxis] at hpos; omega)
  · obtain ⟨id, -, cols, -, -, hshape⟩ := exists_mem_of_forall₂ hfeatures.flip hv
    rw [Value.rows, hshape, List.head?_cons]

/-- A model that lists an input twice misses a value for one of its inputs. -/
theorem Stands.exists_unresolved (h : m.Stands p e) (hrepeated : ¬p.inputs.Nodup)
    (hlength : features.length = p.inputs.length) : ∃ input ∈ p.inputs,
      p.predict features e = .error (.error (.unresolvedInput input.label)) e := by
  have hinputs : p.predictFunction.inputs = p.inputs := by rw [h.predictFunction]; rfl
  obtain ⟨input, hinput, hresolve⟩ := Function.resolve_zip_of_not_nodup (f := p.predictFunction)
    (by rw [h.predictFunction]; rfl) (by rwa [hinputs]) features
  rw [hinputs] at hinput hresolve
  refine ⟨input, hinput, ?_⟩
  simp only [Program.predict, Program.checkFeatures, if_pos hlength, execute, hresolve]
  rfl

/-- A compiled model predicts unless it lists an input twice. Whatever matrices it is asked with, of
as many columns as its inputs declare and with a number of rows in common, it gives one matrix for
every output, with as many columns as the output declares and the same number of rows. A model that
lists an input twice compiles, too, but every question fails for want of a value. -/
theorem predicts_unless_repeated {inputs outputs : List LayerId} {losses : List Loss}
    {descent : Descent} {metrics : List Metric} (hgrown : n.Grown)
    (hcreate : Model.create n inputs outputs losses descent metrics = .ok m)
    (hreachable : e₀.Reachable) (hcompile : m.compile e₀ = .ok p e₁) :
    e₁.session.isSome ∧
    ∀ e, Changes e₁ e → e.session.isSome → ∀ (rows : Nat) (features : List Value), 0 < rows →
      List.Forall₂ (fun id v => ∃ cols : Nat, n.shape id = .ok [openAxis, (cols : Int)] ∧
        v.type = .f32 ∧ v.shape = [rows, cols]) inputs features →
      (inputs.Nodup → ∃ ys e', p.predict features e = .ok ys e' ∧
        List.Forall₂ (fun id y => ∃ cols : Nat, n.shape id = .ok [openAxis, (cols : Int)] ∧
          y.type = .f32 ∧ y.shape = [rows, cols]) outputs ys) ∧
      (¬inputs.Nodup → ∃ input ∈ p.inputs,
        p.predict features e = .error (.error (.unresolvedInput input.label)) e) := by
  have hcreated := (create_eq_ok hcreate).1
  refine ⟨isSome_of_compile hcompile, ?_⟩
  intro e hlater hactive rows features hrows hfeatures
  -- the model stands on the later engine as it did on the one that compiled it
  have hstands := stands_of_compile hgrown hcreate hreachable hcompile hlater
  subst hcreated
  obtain ⟨s, hs⟩ := Option.isSome_iff_exists.1 hactive
  have hfits := hstands.fits_of_shapes hrows hfeatures
  constructor
  · intro hnodup
    obtain ⟨ys, e', hpredict⟩ := hstands.exists_predict hs (hstands.nodup.1 hnodup) hfits
    obtain ⟨-, -, s', ev, hran⟩ := hstands.exists_ran hpredict hfits.rows
    exact ⟨ys, e', hpredict, hstands.shapes hfits hran⟩
  · exact fun hrepeated =>
      hstands.exists_unresolved (fun hnodup => hrepeated (hstands.nodup.2 hnodup)) hfits.length

/-- A model over an input, a dense layer and a dropout, with the inputs listed as given. -/
def chainedModel (inputs : List LayerId) : Model where
  network := Workshop.chained 3
  inputs := inputs
  outputs := [⟨0, 2⟩, ⟨0, 1⟩]
  losses := [.meanSquaredError, .meanSquaredError]
  descent := .halves
  metrics := []

theorem grown_chained : (Workshop.chained 3).Grown :=
  .add (.add (.add (.empty 0) (Workshop.add_chained 0 (by decide)))
    (Workshop.add_chained 1 (by decide))) (Workshop.add_chained 2 (by decide))

/-- Whether the model is accepted with the inputs listed as given. -/
def createChained (inputs : List LayerId) : Except Error Model :=
  create (Workshop.chained 3) inputs [⟨0, 2⟩, ⟨0, 1⟩] [.meanSquaredError, .meanSquaredError]
    (chainedModel inputs).descent []

theorem chained_predicts : ∃ p e ys e', createChained [⟨0, 0⟩] = .ok (chainedModel [⟨0, 0⟩]) ∧
    (chainedModel [⟨0, 0⟩]).compile (.create 0 0) = .ok p e ∧
    p.predict [.full [2, 2] 1] e = .ok ys e' ∧ ys.map (·.shape) = [[2, 3], [2, 3]] := by
  have hcreate : createChained [⟨0, 0⟩] = .ok (chainedModel [⟨0, 0⟩]) := rfl
  obtain ⟨p, e, hcompile⟩ := exists_of_gives (c := (chainedModel [⟨0, 0⟩]).compile)
    (e := .create 0 0) (by decide +kernel)
  obtain ⟨hactive, hpredicts⟩ :=
    predicts_unless_repeated grown_chained hcreate (.create 0 0) hcompile
  obtain ⟨hanswered, -⟩ := hpredicts e .refl hactive 2 [.full [2, 2] 1] (by decide)
    (.cons ⟨2, rfl, rfl, rfl⟩ .nil)
  obtain ⟨ys, e', hpredict, hshapes⟩ := hanswered (by decide)
  refine ⟨p, e, ys, e', hcreate, hcompile, hpredict, ?_⟩
  -- both layers are declared with three columns
  have hdropout : (Workshop.chained 3).shape ⟨0, 2⟩ = .ok [openAxis, 3] := rfl
  have hdense : (Workshop.chained 3).shape ⟨0, 1⟩ = .ok [openAxis, 3] := rfl
  obtain _ | ⟨⟨cols, hcols, -, hy⟩, _ | ⟨⟨cols', hcols', -, hy'⟩, ⟨⟩⟩⟩ := hshapes
  simp only [hdropout, hdense, Except.ok.injEq, List.cons.injEq] at hcols hcols'
  obtain rfl : cols = 3 := by omega
  obtain rfl : cols' = 3 := by omega
  simp [hy, hy']

/-- The same model with its input listed twice is accepted and compiles, but cannot be asked with
two matrices for the two inputs. -/
theorem chained_refuses_repeated : ∃ p e input,
    createChained [⟨0, 0⟩, ⟨0, 0⟩] = .ok (chainedModel [⟨0, 0⟩, ⟨0, 0⟩]) ∧
    (chainedModel [⟨0, 0⟩, ⟨0, 0⟩]).compile (.create 0 0) = .ok p e ∧
    p.predict [.full [1, 2] 1, .full [1, 2] 1] e = .error (.error (.unresolvedInput input)) e := by
  have hcreate : createChained [⟨0, 0⟩, ⟨0, 0⟩] = .ok (chainedModel [⟨0, 0⟩, ⟨0, 0⟩]) := rfl
  obtain ⟨p, e, hcompile⟩ := exists_of_gives (c := (chainedModel [⟨0, 0⟩, ⟨0, 0⟩]).compile)
    (e := .create 0 0) (by decide +kernel)
  have hstands := stands_of_compile grown_chained hcreate (.create 0 0) hcompile .refl
  have hlength : [Value.full [1, 2] 1, .full [1, 2] 1].length = p.inputs.length :=
    hstands.inputs.length_eq
  obtain ⟨input, -, hpredict⟩ := hstands.exists_unresolved
    (fun hnodup => by simpa [chainedModel] using hstands.nodup.2 hnodup) hlength
  exact ⟨p, e, _, hcreate, hcompile, hpredict⟩

end Model
end TensorGraph
