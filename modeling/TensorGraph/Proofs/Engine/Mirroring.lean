import TensorGraph.Proofs.Engine.Renaming

/-!
# Building side by side

Calls that build a graph may be made on two engines, when the nodes of the one are found again in
the graph of the other one. They append a node and its renamed copy, or both refuse; and if the
variables are found again as well, new variables get the same first values. The second engine may
also refuse a name that is only taken there.

## Main definitions

* `Renaming.Mirrors`: calls that do the same side by side.

## Main results

* `Renaming.Mirroring.register`: appending a node and its renamed copy.
* `Renaming.Mirroring.binary`, `Renaming.Mirroring.dot`, …: the calls that build a graph.
* `Renaming.Engines.createVariable`: making a variable.
-/

namespace TensorGraph

open Engine

/-- Initializers that do not sample, or sample with a seed. -/
def Initializer.Repeatable : Initializer → Prop
  | randomNormal _ _ seed | randomUniform _ _ seed | truncatedNormal _ _ seed => seed.isSome
  | zeros | ones | constant _ => True

namespace Renaming

variable {r : Renaming} {e e' : Engine}

/-! ## Calls that build -/

section Mirrors

variable {rel : Engine → Engine → Prop} {α α' β β' : Type}

/-- Calls that do the same side by side: their values are renamed ones of each other, or both fail,
or the second one asks for a name that is only taken there. -/
def Mirrors (rel : Engine → Engine → Prop) (k : α → α') (c : Call α) (c' : Call α') : Prop :=
  ∀ e e', rel e e' →
    Concur Failure.NameTaken rel (fun a a' => a' = k a) (c e) (c' e')

/-- The same from two particular engines. -/
def MirrorsAt (rel : Engine → Engine → Prop) (k : α → α') (e e' : Engine) (c : Call α)
    (c' : Call α') : Prop :=
  Concur Failure.NameTaken rel (fun a a' => a' = k a) (c e) (c' e')

/-- Branches on one condition mirror each other if both arms do. -/
theorem MirrorsAt.ite {p : Prop} [Decidable p] {k : α → α'} {c d : Call α} {c' d' : Call α'}
    (hc : MirrorsAt rel k e e' c c') (hd : MirrorsAt rel k e e' d d') :
    MirrorsAt rel k e e' (if p then c else d) (if p then c' else d') := by
  split
  · exact hc
  · exact hd

namespace Mirrors

variable {k : α → α'} {l : β → β'} {c : Call α} {c' : Call α'}

/-- Calls one after the other mirror each other if each does, whatever the first one gives. -/
theorem bind {f : α → Call β} {f' : α' → Call β'} (hc : Mirrors rel k c c')
    (hf : ∀ a, Mirrors rel l (f a) (f' (k a))) : Mirrors rel l (c >>= f) (c' >>= f') := by
  intro e e' h
  refine (hc e e' h).bind ?_
  rintro a _ s t - rfl h
  exact hf a s t h

/-- When the second call gives a value, the first one does. -/
theorem exists_left (hc : Mirrors rel k c c') (h : rel e e') {a' : α'} {e₁' : Engine}
    (hok : c' e' = .ok a' e₁') : ∃ a e₁, c e = .ok a e₁ ∧ a' = k a ∧ rel e₁ e₁' := by
  have hconcur := hc e e' h
  rw [hok] at hconcur
  exact hconcur.exists_left

theorem pure (a : α) : Mirrors rel k (pure a) (pure (k a)) := fun _ _ h => .ok rfl h

theorem refuse (err err' : Error) : Mirrors rel k (Engine.refuse err) (Engine.refuse err') :=
  fun _ _ h => .error h

/-- A check that both calls make in front keeps them mirrored, whichever errors it gives. -/
theorem refuse_unless {p : Prop} [Decidable p] {err err' : Error} {f : Unit → Call α}
    {f' : Unit → Call α'} (hf : Mirrors rel k (f ()) (f' ())) :
    Mirrors rel k (if p then Engine.refuse err >>= f else f ())
      (if p then Engine.refuse err' >>= f' else f' ()) :=
  fun _ _ h => concur_unless h (hf _ _ h)

/-- Computations without an engine mirror each other if their results do. -/
theorem lift {x : Except Error α} {x' : Except Error α'} (hx : x'.toOption = x.toOption.map k) :
    Mirrors rel k (Engine.lift x) (Engine.lift x') := by
  intro e e' h
  revert hx
  cases x <;> cases x' <;> rintro ⟨⟩
  · exact .error h
  · exact .ok rfl h

/-- Loops over a list and its renamed copy mirror each other if their bodies do. -/
theorem forM {f f' : α → Call PUnit} {k : α → α} (hf : ∀ a, Mirrors rel id (f a) (f' (k a)))
    (as : List α) : Mirrors rel id (as.forM f) ((as.map k).forM f') := by
  induction as with
  | nil => exact .pure _
  | cons a as ih => exact (hf a).bind fun _ => ih

/-- Lists of results are mirrored if every result is. -/
theorem mapM {f : α → Call β} {f' : α' → Call β'} (hf : ∀ a, Mirrors rel l (f a) (f' (k a)))
    (as : List α) : Mirrors rel (List.map l) (as.mapM f) ((as.map k).mapM f') :=
  fun _ _ h => Concur.mapM (fun a _ _ h => hf a _ _ h) as h

end Mirrors

end Mirrors

namespace Mirroring

variable {rel : Engine → Engine → Prop} {name : Option String} (hrel : r.Mirroring rel)
include hrel

/-- A node over slots in use and its renamed copy are appended side by side, unless the name is
taken on the second engine. -/
theorem register (h : rel e e') {n : GraphNode} (hn : ∀ o ∈ n.op.inputs, o < e.graph.size)
    (hop : n.op.Repeatable) :
    Concur Failure.NameTaken rel (fun a a' => a' = r.node a) (Engine.register n name e)
      (Engine.register (n.rename r.slot) name e') := by
  refine hrel.checkActive h ?_
  have hgraph := hrel.graph h
  have hhandle : e'.graph.handle e'.graph.size = r.node (e.graph.handle e.graph.size) := by
    rw [← hgraph.handle, hgraph.slot_size]
  have happend := hrel.append (n := { n with name := name }) h hn hop
  cases name with
  | none => exact .ok hhandle happend
  | some name => exact hrel.checkFresh h (.ok hhandle happend)

theorem reporting (record record' : Record) :
    Mirrors rel id (Engine.report record) (Engine.report record') :=
  fun _ _ h => .ok rfl (hrel.report _ _ h)

/-- A constant is the same value under its renamed handle. -/
theorem constant (value : Value) :
    Mirrors rel r.node (Engine.constant value name) (Engine.constant value name) :=
  fun e e' h => concur_check (checkShape_cases _ _) h
    (hrel.register h (n := ⟨.constant value, _, _, none⟩) (by simp [Op.inputs]) trivial)

theorem fill (shape : DeclaredShape) (value : Float32) :
    Mirrors rel r.node (Engine.fill shape value) (Engine.fill shape value) :=
  fun e e' h => concur_check (checkShape_cases _ _) h
    (hrel.register h (n := ⟨.fill value, _, _, none⟩) (by simp [Op.inputs]) trivial)

/-- A random node is mirrored if it has a seed. Without one its slot would be drawn from. -/
theorem random (shape : DeclaredShape) (sampler : Sampler) {seed : Option UInt64}
    (hseed : seed.isSome) :
    Mirrors rel r.node (Engine.random shape sampler seed) (Engine.random shape sampler seed) :=
  fun e e' h => concur_check (checkShape_cases _ _) h
    (hrel.register h (n := ⟨.random sampler seed, _, _, none⟩) (by simp [Op.inputs]) hseed)

/-- A function of one argument is mirrored on the renamed argument. -/
theorem unary (op : UnaryOp) (input : Node) :
    Mirrors rel r.node (Engine.unary op input name) (Engine.unary op (r.node input) name) :=
  fun e e' h => hrel.locate h input fun found hx => concur_expectFloat_if h
    (hrel.register h (n := ⟨.unary op found.1, _, _, none⟩) (by simpa [Op.inputs] using hx.lt_size)
      trivial)

/-- A function of two arguments is mirrored on the renamed arguments. -/
theorem binary (op : BinaryOp) (left right : Node) :
    Mirrors rel r.node (Engine.binary op left right name)
      (Engine.binary op (r.node left) (r.node right) name) := by
  refine fun e e' h => hrel.locate h left fun a ha => hrel.locate h right fun b hb =>
    concur_unless h (concur_expectFloat_if h ?_)
  change MirrorsAt rel r.node e e' _ _
  dsimp only [GraphNode.rename]
  split
  · exact hrel.register h (n := ⟨.binary op a.1 b.1, _, _, none⟩)
      (by simp [Op.inputs, ha.lt_size, hb.lt_size]) trivial
  · exact .error h

theorem dot (left right : Node) :
    Mirrors rel r.node (Engine.dot left right name)
      (Engine.dot (r.node left) (r.node right) name) := by
  refine fun e e' h => hrel.locate h left fun a ha => hrel.locate h right fun b hb =>
    concur_expectFloat h (concur_expectFloat h ?_)
  change MirrorsAt rel r.node e e' _ _
  dsimp only [GraphNode.rename]
  -- the shapes of the two located nodes are the same on both sides, and so are the checks of them
  split
  · split
    · exact hrel.register h (n := ⟨.dot a.1 b.1, _, _, none⟩)
        (by simp [Op.inputs, ha.lt_size, hb.lt_size]) trivial
    · exact .error h
  · exact .error h

theorem biasAdd (input bias : Node) :
    Mirrors rel r.node (Engine.biasAdd input bias name)
      (Engine.biasAdd (r.node input) (r.node bias) name) := by
  refine fun e e' h => hrel.locate h input fun x hx => hrel.locate h bias fun b hb =>
    concur_expectFloat h (concur_expectFloat h ?_)
  change MirrorsAt rel r.node e e' _ _
  dsimp only [GraphNode.rename]
  split
  · split
    · exact hrel.register h (n := ⟨.biasAdd x.1 b.1, _, _, none⟩)
        (by simp [Op.inputs, hx.lt_size, hb.lt_size]) trivial
    · exact .error h
  · exact .error h

theorem clip (input : Node) (min max : Float32) :
    Mirrors rel r.node (Engine.clip input min max name)
      (Engine.clip (r.node input) min max name) := by
  unfold Engine.clip
  exact fun e e' h => concur_unless h (hrel.locate h input fun x hx => concur_expectFloat h
    (hrel.register h (n := ⟨.clip x.1 min max, _, _, none⟩) (by simpa [Op.inputs] using hx.lt_size)
      trivial))

/-- A dropout is mirrored if it has a seed or never drops anything. -/
theorem dropout (input : Node) (rate : Float32) {seed : Option UInt64}
    (hseed : seed.isSome ∨ ¬0 < rate) :
    Mirrors rel r.node (Engine.dropout input rate seed name)
      (Engine.dropout (r.node input) rate seed name) := by
  unfold Engine.dropout
  exact fun e e' h => concur_unless h (hrel.locate h input fun x hx => concur_expectFloat h
    (hrel.register h (n := ⟨.dropout x.1 rate seed, _, _, none⟩)
      (by simpa [Op.inputs] using hx.lt_size) hseed))

theorem mean (input : Node) :
    Mirrors rel r.node (Engine.mean input name) (Engine.mean (r.node input) name) :=
  fun e e' h => hrel.locate h input fun x hx => concur_expectFloat h (concur_unless h
    (hrel.register h (n := ⟨.mean x.1, _, _, none⟩) (by simpa [Op.inputs] using hx.lt_size)
      trivial))

theorem reduceSum (input : Node) :
    Mirrors rel r.node (Engine.reduceSum input name) (Engine.reduceSum (r.node input) name) :=
  fun e e' h => hrel.locate h input fun x hx =>
    hrel.register h (n := ⟨.reduceSum x.1, _, _, none⟩) (by simpa [Op.inputs] using hx.lt_size)
      trivial

theorem sigmoidCrossEntropy (targets logits : Node) :
    Mirrors rel r.node (Engine.sigmoidCrossEntropy targets logits name)
      (Engine.sigmoidCrossEntropy (r.node targets) (r.node logits) name) := by
  refine fun e e' h => hrel.locate h targets fun z hz => hrel.locate h logits fun x hx =>
    concur_expectFloat h (concur_expectFloat h ?_)
  change MirrorsAt rel r.node e e' _ _
  dsimp only [GraphNode.rename]
  split
  · exact hrel.register h (n := ⟨.sigmoidCrossEntropy z.1 x.1, _, _, none⟩)
      (by simp [Op.inputs, hz.lt_size, hx.lt_size]) trivial
  · exact .error h

theorem softmaxCrossEntropy (logits labels : Node) :
    Mirrors rel r.node (Engine.softmaxCrossEntropy logits labels name)
      (Engine.softmaxCrossEntropy (r.node logits) (r.node labels) name) := by
  refine fun e e' h => hrel.locate h logits fun x hx => hrel.locate h labels fun z hz =>
    concur_expectFloat h (concur_expectFloat h ?_)
  exact MirrorsAt.ite (hrel.register h (n := ⟨.softmaxCrossEntropy x.1 z.1, _, _, none⟩)
    (by simp [Op.inputs, hx.lt_size, hz.lt_size]) trivial) (.error h)

/-- Where renaming changes nothing, the same placeholders are there. -/
theorem placeholder (hid : ∀ s, r.slot s = s) (name : String) (shape : DeclaredShape) :
    Mirrors rel r.node (Engine.placeholder name shape) (Engine.placeholder name shape) := by
  refine fun e e' h => hrel.checkActive h (concur_check (checkShape_cases _ _) h ?_)
  have hgraph := hrel.graph h
  -- with the identity on slots, the second graph has the renamed nodes of the first and no others
  have hnodes : e'.graph.nodes = e.graph.nodes.map (·.rename r.slot) := by
    refine Array.ext_getElem? fun s => ?_
    have hnode := hgraph.getElem? s
    rwa [hid s, ← Array.getElem?_map] at hnode
  refine concur_currentGraph ?_
  rw [hgraph.find?_eq hid]
  cases e.graph.find? name with
  | none => exact hrel.register h (n := ⟨.placeholder, _, _, none⟩) (by simp [Op.inputs]) trivial
  | some slot =>
    have hsame : (e'.graph.nodes[slot]?).any (fun n => n.op.isPlaceholder && n.shape == shape) =
        (e.graph.nodes[slot]?).any fun n => n.op.isPlaceholder && n.shape == shape := by
      rw [hnodes, Array.getElem?_map, Option.any_map]
      simp only [GraphNode.rename, Op.isPlaceholder_rename]
    dsimp only
    rw [hsame]
    split
    · exact .ok (by rw [← hgraph.handle, hid]) h
    · exact .error h

/-! ## Derivatives and updates -/

/-- The same for a slot that stays in use. -/
theorem within (s : Nat) : r.Mirroring fun e e' => rel e e' ∧ s < e.graph.size where
  graph h := hrel.graph h.1
  isNone h := hrel.isNone h.1
  append h hn hop := ⟨hrel.append h.1 hn hop, Nat.lt_trans h.2 (Graph.lt_size_push _ _)⟩
  report _ _ h := ⟨hrel.report _ _ h.1, h.2⟩

/-- The derivative of a loss that is already in the graph is mirrored. -/
theorem gradient (loss : Nat) (weight : Node) :
    Mirrors (fun e e' => rel e e' ∧ loss < e.graph.size) r.node (Engine.gradient loss weight)
      (Engine.gradient (r.slot loss) (r.node weight)) :=
  fun _ _ h => (hrel.within loss).locate h weight fun v hv => concur_expectVariable h
    (concur_expectFloat h ((hrel.within loss).register h (n := ⟨.gradient loss v.1, _, _, none⟩)
      (by simp [Op.inputs, h.2, hv.lt_size]) trivial))

/-- The derivatives for a list of variables are those for the renamed list. -/
theorem gradients (loss : Node) (targets : List Node) :
    Mirrors rel (List.map r.node) (Engine.gradients loss targets)
      (Engine.gradients (r.node loss) (targets.map r.node)) :=
  fun _ _ h => hrel.locate h loss fun found hfound => concur_expectFloat h
    ((Mirrors.mapM (hrel.gradient found.1) targets _ _ ⟨h, hfound.lt_size⟩).imp (fun _ _ h => h)
      fun _ _ h => h.1)

/-- The check of an update finds the same of renamed nodes. -/
theorem assignable (target value : Node) :
    Mirrors rel (Prod.map r.slot (Prod.map r.slot (·.rename r.slot)))
      (Engine.assignable target value) (Engine.assignable (r.node target) (r.node value)) :=
  fun _ _ h => hrel.locate h target fun _ _ => hrel.locate h value fun _ _ =>
    concur_expectVariable h (concur_unless h (concur_unless h (.ok rfl h)))

omit hrel in
/-- The slots that an update is made of are in use. -/
theorem lt_size_of_assignable {target value : Node} {found : Nat × Nat × GraphNode} {e₁ : Engine}
    (h : Engine.assignable target value e = .ok found e₁) :
    ∀ o ∈ [found.1, found.2.1], o < e₁.graph.size := by
  have hleads : Leads (Engine.assignable target value >>= pure) e (fun _ => True) fun found e₁ =>
      ∀ o ∈ [found.1, found.2.1], o < e₁.graph.size :=
    leads_assignable trivial fun v k hv hk _ _ _ => leads_pure (by
      simp [Graph.lt_size_of_getElem? hv, Graph.lt_size_of_getElem? hk])
  rw [bind_pure] at hleads
  exact hleads.of_eq_ok h

/-- An update that replaces a value is mirrored. -/
theorem update (target value : Node) :
    Mirrors rel r.node (Engine.update target value)
      (Engine.update (r.node target) (r.node value)) := by
  refine fun e e' h => (hrel.assignable target value _ _ h).bind ?_
  rintro ⟨t, s, n⟩ _ e₁ e₁' hok rfl h
  exact hrel.register h (n := ⟨.assign t s, _, _, none⟩) (lt_size_of_assignable hok) trivial

/-- An update that adds to a value is mirrored. -/
theorem updateAdd (target delta : Node) :
    Mirrors rel r.node (Engine.updateAdd target delta)
      (Engine.updateAdd (r.node target) (r.node delta)) := by
  refine fun e e' h => (hrel.assignable target delta _ _ h).bind ?_
  rintro ⟨t, s, n⟩ _ e₁ e₁' hok rfl h
  exact hrel.register h (n := ⟨.assignAdd t s, _, _, none⟩) (lt_size_of_assignable hok) trivial

/-! ## Looking at nodes -/

/-- A node and its renamed copy have one declared shape. -/
theorem shape (handle : Node) :
    Mirrors rel id (Engine.shape handle) (Engine.shape (r.node handle)) :=
  fun _ _ h => hrel.checkActive h (hrel.locate h handle fun _ _ => .ok rfl h)

/-- The initial value of a renamed variable is the renamed initial value. -/
theorem initializer (handle : Node) :
    Mirrors rel (Option.map r.node) (Engine.initializer handle)
      (Engine.initializer (r.node handle)) := by
  refine fun e e' h => hrel.checkActive h (hrel.locate h handle fun found _ => ?_)
  obtain ⟨slot, op, shape, type, name⟩ := found
  cases op with
  | «variable» trainable init =>
    refine .ok ?_ h
    rw [Option.map_map, Option.map_map]
    exact Option.map_congr fun s _ => (hrel.graph h).handle s
  | _ => exact .error h

end Mirroring

/-! ## Variables -/

/-- Initial values that do not depend on the slot they are drawn in are mirrored. -/
theorem Mirroring.initializing {rel : Engine → Engine → Prop} (hrel : r.Mirroring rel)
    (shape : DeclaredShape) {init : Initializer} (hinit : init.Repeatable) :
    Mirrors rel r.node (init.compile shape) (init.compile shape) := by
  -- samples have to be repeatable; what else initializers make does not depend on streams
  cases init with
  | randomNormal mean stddev seed | truncatedNormal mean stddev seed =>
    exact fun _ _ h =>
      concur_check (checkDeviation_cases stddev) h (hrel.random shape _ hinit _ _ h)
  | randomUniform min max seed =>
    unfold Initializer.compile randomUniform
    exact fun _ _ h => concur_unless h (hrel.random shape _ hinit _ _ h)
  | zeros | ones => exact hrel.fill shape _
  | constant x =>
    simp only [Initializer.compile]
    cases shape.concrete? with
    | some dims => exact hrel.constant _
    | none => exact fun _ _ h => .error h

namespace Engines

/-- The slot of a node that has just been appended is renamed with its handle. -/
theorem index_of_register {n : GraphNode} {name : Option String} {handle : Node} {e₁ : Engine}
    (h : r.Engines e e') (hok : register n name e = .ok handle e₁) :
    (r.node handle).index = r.slot handle.index := by
  have hleads : Leads (register n name) e (fun _ => True) fun handle _ =>
      handle.graph = e.graph.id := leads_register trivial fun _ _ => rfl
  have hgraph := hleads.of_eq_ok hok
  rw [Renaming.node, if_pos (hgraph.trans h.graph.source)]

/-- A variable gets the same first value on both engines. -/
theorem createVariable (shape : DeclaredShape) {init : Initializer} (hinit : init.Repeatable)
    (name : String) (trainable : Bool) :
    Mirrors r.Engines r.node (Engine.createVariable shape init name trainable)
      (Engine.createVariable shape init name trainable) := by
  have hrel := @mirroring_engines r
  refine fun e e' h => hrel.checkActive h (concur_check (checkShape_cases _ _) h
    (hrel.checkFresh h ((hrel.initializing shape hinit _ _ h).bind ?_)))
  rintro handle _ e₁ e₁' - rfl h
  refine hrel.locate h handle fun found hfound => concur_unless h ?_
  -- both engines evaluate the initializer, and the values that they commit are the same
  refine evaluate h [found.1] carries_empty fun {s s' ev ev'} hev h => ?_
  refine (hrel.register h (n := ⟨.variable trainable (some found.1), _, _, none⟩)
    (by simpa [Op.inputs, absorb] using hfound.lt_size) trivial).bind ?_
  rintro node _ e₂ e₂' hok rfl h₂
  have hassignment : [((r.node node).index, ev'.known.value (r.slot found.1))] =
      [(node.index, ev.known.value found.1)].map (Prod.map r.slot id) := by
    rw [h.index_of_register hok, hev.knows.value]
    rfl
  rw [hassignment]
  refine (h₂.commit _).bind fun _ _ e₃ e₃' _ _ h₃ => ?_
  have hreport : ∀ {e₄ e₄' : Engine}, r.Engines e₄ e₄' →
      MirrorsAt r.Engines r.node e₄ e₄' (do report (.createdVariable name shape); return node)
        (do report (.createdVariable name shape); return r.node node) := fun h₄ =>
    (hrel.reporting _ _ _ _ h₄).bind fun _ _ _ _ _ _ h₅ => .ok rfl h₅
  -- what is trained on the one engine is trained on the other
  cases trainable with
  | false => exact hreport h₃
  | true =>
    have htrained := h₃.train node.index
    rw [← h.index_of_register hok] at htrained
    exact hreport htrained

/-- A counter is the same variable under its renamed handle. -/
theorem counter (initial : Int64) (name : String) :
    Mirrors r.Engines r.node (Engine.counter initial name) (Engine.counter initial name) := by
  refine fun e e' h => (mirroring_engines.register h (n := ⟨.variable false none, _, _, none⟩)
    (by simp [Op.inputs]) trivial).bind ?_
  rintro node _ e₁ e₁' hok rfl h₁
  have hassignment : [((r.node node).index, .ofValue (.integer initial))] =
      [(node.index, (.ofValue (.integer initial) : Tensor Float32))].map (Prod.map r.slot id) := by
    rw [h.index_of_register hok]
    rfl
  rw [hassignment]
  exact (h₁.commit _).bind fun _ _ _ _ _ _ h => .ok rfl h

end Engines

end Renaming
end TensorGraph
