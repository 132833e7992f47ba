import TensorGraph.Proofs.Graph.Feeding
import TensorGraph.Proofs.Model.Compiling
import TensorGraph.Proofs.Model.Staging

/-!
# What a compiled model reaches

The outputs, losses and metrics of a compiled model are computed by operations that change no
variable, and that draw samples only while training, if at all. A step of training evaluates no
random node either: the random nodes that made the first values of the variables are not needed
again. Losses, metrics and updates take this over from what they are computed from, like any other
property that operations inherit.

## Main definitions

* `Engine.Yields`: a call that extends the graph and gives something good in it.
* `Engine.At`: a property of the slot of a node.
* `Program.Reads`: the functions of a program and what they reach.

## Main results

* `Model.reads_of_compile`: a compiled model reads in this way.
-/

namespace TensorGraph

namespace Engine

variable {α β : Type} {e e' : Engine} {P : Op → Prop}

/-- From an engine a call extends the graph when it gives a value, and the value is good there. -/
def Yields (good : Graph → α → Prop) (c : Call α) (e : Engine) : Prop :=
  Leads c e (fun _ => True) fun a e' => e.graph.Extends e'.graph ∧ good e'.graph a

/-- A property of the slot of a node. -/
def At (holds : Graph → Nat → Prop) (g : Graph) (n : Node) : Prop := holds g n.index

/-- A property of the slots of some nodes. -/
def AtAll (holds : Graph → Nat → Prop) (g : Graph) (ns : List Node) : Prop :=
  ∀ n ∈ ns, At holds g n

/-- What holds of nodes still holds of them when others are appended. -/
theorem AtAll.extend {holds : Graph → Nat → Prop} {g g' : Graph} {ns : List Node}
    (h : AtAll holds g ns) (hholds : Graph.Inherits P holds) (hg : g.Extends g') :
    AtAll holds g' ns :=
  fun n hn => hholds.extend (h n hn) hg

/-- A node that reaches only operations of a kind. -/
def Reaching (P : Op → Prop) (g : Graph) (n : Node) : Prop := g.ReachesOnly P n.index

/-- What a node reaches stays the same. -/
theorem Reaching.extend {g g' : Graph} {n : Node} (h : Reaching P g n) (hg : g.Extends g') :
    Reaching P g' n :=
  Graph.ReachesOnly.extend h hg

namespace Yields

variable {good : Graph → α → Prop} {good' : Graph → β → Prop}

theorem pure {a : α} (h : good e.graph a) : Yields good (pure a) e := ⟨.refl _, h⟩

/-- What the first part gives is good where the second part begins. -/
theorem bind {c : Call α} {f : α → Call β} (hc : Yields good c e)
    (hf : ∀ a e₁, e.graph.Extends e₁.graph → good e₁.graph a → Yields good' (f a) e₁) :
    Yields good' (c >>= f) e := by
  refine leads_bind_iff.2 (Leads.mono hc ?_)
  rintro a e₁ ⟨hext, ha⟩
  exact (hf a e₁ hext ha).mono fun b e' h => ⟨hext.trans h.1, h.2⟩

/-- The rest of a call starts from a sound engine when its first part keeps engines sound. -/
theorem bind_sound {c : Call α} {f : α → Call β} (hc : Yields good c e)
    (hkeeps : Preserves Sound c) (hsound : e.Sound)
    (hf : ∀ a e₁, e.graph.Extends e₁.graph → good e₁.graph a → e₁.Sound → Yields good' (f a) e₁) :
    Yields good' (c >>= f) e := by
  have hstart : Leads c e (fun _ => True) fun a e₁ =>
      (e.graph.Extends e₁.graph ∧ good e₁.graph a) ∧ e₁.Sound := by
    unfold Leads
    cases hok : c e with
    | ok a e₁ => exact ⟨Leads.of_eq_ok hc hok, hkeeps _ _ _ hsound hok⟩
    | error => trivial
  refine leads_bind_iff.2 (hstart.mono ?_)
  rintro a e₁ ⟨⟨hext, ha⟩, hsound₁⟩
  exact (hf a e₁ hext ha hsound₁).mono fun b e' h => ⟨hext.trans h.1, h.2⟩

/-- A refusal gives nothing. -/
theorem refuse (err : Error) : Yields good (refuse err) e := trivial

/-- A check in front of a call does not matter to what it gives. -/
theorem refuse_unless {p : Prop} [Decidable p] {err : Error} {f : Unit → Call α}
    (h : Yields good (f ()) e) : Yields good (if p then Engine.refuse err >>= f else f ()) e :=
  leads_unless trivial fun _ => h

theorem get {f : Engine → Call α} (h : Yields good (f e) e) : Yields good (get >>= f) e :=
  leads_get h

theorem lift {r : Except Error α} : Yields (fun _ a => r = .ok a) (lift r) e := by
  cases r with
  | ok a => exact ⟨.refl _, rfl⟩
  | error err => exact .refuse err

/-- A look at an engine gives something, and the graph stays as it is. -/
theorem of_keeps {c : Call α} (hc : Keeps Eq c) : Yields (fun _ _ => True) c e := by
  refine (hc e).imp (fun _ _ => trivial) ?_
  rintro a _ rfl
  exact ⟨.refl _, trivial⟩

/-- Calls for a list of things, one after the other, when what has been given stays good. -/
theorem mapM {f : α → Call β} {as : List α} {Q : Graph → α → Prop}
    (hready : ∀ a ∈ as, Q e.graph a)
    (hstay : ∀ {g g' : Graph}, g.Extends g' → ∀ a, Q g a → Q g' a)
    (hgood : ∀ {g g' : Graph}, g.Extends g' → ∀ b, good' g b → good' g' b)
    (hf : ∀ a (e : Engine), Q e.graph a → Yields good' (f a) e) :
    Yields (fun g bs => ∀ b ∈ bs, good' g b) (as.mapM f) e := by
  induction as generalizing e with
  | nil => exact pure (by simp)
  | cons a as ih =>
    obtain ⟨ha, has⟩ := List.forall_mem_cons.1 hready
    rw [List.mapM_cons]
    refine (hf a e ha).bind fun b e₁ h₁ hb => ?_
    refine (ih fun a' ha' => hstay h₁ a' (has a' ha')).bind fun bs e₂ h₂ hbs => ?_
    exact pure (List.forall_mem_cons.2 ⟨hgood h₂ b hb, hbs⟩)

end Yields

theorem yields_report (r : Record) : Yields (fun _ _ => True) (report r) e := ⟨.refl _, trivial⟩

/-! ## Calls that append a node -/

section Inherits

variable {holds : Graph → Nat → Prop} (hholds : Graph.Inherits P holds) {name : Option String}
include hholds

/-- An operation of the kind, appended to inputs of which the property holds, has it as well. -/
theorem Appends.yields {c : Call Node} {Q : GraphNode → Prop} {op : Op} (hc : Appends c e Q)
    (hop : ∀ n, Q n → n.op = op) (hP : P op) (hplaceholder : op.isPlaceholder = false)
    (hinputs : ∀ i ∈ op.inputs, holds e.graph i) : Yields (At holds) c e := by
  refine Leads.imp hc (fun _ _ => trivial) ?_
  rintro handle e' ⟨n, hn, happended⟩
  have hnode := happended.getElem?
  obtain rfl := happended.engine
  obtain rfl := hop n hn
  have hext := Graph.extends_push e.graph n
  exact ⟨hext, hholds.node hnode hP hplaceholder fun i hi => hholds.extend (hinputs i hi) hext⟩

/-- A deterministic operation inherits from its inputs. -/
theorem Appends.inherits {c : Call Node} {Q : GraphNode → Prop} {op : Op}
    (hc : Appends c e Q) (hop : ∀ n, Q n → n.op = op) (hP : op.Deterministic)
    (hplaceholder : op.isPlaceholder = false) (hinputs : ∀ i ∈ op.inputs, holds e.graph i) :
    Yields (At holds) c e :=
  hc.yields hholds hop (hholds.deterministic op hP) hplaceholder hinputs

/-- Constants have no inputs. -/
theorem yields_constant (value : Value) : Yields (At holds) (constant value name) e :=
  (appends_constant value).inherits hholds (fun _ h => h.1) ⟨⟨rfl, rfl⟩, nofun⟩ rfl nofun

/-- A unary operation takes over the property of its operand. -/
theorem yields_unary (op : UnaryOp) {input : Node} (h : At holds e.graph input) :
    Yields (At holds) (unary op input name) e :=
  (appends_unary op input).inherits hholds (fun _ h => h.1) ⟨⟨rfl, rfl⟩, nofun⟩ rfl
    (List.forall_mem_singleton.2 h)

/-- A binary operation takes over the property of both operands. -/
theorem yields_binary (op : BinaryOp) {left right : Node} (hl : At holds e.graph left)
    (hr : At holds e.graph right) : Yields (At holds) (binary op left right name) e :=
  (appends_binary op left right).inherits hholds (fun _ h => h.1) ⟨⟨rfl, rfl⟩, nofun⟩ rfl
    (List.forall_mem_cons.2 ⟨hl, List.forall_mem_singleton.2 hr⟩)

theorem yields_clip {input : Node} (h : At holds e.graph input) (min max : Float32) :
    Yields (At holds) (clip input min max name) e :=
  (appends_clip input min max).inherits hholds (fun _ h => h.1) ⟨⟨rfl, rfl⟩, nofun⟩ rfl
    (List.forall_mem_singleton.2 h)

theorem yields_mean {input : Node} (h : At holds e.graph input) :
    Yields (At holds) (mean input name) e :=
  (appends_mean input).inherits hholds (fun _ h => h.1) ⟨⟨rfl, rfl⟩, nofun⟩ rfl
    (List.forall_mem_singleton.2 h)

/-- A new variable is connected to the source of its first value. -/
theorem yields_createVariable (shape : DeclaredShape) (initializer : Initializer) (name : String)
    (trainable : Bool) :
    Yields (At holds) (createVariable shape initializer name trainable) e := by
  refine (leads_createVariable shape initializer name trainable).imp (fun _ _ => trivial) ?_
  rintro handle e' ⟨made, init, e₁, s, ev, hop, hcreated⟩
  have hnode := hcreated.getElem?
  have hmade := hcreated.appended.getElem?
  have hext : e₁.graph.Extends e'.graph := by
    rw [hcreated.graph]
    exact Graph.extends_declare _ _
  -- the new variable inherits from the node that made its first value
  refine ⟨?_, hholds.stored hnode rfl fun s hs => ?_⟩
  · obtain rfl := hcreated.appended.engine
    exact (Graph.extends_push _ _).trans hext
  · obtain rfl := List.mem_singleton.1 hs
    exact ⟨made, hext.node hmade, hop ▸ initializer.isSource_op shape⟩

theorem yields_counter (initial : Int64) (name : String) :
    Yields (At holds) (counter initial name) e := by
  refine leads_bind_iff.2 (leads_register trivial fun _ _ => ?_)
  have hnode : (e.graph.push ⟨.variable false none, [], .i64, some name⟩).nodes[e.graph.size]? =
      some ⟨.variable false none, [], .i64, some name⟩ :=
    Graph.getElem?_push_eq_some_iff.2 (.inr ⟨rfl, rfl⟩)
  exact ⟨Graph.extends_push _ _, hholds.stored hnode rfl nofun⟩

/-- Sums of losses inherit from the losses. -/
theorem yields_aggregate {losses : List Node} (h : AtAll holds e.graph losses) :
    Yields (At holds) (aggregate losses) e := by
  cases losses with
  | nil => exact .refuse _
  | cons first rest =>
    obtain ⟨hfirst, hrest⟩ := List.forall_mem_cons.1 h
    change Yields _ (rest.foldlM _ first) e
    clear h
    induction rest generalizing first e with
    | nil => exact .pure hfirst
    | cons loss rest ih =>
      obtain ⟨hloss, hrest⟩ := List.forall_mem_cons.1 hrest
      exact (yields_binary hholds .add hfirst hloss).bind fun total e₁ h₁ htotal =>
        ih total htotal (AtAll.extend hrest hholds h₁)

end Inherits

/-- A placeholder is passive. -/
theorem yields_placeholder (hP : ∀ op : Op, op.Passive → P op) (name : String)
    (shape : DeclaredShape) : Yields (Reaching P) (placeholder name shape) e := by
  refine (leads_placeholder name shape).imp (fun _ _ => trivial) ?_
  have hplain : ∀ {n : GraphNode}, n.op.isPlaceholder → P n.op ∧ n.op.operands = [] := by
    intro n hn
    generalize n.op = op at *
    cases op with
    | placeholder => exact ⟨hP _ ⟨rfl, rfl⟩, rfl⟩
    | _ => cases hn
  -- the placeholder may have been there before
  rintro handle e' (⟨rfl, slot, n, rfl, -, hn, hop, -⟩ | ⟨n, ⟨hop, -⟩, happended⟩)
  · obtain ⟨hop, hleaf⟩ := hplain hop
    exact ⟨.refl _, .leaf hn hop hleaf⟩
  · have hnode := happended.getElem?
    obtain rfl := happended.engine
    obtain ⟨hop, hleaf⟩ := hplain (n := n) (by rw [hop]; rfl)
    exact ⟨Graph.extends_push _ _, .leaf hnode hop hleaf⟩

end Engine

open Engine

variable {e : Engine} {P : Op → Prop} {holds : Graph → Nat → Prop}

/-! ## Losses and metrics -/

/-- A loss takes over the property of the predictions and the targets. -/
theorem Loss.yields_compile (hholds : Graph.Inherits P holds) {predictions targets : Node}
    (name : Option String) (hp : At holds e.graph predictions) (ht : At holds e.graph targets)
    (loss : Loss) : Yields (At holds) (loss.compile predictions targets name) e := by
  cases loss with
  | meanSquaredError =>
    exact (yields_binary hholds .subtract hp ht).bind fun _ e₁ _ hd =>
      (yields_unary hholds .square hd).bind fun _ e₂ _ hs => yields_mean hholds hs
  | binaryCrossEntropy =>
    refine (yields_clip hholds hp _ _).bind fun clipped e₁ h₁ hclipped =>
      (yields_constant hholds _).bind fun one e₂ h₂ hone => ?_
    refine (yields_binary hholds .subtract hone (hholds.extend hclipped h₂)).bind
      fun complement e₃ h₃ hcomplement => ?_
    refine (yields_binary hholds .divide (hholds.extend hclipped (h₂.trans h₃)) hcomplement).bind
      fun odds e₄ h₄ hodds => (yields_unary hholds .log hodds).bind fun logits e₅ h₅ hlogits => ?_
    have htargets := hholds.extend ht ((((h₁.trans h₂).trans h₃).trans h₄).trans h₅)
    exact (appends_sigmoidCrossEntropy targets logits).inherits hholds (fun _ h => h.1)
      ⟨⟨rfl, rfl⟩, nofun⟩ rfl
      (List.forall_mem_cons.2 ⟨htargets, List.forall_mem_singleton.2 hlogits⟩)
  | categoricalCrossEntropy =>
    exact (appends_softmaxCrossEntropy predictions targets).inherits hholds (fun _ h => h.1)
      ⟨⟨rfl, rfl⟩, nofun⟩ rfl
      (List.forall_mem_cons.2 ⟨hp, List.forall_mem_singleton.2 ht⟩)
  | negativeLogLikelihood ε =>
    unfold Loss.compile
    refine .refuse_unless ?_
    refine (yields_clip hholds hp _ _).bind fun clipped e₁ h₁ hclipped =>
      (yields_unary hholds .log hclipped).bind fun log e₂ h₂ hlog => ?_
    refine (yields_binary hholds .multiply (hholds.extend ht (h₁.trans h₂)) hlog).bind
      fun weighted e₃ h₃ hweighted => ?_
    have htotal : Yields (At holds) (reduceSum weighted none) e₃ :=
      (appends_reduceSum weighted).inherits hholds (fun _ h => h.1) ⟨⟨rfl, rfl⟩, nofun⟩ rfl
        (List.forall_mem_singleton.2 hweighted)
    exact htotal.bind fun total e₄ _ ht => yields_unary hholds .negate ht

/-- A metric takes it over as well. -/
theorem Metric.yields_compile (hholds : Graph.Inherits P holds) {predictions targets : Node}
    (name : Option String) (hp : At holds e.graph predictions) (ht : At holds e.graph targets)
    (metric : Metric) : Yields (At holds) (metric.compile predictions targets name) e := by
  cases metric with
  | meanSquaredError => exact Loss.yields_compile hholds name hp ht .meanSquaredError
  | meanAbsoluteError =>
    exact (yields_binary hholds .subtract hp ht).bind fun _ e₁ _ hd =>
      (yields_unary hholds .abs hd).bind fun _ e₂ _ hm => yields_mean hholds hm
  | loss l => exact l.yields_compile hholds name hp ht

/-! ## Layers -/

/-- What reaches passive operations only is handed on by passive operations. -/
private theorem inherits_passive :
    Graph.Inherits Op.Passive fun g => g.ReachesOnly Op.Passive :=
  Graph.inherits_reachesOnly fun _ h => h.passive

/-- A layer whose output reaches only passive operations. -/
def Blueprint.Passive (g : Graph) (b : Blueprint) : Prop := Reaching Op.Passive g b.output

/-- An input layer is passive. -/
theorem Input.yields_compile (i : Input) (name : String) :
    Yields Blueprint.Passive (i.compile name) e := by
  unfold Input.compile
  refine .refuse_unless ?_
  exact (yields_placeholder (fun _ h => h) name i.shape).bind fun _ e₁ _ hn => .pure hn

/-- A dropout layer is passive if it is fed by a passive node. -/
theorem Dropout.yields_compile (d : Dropout) (name : String) {input : Node}
    (h : Reaching Op.Passive e.graph input) :
    Yields Blueprint.Passive (d.compile name input) e := by
  have hdropout : Yields (Reaching Op.Passive) (dropout input d.rate d.seed (some name)) e :=
    (appends_dropout input d.rate d.seed).yields inherits_passive (fun _ h => h.1) ⟨rfl, rfl⟩ rfl
      (List.forall_mem_singleton.2 h)
  exact hdropout.bind fun _ e₁ _ hn => .pure hn

/-- So is a dense layer: its variables are read and not assigned to. -/
theorem Dense.yields_compile (d : Dense) (name : String) {input : Node} (fed : DeclaredShape)
    (h : Reaching Op.Passive e.graph input) :
    Yields Blueprint.Passive (d.compile name input fed) e := by
  unfold Dense.compile
  extract_lets build
  have hbuild : ∀ size, Yields Blueprint.Passive (build size) e := by
    intro size
    have hholds := inherits_passive
    refine (yields_createVariable hholds _ _ _ true).bind fun weights e₁ h₁ hweights =>
      (yields_createVariable hholds _ _ _ true).bind fun bias e₂ h₂ hbias => ?_
    have hprojected : Yields (Reaching Op.Passive) (dot input weights none) e₂ :=
      (appends_dot input weights).yields hholds (fun _ h => h.1) ⟨rfl, rfl⟩ rfl
        (List.forall_mem_cons.2 ⟨(h.extend h₁).extend h₂,
          List.forall_mem_singleton.2 (hholds.extend hweights h₂)⟩)
    refine hprojected.bind fun projected e₃ h₃ hprojected => ?_
    have hshifted : Yields (Reaching Op.Passive) (biasAdd projected bias none) e₃ :=
      (appends_biasAdd projected bias).yields hholds (fun _ h => h.1) ⟨rfl, rfl⟩ rfl
        (List.forall_mem_cons.2 ⟨hprojected, List.forall_mem_singleton.2
          (hholds.extend hbias h₃)⟩)
    refine hshifted.bind fun shifted e₄ _ hshifted =>
      (yields_unary hholds d.resolvedActivation.op hshifted).bind fun output e₅ _ houtput =>
        (Yields.of_keeps (keeps_initializer weights)).bind fun _ e₆ h₆ _ =>
          (Yields.of_keeps (keeps_initializer bias)).bind fun _ e₇ h₇ _ => ?_
    exact .pure (hholds.extend houtput (h₆.trans h₇))
  -- without a known input size nothing is built
  have hrefuse : ∀ err, Yields Blueprint.Passive (refuse err >>= build) e :=
    fun err => leads_bind_iff.2 (leads_refuse trivial)
  split
  · split
    · exact hbuild _
    · exact hrefuse _
  · exact hrefuse _

/-! ## Networks -/

namespace Network

open Compiling

/-- The layers that a context remembers are passive. -/
def Remembers (w : Workspace) : Prop :=
  ∀ b ∈ w.context.blueprints, Blueprint.Passive w.engine.graph b.2

/-- From a workspace steps extend the graph when they give a value, and leave a workspace that
remembers passive layers. -/
def Compiles {α : Type} (good : Graph → α → Prop) (c : Compiling α) (w : Workspace) : Prop :=
  ∀ a w', c w = .ok a w' → Remembers w' ∧ w.engine.graph.Extends w'.engine.graph ∧
    good w'.engine.graph a

section Compiles

variable {α β : Type} {good : Graph → α → Prop} {good' : Graph → β → Prop} {w : Workspace}

/-- The first part leaves a workspace that the second part goes on with. -/
theorem Compiles.bind {c : Compiling α} {f : α → Compiling β} (hc : Compiles good c w)
    (hf : ∀ a w₁, Remembers w₁ → w.engine.graph.Extends w₁.engine.graph → good w₁.engine.graph a →
      Compiles good' (f a) w₁) : Compiles good' (c >>= f) w := by
  intro b w₂ h
  obtain ⟨a, w₁, hfirst, hrest⟩ := bind_eq_ok_iff.1 h
  obtain ⟨hw₁, hext, ha⟩ := hc a w₁ hfirst
  obtain ⟨hw₂, hext', hb⟩ := hf a w₁ hw₁ hext ha b w₂ hrest
  exact ⟨hw₂, hext.trans hext', hb⟩

theorem Compiles.get_bind {f : Workspace → Compiling β} (hf : Compiles good' (f w) w) :
    Compiles good' (get >>= f) w := hf

theorem Compiles.pure (hw : Remembers w) {a : α} (h : good w.engine.graph a) :
    Compiles good (pure a) w := by
  rintro _ _ ⟨⟩
  exact ⟨hw, .refl _, h⟩

/-- A check leaves the workspace as it is. -/
theorem compiles_lift (hw : Remembers w) (r : Except Error α) :
    Compiles (fun _ _ => True) (lift r) w := by
  intro a w' h
  cases r with
  | ok a =>
    cases h
    exact ⟨hw, .refl _, trivial⟩
  | error err => cases h

/-- What a call on the engine gives, it gives within a workspace. -/
theorem compiles_onEngine (hw : Remembers w) {call : Call α} (hcall : Yields good call w.engine) :
    Compiles good (onEngine call) w := by
  intro a w' h
  unfold onEngine at h
  split at h
  · next hok =>
    cases h
    obtain ⟨hext, ha⟩ := Leads.of_eq_ok hcall hok
    exact ⟨fun b hb => (hw b hb).extend hext, hext, ha⟩
  · cases h

end Compiles

/-- Every layer that is compiled is passive. -/
theorem compiles_compileWithin (n : Network) (depth : Nat) (id : LayerId) {w : Workspace}
    (hw : Remembers w) : Compiles (Reaching Op.Passive) (n.compileWithin depth id) w := by
  induction depth generalizing id w with
  | zero =>
    rintro _ _ ⟨⟩
  | succ depth ih =>
    unfold compileWithin
    refine .get_bind (.get_bind ?_)
    extract_lets compileNew
    have hnew : Compiles (Reaching Op.Passive) (compileNew ()) w := by
      refine .get_bind ?_
      split
      · next made hmade =>
        obtain ⟨before, after, hmem, -⟩ := List.lookup_eq_some_iff.1 hmade
        exact .pure hw (hw (id, made) (by rw [hmem]; simp))
      · refine (compiles_lift hw _).bind fun named w₁ hw₁ _ _ => ?_
        extract_lets remember
        have hremember : ∀ made w, Remembers w → Blueprint.Passive w.engine.graph made →
            Compiles (Reaching Op.Passive) (remember made) w := by
          intro made w hw hmade
          refine (compiles_onEngine hw (yields_report _)).bind fun _ w₁ hw₁ h₁ _ => ?_
          rintro _ _ ⟨⟩
          have hmade₁ : Blueprint.Passive w₁.engine.graph made := hmade.extend h₁
          exact ⟨List.forall_mem_append.2 ⟨hw₁, List.forall_mem_singleton.2 hmade₁⟩, .refl _,
            hmade₁⟩
        -- a layer is compiled after the layer that feeds it
        split
        · next i _ =>
          exact (compiles_onEngine hw₁ (i.yields_compile _)).bind fun made w₂ hw₂ _ hmade =>
            hremember made w₂ hw₂ hmade
        · next d feeder _ =>
          refine (ih feeder hw₁).bind fun input w₂ hw₂ _ hinput =>
            (compiles_lift hw₂ _).bind fun fed w₃ hw₃ h₃ _ => ?_
          exact (compiles_onEngine hw₃ (d.yields_compile _ fed (hinput.extend h₃))).bind
            fun made w₄ hw₄ _ hmade => hremember made w₄ hw₄ hmade
        · next d feeder _ =>
          refine (ih feeder hw₁).bind fun input w₂ hw₂ _ hinput => ?_
          exact (compiles_onEngine hw₂ (d.yields_compile _ hinput)).bind
            fun made w₃ hw₃ _ hmade => hremember made w₃ hw₃ hmade
    split
    · rintro _ _ ⟨⟩
    · exact hnew

/-- So are several layers, one after the other. -/
theorem compiles_compileLayers (m : Model) (ids : List LayerId) {w : Workspace}
    (hw : Remembers w) :
    Compiles (fun g ns => ∀ n ∈ ns, Reaching Op.Passive g n) (m.compileLayers ids) w := by
  unfold Model.compileLayers
  induction ids generalizing w with
  | nil => exact .pure hw (by simp)
  | cons id ids ih =>
    rw [List.mapM_cons]
    refine (compiles_compileWithin m.network _ id hw).bind fun n w₁ hw₁ _ hn => ?_
    refine (ih hw₁).bind fun ns w₂ hw₂ h₂ hns => ?_
    exact .pure hw₂ (List.forall_mem_cons.2 ⟨hn.extend h₂, hns⟩)

end Network

/-! ## Descent -/

namespace Descent

/-- Nodes that draw no samples when they are evaluated again. -/
def Steady (g : Graph) (ns : List Node) : Prop := ∀ n ∈ ns, Reaching Op.Steady g n

/-- Nodes stay steady when others are appended. -/
theorem Steady.extend {g g' : Graph} {ns : List Node} (h : Steady g ns) (hg : g.Extends g') :
    Steady g' ns :=
  fun n hn => (h n hn).extend hg

section Inherits

variable (hholds : Graph.Inherits P holds)
include hholds

/-- Accumulators start with zeros. -/
theorem yields_accumulators (k : Nat) (weights : List Node) :
    Yields (AtAll holds) (accumulators k weights) e := by
  induction weights generalizing k e with
  | nil => exact .pure nofun
  | cons weight weights ih =>
    refine (Yields.of_keeps (keeps_shape weight)).bind fun shape e₁ _ _ => ?_
    refine (yields_createVariable hholds shape .zeros _ false).bind
      fun accumulator e₂ _ haccumulator => (ih (k + 1)).bind fun rest e₃ h₃ hrest => ?_
    exact .pure (List.forall_mem_cons.2 ⟨hholds.extend haccumulator h₃, hrest⟩)

end Inherits

section Steady

variable (hholds : Graph.Inherits Op.Steady holds)
include hholds

/-- Derivatives take over what holds of the loss and the weights. -/
theorem yields_gradients {loss : Node} {weights : List Node} (hloss : At holds e.graph loss)
    (hweights : AtAll holds e.graph weights) :
    Yields (AtAll holds) (gradients loss weights) e := by
  refine leads_located trivial fun found hfound => leads_expectFloat trivial fun htype => ?_
  rw [hfound.slot]
  -- the loss stays in its slot while the derivatives are appended
  refine Yields.mapM (Q := fun g weight => g.nodes[loss.index]? = some found.2 ∧
      At holds g loss ∧ At holds g weight)
    (fun weight hmem => ⟨hfound.node, hloss, hweights weight hmem⟩)
    (fun hext weight h => ⟨hext.node h.1, hholds.extend h.2.1 hext, hholds.extend h.2.2 hext⟩)
    (fun hext n h => hholds.extend h hext) fun weight e h => ?_
  exact (appends_gradient h.1 htype weight).yields hholds (fun _ h => h.1) rfl rfl
    (List.forall_mem_cons.2 ⟨h.2.1, List.forall_mem_singleton.2 h.2.2⟩)

/-- An update takes over what holds of its target and its value. -/
theorem yields_update {target value : Node} (ht : At holds e.graph target)
    (hv : At holds e.graph value) : Yields (At holds) (update target value) e :=
  (appends_update target value).yields hholds (fun _ h => h.1) rfl rfl
    (List.forall_mem_cons.2 ⟨ht, List.forall_mem_singleton.2 hv⟩)

/-- The updates of a weight and its accumulator are steady. -/
theorem yields_step {rate momentum weight gradient accumulator : Node}
    (hrate : At holds e.graph rate) (hmomentum : At holds e.graph momentum)
    (hweight : At holds e.graph weight) (hgradient : At holds e.graph gradient)
    (haccumulator : At holds e.graph accumulator) :
    Yields (AtAll holds) (step rate momentum weight gradient accumulator) e := by
  refine (yields_binary hholds .multiply hrate hgradient).bind fun scaled e₁ h₁ hscaled => ?_
  refine (yields_binary hholds .multiply (hholds.extend hmomentum h₁)
    (hholds.extend haccumulator h₁)).bind fun decayed e₂ h₂ hdecayed => ?_
  refine (yields_binary hholds .subtract hdecayed (hholds.extend hscaled h₂)).bind
    fun velocity e₃ h₃ hvelocity => ?_
  have h₁₃ := (h₁.trans h₂).trans h₃
  refine (yields_update hholds (hholds.extend haccumulator h₁₃) hvelocity).bind
    fun ofAccumulator e₄ h₄ hofAccumulator => ?_
  have hweight₄ := hholds.extend hweight (h₁₃.trans h₄)
  refine (yields_binary hholds .add hweight₄ (hholds.extend hvelocity h₄)).bind
    fun moved e₅ h₅ hmoved => ?_
  refine (yields_update hholds (hholds.extend hweight₄ h₅) hmoved).bind
    fun ofWeight e₆ h₆ hofWeight => ?_
  exact .pure (List.forall_mem_cons.2
    ⟨hholds.extend hofAccumulator (h₅.trans h₆), List.forall_mem_singleton.2 hofWeight⟩)

/-- The updates of all weights are steady. -/
theorem yields_steps {rate momentum : Node} {parts : List (Node × Node × Node)}
    (hrate : At holds e.graph rate) (hmomentum : At holds e.graph momentum)
    (hparts : ∀ part ∈ parts, AtAll holds e.graph [part.1, part.2.1, part.2.2]) :
    Yields (AtAll holds) (steps rate momentum parts) e := by
  induction parts generalizing e with
  | nil => exact .pure nofun
  | cons part parts ih =>
    obtain ⟨weight, gradient, accumulator⟩ := part
    obtain ⟨hpart, hparts⟩ := List.forall_mem_cons.1 hparts
    simp only [AtAll, List.forall_mem_cons] at hpart
    obtain ⟨hweight, hgradient, haccumulator, -⟩ := hpart
    refine (yields_step hholds hrate hmomentum hweight hgradient haccumulator).bind
      fun updates e₁ h₁ hupdates => ?_
    refine (ih (hholds.extend hrate h₁) (hholds.extend hmomentum h₁)
      fun part hpart => (hparts part hpart).extend hholds h₁).bind fun rest e₂ h₂ hrest => ?_
    exact .pure (List.forall_mem_append.2 ⟨hupdates.extend hholds h₂, hrest⟩)

/-- All updates of a descent are steady. -/
theorem yields_compile (d : Descent) {loss : Node} {weights : List Node}
    (hloss : At holds e.graph loss) (hweights : AtAll holds e.graph weights) :
    Yields (AtAll holds) (d.compile loss weights) e := by
  refine (yields_counter hholds 0 _).bind fun iterations e₁ h₁ hiterations => ?_
  refine (yields_constant hholds _).bind fun rate e₂ h₂ hrate => ?_
  refine (yields_constant hholds _).bind fun momentum e₃ h₃ hmomentum => ?_
  refine (yields_constant hholds _).bind fun one e₄ h₄ hone => ?_
  refine (yields_accumulators hholds 0 weights).bind fun accumulators e₅ h₅ haccumulators => ?_
  have h₁₅ := (((h₁.trans h₂).trans h₃).trans h₄).trans h₅
  refine (yields_gradients hholds (hholds.extend hloss h₁₅) (hweights.extend hholds h₁₅)).bind
    fun gradients e₆ h₆ hgradients => ?_
  have h₃₆ := (h₄.trans h₅).trans h₆
  -- counter and constant were made before the gradients, and are still there
  have hcount : Yields (At holds) (updateAdd iterations one) e₆ :=
    (appends_updateAdd iterations one).yields hholds (fun _ h => h.1) rfl rfl
      (List.forall_mem_cons.2 ⟨hholds.extend hiterations ((h₂.trans h₃).trans h₃₆),
        List.forall_mem_singleton.2 (hholds.extend hone (h₅.trans h₆))⟩)
  refine hcount.bind fun count e₇ h₇ hcount => ?_
  -- weight, gradient and accumulator of a part come from the three lists that were zipped
  have hparts : ∀ part ∈ weights.zip (gradients.zip accumulators),
      AtAll holds e₇.graph [part.1, part.2.1, part.2.2] := by
    rintro ⟨weight, gradient, accumulator⟩ hpart
    obtain ⟨hweight, hrest⟩ := List.of_mem_zip hpart
    obtain ⟨hgradient, haccumulator⟩ := List.of_mem_zip hrest
    refine AtAll.extend ?_ hholds h₇
    simp only [AtAll, List.forall_mem_cons]
    exact ⟨hholds.extend (hweights weight hweight) (h₁₅.trans h₆), hgradients gradient hgradient,
      hholds.extend (haccumulators accumulator haccumulator) h₆, by simp⟩
  refine (yields_steps hholds (hholds.extend hrate ((h₃.trans h₃₆).trans h₇))
    (hholds.extend hmomentum (h₃₆.trans h₇)) hparts).bind fun trained e₈ h₈ htrained => ?_
  refine (yields_report _).bind fun _ e₉ h₉ _ => ?_
  exact .pure (List.forall_mem_cons.2
    ⟨hholds.extend hcount (h₈.trans h₉), htrained.extend hholds h₉⟩)

end Steady

end Descent

/-! ## Models -/

/-- What the functions of a program fetch in a graph. Predicting and evaluating change no variable
and draw no samples, and a step of training evaluates no random node. -/
structure Program.Reads (p : Program) (g : Graph) : Prop where
  predictFunction : p.predictFunction = .ofNodes g.id p.inputs p.outputs []
  evaluateFunction : p.evaluateFunction =
    .ofNodes g.id (p.inputs ++ p.targets) (p.losses ++ p.metrics) []
  trainFunction : ∃ updates, Descent.Steady g updates ∧
    p.trainFunction = (Function.ofNodes g.id (p.inputs ++ p.targets) (p.outputs ++ p.losses)
      updates).withPhase .train
  outputs : ∀ n ∈ p.outputs, Reaching Op.Passive g n
  losses : ∀ n ∈ p.losses, Reaching Op.Passive g n
  metrics : ∀ n ∈ p.metrics, Reaching Op.Passive g n
  objective : Reaching Op.Passive g p.objective

/-- A program reads the same on a graph with more nodes. -/
theorem Program.Reads.extend {p : Program} {g g' : Graph} (h : p.Reads g) (hg : g.Extends g') :
    p.Reads g' where
  predictFunction := by rw [hg.id]; exact h.predictFunction
  evaluateFunction := by rw [hg.id]; exact h.evaluateFunction
  trainFunction := by
    obtain ⟨updates, hupdates, htrain⟩ := h.trainFunction
    rw [hg.id]
    exact ⟨updates, hupdates.extend hg, htrain⟩
  outputs n hn := (h.outputs n hn).extend hg
  losses n hn := (h.losses n hn).extend hg
  metrics n hn := (h.metrics n hn).extend hg
  objective := h.objective.extend hg

/-- What a step fetches needs passive operations only. -/
theorem Program.Reads.passive {p : Program} {g : Graph} (h : p.Reads g) :
    ∀ n ∈ p.trainFunction.outputs, g.ReachesOnly Op.Passive n.index := by
  obtain ⟨updates, -, htrain⟩ := h.trainFunction
  rw [htrain]
  exact List.forall_mem_append.2 ⟨h.outputs, h.losses⟩

/-- What training fetches and updates is steady. -/
theorem Program.Reads.steady {p : Program} {g : Graph} (h : p.Reads g) :
    ∀ n ∈ p.trainFunction.outputs ++ p.trainFunction.updates,
      g.ReachesOnly Op.Steady n.index := by
  obtain ⟨updates, hupdates, htrain⟩ := h.trainFunction
  refine List.forall_mem_append.2 ⟨fun n hn => ?_, ?_⟩
  · exact Graph.ReachesOnly.mono (h.passive n hn) (fun _ hop => hop.steady) (.refl _)
  · rw [htrain]
    exact hupdates

namespace Model

/-- A pairing is of a node and the target that was made for it. -/
theorem mem_of_pairings {m : Model} {rows : List (LayerId × Node × Node)} {pairs : List Pairing}
    (h : m.pairings rows = .ok pairs) :
    ∀ p ∈ pairs, ∃ id, (id, p.output, p.target) ∈ rows := by
  induction rows generalizing pairs with
  | nil =>
    cases h
    simp
  | cons row rows ih =>
    obtain ⟨name, -, h⟩ := except_bind_eq_ok_iff.1 h
    obtain ⟨rest, hrest, h⟩ := except_bind_eq_ok_iff.1 h
    cases h
    refine List.forall_mem_cons.2 ⟨⟨row.1, List.mem_cons_self⟩, fun p hp => ?_⟩
    obtain ⟨id, hid⟩ := ih hrest p hp
    exact ⟨id, List.mem_cons_of_mem _ hid⟩

/-- The target of an output is passive. -/
theorem yields_compileTarget (m : Model) (id : LayerId) (output : Node) :
    Yields (Reaching Op.Passive) (m.compileTarget id output) e :=
  (Yields.of_keeps (keeps_shape output)).bind fun shape _ _ _ =>
    Yields.lift.bind fun name _ _ _ =>
      yields_placeholder (fun _ h => h) (name ++ "_Target") shape

/-- Trained variables need no other node. -/
theorem steady_trainableWeights (hsound : e.Sound) :
    Descent.Steady e.graph e.trainableWeights := by
  intro n hn
  obtain ⟨slot, hslot, rfl⟩ := List.mem_map.1 hn
  obtain ⟨v, hv, hvar⟩ := hsound.indexed.exists_variable_of_mem_trainable hslot
  exact .leaf hv (Op.passive_of_isVariable hvar).steady (Op.operands_of_isVariable hvar)

/-- Binding a function makes no node. -/
theorem yields_function (inputs outputs updates : List Node) :
    Yields (fun g f => f = .ofNodes g.id inputs outputs updates)
      (Engine.function inputs outputs updates) e := by
  refine (leads_function inputs outputs updates).imp (fun _ _ => trivial) ?_
  rintro f _ ⟨rfl, hf⟩
  exact ⟨.refl _, hf⟩

/-- A goal that passive operations compute. -/
structure Goal.Passive (g : Graph) (goal : Goal) : Prop where
  targets : ∀ n ∈ goal.targets, Reaching Op.Passive g n
  pairs : ∀ p ∈ goal.pairs, Reaching Op.Passive g p.output ∧ Reaching Op.Passive g p.target
  losses : ∀ n ∈ goal.losses, Reaching Op.Passive g n
  objective : Reaching Op.Passive g goal.objective

/-- Calls that make passive nodes of things that are ready, one after the other. -/
private theorem yields_made {α : Type} {f : α → Call Node} {as : List α} {Q : Graph → α → Prop}
    (hready : ∀ a ∈ as, Q e.graph a)
    (hstay : ∀ {g g' : Graph}, g.Extends g' → ∀ a, Q g a → Q g' a)
    (hf : ∀ a (e : Engine), Q e.graph a → Yields (Reaching Op.Passive) (f a) e) :
    Yields (fun g ns => ∀ n ∈ ns, Reaching Op.Passive g n) (as.mapM f) e :=
  Yields.mapM hready hstay (fun hg _ hn => hn.extend hg) hf

/-- Whatever is compared with its target is so by passive operations. -/
private theorem yields_compared {α : Type} {f : α × Pairing → Call Node} {as : List α}
    {pairs : List Pairing}
    (hpairs : ∀ p ∈ pairs, Reaching Op.Passive e.graph p.output ∧
      Reaching Op.Passive e.graph p.target)
    (hf : ∀ row (e : Engine), Reaching Op.Passive e.graph row.2.output →
      Reaching Op.Passive e.graph row.2.target → Yields (Reaching Op.Passive) (f row) e) :
    Yields (fun g ns => ∀ n ∈ ns, Reaching Op.Passive g n) ((as.zip pairs).mapM f) e :=
  yields_made (Q := fun g row => Reaching Op.Passive g row.2.output ∧
      Reaching Op.Passive g row.2.target)
    (fun _ hrow => hpairs _ (List.of_mem_zip hrow).2)
    (fun hg _ h => ⟨h.1.extend hg, h.2.extend hg⟩) fun row e h => hf row e h.1 h.2

/-- The losses and their sum are passive if the outputs are. -/
theorem yields_compileGoal (m : Model) {outputs : List Node}
    (houtputs : ∀ n ∈ outputs, Reaching Op.Passive e.graph n) :
    Yields Goal.Passive (m.compileGoal outputs) e := by
  have htargets : Yields (fun g ns => ∀ n ∈ ns, Reaching Op.Passive g n)
      ((m.outputs.zip outputs).mapM fun row => m.compileTarget row.1 row.2) e :=
    yields_made (Q := fun _ _ => True) (fun _ _ => trivial) (fun _ _ _ => trivial)
      fun _ _ _ => m.yields_compileTarget _ _
  refine htargets.bind fun targets e₁ h₁ htargets => Yields.lift.bind fun pairs e₂ h₂ hpairs => ?_
  -- a pairing is made of an output, which was there, and a target, which is new
  have hready : ∀ pair ∈ pairs, Reaching Op.Passive e₂.graph pair.output ∧
      Reaching Op.Passive e₂.graph pair.target := by
    intro pair hpair
    obtain ⟨id, hmem⟩ := mem_of_pairings hpairs pair hpair
    obtain ⟨-, hmem⟩ := List.of_mem_zip hmem
    obtain ⟨houtput, htarget⟩ := List.of_mem_zip hmem
    exact ⟨(houtputs _ houtput).extend (h₁.trans h₂), (htargets _ htarget).extend h₂⟩
  have hlosses : Yields (fun g ns => ∀ n ∈ ns, Reaching Op.Passive g n)
      (m.compileLosses pairs) e₂ :=
    yields_compared hready fun row _ => row.1.yields_compile inherits_passive _
  refine hlosses.bind fun losses e₃ h₃ hlosses => ?_
  refine (yields_aggregate inherits_passive hlosses).bind fun objective e₄ h₄ hobjective => ?_
  refine (yields_report _).bind fun _ e₅ h₅ _ => .pure ?_
  have h₂₅ := (h₃.trans h₄).trans h₅
  exact ⟨fun n hn => (htargets n hn).extend (h₂.trans h₂₅),
    fun p hp => (hready p hp).imp (·.extend h₂₅) (·.extend h₂₅),
    fun n hn => (hlosses n hn).extend (h₄.trans h₅), Reaching.extend hobjective h₅⟩

/-- The metrics are passive if the outputs and the targets are. -/
theorem yields_compileMetrics (m : Model) {pairs : List Pairing}
    (hpairs : ∀ p ∈ pairs, Reaching Op.Passive e.graph p.output ∧
      Reaching Op.Passive e.graph p.target) :
    Yields (fun g ns => ∀ n ∈ ns, Reaching Op.Passive g n) (m.compileMetrics pairs) e :=
  yields_compared hpairs fun row _ => row.1.yields_compile inherits_passive _

/-- What follows the layers makes a program that reads what it was compiled from. -/
theorem yields_assemble (m : Model) (inputs : List Node) {outputs : List Node} (hsound : e.Sound)
    (houtputs : ∀ n ∈ outputs, Reaching Op.Passive e.graph n) :
    Yields (fun g p => p.Reads g) (m.assemble inputs outputs) e := by
  rw [assemble_eq]
  refine (m.yields_compileGoal houtputs).bind_sound (m.preserves_compileGoal buildable_sound _)
    hsound fun goal e₁ h₁ hgoal hsound₁ => ?_
  refine (m.yields_compileMetrics hgoal.pairs).bind_sound
    (m.preserves_compileMetrics buildable_sound _) hsound₁ fun metrics e₂ h₂ hmetrics hsound₂ =>
      Yields.get ?_
  have hobjective : Reaching Op.Steady e₂.graph goal.objective :=
    Graph.ReachesOnly.mono hgoal.objective (fun _ h => h.steady) h₂
  have hinherits : Graph.Inherits Op.Steady fun g => g.ReachesOnly Op.Steady :=
    Graph.inherits_reachesOnly fun _ h => h.passive.steady
  refine (m.descent.yields_compile hinherits hobjective (steady_trainableWeights hsound₂)).bind
    fun updates e₃ h₃ hupdates => ?_
  refine (yields_function _ _ _).bind fun f e₄ h₄ hf => (yields_function _ _ _).bind
    fun f' e₅ h₅ hf' => (yields_function _ _ _).bind fun f'' e₆ h₆ hf'' => ?_
  refine (yields_report _).bind fun _ e₇ h₇ _ => .pure ?_
  have h₄₇ := (h₅.trans h₆).trans h₇
  have h₃₇ := h₄.trans h₄₇
  have h₂₇ := h₃.trans h₃₇
  -- binding functions and recording append nothing that could disturb what was good before
  constructor
  case predictFunction => rw [(h₆.trans h₇).id]; exact hf'
  case evaluateFunction => rw [h₇.id]; exact hf''
  case trainFunction =>
    refine ⟨updates, Descent.Steady.extend hupdates h₃₇, ?_⟩
    rw [h₄₇.id]
    exact congrArg (Function.withPhase · .train) hf
  case outputs => exact fun n hn => (houtputs n hn).extend ((h₁.trans h₂).trans h₂₇)
  case losses => exact fun n hn => (hgoal.losses n hn).extend (h₂.trans h₂₇)
  case metrics => exact fun n hn => (hmetrics n hn).extend h₂₇
  case objective => exact hgoal.objective.extend (h₂.trans h₂₇)

/-- The inputs and outputs of a model are computed by passive operations. -/
theorem reaching_of_compileEnds {m : Model} {inputs outputs : List Node} {w : Workspace}
    (h : m.compileEnds ⟨.ofEngine e, e⟩ = .ok (inputs, outputs) w) :
    ∀ n ∈ inputs ++ outputs, Reaching Op.Passive w.engine.graph n := by
  have hempty : Network.Remembers ⟨.ofEngine e, e⟩ := by
    intro b hb
    cases hb
  have hcompiles : Network.Compiles (fun g r => ∀ n ∈ r.1 ++ r.2, Reaching Op.Passive g n)
      m.compileEnds ⟨.ofEngine e, e⟩ :=
    (Network.compiles_compileLayers m m.inputs hempty).bind fun inputs w₁ hw₁ _ hinputs =>
      (Network.compiles_compileLayers m m.outputs hw₁).bind fun outputs w₂ hw₂ h₂ houtputs =>
        .pure hw₂ (List.forall_mem_append.2 ⟨fun n hn => (hinputs n hn).extend h₂, houtputs⟩)
  exact (hcompiles _ _ h).2.2

/-- Compiling a model compiles its layers, and then appends what follows them. On a sound engine it
comes to a program that only reads. -/
theorem exists_assembled {m : Model} {e e' : Engine} {p : Program}
    (h : m.compile e = .ok p e') :
    ∃ inputs outputs w, m.compileEnds ⟨.ofEngine e, e⟩ = .ok (inputs, outputs) w ∧
      m.assemble inputs outputs w.engine = .ok p e' ∧
      (e.Sound → w.engine.graph.Extends e'.graph ∧ p.Reads e'.graph) := by
  unfold compile at h
  split at h
  · cases h
  · next inputs outputs w hends =>
    have houtputs := (List.forall_mem_append.1 (reaching_of_compileEnds hends)).2
    refine ⟨inputs, outputs, w, hends, h, fun hsound => ?_⟩
    have hsound₁ := keeping_compileEnds buildable_sound m _ _ _ hsound hends
    exact (m.yields_assemble inputs hsound₁ houtputs).of_eq_ok h

/-- A compiled model only reads when it predicts or evaluates. -/
theorem reads_of_compile {m : Model} {e e' : Engine} {p : Program} (hsound : e.Sound)
    (h : m.compile e = .ok p e') : p.Reads e'.graph := by
  obtain ⟨_, _, _, -, -, hreads⟩ := exists_assembled h
  exact (hreads hsound).2

end Model

end TensorGraph
