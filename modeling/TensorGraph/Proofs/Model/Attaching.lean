import TensorGraph.Proofs.Model.Descending

/-!
# Attaching losses and metrics

Compiling a loss or a metric appends nodes without names and then one node under the name that is
asked for. That name must be free: names that are attached one after the other differ, and a name in
use is refused when all nodes but the last one have been appended.

## Main definitions

* `Engine.Padded`: an engine with further nodes, none of which is a variable.
* `Engine.Attaches`: a call that appends unnamed nodes and then a node under a name.

## Main results

* `Loss.attaches_compile` and `Metric.attaches_compile`: losses and metrics are attached.
* `Engine.leads_mapM_attaches`: names that are attached one after the other differ.
-/

namespace TensorGraph

namespace Engine

variable {α β : Type} {e e' e'' : Engine} {P Q : Option String → Prop} {name : Option String}

/-- An engine with further nodes, none of which is a variable, and with the same session. The names
of the further nodes are of a kind, and no other names have been bound. -/
structure Padded (P : Option String → Prop) (e e' : Engine) : Prop where
  changes : Changes e e'
  session : e'.session = e.session
  /-- What has been added. -/
  added : ∀ {slot : Nat} {n : GraphNode}, e'.graph.nodes[slot]? = some n → e.graph.size ≤ slot →
    n.op.isVariable = false ∧ P n.name
  /-- What is trained is as it was. -/
  trainable : e'.graph.trainable = e.graph.trainable
  /-- Names of other kinds are looked up as before. -/
  bound : ∀ {name : String}, e'.graph.find? name ≠ e.graph.find? name → P (some name)

namespace Padded

theorem refl (P : Option String → Prop) (e : Engine) : Padded P e e where
  changes := .refl
  session := rfl
  added hn hle := absurd (Graph.lt_size_of_getElem? hn) (Nat.not_lt.2 hle)
  trainable := rfl
  bound hne := absurd rfl hne

/-- Further nodes come one batch after the other. -/
theorem trans (h : Padded P e e') (h' : Padded P e' e'') : Padded P e e'' where
  changes := h.changes.trans h'.changes
  session := h'.session.trans h.session
  added {slot n} hn hle := by
    -- a node is either one of the last ones, or it has been added before them
    by_cases hlt : slot < e'.graph.size
    · obtain ⟨m, hm⟩ := Graph.exists_node_of_lt hlt
      obtain rfl := Option.some.inj ((h'.changes.getElem? hm).symm.trans hn)
      exact h.added hm hle
    · exact h'.added hn (Nat.not_lt.1 hlt)
  trainable := h'.trainable.trans h.trainable
  bound {name} hne := by
    by_cases heq : e'.graph.find? name = e.graph.find? name
    · exact h'.bound (heq ▸ hne)
    · exact h.bound heq

/-- Names of one kind are of every wider kind. -/
theorem mono (h : Padded P e e') (hPQ : ∀ s, P s → Q s) : Padded Q e e' where
  changes := h.changes
  session := h.session
  added hn hle := (h.added hn hle).imp_right (hPQ _)
  trainable := h.trainable
  bound hne := hPQ _ (h.bound hne)

end Padded

theorem Reported.padded (h : Reported e e') : Padded P e e' where
  changes := h.changes
  session := h.session_eq
  added hn hle := by
    rw [h.graph_eq] at hn
    exact (Padded.refl P e).added hn hle
  trainable := by rw [h.graph_eq]
  bound hne := absurd (by rw [h.graph_eq]) hne

/-- A node that is not a variable may be appended under a name of the kind. -/
theorem Appended.padded {n : GraphNode} {handle : Node} (h : Appended e n handle e')
    (hname : P n.name) : Padded P e e' where
  changes := .single h.change
  session := by rw [h.engine]
  added hm hle := by
    rw [h.engine] at hm
    rcases Graph.getElem?_push_eq_some_iff.1 hm with hold | ⟨-, rfl⟩
    · exact ((Padded.refl P e).added hold hle)
    · exact ⟨h.stateless, hname⟩
  trainable := by rw [h.engine, Graph.trainable_push]
  bound {s} hne := by
    rw [h.engine, Graph.find?_push] at hne
    split at hne
    · next hs => exact hs ▸ hname
    · exact absurd rfl hne

/-! ## Attaching -/

/-- From every engine a call appends nodes without names, and after them a node under a name, if one
is given. The name must have been free, and is bound to the node then. -/
def Attaches (name : Option String) (c : Call Node) : Prop :=
  ∀ e : Engine, Leads c e (Padded (· = none) e) fun handle e' =>
    Padded (fun s => s = none ∨ s = name) e e' ∧
      (∀ s, name = some s → e'.graph.find? s = some handle.index) ∧
      ∀ s, name = some s → e.graph.find? s = none

namespace Attaches

/-- What is unnamed may come before what is named. -/
theorem bind {c : Call Node} {f : Node → Call Node} (hc : Attaches none c)
    (hf : ∀ a, Attaches name (f a)) : Attaches name (c >>= f) := by
  intro e
  refine leads_bind_iff.2 ((hc e).mono ?_)
  rintro a e₁ ⟨hunnamed, -, -⟩
  have hfirst : Padded (· = none) e e₁ := hunnamed.mono fun s hs => hs.elim id id
  refine (hf a e₁).imp (fun _ h => hfirst.trans h) ?_
  rintro handle e' ⟨hpadded, hnamed, hfree⟩
  exact ⟨(hfirst.mono fun _ => .inl).trans hpadded, hnamed, fun s hs =>
    hfirst.changes.find?_eq_none (hfree s hs)⟩

/-- A check in front changes nothing about what is attached. -/
theorem refuse_unless {p : Prop} [Decidable p] {err : Error} {f : Unit → Call Node}
    (h : Attaches name (f ())) :
    Attaches name (if p then Engine.refuse err >>= f else f ()) :=
  fun e => leads_unless (.refl _ e) fun _ => h e

end Attaches

/-- A call that appends one node under the name attaches it. -/
theorem Appends.attaches {c : Call Node} {P : Engine → GraphNode → Prop}
    (hc : ∀ e, Appends c e (P e)) (hname : ∀ e n, P e n → n.name = name) : Attaches name c := by
  refine fun e => Leads.imp (hc e) ?_ ?_
  · rintro _ rfl
    exact .refl _ _
  · rintro handle e' ⟨n, hn, happended⟩
    have hnamed := hname e n hn
    refine ⟨happended.padded (.inr hnamed), fun s hs => ?_,
      fun s hs => happended.fresh s (hnamed.trans hs)⟩
    rw [happended.engine, Graph.find?_push, if_pos (hnamed.trans hs), happended.handle]
    rfl

section

variable (name : Option String)

/-- A constant is attached under its name. -/
theorem attaches_constant (value : Value) : Attaches name (constant value name) :=
  Appends.attaches (fun _ => appends_constant value) fun _ _ h => h.2

/-- A function of one argument is attached under its name. -/
theorem attaches_unary (op : UnaryOp) (input : Node) : Attaches name (unary op input name) :=
  Appends.attaches (fun _ => appends_unary op input) fun _ _ h => h.2

/-- A function of two arguments is attached under its name. -/
theorem attaches_binary (op : BinaryOp) (left right : Node) :
    Attaches name (binary op left right name) :=
  Appends.attaches (fun _ => appends_binary op left right) fun _ _ h => h.2

/-- A clip is attached under its name. -/
theorem attaches_clip (input : Node) (min max : Float32) :
    Attaches name (clip input min max name) :=
  Appends.attaches (fun _ => appends_clip input min max) fun _ _ h => h.2

/-- A mean is attached under its name. -/
theorem attaches_mean (input : Node) : Attaches name (mean input name) :=
  Appends.attaches (fun _ => appends_mean input) fun _ _ h => h.2

end

/-- Names that are attached one after the other are free at the beginning and differ. -/
theorem leads_mapM_attaches {f : α → Call Node} (name : α → String)
    (hf : ∀ a, Attaches (some (name a)) (f a)) (as : List α) (e : Engine) :
    Leads (as.mapM f) e (Padded (fun _ => True) e) fun _ e' => Padded (fun _ => True) e e' ∧
      (∀ a ∈ as, e.graph.find? (name a) = none) ∧ (as.map name).Nodup := by
  induction as generalizing e with
  | nil => exact leads_pure ⟨.refl _ e, by simp, by simp⟩
  | cons a as ih =>
    rw [List.mapM_cons]
    refine leads_bind_iff.2 ((hf a e).imp (fun _ h => h.mono fun _ _ => trivial) ?_)
    rintro handle e₁ ⟨hpadded, hbound, hfree⟩
    have hfirst : Padded (fun _ => True) e e₁ := hpadded.mono fun _ _ => trivial
    refine leads_bind_iff.2 ((ih e₁).imp (fun _ h => hfirst.trans h) ?_)
    rintro handles e' ⟨hrest, hfrees, hnodup⟩
    refine leads_pure ⟨hfirst.trans hrest, ?_, ?_⟩
    · exact List.forall_mem_cons.2 ⟨hfree _ rfl, fun a ha =>
        hpadded.changes.find?_eq_none (hfrees a ha)⟩
    · -- by now the first name is bound
      refine List.nodup_cons.2 ⟨fun hmem => ?_, hnodup⟩
      obtain ⟨b, hb, hsame⟩ := List.mem_map.1 hmem
      cases (hfrees b hb).symm.trans (hbound _ (congrArg some hsame.symm))

/-- Adding losses up appends unnamed sums. -/
theorem leads_padded_aggregate (losses : List Node) (e : Engine) :
    Leads (aggregate losses) e (Padded (· = none) e) fun _ e' => Padded (· = none) e e' := by
  cases losses with
  | nil => exact Padded.refl _ e
  | cons first rest =>
    -- the fold starts with another sum after each addition, so `first` varies in the induction
    change Leads (rest.foldlM (fun total loss => add total loss none) first) e _ _
    induction rest generalizing first e with
    | nil => exact Padded.refl _ e
    | cons loss rest ih =>
      refine leads_bind_iff.2 ((attaches_binary none .add first loss e).mono ?_)
      rintro total e₁ ⟨hpadded, -, -⟩
      have hfirst : Padded (· = none) e e₁ := hpadded.mono fun _ hs => hs.elim id id
      exact (ih e₁ total).imp (fun _ h => hfirst.trans h) fun _ _ h => hfirst.trans h

end Engine

open Engine

variable {name : Option String}

/-- A loss is attached under its name, with what it is computed from before it. -/
theorem Loss.attaches_compile (predictions targets : Node) (loss : Loss) :
    Attaches name (loss.compile predictions targets name) := by
  cases loss with
  | meanSquaredError =>
    exact (attaches_binary none .subtract _ _).bind fun _ =>
      (attaches_unary none .square _).bind fun _ => attaches_mean name _
  | binaryCrossEntropy =>
    exact (attaches_clip none _ _ _).bind fun _ => (attaches_constant none _).bind fun _ =>
      (attaches_binary none .subtract _ _).bind fun _ =>
        (attaches_binary none .divide _ _).bind fun _ => (attaches_unary none .log _).bind fun _ =>
          Appends.attaches (fun _ => appends_sigmoidCrossEntropy _ _) fun _ _ h => h.2
  | categoricalCrossEntropy =>
    exact Appends.attaches (fun _ => appends_softmaxCrossEntropy _ _) fun _ _ h => h.2
  | negativeLogLikelihood ε =>
    unfold Loss.compile
    refine .refuse_unless ?_
    exact (attaches_clip none _ _ _).bind fun _ => (attaches_unary none .log _).bind fun _ =>
      (attaches_binary none .multiply _ _).bind fun _ =>
        Attaches.bind (Appends.attaches (fun _ => appends_reduceSum _) fun _ _ h => h.2) fun _ =>
          attaches_unary name .negate _

/-- A metric is attached under its name, with what it is computed from before it. -/
theorem Metric.attaches_compile (predictions targets : Node) (metric : Metric) :
    Attaches name (metric.compile predictions targets name) := by
  cases metric with
  | meanSquaredError => exact Loss.attaches_compile _ _ .meanSquaredError
  | meanAbsoluteError =>
    exact (attaches_binary none .subtract _ _).bind fun _ =>
      (attaches_unary none .abs _).bind fun _ => attaches_mean name _
  | loss l => exact l.attaches_compile _ _

end TensorGraph
