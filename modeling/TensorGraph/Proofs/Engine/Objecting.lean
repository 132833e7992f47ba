import TensorGraph.Learning.Objective
import TensorGraph.Proofs.Engine.Renaming
import TensorGraph.Proofs.Learning.Following
import TensorGraph.Proofs.Number.Order
import TensorGraph.Proofs.Run.Refusing

/-!
# What calls object to

While a graph is built, an engine finds fault with an argument in a few places only: with the
parameters of a distribution, with the bounds of a clip, and with the rate of a dropout. It finds
fault with a name when the name is in use. Everything else that goes wrong has to do with nodes,
shapes or values, and so has everything that goes wrong in an evaluation.

The names that a call binds do not depend on the engine. When they are distinct and none of them is
in use, then a call does not object to any of them, and it binds each to a node of its own. In
particular no placeholder is found under a name that is asked for.

## Main definitions

* `Failure.Objects`: errors about arguments that have one of some causes.
* `Binding`: what a program objects to in a state, and which names it binds.
* `Engine.Binds`: calls that do so on every engine.
* `Initializer.fault?` and `Loss.fault?`: what is wrong with the parameters of an initializer or a
  loss.
* `Descent.labels`: the names that are kept for training.

## Main results

* `Setting.isOther_of_evaluate`: evaluating finds fault with no argument and no name.
* `Engine.binds_createVariable`: creating a variable finds fault with its initializer only.
* `Descent.binds_compile`: compiling gradient descent finds fault with no argument.
-/

namespace TensorGraph

variable {σ α β : Type} {K : ArgumentFault → Prop}

/-! ## Failures -/

namespace Failure

/-- If a failure is an error about an argument, it has one of some causes. -/
def Objects (K : ArgumentFault → Prop) (f : Failure) : Prop :=
  ∀ cause, f = .error (.invalidArgument cause) → K cause

/-- A failure that is neither about an argument nor about a name in use. -/
def isOther : Failure → Bool
  | .error (.invalidArgument _) | .error (.duplicateName _) => false
  | _ => true

/-- A failure of another kind is no objection to a name. -/
theorem objects_of_isOther {f : Failure} (h : f.isOther) : f.Objects K := by
  rintro cause rfl
  cases h

/-- It does not say that a name is taken either. -/
theorem not_nameTaken_of_isOther {f : Failure} (h : f.isOther) : ¬f.NameTaken := by
  rintro ⟨name, rfl⟩
  cases h

end Failure

/-! ## Evaluations -/

namespace Setting

variable {S : Type} {env : Setting S} {slot : Nat}

/-- A shape that is asked for too early is a fault. -/
theorem isOther_of_staticShape {f : Failure} (h : env.staticShape slot = .error f) :
    f.isOther := by
  unfold staticShape at h
  dsimp only at h
  split at h <;> cases h
  rfl

variable [Scalar S]

/-- A value that cannot be computed is no fault of an argument. -/
theorem isOther_of_compute {known : Known S} {op : Op} {f : Failure}
    (h : env.compute known slot op = .error f) : f.isOther := by
  -- shapes that do not fit and values that are missing are reported for slots, never for an
  -- argument
  have hcommon : ∀ {a b : Tensor S}, env.commonShape slot a b = .error f → f.isOther := by
    intro a b h
    unfold commonShape at h
    split at h <;> cases h
    rfl
  have hfit : ∀ {shape : Shape} {t : Tensor S}, fitTo shape t = .error f → f.isOther := by
    intro shape t h
    unfold fitTo at h
    split at h <;> cases h
    rfl
  cases op with
  | placeholder | softmaxCrossEntropy =>
    simp only [compute] at h
    split at h <;> cases h
    rfl
  | dropout =>
    simp only [compute] at h
    split at h <;> cases h
  | dot =>
    simp only [compute, product] at h
    split at h <;> cases h
    rfl
  | biasAdd =>
    simp only [compute, biased] at h
    split at h <;> cases h
    rfl
  | «variable» =>
    simp only [compute] at h
    split at h
    · exact isOther_of_staticShape (except_map_eq_error_iff.1 h)
    · cases h
      rfl
  | random =>
    rcases except_bind_eq_error_iff.1 h with h | ⟨_, -, ⟨⟩⟩
    exact isOther_of_staticShape h
  | fill => exact isOther_of_staticShape (except_map_eq_error_iff.1 h)
  | binary | sigmoidCrossEntropy =>
    rcases except_bind_eq_error_iff.1 h with h | ⟨_, -, ⟨⟩⟩
    exact hcommon h
  | assign =>
    rcases except_bind_eq_error_iff.1 h with h | ⟨_, -, h⟩
    · exact isOther_of_staticShape h
    · exact hfit h
  | assignAdd =>
    rcases except_bind_eq_error_iff.1 h with h | ⟨_, -, ⟨⟩⟩
    exact hfit h
  | constant | unary | clip | cast | mean | reduceSum | gradient => cases h

/-- Samples that are not drawn are no fault of an argument. -/
theorem isOther_of_drawNoise (op : Op) (ev : Evaluation S) :
    FailsBy (fun f => f.isOther) (env.drawNoise slot op) ev := by
  cases op with
  | random sampler seed =>
    refine FailsBy.bind (failsBy_lift fun _ h => isOther_of_staticShape h) fun shape _ _ =>
      .get_bind ?_
    dsimp only
    refine FailsBy.bind (.modify _) fun _ _ _ => ?_
    split
    · exact .modify _
    · next defect _ => exact .throw (by cases defect <;> rfl)
  | dropout input rate seed =>
    refine .ite (fun _ => .get_bind (.get_bind ?_)) fun _ => .pure ()
    dsimp only
    exact .bind (.modify _) fun _ _ _ => .modify _
  | _ => exact .pure ()

/-- Evaluating a slot never fails over a name. -/
theorem isOther_of_evaluateSlot (slot : Nat) (ev : Evaluation S) :
    FailsBy (fun f => f.isOther) (env.evaluateSlot slot) ev := by
  unfold evaluateSlot
  split
  · exact .pure ()
  · next n _ =>
    refine (isOther_of_drawNoise n.op ev).bind fun _ _ _ => FailsBy.bind
      (.of_succeeds (env.succeeds_differentiate n.op)) fun _ _ _ => .get_bind ?_
    refine FailsBy.bind (failsBy_lift fun _ h => isOther_of_compute h) fun t _ _ => ?_
    exact FailsBy.bind (.of_succeeds fun _ => ⟨(), _, recordAssignment_eq t⟩) fun _ _ _ =>
      .modify _

/-- Evaluating finds fault with no argument and no name. -/
theorem isOther_of_evaluate (targets : List Nat) (ev : Evaluation S) :
    FailsBy (fun f => f.isOther) (env.evaluate targets) ev := by
  unfold evaluate
  induction env.graph.schedule targets generalizing ev with
  | nil => exact .pure ()
  | cons slot slots ih => exact (isOther_of_evaluateSlot slot ev).bind fun _ ev₁ _ => ih ev₁

end Setting

/-! ## Names -/

namespace Graph

variable {g : Graph}

/-- The names in use, in the order in which they have been bound. -/
def names (g : Graph) : List String := (g.bound.map (·.1)).reverse

/-- A node that is appended adds its name, if it has one, behind the others. -/
theorem names_push (g : Graph) (n : GraphNode) :
    (g.push n).names = g.names ++ n.name.toList := by
  cases h : n.name <;> simp [names, push, h]

/-- A name is free as long as no node has it. -/
theorem find?_eq_none_iff_not_mem {name : String} : g.find? name = none ↔ name ∉ g.names := by
  simp only [find?, List.lookup_eq_none_iff, bne_iff_ne, names, List.mem_reverse, List.mem_map,
    not_exists, not_and]
  exact forall₂_congr fun _ _ => ne_comm

/-- A name in use is not new. -/
theorem not_nodup_of_find? {name : String} {slot : Nat} {names : List String}
    (h : g.find? name = some slot) (hname : name ∈ names) : ¬(g.names ++ names).Nodup := by
  have htaken : name ∈ g.names := by
    by_contra hfree
    rw [find?_eq_none_iff_not_mem.2 hfree] at h
    cases h
  exact fun hnodup => (List.nodup_append.1 hnodup).2.2 name htaken name hname rfl

end Graph

/-- What a program objects to in a state, and which names it binds. It finds fault with arguments
for some causes only. When the names are distinct and not in use, it finds fault with none of them:
it binds them one after the other, and if it fails then it has bound the first of them. -/
structure Binding (K : ArgumentFault → Prop) (bound : σ → List String) (c : EStateM Failure σ α)
    (s : σ) (names : List String) : Prop where
  objects : FailsBy (Failure.Objects K) c s
  gives : ∀ {a : α} {t : σ}, c s = .ok a t → (bound s ++ names).Nodup →
    bound t = bound s ++ names
  fails : ∀ {f : Failure} {t : σ}, c s = .error f t → (bound s ++ names).Nodup →
    ¬f.NameTaken ∧ ∃ first, first <+: names ∧ bound t = bound s ++ first

/-- What a program objects to can be told from what it comes to. -/
theorem binding_iff {bound : σ → List String} {c : EStateM Failure σ α} {s : σ}
    {names : List String} : Binding K bound c s names ↔
      match c s with
      | .ok _ t => (bound s ++ names).Nodup → bound t = bound s ++ names
      | .error f t => f.Objects K ∧ ((bound s ++ names).Nodup →
        ¬f.NameTaken ∧ ∃ first, first <+: names ∧ bound t = bound s ++ first) := by
  -- the three parts of the notion speak of one outcome each, and only one of them occurs
  cases hc : c s with
  | ok a t =>
    refine ⟨fun h => h.gives hc, fun h => ⟨?_, ?_, ?_⟩⟩
    · exact fun _ _ hfail => nomatch hc.symm.trans hfail
    · rintro _ _ hok
      cases hc.symm.trans hok
      exact h
    · exact fun hfail => nomatch hc.symm.trans hfail
  | error f t =>
    refine ⟨fun h => ⟨h.objects _ _ hc, h.fails hc⟩, fun h => ⟨?_, ?_, ?_⟩⟩
    · rintro _ _ hfail
      cases hc.symm.trans hfail
      exact h.1
    · exact fun hok => nomatch hc.symm.trans hok
    · rintro _ _ hfail
      cases hc.symm.trans hfail
      exact h.2

namespace Binding

variable {bound : σ → List String} {s : σ} {c : EStateM Failure σ α} {f : α → EStateM Failure σ β}
  {names ns ms : List String}

theorem pure (a : α) : Binding K bound (pure a) s [] where
  objects := .pure a
  gives h _ := by
    cases h
    exact (List.append_nil _).symm
  fails := nofun

/-- A failure that is no objection to a name binds whatever is expected. -/
theorem throw {failure : Failure} (h : failure.Objects K) (hname : ¬failure.NameTaken) :
    Binding K bound (throw failure : EStateM Failure σ α) s names where
  objects := .throw h
  gives := nofun
  fails := by
    rintro _ _ ⟨⟩ _
    exact ⟨hname, [], List.nil_prefix, (List.append_nil _).symm⟩

/-- A change of the state that binds names. -/
theorem modify {f : σ → σ} (h : bound (f s) = bound s ++ names) :
    Binding K bound (modify f) s names where
  objects := .modify f
  gives hok _ := by
    cases hok
    exact h
  fails := nofun

/-- Nothing is said about names that are in use. -/
theorem of_taken (h : FailsBy (Failure.Objects K) c s) (htaken : ¬(bound s ++ names).Nodup) :
    Binding K bound c s names :=
  ⟨h, fun _ hnodup => absurd hnodup htaken, fun _ hnodup => absurd hnodup htaken⟩

/-- A program that leaves the names alone. -/
theorem keep (h : match c s with
    | .ok _ t => bound t = bound s
    | .error f t => f.isOther ∧ bound t = bound s) : Binding K bound c s [] := by
  rw [binding_iff]
  split at h
  · exact fun _ => h.trans (List.append_nil _).symm
  · exact ⟨Failure.objects_of_isOther h.1, fun _ => ⟨Failure.not_nameTaken_of_isOther h.1, [],
      List.nil_prefix, h.2.trans (List.append_nil _).symm⟩⟩

/-- Names that the first part binds are bound when the second part begins. -/
theorem bind (hc : Binding K bound c s ns)
    (hf : ∀ a t, c s = .ok a t → Binding K bound (f a) t ms) :
    Binding K bound (c >>= f) s (ns ++ ms) where
  objects := hc.objects.bind fun a t h => (hf a t h).objects
  gives h hnodup := by
    rw [← List.append_assoc] at hnodup ⊢
    obtain ⟨a, t, hfirst, hrest⟩ := bind_eq_ok_iff.1 h
    have hbound := hc.gives hfirst hnodup.of_append_left
    rw [← hbound] at hnodup ⊢
    exact (hf a t hfirst).gives hrest hnodup
  fails h hnodup := by
    rw [← List.append_assoc] at hnodup
    -- either program may fail, the second one after all the names of the first one
    rcases bind_eq_error_iff.1 h with hfirst | ⟨a, t, hfirst, hrest⟩
    · obtain ⟨hname, first, hpre, hbound⟩ := hc.fails hfirst hnodup.of_append_left
      exact ⟨hname, first, hpre.trans (List.prefix_append _ _), hbound⟩
    · have hbound := hc.gives hfirst hnodup.of_append_left
      rw [← hbound] at hnodup
      obtain ⟨hname, first, hpre, hlast⟩ := (hf a t hfirst).fails hrest hnodup
      refine ⟨hname, ns ++ first, (List.prefix_append_right_inj ns).2 hpre, ?_⟩
      rw [hlast, hbound, List.append_assoc]

/-- A program that binds nothing comes first. -/
theorem skip (hc : Binding K bound c s [])
    (hf : ∀ a t, c s = .ok a t → Binding K bound (f a) t names) :
    Binding K bound (c >>= f) s names :=
  hc.bind hf

/-- A program that binds nothing comes last. -/
theorem last (hc : Binding K bound c s names)
    (hf : ∀ a t, c s = .ok a t → Binding K bound (f a) t []) :
    Binding K bound (c >>= f) s names := by
  simpa using hc.bind hf

theorem get_bind {f : σ → EStateM Failure σ β} (h : Binding K bound (f s) s names) :
    Binding K bound (get >>= f) s names := ⟨h.objects, h.gives, h.fails⟩

/-- A branch binds the names on both sides. -/
theorem ite {p : Prop} [Decidable p] {c d : EStateM Failure σ α}
    (hc : p → Binding K bound c s names) (hd : ¬p → Binding K bound d s names) :
    Binding K bound (if p then c else d) s names := by
  split
  · next h => exact hc h
  · next h => exact hd h

/-- Calls one after the other bind their names one after the other. -/
theorem mapM {f : β → EStateM Failure σ α} {names : β → List String} {bs : List β}
    (hf : ∀ b ∈ bs, ∀ t, Binding K bound (f b) t (names b)) :
    Binding K bound (bs.mapM f) s (bs.flatMap names) := by
  induction bs generalizing s with
  | nil => exact .pure []
  | cons b bs ih =>
    obtain ⟨hb, hbs⟩ := List.forall_mem_cons.1 hf
    rw [List.mapM_cons, List.flatMap_cons]
    exact (hb s).bind fun _ t _ => (ih hbs).last fun _ _ _ => .pure _

end Binding

/-! ## Building a graph -/

/-- What is wrong with the parameters of an initializer. -/
def Initializer.fault? : Initializer → Option ArgumentFault
  | randomNormal _ stddev _ | truncatedNormal _ stddev _ =>
    if stddev.isFinite ∧ 0 ≤ stddev then none else some (.badDeviation stddev)
  | randomUniform min max _ => if min < max then none else some (.emptyRange min max)
  | zeros | ones | constant _ => none

/-- What is wrong with the parameters of a loss. -/
def Loss.fault? : Loss → Option ArgumentFault
  | negativeLogLikelihood ε => if 0 < ε ∧ ε < 0.5 then none else some (.badEpsilon ε)
  | meanSquaredError | binaryCrossEntropy | categoricalCrossEntropy => none

namespace Engine

/-- A call that binds names, whatever the engine, and finds fault with arguments for some causes
only. -/
def Binds (K : ArgumentFault → Prop) (c : Call α) (names : List String) : Prop :=
  ∀ e : Engine, Binding K (fun e => e.graph.names) c e names

namespace Binds

variable {c : Call α} {f : α → Call β} {names ns ms : List String}

theorem pure (a : α) : Binds K (pure a) [] := fun _ => .pure a

theorem modify {f : Engine → Engine} (h : ∀ e, (f e).graph.names = e.graph.names ++ names) :
    Binds K (modify f) names := fun e => .modify (h e)

/-- The names of a sequence are those of its parts, in order. -/
theorem bind (hc : Binds K c ns) (hf : ∀ a, Binds K (f a) ms) : Binds K (c >>= f) (ns ++ ms) :=
  fun e => (hc e).bind fun a t _ => hf a t

/-- A call that binds nothing comes first. -/
theorem skip (hc : Binds K c []) (hf : ∀ a, Binds K (f a) names) : Binds K (c >>= f) names :=
  fun e => (hc e).skip fun a t _ => hf a t

/-- A call that binds nothing comes last. -/
theorem last (hc : Binds K c names) (hf : ∀ a, Binds K (f a) []) : Binds K (c >>= f) names :=
  fun e => (hc e).last fun a t _ => hf a t

theorem get_bind {f : Engine → Call β} (hf : ∀ e, Binds K (f e) names) :
    Binds K (get >>= f) names :=
  fun e => .get_bind (hf e e)

theorem ite {p : Prop} [Decidable p] {c d : Call α} (hc : p → Binds K c names)
    (hd : ¬p → Binds K d names) : Binds K (if p then c else d) names :=
  fun e => .ite (fun h => hc h e) fun h => hd h e

/-- The names of several calls are those of each, in order. -/
theorem mapM {f : β → Call α} {names : β → List String} {bs : List β}
    (hf : ∀ b ∈ bs, Binds K (f b) (names b)) : Binds K (bs.mapM f) (bs.flatMap names) :=
  fun _ => .mapM fun b hb t => hf b hb t

/-- Calls that bind nothing bind nothing together. -/
theorem forM {f : β → Call PUnit} {bs : List β} (hf : ∀ b, Binds K (f b) []) :
    Binds K (bs.forM f) [] := by
  induction bs with
  | nil => exact .pure PUnit.unit
  | cons b bs ih => exact (hf b).skip fun _ => ih

end Binds

variable {names : List String}

/-- An argument is refused for a cause. -/
theorem binds_object {cause : ArgumentFault} (h : K cause) :
    Binds K (refuse (.invalidArgument cause) : Call α) names := fun _ =>
  .throw (by rintro _ ⟨⟩; exact h) (by rintro ⟨_, ⟨⟩⟩)

/-- Something else is refused. -/
theorem binds_decline {err : Error} (h : (Failure.error err).isOther) :
    Binds K (refuse err : Call α) names :=
  fun _ => .throw (Failure.objects_of_isOther h) (Failure.not_nameTaken_of_isOther h)

/-- A check of an argument in the middle of a call. -/
theorem binds_unless_object {p : Prop} [Decidable p] {cause : ArgumentFault} {c : Unit → Call α}
    (hcause : p → K cause) (hc : ¬p → Binds K (c ()) names) :
    Binds K (if p then refuse (.invalidArgument cause) >>= c else c ()) names :=
  .ite (fun hp e => (binds_object (hcause hp) e).last fun _ _ h => nomatch h) hc

/-- Another check in the middle of a call. -/
theorem binds_unless {p : Prop} [Decidable p] {err : Error} {c : Unit → Call α}
    (herr : (Failure.error err).isOther) (hc : ¬p → Binds K (c ()) names) :
    Binds K (if p then refuse err >>= c else c ()) names :=
  .ite (fun _ e => (binds_decline herr e).last fun _ _ h => nomatch h) hc

/-- A check that is passed binds nothing. -/
theorem binds_lift {r : Except Error α} {a : α} {f : α → Call β} (h : r = .ok a)
    (hf : Binds K (f a) names) : Binds K (lift r >>= f) names := by
  subst h
  exact hf

theorem binds_checkActive : Binds K checkActive [] :=
  .get_bind fun _ => .ite (fun _ => binds_decline rfl) fun _ => .pure ()

/-- A handle that is not found objects to the handle and not to a name. -/
theorem binds_locate (n : Node) : Binds K (locate n) [] := by
  refine .get_bind fun e => ?_
  split
  · exact .pure _
  · exact binds_decline rfl

/-- A name that is to be bound is refused only when it is in use. -/
theorem binds_checkFresh {name : String} (hname : name ∈ names) {c : Unit → Call α}
    (hc : Binds K (c ()) names) : Binds K (checkFresh name >>= c) names := by
  intro e
  cases hfind : e.graph.find? name with
  | none =>
    rw [binding_iff, bind_of_ok (checkFresh_of_none hfind)]
    exact binding_iff.1 (hc e)
  | some slot =>
    have hcall : (checkFresh name >>= c) e = .error (.error (.duplicateName name)) e :=
      bind_of_error (checkFresh_of_some hfind)
    -- a name in use contradicts that the names are distinct from those that are bound
    refine .of_taken (fun f t h => ?_) (Graph.not_nodup_of_find? hfind hname)
    rw [hcall] at h
    cases h
    nofun

/-- A node binds its name, and objects to it if it is taken. -/
theorem binds_register (n : GraphNode) (name : Option String) :
    Binds K (register n name) name.toList := by
  refine binds_checkActive.skip fun _ => ?_
  cases name with
  | none =>
    exact .get_bind fun _ => (Binds.modify fun e => e.graph.names_push _).last fun _ => .pure _
  | some name =>
    exact binds_checkFresh List.mem_cons_self (.get_bind fun _ =>
      (Binds.modify fun e => e.graph.names_push _).last fun _ => .pure _)

theorem binds_expectVariable (slot : Nat) (n : GraphNode) : Binds K (expectVariable slot n) [] :=
  .ite (fun _ => binds_decline rfl) fun _ => .pure ()

theorem binds_expectFloat (operation : String) (slot : Nat) (n : GraphNode) :
    Binds K (expectFloat operation slot n) [] :=
  .ite (fun _ => binds_decline rfl) fun _ => .pure ()

/-- A shape may be refused, but no name is. -/
theorem binds_checkShape (shape : DeclaredShape) (allowOpen : Bool) :
    Binds K (checkShape shape allowOpen) [] := by
  unfold checkShape
  refine binds_unless rfl fun _ => ?_
  split
  · exact binds_decline rfl
  · exact .pure ()

theorem binds_report (r : Record) : Binds K (report r) [] :=
  .modify fun _ => (List.append_nil _).symm

theorem binds_train (slot : Nat) : Binds K (train slot) [] :=
  .modify fun _ => (List.append_nil _).symm

/-- Assignments are made to slots. -/
theorem binds_commit (assignments : List (Nat × Tensor Float32)) :
    Binds K (commit assignments) [] :=
  .modify fun _ => (List.append_nil _).symm

/-- An evaluation looks at no name. -/
theorem binds_evaluate (phase : Phase) (feeds : SlotMap (Tensor Float32)) (targets : List Nat) :
    Binds K (evaluate phase feeds targets) [] := by
  refine fun e => .keep ?_
  cases hs : e.session with
  | none =>
    rw [evaluate_of_none hs]
    exact ⟨rfl, rfl⟩
  | some s =>
    rw [evaluate_apply hs]
    cases hev : (e.setting s phase feeds).evaluate targets (.start s.streams) with
    | ok _ ev => rfl
    | error f ev => exact ⟨Setting.isOther_of_evaluate targets _ _ _ hev, rfl⟩

/-! ### Sources -/

/-- A placeholder under a name that is not in use is a new one. -/
theorem binds_placeholder (name : String) (shape : DeclaredShape) :
    Binds K (placeholder name shape) [name] := by
  refine binds_checkActive.skip fun _ => (binds_checkShape _ _).skip fun _ => fun e => ?_
  refine .get_bind ?_
  split
  · next slot hfind =>
    exact .of_taken (.ite (fun _ => .pure _) fun _ => .throw nofun)
      (Graph.not_nodup_of_find? hfind List.mem_cons_self)
  · exact binds_register _ (some name) e

theorem binds_constant (value : Value) (name : Option String) :
    Binds K (constant value name) name.toList :=
  (binds_checkShape _ _).skip fun _ => binds_register _ _

theorem binds_random (shape : DeclaredShape) (sampler : Sampler) (seed : Option UInt64) :
    Binds K (random shape sampler seed) [] :=
  (binds_checkShape _ _).skip fun _ => binds_register _ none

theorem binds_fill (shape : DeclaredShape) (value : Float32) : Binds K (fill shape value) [] :=
  (binds_checkShape _ _).skip fun _ => binds_register _ none

/-- A deviation is refused with an objection of its own. -/
theorem binds_checkDeviation {stddev : Float32}
    (h : ¬(stddev.isFinite ∧ 0 ≤ stddev) → K (.badDeviation stddev)) :
    Binds K (checkDeviation stddev) [] :=
  .ite (fun hbad => binds_object (h fun hok => by simp [hok.1, hok.2] at hbad)) fun _ => .pure ()

/-- Compiling an initializer finds fault with its parameters only. -/
theorem binds_compile {initializer : Initializer}
    (h : ∀ cause, initializer.fault? = some cause → K cause) (shape : DeclaredShape) :
    Binds K (initializer.compile shape) [] := by
  -- the parameters are what the check before the node looks at
  cases initializer with
  | randomNormal mean stddev seed | truncatedNormal mean stddev seed =>
    exact (binds_checkDeviation fun hbad => h _ (if_neg hbad)).skip fun _ => binds_random _ _ _
  | randomUniform min max seed =>
    unfold Initializer.compile randomUniform
    exact binds_unless_object (fun hempty => h _ (if_neg (by simpa using hempty)))
      fun _ => binds_random _ _ _
  | zeros | ones => exact binds_fill _ _
  | constant x =>
    simp only [Initializer.compile]
    split
    · exact binds_constant _ none
    · exact binds_decline rfl

/-- Creating a variable finds fault with its initializer only. -/
theorem binds_createVariable {initializer : Initializer}
    (h : ∀ cause, initializer.fault? = some cause → K cause) (shape : DeclaredShape)
    (name : String) (trainable : Bool) :
    Binds K (createVariable shape initializer name trainable) [name] := by
  refine binds_checkActive.skip fun _ => (binds_checkShape _ _).skip fun _ =>
    binds_checkFresh List.mem_cons_self ((binds_compile h shape).skip fun init =>
    (binds_locate init).skip fun made => ?_)
  exact binds_unless rfl fun _ => (binds_evaluate _ _ _).skip fun ev =>
    (binds_register _ (some name)).last fun node => (binds_commit _).skip fun _ =>
      .ite (fun _ => (binds_train _).skip fun _ => (binds_report _).skip fun _ => .pure _)
        fun _ => (binds_report _).skip fun _ => .pure _

/-- A counter binds its name. -/
theorem binds_counter (initial : Int64) (name : String) : Binds K (counter initial name) [name] :=
  (binds_register _ (some name)).last fun _ => (binds_commit _).skip fun _ => .pure _

/-! ### Operations -/

/-- A unary operation binds the name of its node. -/
theorem binds_unary (op : UnaryOp) (input : Node) (name : Option String) :
    Binds K (unary op input name) name.toList := by
  refine (binds_locate input).skip fun found => ?_
  exact .ite (fun _ => (binds_expectFloat _ _ _).skip fun _ => binds_register _ _)
    fun _ => binds_register _ _

/-- A binary operation binds the name of its node. -/
theorem binds_binary (op : BinaryOp) (left right : Node) (name : Option String) :
    Binds K (binary op left right name) name.toList := by
  refine (binds_locate left).skip fun l => (binds_locate right).skip fun r =>
    binds_unless rfl fun _ => ?_
  extract_lets broadcast
  have hbroadcast : Binds K (broadcast ()) name.toList := by
    simp only [broadcast]
    split
    · exact binds_register _ _
    · exact binds_decline rfl
  exact .ite (fun _ => (binds_expectFloat _ _ _).skip fun _ => hbroadcast) fun _ => hbroadcast

theorem binds_dot (left right : Node) (name : Option String) :
    Binds K (dot left right name) name.toList := by
  refine (binds_locate left).skip fun l => (binds_locate right).skip fun r =>
    (binds_expectFloat _ _ _).skip fun _ => (binds_expectFloat _ _ _).skip fun _ => ?_
  split
  · exact .ite (fun _ => binds_register _ _) fun _ => binds_decline rfl
  · exact binds_decline rfl

theorem binds_biasAdd (input bias : Node) (name : Option String) :
    Binds K (biasAdd input bias name) name.toList := by
  refine (binds_locate input).skip fun x => (binds_locate bias).skip fun b =>
    (binds_expectFloat _ _ _).skip fun _ => (binds_expectFloat _ _ _).skip fun _ => ?_
  split
  · exact .ite (fun _ => binds_register _ _) fun _ => binds_decline rfl
  · exact binds_decline rfl

/-- No fault is found with bounds that do not cross. -/
theorem binds_clip {min max : Float32} (h : ¬max < min) (input : Node) (name : Option String) :
    Binds K (clip input min max name) name.toList := by
  unfold clip
  exact binds_unless_object (fun hcrossed => absurd hcrossed h) fun _ =>
    (binds_locate input).skip fun _ => (binds_expectFloat _ _ _).skip fun _ =>
      binds_register _ _

/-- No fault is found with a rate in range. -/
theorem binds_dropout {rate : Float32} (h : 0 ≤ rate ∧ rate < 1) (input : Node)
    (seed : Option UInt64) (name : Option String) :
    Binds K (dropout input rate seed name) name.toList := by
  unfold dropout
  exact binds_unless_object (fun hbad => by simp [h.1, h.2] at hbad) fun _ =>
    (binds_locate input).skip fun _ => (binds_expectFloat _ _ _).skip fun _ =>
      binds_register _ _

theorem binds_mean (input : Node) (name : Option String) :
    Binds K (mean input name) name.toList :=
  (binds_locate input).skip fun _ => (binds_expectFloat _ _ _).skip fun _ =>
    binds_unless rfl fun _ => binds_register _ _

theorem binds_reduceSum (input : Node) (name : Option String) :
    Binds K (reduceSum input name) name.toList :=
  (binds_locate input).skip fun _ => binds_register _ _

theorem binds_sigmoidCrossEntropy (targets logits : Node) (name : Option String) :
    Binds K (sigmoidCrossEntropy targets logits name) name.toList := by
  refine (binds_locate targets).skip fun z => (binds_locate logits).skip fun x =>
    (binds_expectFloat _ _ _).skip fun _ => (binds_expectFloat _ _ _).skip fun _ => ?_
  split
  · exact binds_register _ _
  · exact binds_decline rfl

theorem binds_softmaxCrossEntropy (logits labels : Node) (name : Option String) :
    Binds K (softmaxCrossEntropy logits labels name) name.toList :=
  (binds_locate logits).skip fun _ => (binds_locate labels).skip fun _ =>
    (binds_expectFloat _ _ _).skip fun _ => (binds_expectFloat _ _ _).skip fun _ =>
      .ite (fun _ => binds_register _ _) fun _ => binds_decline rfl

/-! ### Derivatives, updates and functions -/

/-- Derivatives have no names. -/
theorem binds_gradients (loss : Node) (targets : List Node) :
    Binds K (gradients loss targets) [] := by
  refine (binds_locate loss).skip fun _ => (binds_expectFloat _ _ _).skip fun _ => ?_
  have hnone : targets.flatMap (fun _ => ([] : List String)) = [] := by simp
  refine hnone ▸ Binds.mapM fun target _ => ?_
  exact (binds_locate target).skip fun _ => (binds_expectVariable _ _).skip fun _ =>
    (binds_expectFloat _ _ _).skip fun _ => binds_register _ none

theorem binds_assignable (target value : Node) : Binds K (assignable target value) [] :=
  (binds_locate target).skip fun _ => (binds_locate value).skip fun _ =>
    (binds_expectVariable _ _).skip fun _ => binds_unless rfl fun _ =>
      binds_unless rfl fun _ => .pure _

/-- Updates have no names. -/
theorem binds_update (target value : Node) : Binds K (update target value) [] :=
  (binds_assignable target value).skip fun _ => binds_register _ none

theorem binds_updateAdd (target delta : Node) : Binds K (updateAdd target delta) [] :=
  (binds_assignable target delta).skip fun _ => binds_register _ none

theorem binds_shape (n : Node) : Binds K (shape n) [] :=
  binds_checkActive.skip fun _ => (binds_locate n).skip fun _ => .pure _

theorem binds_initializer (n : Node) : Binds K (initializer n) [] := by
  refine binds_checkActive.skip fun _ => (binds_locate n).skip fun ⟨slot, node⟩ => ?_
  dsimp only
  split
  · exact .get_bind fun _ => .pure _
  · exact binds_decline rfl

/-- Functions are not appended to the graph. -/
theorem binds_function (inputs outputs updates : List Node) :
    Binds K (function inputs outputs updates) [] := by
  refine binds_checkActive.skip fun _ => Binds.skip (.forM fun n => ?_) fun _ =>
    Binds.skip (.forM fun n => ?_) fun _ => Binds.skip (.forM fun n => ?_) fun _ =>
      .get_bind fun _ => .pure _
  · exact (binds_locate n).skip fun _ => .ite (fun _ => binds_decline rfl) fun _ => .pure ()
  · rw [discard_eq_bind]
    exact (binds_locate n).skip fun _ => .pure ()
  · exact (binds_locate n).skip fun _ => .ite (fun _ => binds_decline rfl) fun _ => .pure ()

/-- The sum of several losses is made of nodes without names. -/
theorem binds_aggregate (losses : List Node) : Binds K (aggregate losses) [] := by
  cases losses with
  | nil => exact binds_decline rfl
  | cons first rest =>
    simp only [aggregate]
    induction rest generalizing first with
    | nil => exact .pure _
    | cons next rest ih => exact (binds_binary .add _ _ none).skip fun _ => ih _

end Engine

open Engine

/-! ## Losses and gradient descent -/

/-- Compiling a loss finds fault with its parameter only. -/
theorem Loss.binds_compile {loss : Loss} (h : ∀ cause, loss.fault? = some cause → K cause)
    (predictions targets : Node) (name : Option String) :
    Binds K (loss.compile predictions targets name) name.toList := by
  -- only the node that the loss comes to bears the name
  cases loss with
  | meanSquaredError =>
    exact (binds_binary .subtract _ _ none).skip fun _ => (binds_unary .square _ none).skip fun _ =>
      binds_mean _ _
  | binaryCrossEntropy =>
    exact (binds_clip (by decide +kernel) _ none).skip fun _ =>
      (binds_constant _ none).skip fun _ => (binds_binary .subtract _ _ none).skip fun _ =>
        (binds_binary .divide _ _ none).skip fun _ => (binds_unary .log _ none).skip fun _ =>
          binds_sigmoidCrossEntropy _ _ _
  | categoricalCrossEntropy => exact binds_softmaxCrossEntropy _ _ _
  | negativeLogLikelihood ε =>
    unfold Loss.compile
    refine binds_unless_object (fun hbad => ?_) fun hrange => ?_
    · exact h _ (if_neg fun hok => by simp [hok.1, hok.2] at hbad)
    · have hrange : 0 < ε ∧ ε < 0.5 := by simpa using hrange
      exact (binds_clip (Single.not_one_sub_lt hrange.1 hrange.2) _ none).skip fun _ =>
        (binds_unary .log _ none).skip fun _ => (binds_binary .multiply _ _ none).skip fun _ =>
          (binds_reduceSum _ none).skip fun _ => binds_unary .negate _ _

namespace Descent

/-- The names that are kept for the training of some weights. -/
def labels (count : Nat) : List String := ownNames ++ (List.range count).map accumulatorName

/-- Accumulators are bound under the numbers of their weights. -/
theorem binds_accumulators (k : Nat) (weights : List Node) :
    Binds K (accumulators k weights)
      ((List.range' k weights.length).map accumulatorName) := by
  induction weights generalizing k with
  | nil => exact .pure _
  | cons weight weights ih =>
    exact (binds_shape weight).skip fun shape =>
      (binds_createVariable nofun shape _ false).bind fun _ => (ih (k + 1)).last fun _ => .pure _

/-- The steps of a descent have no names. -/
theorem binds_steps (rate momentum : Node) (parts : List (Node × Node × Node)) :
    Binds K (steps rate momentum parts) [] := by
  induction parts with
  | nil => exact .pure _
  | cons part parts ih =>
    have hstep : Binds K (step rate momentum part.1 part.2.1 part.2.2) [] :=
      (binds_binary .multiply _ _ none).skip fun _ =>
        (binds_binary .multiply _ _ none).skip fun _ =>
          (binds_binary .subtract _ _ none).skip fun _ => (binds_update _ _).skip fun _ =>
            (binds_binary .add _ _ none).skip fun _ => (binds_update _ _).skip fun _ => .pure _
    exact hstep.skip fun _ => ih.skip fun _ => .pure _

/-- Compiling gradient descent finds fault with no argument. -/
theorem binds_compile (d : Descent) (loss : Node) (weights : List Node) :
    Binds K (d.compile loss weights) (labels weights.length) := by
  rw [labels, List.range_eq_range']
  exact (binds_counter _ _).bind fun _ => (binds_constant _ (some _)).bind fun _ =>
    (binds_constant _ (some _)).bind fun _ => (binds_constant _ none).skip fun _ =>
      (binds_accumulators _ _).last fun _ => (binds_gradients _ _).skip fun _ =>
        (binds_updateAdd _ _).skip fun _ => (binds_steps _ _ _).skip fun _ =>
          (binds_report _).skip fun _ => .pure _

end Descent
end TensorGraph
