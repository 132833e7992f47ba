import TensorGraph.Proofs.Learning.Aggregating
import TensorGraph.Proofs.Learning.Declaring
import TensorGraph.Proofs.Model.Mirroring
import TensorGraph.Proofs.Model.Readying

/-!
# Targets and losses of layers that have been compiled

Once the layers of a model are there, its targets and its losses are appended: names are made of
generated ones and an ending, so they are free. What may be refused is the sum of the losses.

## Main definitions

* `Model.Exit`: an output of a model with its node, its width and its loss.
* `Model.Exit.Agree`: outputs whose losses have widths that agree.
* `Model.Prepared`: an engine with the outputs of a model.
* `Model.Compared` and `Model.Aimed`: the losses of some outputs, and their sum.

## Main results

* `Engine.exists_mapM_padded`: names that are attached one after the other.
* `Model.Prepared.exists_compileGoal_iff`: the targets and the losses are appended and added up
  exactly when the widths of the losses agree.
* `Model.Prepared.aimed`: what has been appended then.
-/

namespace TensorGraph

open Engine Network

namespace Engine

variable {α : Type} {e e' : Engine} {P : Option String → Prop}

/-- A name that no further node has stays free. -/
theorem Padded.find?_eq_none (h : Padded P e e') {s : String} (hfree : e.graph.find? s = none)
    (hs : ¬P (some s)) : e'.graph.find? s = none := by
  by_contra hne
  exact hs (h.bound (hfree ▸ hne))

/-- A call on every element of a list gives what it gives on each of them, if the names that are
asked for are free and differ. -/
theorem exists_mapM_padded (e₀ : Engine) {f : α → Call Node} (name : α → String)
    (Made : Graph → α → Node → Prop)
    (hmade : ∀ {g g' : Graph} {a : α} {node : Node}, Made g a node → g.Extends g' → Made g' a node)
    {as : List α}
    (hstep : ∀ a ∈ as, ∀ e, Padded (fun _ => True) e₀ e → e.graph.find? (name a) = none →
      ∃ node e', f a e = .ok node e' ∧ Padded (fun s => s = none ∨ s = some (name a)) e e' ∧
        Made e'.graph a node)
    (he : Padded (fun _ => True) e₀ e) (hfree : ∀ a ∈ as, e.graph.find? (name a) = none)
    (hnodup : (as.map name).Nodup) :
    ∃ nodes e', as.mapM f e = .ok nodes e' ∧
      Padded (fun s => s = none ∨ ∃ a ∈ as, s = some (name a)) e e' ∧
        List.Forall₂ (Made e'.graph) as nodes := by
  induction as generalizing e with
  | nil => exact ⟨[], e, rfl, .refl _ e, .nil⟩
  | cons a as ih =>
    obtain ⟨hfirst, hrest⟩ := List.forall_mem_cons.1 hfree
    obtain ⟨hname, hnodup⟩ := List.nodup_cons.1 hnodup
    obtain ⟨node, e₁, hcall, hpadded, hnode⟩ := hstep a List.mem_cons_self e he hfirst
    -- the first call has taken its own name only, and the names differ
    have hrest₁ : ∀ b ∈ as, e₁.graph.find? (name b) = none := fun b hb => by
      refine hpadded.find?_eq_none (hrest b hb) ?_
      rintro (h | h)
      · cases h
      · exact hname (Option.some.inj h ▸ List.mem_map_of_mem hb)
    obtain ⟨nodes, e', hcalls, hpadded', hnodes⟩ :=
      ih (fun b hb => hstep b (List.mem_cons_of_mem _ hb))
        (he.trans (hpadded.mono fun _ _ => trivial)) hrest₁ hnodup
    -- what the first call has made lasts while the others append
    refine ⟨node :: nodes, e', ?_, ?_, .cons (hmade hnode hpadded'.changes.extends) hnodes⟩
    · exact mapM_cons_eq_ok_iff.2 ⟨_, _, _, hcall, hcalls, rfl⟩
    · refine (hpadded.mono fun s hs => ?_).trans (hpadded'.mono fun s hs => ?_)
      · exact hs.imp_right fun h => ⟨a, List.mem_cons_self, h⟩
      · exact hs.imp_right fun ⟨b, hb, h⟩ => ⟨b, List.mem_cons_of_mem _ hb, h⟩

end Engine

namespace Model

/-- An output of a model with its node, its width and its loss. -/
structure Exit where
  id : LayerId
  loss : Loss
  node : Node
  name : String
  width : Int

/-- An output as it has been compiled on an engine. -/
structure Exit.Made (n : Network) (g : Graph) (x : Exit) : Prop where
  name : n.name x.id = .ok x.name
  plain : Plain x.name
  positive : 0 < x.width
  holds : ∃ op, g.Holds x.node ⟨op, [openAxis, x.width], .f32, some x.name⟩

variable {m : Model} {e e' : Engine} {x : Exit} {xs : List Exit}

theorem Exit.Made.extend {n : Network} {g g' : Graph} (h : x.Made n g) (hg : g.Extends g') :
    x.Made n g' :=
  ⟨h.name, h.plain, h.positive, h.holds.imp fun _ hop => hop.extend hg⟩

/-- The target of an output. -/
def Exit.Targeted (g : Graph) (x : Exit) (target : Node) : Prop :=
  g.Holds target ⟨.placeholder, [openAxis, x.width], .f32, some (x.name ++ "_Target")⟩

theorem exists_compileTarget (hactive : e.session.isSome) (hsound : e.Sound)
    (hx : x.Made m.network e.graph) (hfree : e.graph.find? (x.name ++ "_Target") = none) :
    ∃ target e', m.compileTarget x.id x.node e = .ok target e' ∧
      Padded (fun s => s = none ∨ s = some (x.name ++ "_Target")) e e' ∧
        x.Targeted e'.graph target := by
  obtain ⟨op, hholds⟩ := hx.holds
  have hheld : DeclaredShape.Held [openAxis, x.width] := hsound.typed.held hholds.2
  have hplaceholder := placeholder_eq hactive hheld hfree
  have hname : Engine.lift (m.network.name x.id) e = .ok x.name e :=
    lift_eq_ok_iff.2 ⟨hx.name, rfl⟩
  refine ⟨_, _, (bind_of_ok (shape_eq hactive hholds)).trans ((bind_of_ok hname).trans
    hplaceholder), ?_, e.graph.holds_push _⟩
  -- the name is free, so no placeholder is given back
  rcases (leads_placeholder _ _).of_eq_ok hplaceholder with
    ⟨-, slot, n, -, hfind, -⟩ | ⟨n, ⟨-, -, hn⟩, happended⟩
  · cases hfree.symm.trans hfind
  · exact happended.padded (.inr hn)

/-- Names that differ still do with an ending. -/
theorem nodup_endings (h : (xs.map fun x : Exit => x.name).Nodup) (ending : String) :
    (xs.map fun x : Exit => x.name ++ ending).Nodup := by
  have hendings := h.map (f := fun name : String => name ++ ending)
    fun name name' hname => by simpa using hname
  rwa [List.map_map] at hendings

/-- The targets of some outputs. -/
theorem exists_compileTargets (hactive : e.session.isSome) (hsound : e.Sound)
    (hxs : ∀ x ∈ xs, x.Made m.network e.graph) (hnodup : (xs.map fun x : Exit => x.name).Nodup)
    (hfree : ∀ x ∈ xs, e.graph.find? (x.name ++ "_Target") = none) :
    ∃ targets e', (((xs.map fun x : Exit => x.id).zip (xs.map fun x : Exit => x.node)).mapM
        fun row : LayerId × Node => m.compileTarget row.1 row.2) e = .ok targets e' ∧
      Padded (fun s => s = none ∨ ∃ x ∈ xs, s = some (x.name ++ "_Target")) e e' ∧
        List.Forall₂ (Exit.Targeted e'.graph) xs targets := by
  rw [List.zip_map', List.mapM_map]
  refine exists_mapM_padded e (fun x : Exit => x.name ++ "_Target") Exit.Targeted
    (fun h hg => h.extend hg) (fun x hx e₁ he₁ hfree₁ => ?_) (.refl _ e) hfree ?_
  · exact exists_compileTarget (he₁.session ▸ hactive) (he₁.changes.sound hsound)
      ((hxs x hx).extend he₁.changes.extends) hfree₁
  · exact nodup_endings hnodup _

/-- An output with its target. -/
def Exit.pairing (row : Exit × Node) : Pairing := ⟨row.1.name, row.1.node, row.2⟩

theorem pairings_eq (hxs : ∀ x ∈ xs, m.network.name x.id = .ok x.name) (targets : List Node) :
    m.pairings ((xs.map fun x : Exit => x.id).zip
        ((xs.map fun x : Exit => x.node).zip targets)) =
      .ok ((xs.zip targets).map Exit.pairing) := by
  induction xs generalizing targets with
  | nil => rfl
  | cons x xs ih =>
    obtain ⟨hx, hxs⟩ := List.forall_mem_cons.1 hxs
    cases targets with
    | nil => rfl
    | cons target targets =>
      simp only [List.map_cons, List.zip_cons_cons, pairings, hx, ih hxs]
      rfl

/-- The loss of an output. -/
def Exit.Lost (g : Graph) (row : Exit × Node) (node : Node) : Prop :=
  ∃ op, g.Holds node ⟨op, row.1.loss.declared [openAxis, row.1.width], .f32,
    some (row.1.name ++ "_Loss")⟩

theorem zip_pairings (targets : List Node) :
    (xs.map fun x : Exit => x.loss).zip ((xs.zip targets).map Exit.pairing) =
      (xs.zip targets).map fun row => (row.1.loss, Exit.pairing row) := by
  induction xs generalizing targets with
  | nil => rfl
  | cons x xs ih =>
    cases targets with
    | nil => rfl
    | cons target targets => simp [ih]

/-- The losses of some outputs with their targets. -/
theorem exists_compileLosses (hactive : e.session.isSome)
    (hlosses : m.losses = xs.map fun x : Exit => x.loss) (haccepted : ∀ x ∈ xs, x.loss.Accepted)
    (hxs : ∀ x ∈ xs, x.Made m.network e.graph) {targets : List Node}
    (htargets : List.Forall₂ (Exit.Targeted e.graph) xs targets)
    (hnodup : (xs.map fun x : Exit => x.name).Nodup)
    (hfree : ∀ x ∈ xs, e.graph.find? (x.name ++ "_Loss") = none) :
    ∃ losses e', m.compileLosses ((xs.zip targets).map Exit.pairing) e = .ok losses e' ∧
      Padded (fun s => s = none ∨ ∃ x ∈ xs, s = some (x.name ++ "_Loss")) e e' ∧
        List.Forall₂ (Exit.Lost e'.graph) (xs.zip targets) losses := by
  have hmem : ∀ {row : Exit × Node}, row ∈ xs.zip targets → row.1 ∈ xs := fun hrow =>
    (List.of_mem_zip hrow).1
  -- the names of the losses are those of the outputs with one ending
  have hnames : ((xs.zip targets).map fun row : Exit × Node => row.1.name ++ "_Loss").Nodup := by
    have hall := nodup_endings hnodup "_Loss"
    rwa [← List.map_fst_zip (Nat.le_of_eq htargets.length_eq), List.map_map] at hall
  -- output and target have been made before, so every loss finds them whatever came in between
  have hstep : ∀ row ∈ xs.zip targets, ∀ e₁, Padded (fun _ => True) e e₁ →
      e₁.graph.find? (row.1.name ++ "_Loss") = none → ∃ node e₂,
        row.1.loss.compile row.1.node row.2 (some (row.1.name ++ "_Loss")) e₁ = .ok node e₂ ∧
          Padded (fun s => s = none ∨ s = some (row.1.name ++ "_Loss")) e₁ e₂ ∧
            Exit.Lost e₂.graph row node := by
    intro row hrow e₁ he₁ hfree₁
    obtain ⟨op, hholds⟩ := (hxs _ (hmem hrow)).holds
    have htarget : row.1.Targeted e.graph row.2 := List.forall₂_zip htargets hrow
    have hg := he₁.changes.extends
    obtain ⟨node, e₂, hcall, hnode⟩ := Loss.exists_compile (he₁.session ▸ hactive)
      (hholds.extend hg) (htarget.extend hg) (haccepted _ (hmem hrow)) (List.cons_ne_nil _ _) hfree₁
    exact ⟨node, e₂, hcall, ((Loss.attaches_compile _ _ _ e₁).of_eq_ok hcall).1, hnode⟩
  obtain ⟨losses, e', hcall, hpadded, hmade⟩ :=
    exists_mapM_padded e _ Exit.Lost (fun h hg => h.imp fun _ hop => hop.extend hg) hstep
      (.refl _ e) (fun row hrow => hfree _ (hmem hrow)) hnames
  rw [compileLosses, hlosses, zip_pairings, List.mapM_map]
  refine ⟨losses, e', hcall, hpadded.mono fun s hs => hs.imp_right ?_, hmade⟩
  rintro ⟨row, hrow, h⟩
  exact ⟨row.1, hmem hrow, h⟩

/-! ## The goal -/

/-- Losses are declared with what the predictions are declared with. -/
theorem exists_lost {g : Graph} {rows : List (Exit × Node)} {losses : List Node}
    (h : List.Forall₂ (Exit.Lost g) rows losses) :
    ∃ ns : List GraphNode, List.Forall₂ g.Holds losses ns ∧ (∀ n ∈ ns, n.type = .f32) ∧
      ns.map (fun n : GraphNode => n.shape) =
        rows.map fun row => row.1.loss.declared [openAxis, row.1.width] := by
  induction h with
  | nil => exact ⟨[], .nil, by simp, rfl⟩
  | cons hrow _ ih =>
    obtain ⟨op, hholds⟩ := hrow
    obtain ⟨ns, hns, htypes, hshapes⟩ := ih
    exact ⟨_ :: ns, .cons hholds hns, List.forall_mem_cons.2 ⟨rfl, htypes⟩,
      congrArg (List.cons _) hshapes⟩

/-- The losses of some outputs that have been appended, with their targets. -/
structure Compared (xs : List Exit) (targets losses : List Node) (e e' : Engine) : Prop where
  padded : Padded (fun s => ∀ name, s = some name → ∃ x ∈ xs, ∃ ending, name = x.name ++ ending)
    e e'
  aims : List.Forall₂ (Exit.Targeted e'.graph) xs targets
  lost : List.Forall₂ (Exit.Lost e'.graph) (xs.zip targets) losses

/-- The widths of losses that are declared for every entry agree, apart from widths of one. -/
def Exit.Agree (xs : List Exit) : Prop :=
  ∀ x ∈ xs, ∀ y ∈ xs, x.loss = .binaryCrossEntropy → y.loss = .binaryCrossEntropy →
    x.width ≠ 1 → y.width ≠ 1 → x.width = y.width

/-- The losses of some outputs can be added up when their widths agree. -/
theorem Compared.exists_aggregate_iff {targets losses : List Node}
    (h : Compared xs targets losses e e') (hactive : e'.session.isSome) (hne : xs ≠ [])
    (hpos : ∀ x ∈ xs, 0 < x.width) :
    (∃ total e'', aggregate losses e' = .ok total e'') ↔ Exit.Agree xs := by
  obtain ⟨ns, hns, htypes, hshapes⟩ := exists_lost h.lost
  -- the declared shapes of the losses are read off the outputs alone
  have hdeclared : ns.map (fun n : GraphNode => n.shape) =
      (xs.map fun x : Exit => (x.loss, x.width)).map fun row =>
        row.1.declared [openAxis, row.2] := by
    rw [hshapes, List.map_map]
    conv_rhs => rw [← List.map_fst_zip (Nat.le_of_eq h.aims.length_eq), List.map_map]
    rfl
  have hnonempty : ns ≠ [] := by
    rintro rfl
    simp only [List.map_nil] at hdeclared
    exact hne (by simpa using hdeclared.symm)
  have hmatching : (∃ type shape, Matching ns type shape) ↔
      ∃ sum, DeclaredShape.broadcastAll (ns.map fun n : GraphNode => n.shape) = some sum :=
    ⟨fun ⟨_, sum, hmatching⟩ => ⟨sum, hmatching.shape⟩,
      fun ⟨sum, hsum⟩ => ⟨.f32, sum, hnonempty, htypes, hsum⟩⟩
  -- Shapes broadcast together when any two of them do, which for losses is a condition on widths.
  rw [Engine.exists_aggregate_iff hactive hns, hmatching, DeclaredShape.exists_broadcastAll_iff,
    hdeclared]
  simp only [List.forall_mem_map]
  have hbound := Loss.exists_bound_iff (xs.map fun x : Exit => (x.loss, x.width))
    (List.forall_mem_map.2 hpos)
  simp only [List.forall_mem_map] at hbound
  rw [hbound]
  simp only [List.mem_map, Prod.mk.injEq, Exit.Agree]
  constructor
  · intro hagree x hx y hy hxl hyl
    exact hagree ⟨x, hx, hxl, rfl⟩ ⟨y, hy, hyl, rfl⟩
  · rintro hagree _ _ ⟨x, hx, hxl, rfl⟩ ⟨y, hy, hyl, rfl⟩
    exact hagree x hx y hy hxl hyl

/-- Targets, losses and their sum that have been appended for some outputs. -/
structure Aimed (xs : List Exit) (goal : Goal) (e e' : Engine) : Prop where
  padded : Padded (fun s => ∀ name, s = some name → ∃ x ∈ xs, ∃ ending, name = x.name ++ ending)
    e e'
  targets : ∀ t ∈ goal.targets, ∃ n, e'.graph.Holds t n ∧ n.op.isPlaceholder
  losses : ∀ l ∈ goal.losses, ∃ n, e'.graph.Holds l n
  objective : ∃ n, e'.graph.Holds goal.objective n ∧ n.type = .f32

/-- An engine on which the outputs of a model have been compiled, and which has no names of targets
and losses yet. -/
structure Prepared (m : Model) (xs : List Exit) (e : Engine) : Prop where
  active : e.session.isSome
  initialized : e.Initialized
  outputs : m.outputs = xs.map fun x : Exit => x.id
  losses : m.losses = xs.map fun x : Exit => x.loss
  made : ∀ x ∈ xs, x.Made m.network e.graph
  nodup : (xs.map fun x : Exit => x.name).Nodup
  free : ∀ x ∈ xs, ∀ ending ∈ ["_Target", "_Loss"], e.graph.find? (x.name ++ ending) = none

namespace Prepared

variable (h : m.Prepared xs e) (haccepted : ∀ x ∈ xs, x.loss.Accepted)
include h haccepted

/-- The targets and the losses are appended, and what remains is to add the losses up. -/
theorem compileGoal_eq : ∃ targets losses e₁, Compared xs targets losses e e₁ ∧
    m.compileGoal (xs.map fun x : Exit => x.node) e = (do
      let objective ← aggregate losses
      report (.aggregatedLosses losses.length)
      return ⟨targets, (xs.zip targets).map Exit.pairing, losses, objective⟩ : Call Goal) e₁ := by
  obtain ⟨targets, e₁, hcall₁, hpadded₁, htargets⟩ := exists_compileTargets h.active
    h.initialized.sound h.made h.nodup fun x hx => h.free x hx _ (by simp)
  have hg₁ := hpadded₁.changes.extends
  obtain ⟨losses, e₂, hcall₂, hpadded₂, hlost⟩ := exists_compileLosses (m := m) (e := e₁)
    (hpadded₁.session ▸ h.active) h.losses haccepted (fun x hx => (h.made x hx).extend hg₁) htargets
    h.nodup fun x hx => by
      refine hpadded₁.find?_eq_none (h.free x hx _ (by simp)) ?_
      -- the names of targets end differently
      rintro (hname | ⟨y, hy, hname⟩)
      · cases hname
      · have hending := ((h.made x hx).plain.append_inj (h.made y hy).plain (by decide) (by decide)
          (Option.some.inj hname)).2
        exact absurd hending (by decide)
  have hpairs := pairings_eq (m := m) (fun x hx => (h.made x hx).name) targets
  refine ⟨targets, losses, e₂, ⟨?_, ?_, hlost⟩, ?_⟩
  · refine (hpadded₁.mono ?_).trans (hpadded₂.mono ?_)
    · rintro _ (rfl | ⟨x, hx, rfl⟩) name hname
      · cases hname
      · exact ⟨x, hx, _, (Option.some.inj hname).symm⟩
    · rintro _ (rfl | ⟨x, hx, rfl⟩) name hname
      · cases hname
      · exact ⟨x, hx, _, (Option.some.inj hname).symm⟩
  · exact htargets.imp fun _ _ ht => ht.extend hpadded₂.changes.extends
  · rw [compileGoal, h.outputs]
    exact (bind_of_ok hcall₁).trans ((bind_of_ok (Engine.lift_eq_ok_iff.2 ⟨hpairs, rfl⟩)).trans
      (bind_of_ok hcall₂))

/-- The targets and the losses are appended and added up when their widths agree. -/
theorem exists_compileGoal_iff (hne : xs ≠ []) :
    (∃ goal e', m.compileGoal (xs.map fun x : Exit => x.node) e = .ok goal e') ↔
      Exit.Agree xs := by
  obtain ⟨targets, losses, e₁, hcompared, hgoal⟩ := h.compileGoal_eq haccepted
  rw [hgoal, ← hcompared.exists_aggregate_iff (hcompared.padded.session ▸ h.active) hne
    fun x hx => (h.made x hx).positive]
  constructor
  · rintro ⟨goal, e', heq⟩
    obtain ⟨total, e₂, haggregate, -⟩ := bind_eq_ok_iff.1 heq
    exact ⟨total, e₂, haggregate⟩
  · rintro ⟨total, e₂, haggregate⟩
    exact ⟨_, _, bind_of_ok haggregate⟩

/-- What has been appended once they have been added up. -/
theorem aimed {goal : Goal}
    (hcompile : m.compileGoal (xs.map fun x : Exit => x.node) e = .ok goal e') :
    Aimed xs goal e e' := by
  obtain ⟨targets, losses, e₁, hcompared, hgoal⟩ := h.compileGoal_eq haccepted
  rw [hgoal] at hcompile
  obtain ⟨total, e₂, haggregate, hcompile⟩ := bind_eq_ok_iff.1 hcompile
  obtain ⟨_, e₃, hreport, hcompile⟩ := bind_eq_ok_iff.1 hcompile
  cases hreport
  cases hcompile
  obtain ⟨ns, hns, htypes, -⟩ := exists_lost hcompared.lost
  -- the sum bears no name, so it takes none
  obtain ⟨hg, n, hn, hmatching⟩ := (leads_aggregate_matching hns).of_eq_ok haggregate
  have hunnamed := (leads_padded_aggregate losses e₁).of_eq_ok haggregate
  refine ⟨(hcompared.padded.trans (hunnamed.mono ?_)).trans (reported_report _).padded, ?_, ?_, ?_⟩
  · rintro _ rfl name hname
    cases hname
  · intro t ht
    obtain ⟨x, -, htarget⟩ := exists_mem_of_forall₂ hcompared.aims.flip ht
    exact ⟨_, htarget.extend hg, rfl⟩
  · intro l hl
    obtain ⟨n, -, hheld⟩ := exists_mem_of_forall₂ hns hl
    exact ⟨n, hheld.extend hg⟩
  · obtain ⟨k, hk⟩ := List.exists_mem_of_ne_nil ns hmatching.nonempty
    exact ⟨n, hn, (hmatching.type k hk).symm.trans (htypes k hk)⟩

end Prepared

end Model
end TensorGraph
