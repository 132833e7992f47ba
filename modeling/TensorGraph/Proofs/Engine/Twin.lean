import TensorGraph.Proofs.Engine.Veiled

/-!
# Engines that are twins

What streams without a seed are derived from does not matter to an engine all of whose sampling
nodes have seeds, and the records never matter to what an engine does next. Engines that differ in
nothing else are twins: running a function on both gives the same and leaves twins behind, random
numbers included.

## Main definitions

* `Graph.Seeded`: every sampling node has a seed.
* `Engine.Twin`: engines over a graph that differ in nothing that their runs depend on.

## Main results

* `Engine.blind_run`: runs cannot tell twins apart.
-/

namespace TensorGraph

/-- Whether an operation may draw from a stream that was not given a seed. -/
def Op.isUnseeded : Op → Bool
  | random _ seed | dropout _ _ seed => seed.isNone
  | _ => false

/-- Every sampling node has a seed. -/
def Graph.Seeded (g : Graph) : Prop :=
  ∀ (slot : Nat) (n : GraphNode), g.nodes[slot]? = some n → n.op.isUnseeded = false

namespace Setting

variable {S : Type} [Scalar S] {env : Setting S}

/-- Where every sampling node has a seed of its own, the entropy of the setting draws nothing. -/
theorem evaluateSlot_entropy (h : env.graph.Seeded) (entropy : UInt64) (slot : Nat) :
    ({ env with entropy := entropy } : Setting S).evaluateSlot slot = env.evaluateSlot slot := by
  unfold evaluateSlot
  dsimp only
  split
  · rfl
  · next n hn =>
    have hseed := h slot n hn
    generalize n.op = op at hseed
    -- only a stream without a seed would be derived from the entropy
    cases op with
    | random sampler seed | dropout input rate seed =>
      cases seed with
      | none => cases hseed
      | some k => rfl
    | _ => rfl

/-- The same holds of all slots that are evaluated. -/
theorem evaluateAll_entropy (h : env.graph.Seeded) (entropy : UInt64) (slots : List Nat) :
    ({ env with entropy := entropy } : Setting S).evaluateAll slots = env.evaluateAll slots := by
  induction slots with
  | nil => rfl
  | cons slot slots ih => rw [evaluateAll, evaluateAll, evaluateSlot_entropy h, ih]

end Setting

namespace Engine

variable {g : Graph} {e e' : Engine}

/-- Engines over a graph that differ in their records, and in what streams without a seed are
derived from if there are no such streams. -/
structure Twin (g : Graph) (e e' : Engine) : Prop where
  graph : e.graph = g
  same : ∃ entropy journal, (g.Seeded ∨ ∀ s, e.session = some s → s.entropy = entropy) ∧
    e' = { e with
      session := e.session.map fun s => { s with entropy := entropy }
      journal := journal }

namespace Twin

/-- Records are all that reporting adds. -/
theorem of_reported (h : Reported e e') : Twin e.graph e e' := by
  obtain ⟨records, rfl⟩ := h
  obtain ⟨graph, session, journal⟩ := e
  cases session with
  | none => exact ⟨rfl, 0, _, .inr nofun, rfl⟩
  | some s => exact ⟨rfl, s.entropy, _, .inr fun s' hs => by cases hs; rfl, rfl⟩

theorem refl (e : Engine) : Twin e.graph e e := of_reported .refl

theorem symm (h : Twin g e e') : Twin g e' e := by
  obtain ⟨rfl, entropy, journal, hsame, rfl⟩ := h
  obtain ⟨graph, session, journal'⟩ := e
  cases session with
  | none => exact ⟨rfl, 0, journal', .inr nofun, rfl⟩
  | some s =>
    refine ⟨rfl, s.entropy, journal', hsame.imp id fun h s' hs => ?_, rfl⟩
    cases hs
    exact (h s rfl).symm

theorem trans {e'' : Engine} (h : Twin g e e') (h' : Twin g e' e'') : Twin g e e'' := by
  obtain ⟨rfl, entropy, journal, hsame, rfl⟩ := h
  obtain ⟨-, entropy', journal', hsame', rfl⟩ := h'
  obtain ⟨graph, session, journal''⟩ := e
  -- without a session there is no entropy to compare
  cases session with
  | none => exact ⟨rfl, 0, journal', .inr nofun, rfl⟩
  | some s =>
    refine ⟨rfl, entropy', journal', ?_, rfl⟩
    rcases hsame with hseeded | hsame
    · exact .inl hseeded
    · refine hsame'.imp id fun h s' hs => ?_
      cases hs
      exact (hsame s rfl).trans (h _ rfl)

end Twin

/-- What twins differ in is hidden from every call on a graph with seeds. -/
theorem veiled_twin : Veiled (Twin g) where
  graph := by
    rintro e _ ⟨-, entropy, journal, -, rfl⟩
    rfl
  isNone := by
    rintro e _ ⟨-, entropy, journal, -, rfl⟩
    exact Option.isNone_map
  report r := by
    refine .modify ?_
    rintro e _ ⟨hgraph, entropy, journal, hsame, rfl⟩
    exact ⟨hgraph, entropy, _, hsame, rfl⟩
  commit assignments := by
    refine .modify ?_
    rintro e _ ⟨hgraph, entropy, journal, hsame, rfl⟩
    -- the store is changed alike on both sides, the entropy on neither
    refine ⟨hgraph, entropy, journal, hsame.imp id fun h s hs => ?_, ?_⟩
    · obtain ⟨s', hs', rfl⟩ := Option.map_eq_some_iff.1 hs
      exact h s' hs'
    · simp only [Option.map_map]
      rfl

/-- Twins evaluate targets alike. -/
theorem blind_evaluate (phase : Phase) (table : SlotMap (Tensor Float32)) (targets : List Nat) :
    Blind (Twin g) (evaluate phase table targets) := by
  rintro e _ ⟨rfl, entropy, journal, hsame, rfl⟩
  cases hs : e.session with
  | none =>
    simp only [evaluate, hs]
    exact .error ⟨rfl, entropy, journal, .inr (by simp [hs]), by rw [hs]⟩
  | some s =>
    have hother := evaluate_apply (s := { s with entropy := entropy })
      (e := { e with session := some { s with entropy := entropy }, journal := journal }) rfl
      phase table targets
    -- with a seed for every stream, or the same entropy, the setting might as well be the same
    have heval : (Engine.setting
        { e with session := some { s with entropy := entropy }, journal := journal }
        { s with entropy := entropy } phase table).evaluate targets =
        (e.setting s phase table).evaluate targets := by
      rcases hsame with hseeded | hsame
      · exact @Setting.evaluateAll_entropy _ _ (e.setting s phase table) hseeded entropy _
      · rw [← hsame s hs]
        rfl
    rw [heval] at hother
    have habsorb : ∀ ev : Evaluation Float32, Twin e.graph (e.absorb s ev)
        (Engine.absorb { e with
          session := some { s with entropy := entropy }
          journal := journal } { s with entropy := entropy } ev) := by
      refine fun ev => ⟨rfl, entropy, _, hsame.imp id fun h s' hs' => ?_, rfl⟩
      cases hs'
      exact h s hs
    simp only [evaluate_apply hs, Option.map_some, hother]
    cases (e.setting s phase table).evaluate targets (.start s.streams) with
    | ok u ev => exact .ok (habsorb ev)
    | error failure ev => exact .error (habsorb ev)

/-- Running a function gives the same on twins and leaves twins behind. -/
theorem blind_run (f : Function) (feeds : List (Node × Value)) : Blind (Twin g) (run f feeds) := by
  have hveiled := (veiled_twin (g := g)).on fun _ => True
  exact fun _ _ h => hveiled.agree_run (fun _ _ => trivial) (fun _ _ => trivial) h
    fun e₁ e₁' outputs _ h _ _ _ =>
      ((blind_evaluate _ _ _).bind (hveiled.finishRun outputs)) e₁ e₁' h

/-- Twins execute functions alike. -/
theorem blind_execute (f : Function) (overrides : List (Node × Value)) :
    Blind (Twin g) (execute f overrides) :=
  (blind_lift _).bind fun feeds => blind_run f feeds

end Engine
end TensorGraph
