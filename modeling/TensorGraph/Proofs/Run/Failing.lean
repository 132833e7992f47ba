import TensorGraph.Proofs.Engine.Reachable
import TensorGraph.Proofs.Engine.Veiled
import TensorGraph.Proofs.Evaluation.Drawing

/-!
# Failing runs

A run commits its assignments at its very end, when nothing can fail any more. A failing run may
have evaluated updates and drawn random numbers by then, but leaves the graph and the variables as
they were. So what is run afterwards gives what it would have given without the failing run, but for
random numbers.

## Main definitions

* `Engine.Alike`: engines that are the same but for their streams and records.

## Main results

* `Engine.agree_run`: runs that do not sample cannot tell such engines apart.
* `Engine.failed_run_keeps_state`: what a failing run leaves behind.
-/

namespace TensorGraph

/-- Whether a request runs a function or reads a variable. -/
def Request.isRun : Request → Bool
  | run _ _ | execute _ _ | executePositional _ _ | readVariable _ => true
  | _ => false

namespace Engine

variable {α β : Type} {e e' : Engine} {s : Session} {f : Function} {feeds : List (Node × Value)}

/-- Engines that are the same but for their streams and records. -/
def Alike (e e' : Engine) : Prop :=
  ∃ streams journal, e' = { e with
    session := e.session.map fun s => { s with streams := streams }
    journal := journal }

theorem Drained.alike (h : Drained e e') : Alike e e' := by
  obtain ⟨streams, records, rfl⟩ := h
  exact ⟨streams, _, rfl⟩

/-- Only the evaluation in a run looks at the streams. -/
theorem veiled_alike : Veiled Alike where
  graph := by
    rintro e _ ⟨streams, journal, rfl⟩
    rfl
  isNone := by
    rintro e _ ⟨streams, journal, rfl⟩
    exact Option.isNone_map
  report r := by
    refine .modify ?_
    rintro e _ ⟨streams, journal, rfl⟩
    exact ⟨streams, _, rfl⟩
  commit assignments := by
    refine .modify ?_
    rintro e _ ⟨streams, journal, rfl⟩
    refine ⟨streams, journal, ?_⟩
    simp only [Option.map_map]
    rfl

/-! ## Evaluating on engines that are alike -/

/-- Evaluating targets that reach no sampling node gives the same but for streams and records. -/
theorem agree_evaluate_bind {phase : Phase} {table : SlotMap (Tensor Float32)} {targets : List Nat}
    {g : Evaluation Float32 → Call β} (h : Alike e e') (hgraph : e.graph.Typed)
    (htargets : ∀ t ∈ targets, t < e.graph.size)
    (hquiet : ∀ s, e.session = some s → ∀ t ∈ targets, (e.setting s phase table).Quiet t)
    (hsame : ∀ ev streams, g { ev with streams := streams } = g ev)
    (hg : ∀ ev, Blind Alike (g ev)) :
    Agree Alike ((evaluate phase table targets >>= g) e)
      ((evaluate phase table targets >>= g) e') := by
  obtain ⟨streams, journal, rfl⟩ := h
  cases hs : e.session with
  | none =>
    rw [bind_of_error (evaluate_of_none hs ..), bind_of_error (evaluate_of_none rfl ..)]
    exact .error ⟨streams, journal, by rw [hs]⟩
  | some s =>
    -- the streams are no part of the setting
    have hblind := Setting.blind_evaluate hgraph htargets (hquiet s hs)
      (.start s.streams) (.start streams) ⟨streams, rfl⟩
    refine agree_evaluate_bind_of hs rfl hblind ?_ ?_
    · rintro ev _ ⟨drawn, rfl⟩
      exact ⟨drawn, _, rfl⟩
    · rintro ev _ ⟨drawn, rfl⟩
      exact ⟨hsame ev drawn, hg ev⟩

/-- A run that reaches no sampling node does not depend on streams and records. -/
theorem agree_run (hsound : e.Sound) (h : Alike e e')
    (hquiet : ∀ s, e.session = some s → ∀ n ∈ f.outputs ++ f.updates,
      (e.setting s f.phase (feedTable feeds .empty)).Quiet n.index) :
    Agree Alike (run f feeds e) (run f feeds e') := by
  have hveiled := veiled_alike.on fun _ => True
  refine hveiled.agree_run (fun _ _ => trivial) (fun _ _ => trivial) h
    fun e₁ e₁' outputs hreported h hlocated _ _ => ?_
  obtain ⟨records, rfl⟩ := hreported
  -- the evaluation is the only part that could tell the streams apart, and its targets are quiet
  refine agree_evaluate_bind h hsound.typed (lt_size_of_located hlocated) ?_ (fun _ _ => rfl)
    (hveiled.finishRun outputs)
  intro s hs t ht
  obtain ⟨n, hn, rfl⟩ := List.mem_map.1 ht
  exact hquiet s hs n hn

theorem agree_readVariable (hsound : e.Sound) (h : Alike e e') (handle : Node) :
    Agree Alike (readVariable handle e) (readVariable handle e') := by
  refine (veiled_alike.locate handle _ _ h).bind fun found e₁ e₁' h₁ halike => ?_
  obtain ⟨slot, n⟩ := found
  obtain ⟨rfl, hfound⟩ := located_of_locate h₁
  have hnode : e₁.graph.nodes[slot]? = some n := hfound.found
  dsimp only
  -- the checks do not look at the streams, and the node that is evaluated is a variable
  have hexpect : Blind Alike (expectVariable slot n) := .ite (blind_refuse _) (.pure ())
  refine (hexpect _ _ halike).bind fun _ e₂ e₂' h₂ halike' => ?_
  have hleads : Leads (expectVariable slot n) e₁ (fun _ => True)
      fun _ e₂ => e₂ = e₁ ∧ n.op.isVariable :=
    leads_check trivial fun hvar => ⟨rfl, by simpa using hvar⟩
  obtain ⟨rfl, hvar⟩ := hleads.of_eq_ok h₂
  refine agree_evaluate_bind halike' hsound.typed ?_ ?_ (fun _ _ => rfl) fun ev => .pure _
  · simpa using Graph.lt_size_of_getElem? hnode
  · intro s hs t ht
    obtain rfl := List.mem_singleton.1 ht
    exact Setting.quiet_of_isVariable hnode hvar

/-- What requests that run a function or read a variable do when they fail. -/
theorem leads_of_isRun {r : Request} (hr : r.isRun) :
    Leads r.call e (Drained e) fun _ _ => True := by
  cases r with
  | run f feeds => exact ((leads_run f feeds).mono fun _ _ _ => trivial).discard
  | execute f overrides => exact ((leads_execute f overrides).mono fun _ _ _ => trivial).discard
  | executePositional f values =>
    exact ((leads_executePositional f values).mono fun _ _ _ => trivial).discard
  | readVariable handle => exact ((keeps_readVariable handle e).mono fun _ _ _ => trivial).discard
  | _ => cases hr

/-- A failing run, of a function or for reading a variable, leaves the graph, the names, the trained
variables and the values of all variables as they were. Reading a variable afterwards, or running a
function that draws no random numbers, gives what it would have given before. -/
theorem failed_run_keeps_state {r : Request} {failure : Failure} (h : e.Reachable) (hr : r.isRun)
    (hfail : r.call e = .error failure e') :
    e'.graph = e.graph ∧ (∀ name, e'.find? name = e.find? name) ∧
    e'.trainableWeights = e.trainableWeights ∧
    (∃ streams, e'.session = e.session.map fun s => { s with streams := streams }) ∧
    (∀ n, answer (readVariable n) e' = answer (readVariable n) e) ∧
    ∀ (f : Function) (feeds : List (Node × Value)),
      (∀ s, e.session = some s → ∀ n ∈ f.outputs ++ f.updates,
        (e.setting s f.phase (feedTable feeds .empty)).Quiet n.index) →
      answer (run f feeds) e' = answer (run f feeds) e := by
  have hdrained : Drained e e' := by
    have hleads := leads_of_isRun (e := e) hr
    rwa [Leads, hfail] at hleads
  have halike := hdrained.alike
  obtain ⟨streams, records, rfl⟩ := hdrained
  -- streams and records are all that has changed
  exact ⟨rfl, fun _ => rfl, rfl, ⟨streams, rfl⟩,
    fun n => answer_eq_of_agree (agree_readVariable h.sound halike n),
    fun f feeds hquiet => answer_eq_of_agree (agree_run h.sound halike hquiet)⟩

/-- An engine with a counter of steps, an update of it, and a vector to be fed. -/
def unfed : Engine :=
  built [.counter 5 "steps", .constant (.integer 2) none, .updateAdd ⟨0, 0⟩ ⟨0, 1⟩,
    .placeholder "x" [1]]

/-- Fetching the vector after the update fails when nothing is fed, and the counter stays as it
was. -/
theorem unfed_keeps_counter :
    ∃ failure e', (Request.run (.ofNodes 0 [] [⟨0, 2⟩, ⟨0, 3⟩] []) []).call unfed =
        .error failure e' ∧ e'.graph = unfed.graph ∧
      (answer (readVariable ⟨0, 0⟩) e').toOption.map Value.toNumbers = some #[5] := by
  obtain ⟨failure, e', hfail⟩ := exists_of_not_gives
    (c := (Request.run (.ofNodes 0 [] [⟨0, 2⟩, ⟨0, 3⟩] []) []).call) (e := unfed)
    (by decide +kernel)
  obtain ⟨hgraph, -, -, -, hread, -⟩ := failed_run_keeps_state (reachable_built _) rfl hfail
  refine ⟨failure, e', hfail, hgraph, ?_⟩
  rw [hread]
  decide +kernel

end Engine
end TensorGraph
