import Mathlib.Order.Interval.Finset.Nat
import TensorGraph.Proofs.Network.Naming
import TensorGraph.Proofs.Network.Specimens

/-!
# Growing a network in place

A network that is grown in place keeps, beside its layers, the set of the names in use and, for
every kind of layer, the number of the last name that was generated for it. A name is generated by
counting on from there until it is free, however many names the callers have taken themselves. This
module is about that bookkeeping: the counting ends, since a set of names is finite; the name that
it ends at is the first free one; and a call that is refused leaves no mark.

## Main definitions

* `Ledger`: a network with its names and counters.
* `Ledger.nextFree`: the number at which counting ends.
* `Ledger.add`: the call that adds a layer.
* `Ledger.Reachable`: what calls lead to, whether they are granted or refused.

## Main results

* `Ledger.Coherent.generateName_eq`: counting on from the last number gives the first free name.
* `Ledger.Coherent.add_cases`: a call grows the network as `Network.add` does, or changes nothing.
* `Ledger.Reachable.bookkeeping`: names, feeders, generated names, refused calls and inputs.
-/

namespace TensorGraph

open Network (numbered)

namespace Network

variable {n : Network} {kind : String} {id : LayerId} {named : NamedLayer}

theorem numbered_injective (kind : String) : Function.Injective (numbered kind) := by
  intro j k h
  have hlists := congrArg String.toList h
  simp only [numbered, String.toList_append, List.append_assoc, List.append_cancel_left_eq]
    at hlists
  exact NumberText.natural_inj (String.toList_inj.1 hlists)

/-- With enough tries the search ends at the first number whose name is free. -/
theorem firstFree_eq {m fuel k : Nat} (hk : k ≤ m) (hm : m ≤ k + fuel)
    (hfree : n.hasName (numbered kind m) = false)
    (htaken : ∀ j, k ≤ j → j < m → n.hasName (numbered kind j)) :
    n.firstFree kind fuel k = numbered kind m := by
  induction fuel generalizing k with
  | zero =>
    have hkm : k = m := by omega
    rw [firstFree, hkm]
  | succ fuel ih =>
    rw [firstFree]
    -- every number before the free one is taken, so the search goes on
    by_cases hkm : k = m
    · rw [hkm, hfree]
      rfl
    · rw [htaken k (le_refl k) (by omega)]
      exact ih (by omega) (by omega) fun j hj => htaken j (by omega)

theorem WellFed.nodup_names (h : n.WellFed) : (n.layers.toList.map (·.name)).Nodup := by
  rw [List.Nodup, List.pairwise_map, List.pairwise_iff_getElem]
  intro i j hi hj hlt hname
  have hlayer : ∀ {i : Nat} (hi : i < n.layers.toList.length),
      n.layer? ⟨n.id, i⟩ = some n.layers.toList[i] := by
    intro i hi
    rw [layer?_eq_some_iff, ← Array.getElem?_toList]
    exact ⟨rfl, List.getElem?_eq_getElem hi⟩
  have hindex := congrArg LayerId.index (h.name (hlayer hi) (hlayer hj) hname)
  exact absurd hindex (Nat.ne_of_lt hlt)

/-- A layer depends on one input layer. -/
theorem WellFed.exists_root (h : n.WellFed) (hid : n.layer? id = some named) :
    ∃ root name i, n.inputsOf id = .ok [root] ∧ n.layer? root = some ⟨name, .input i⟩ := by
  induction id using h.induction generalizing named with
  | layer id ih =>
    obtain ⟨name, l⟩ := named
    by_cases hfed : ∃ feeder, l.feeder? = some feeder
    · obtain ⟨feeder, hfeeder⟩ := hfed
      obtain ⟨named', hnamed'⟩ := contains_iff.1 (h.earlier hid hfeeder).2
      obtain ⟨root, name', i, hroot, hlayer⟩ := ih hid hfeeder hnamed'
      refine ⟨root, name', i, ?_, hlayer⟩
      -- the layer itself is not an input, so it adds nothing to the inputs of its feeder
      have hskip : l.isInput = false := by
        cases l with
        | input => cases hfeeder
        | dense | dropout => rfl
      obtain ⟨above, habove, hfilter⟩ := except_map_eq_ok_iff.1 hroot
      rw [inputsOf, h.lineage_of_feeder hid hfeeder, habove, ← hfilter]
      simp only [Except.map, List.filter_cons, hskip]
      rfl
    · have hnone : l.feeder? = none := by
        by_contra hsome
        exact hfed (Option.ne_none_iff_exists'.1 hsome)
      cases l with
      | input i =>
        refine ⟨id, name, i, ?_, hid⟩
        rw [inputsOf, lineage_of_input hid hnone]
        rfl
      | dense | dropout => cases hnone

end Network

/-- A network with the names in use and, for every kind, the number of the last generated name. -/
structure Ledger where
  network : Network
  names : Finset String
  counters : String → Nat

/-- Calls on a ledger. A call that is refused keeps what it has written until then. -/
abbrev Registering := EStateM Error Ledger

namespace Ledger

/-! ## The calls -/

/-- The ledger of a network without layers. -/
def empty (id : Nat) : Ledger := ⟨.empty id, ∅, fun _ => 0⟩

/-- The names that are not among the first `k` generated ones get fewer when one of them is met. -/
theorem card_sdiff_image_lt {names : Finset String} {kind : String} {k : Nat}
    (h : numbered kind (k + 1) ∈ names) :
    (names \ (Finset.range (k + 1 + 1)).image (numbered kind)).card <
      (names \ (Finset.range (k + 1)).image (numbered kind)).card := by
  apply Finset.card_lt_card
  rw [Finset.ssubset_iff_of_subset]
  · -- the name that is met is among the names before, and not after
    refine ⟨numbered kind (k + 1), ?_, ?_⟩
    · rw [Finset.mem_sdiff, Finset.mem_image]
      refine ⟨h, ?_⟩
      rintro ⟨j, hj, heq⟩
      rw [Finset.mem_range, Network.numbered_injective kind heq] at hj
      omega
    · rw [Finset.mem_sdiff, not_and, not_not]
      exact fun _ => Finset.mem_image_of_mem _ (Finset.self_mem_range_succ _)
  · apply Finset.sdiff_subset_sdiff (Finset.Subset.refl names)
    exact Finset.image_subset_image (Finset.range_mono (Nat.le_succ _))

/-- The first number after `k` whose name is not in use. There is no bound on the search: every
name that it passes over is one of finitely many. -/
def nextFree (names : Finset String) (kind : String) (k : Nat) : Nat :=
  if numbered kind (k + 1) ∈ names then nextFree names kind (k + 1) else k + 1
termination_by (names \ (Finset.range (k + 1)).image (numbered kind)).card
decreasing_by exact card_sdiff_image_lt ‹_›

/-- Generate a name, and remember its number. -/
def generate (kind : String) : Registering String := do
  let b ← get
  let k := nextFree b.names kind (b.counters kind)
  set { b with counters := Function.update b.counters kind k }
  return numbered kind k

/-- The name of a new layer, which is generated unless one has been requested. -/
def nameFor (l : Layer) : Registering String :=
  match l.requestedName? with
  | some name => pure name
  | none => generate l.kind

/-- Add a layer. The layer that feeds it must be in the network and its name must be free. -/
def add (l : Layer) : Registering LayerId := do
  let b ← get
  if l.feeder?.any (!b.network.contains ·) then throw (.invalidArgument .foreignFeeder)
  else
    let name ← nameFor l
    -- the counters may have moved by now
    let b ← get
    if name ∈ b.names then throw (.invalidArgument (.takenLayerName name))
    else
      set { b with
        network := { b.network with layers := b.network.layers.push ⟨name, l⟩ }
        names := insert name b.names }
      return ⟨b.network.id, b.network.size⟩

/-- What calls lead to, whether they are granted or refused. -/
inductive Reachable : Ledger → Prop
  | empty (id : Nat) : Reachable (.empty id)
  | call {b : Ledger} (l : Layer) (reachable : Reachable b) : Reachable (finalState (add l) b)

/-- A ledger whose names are those of the layers, and whose counters have passed over names in use
only. -/
structure Coherent (b : Ledger) : Prop where
  grown : b.network.Grown
  names : b.names = (b.network.layers.toList.map (·.name)).toFinset
  counters : ∀ kind k, 0 < k → k ≤ b.counters kind → numbered kind k ∈ b.names

variable {names : Finset String} {kind : String} {b : Ledger}

/-! ## Counting -/

theorem lt_nextFree (names : Finset String) (kind : String) (k : Nat) :
    k < nextFree names kind k := by
  fun_induction nextFree names kind k with
  | case1 k _ ih => omega
  | case2 k => omega

/-- The name at which counting ends is not in use. -/
theorem numbered_nextFree_not_mem (names : Finset String) (kind : String) (k : Nat) :
    numbered kind (nextFree names kind k) ∉ names := by
  fun_induction nextFree names kind k with
  | case1 k _ ih => exact ih
  | case2 k hfree => exact hfree

/-- Counting passes over names in use only. -/
theorem mem_of_lt_nextFree {k j : Nat} (hk : k < j) (hj : j < nextFree names kind k) :
    numbered kind j ∈ names := by
  fun_induction nextFree names kind k with
  | case1 k htaken ih =>
    by_cases heq : j = k + 1
    · rwa [heq]
    · exact ih (by omega) hj
  | case2 k => omega

/-- As many names are in use as counting has passed over. -/
theorem le_card_of_mem {k m : Nat} (h : ∀ j, k < j → j < m → numbered kind j ∈ names) :
    m ≤ k + names.card + 1 := by
  -- different numbers make different names
  have hsubset : (Finset.Ioo k m).image (numbered kind) ⊆ names := by
    intro name hname
    obtain ⟨j, hj, rfl⟩ := Finset.mem_image.1 hname
    rw [Finset.mem_Ioo] at hj
    exact h j hj.1 hj.2
  have hcard := Finset.card_le_card hsubset
  rw [Finset.card_image_of_injective _ (Network.numbered_injective kind), Nat.card_Ioo] at hcard
  omega

/-- What generating a name does. -/
theorem generate_apply (kind : String) (b : Ledger) :
    generate kind b = .ok (numbered kind (nextFree b.names kind (b.counters kind)))
      { b with
        counters := Function.update b.counters kind
          (nextFree b.names kind (b.counters kind)) } := rfl

/-- What adding a layer does, once its feeder has been found and its name chosen. -/
theorem add_apply {l : Layer} {name : String} {counters : String → Nat}
    (hfeeder : ¬l.feeder?.any (!b.network.contains ·))
    (hname : nameFor l b = .ok name { b with counters := counters }) :
    add l b = if name ∈ b.names
      then .error (.invalidArgument (.takenLayerName name)) { b with counters := counters }
      else .ok ⟨b.network.id, b.network.size⟩
        ⟨{ b.network with layers := b.network.layers.push ⟨name, l⟩ }, insert name b.names,
          counters⟩ := by
  rw [add, bind_of_ok (get_apply b), if_neg hfeeder, bind_of_ok hname, bind_of_ok (get_apply _)]
  split <;> rfl

/-! ## Coherent ledgers -/

namespace Coherent

theorem empty (id : Nat) : (empty id).Coherent where
  grown := .empty id
  names := rfl
  counters := by
    intro kind k hpos hle
    exact absurd hpos (Nat.not_lt.2 hle)

theorem mem_names (h : b.Coherent) {name : String} :
    name ∈ b.names ↔ name ∈ b.network.layers.toList.map (·.name) := by
  rw [h.names, List.mem_toFinset]

theorem mem_names_iff (h : b.Coherent) {name : String} :
    name ∈ b.names ↔ b.network.hasName name := by
  rw [h.mem_names, List.mem_map, Network.hasName, Array.any_eq_true']
  simp only [Array.mem_toList_iff, beq_iff_eq]

theorem card_names_le (h : b.Coherent) : b.names.card ≤ b.network.size := by
  rw [h.names]
  refine (List.toFinset_card_le _).trans ?_
  simp [Network.size]

/-- Every number that a counter has reached or counting passes over is taken. -/
theorem mem_of_lt_nextFree (h : b.Coherent) {j : Nat} (hpos : 0 < j)
    (hj : j < nextFree b.names kind (b.counters kind)) : numbered kind j ∈ b.names := by
  by_cases hle : j ≤ b.counters kind
  · exact h.counters kind j hpos hle
  · exact Ledger.mem_of_lt_nextFree (by omega) hj

/-- Counting ends after all numbers of layers at the latest. -/
theorem nextFree_le (h : b.Coherent) (kind : String) :
    nextFree b.names kind (b.counters kind) ≤ b.network.size + 1 := by
  have hpassed : ∀ j, 0 < j → j < nextFree b.names kind (b.counters kind) →
      numbered kind j ∈ b.names := fun j => h.mem_of_lt_nextFree
  have hbound := le_card_of_mem hpassed
  have hcard := h.card_names_le
  omega

/-- Counting on from the last number gives the first free name of all. -/
theorem generateName_eq (h : b.Coherent) (kind : String) :
    b.network.generateName kind = numbered kind (nextFree b.names kind (b.counters kind)) := by
  have hfree := numbered_nextFree_not_mem b.names kind (b.counters kind)
  rw [h.mem_names_iff, Bool.not_eq_true] at hfree
  have hpos := lt_nextFree b.names kind (b.counters kind)
  have hle := h.nextFree_le kind
  -- the network tries all numbers from one on, and those that the counter has reached are taken
  exact Network.firstFree_eq (by omega) (by omega) hfree fun j hj hlt =>
    h.mem_names_iff.1 (h.mem_of_lt_nextFree hj hlt)

/-- The name of a new layer is the one that the network would give it. If it is in use, no counter
has moved; otherwise the counters have passed over names that are then in use. -/
theorem nameFor_apply (h : b.Coherent) (l : Layer) : ∃ counters,
    nameFor l b = .ok (l.requestedName?.getD (b.network.generateName l.kind))
      { b with counters := counters } ∧
    (l.requestedName?.getD (b.network.generateName l.kind) ∈ b.names → counters = b.counters) ∧
    ∀ kind k, 0 < k → k ≤ counters kind →
      numbered kind k ∈ insert (l.requestedName?.getD (b.network.generateName l.kind)) b.names := by
  rw [nameFor]
  cases hrequested : l.requestedName? with
  | some name =>
    refine ⟨b.counters, rfl, fun _ => rfl, fun kind k hpos hle => ?_⟩
    exact Finset.mem_insert_of_mem (h.counters kind k hpos hle)
  | none =>
    simp only [Option.getD_none, h.generateName_eq, generate_apply]
    refine ⟨_, rfl, fun hmem => ?_, fun kind k hpos hle => ?_⟩
    · exact absurd hmem (numbered_nextFree_not_mem _ _ _)
    · -- only the counter of this kind moves, and it stops at the new name
      rw [Finset.mem_insert]
      by_cases hkind : kind = l.kind
      · subst hkind
        rw [Function.update_self] at hle
        rcases Nat.lt_or_eq_of_le hle with hlt | heq
        · exact .inr (h.mem_of_lt_nextFree hpos hlt)
        · exact .inl (by rw [heq])
      · rw [Function.update_of_ne hkind] at hle
        exact .inr (h.counters kind k hpos hle)

/-- A call grows the network as it grows on its own, or changes nothing. -/
theorem add_cases (h : b.Coherent) (l : Layer) :
    (∃ err, b.network.add l = .error err ∧ add l b = .error err b) ∨
      ∃ id b', b.network.add l = .ok (id, b'.network) ∧ add l b = .ok id b' ∧ b'.Coherent := by
  by_cases hfeeder : l.feeder?.any (!b.network.contains ·)
  · refine .inl ⟨.invalidArgument .foreignFeeder, ?_, ?_⟩
    · rw [Network.add, if_pos hfeeder]
    · rw [add, bind_of_ok (get_apply b), if_pos hfeeder]
      rfl
  -- from here on both calls go by one name, requested or generated
  obtain ⟨counters, hname, hkept, hcounters⟩ := h.nameFor_apply l
  have hgrow : ∀ name, l.requestedName?.getD (b.network.generateName l.kind) = name →
      b.network.add l = if b.network.hasName name
        then .error (.invalidArgument (.takenLayerName name))
        else .ok (⟨b.network.id, b.network.size⟩,
          { b.network with layers := b.network.layers.push ⟨name, l⟩ }) := by
    rintro _ rfl
    rw [Network.add, if_neg hfeeder]
  have hadd : ∀ name, l.requestedName?.getD (b.network.generateName l.kind) = name →
      add l b = if name ∈ b.names
        then .error (.invalidArgument (.takenLayerName name)) { b with counters := counters }
        else .ok ⟨b.network.id, b.network.size⟩
          ⟨{ b.network with layers := b.network.layers.push ⟨name, l⟩ }, insert name b.names,
            counters⟩ := by
    rintro _ rfl
    exact add_apply hfeeder hname
  generalize l.requestedName?.getD (b.network.generateName l.kind) = name
    at hgrow hadd hkept hcounters
  specialize hgrow name rfl
  specialize hadd name rfl
  by_cases hmem : name ∈ b.names
  · -- a name that is generated is free, so this one has been requested
    rw [if_pos (h.mem_names_iff.1 hmem)] at hgrow
    rw [if_pos hmem, hkept hmem] at hadd
    exact .inl ⟨_, hgrow, hadd⟩
  · rw [if_neg fun htaken => hmem (h.mem_names_iff.2 htaken)] at hgrow
    rw [if_neg hmem] at hadd
    refine .inr ⟨_, _, hgrow, hadd, h.grown.add hgrow, ?_, hcounters⟩
    ext other
    simp [h.names]

end Coherent

theorem Reachable.coherent (h : b.Reachable) : b.Coherent := by
  induction h with
  | empty id => exact .empty id
  | call l _ ih =>
    rcases ih.add_cases l with ⟨err, -, hadd⟩ | ⟨id, b', -, hadd, hcoherent⟩
    · rwa [finalState_of_error hadd]
    · rwa [finalState_of_ok hadd]

/-- Every network that has been grown is that of some ledger. -/
theorem exists_reachable {n : Network} (h : n.Grown) :
    ∃ b : Ledger, b.Reachable ∧ b.network = n := by
  induction h with
  | empty id => exact ⟨.empty id, .empty id, rfl⟩
  | @add n n' l id _ added ih =>
    obtain ⟨b, hb, rfl⟩ := ih
    refine ⟨_, hb.call l, ?_⟩
    rcases hb.coherent.add_cases l with ⟨err, hgrow, -⟩ | ⟨id', b', hgrow, hadd, -⟩
    · cases hgrow.symm.trans added
    · rw [finalState_of_ok hadd]
      exact congrArg Prod.snd (Except.ok.inj (hgrow.symm.trans added))

/-- Whatever calls have been made, granted or refused, with requested names and generated ones: the
names of the layers are distinct; a layer is fed by an earlier one of the network; generating a
name gives one that no layer has, after at most as many tries as there are layers and one more; a
call that is refused changes neither layers nor names nor counters, and calls are granted and
refused as they are for the network alone; and every layer has a shape and depends on exactly one
layer that is an input. -/
theorem Reachable.bookkeeping (h : b.Reachable) :
    (b.network.layers.toList.map (·.name)).Nodup ∧
    (∀ id named feeder, b.network.layer? id = some named → named.layer.feeder? = some feeder →
      b.network.contains feeder ∧ feeder.index < id.index) ∧
    (∀ kind, ∃ k, b.counters kind < k ∧ k ≤ b.network.size + 1 ∧
      generate kind b = .ok (numbered kind k)
        { b with counters := Function.update b.counters kind k } ∧
      b.network.generateName kind = numbered kind k ∧
      numbered kind k ∉ b.network.layers.toList.map (·.name)) ∧
    (∀ l err b', add l b = .error err b' → b' = b) ∧
    (∀ l, (∀ err, add l b = .error err b ↔ b.network.add l = .error err) ∧
      ∀ id n, (∃ b', add l b = .ok id b' ∧ b'.network = n) ↔ b.network.add l = .ok (id, n)) ∧
    ∀ id, b.network.contains id → (∃ shape, b.network.shape id = .ok shape) ∧
      ∃ root name i, b.network.inputsOf id = .ok [root] ∧
        b.network.layer? root = some ⟨name, .input i⟩ := by
  have hcoherent := h.coherent
  have hfed := hcoherent.grown.wellFed
  refine ⟨hfed.nodup_names, fun id named feeder hid hfeeder => ?_, fun kind => ?_,
    fun l err b' hadd => ?_, fun l => ?_, fun id hid => ?_⟩
  · obtain ⟨hlt, hin⟩ := hfed.earlier hid hfeeder
    exact ⟨hin, hlt⟩
  · have hfree := numbered_nextFree_not_mem b.names kind (b.counters kind)
    exact ⟨_, lt_nextFree _ _ _, hcoherent.nextFree_le kind, generate_apply kind b,
      hcoherent.generateName_eq kind, fun hmem => hfree (hcoherent.mem_names.2 hmem)⟩
  · rcases hcoherent.add_cases l with ⟨err', -, hkept⟩ | ⟨id, b'', -, hok, -⟩
    · cases hkept.symm.trans hadd
      rfl
    · cases hok.symm.trans hadd
  · rcases hcoherent.add_cases l with ⟨err, hgrow, hadd⟩ | ⟨id, b', hgrow, hadd, -⟩
    · rw [hgrow, hadd]
      simp
    · rw [hgrow, hadd]
      simp
  · obtain ⟨named, hnamed⟩ := Network.contains_iff.1 hid
    obtain ⟨ls, hls, -⟩ := hfed.exists_lineage hnamed
    exact ⟨⟨_, except_map_eq_ok_iff.2 ⟨_, hls, rfl⟩⟩, hfed.exists_root hnamed⟩

/-- A network with an input that has been named like a dense layer, and a dense layer. -/
def crowded : Network :=
  ⟨0, #[⟨"dense_1", .input (.pairs (some "dense_1"))⟩,
    ⟨"dense_2", .dense ⟨3, none, none, none, none, Dense.units_pos_three⟩ ⟨0, 0⟩⟩]⟩

theorem grown_crowded : crowded.Grown := by
  have hinput : (Network.empty 0).add (.input (.pairs (some "dense_1"))) =
      .ok (⟨0, 0⟩, ⟨0, #[⟨"dense_1", .input (.pairs (some "dense_1"))⟩]⟩) :=
    Network.add_eq_ok_iff.2 ⟨nofun, "dense_1", by decide +kernel, rfl, rfl, rfl⟩
  refine .add (.add (.empty 0) hinput) (Network.add_eq_ok_iff.2
    ⟨?_, "dense_2", by decide +kernel, by decide +kernel, rfl, rfl⟩)
  rintro _ ⟨⟩
  rfl

/-- The next dense layer is the third by its name, and a second one of the same name is refused. -/
theorem crowded_bookkeeping : ∃ b : Ledger, b.Reachable ∧ b.network = crowded ∧
    (∃ b', generate "dense" b = .ok "dense_3" b') ∧
    add (.dense ⟨3, none, none, none, some "dense_2", Dense.units_pos_three⟩ ⟨0, 0⟩) b =
      .error (.invalidArgument (.takenLayerName "dense_2")) b ∧
    ∃ root, b.network.inputsOf ⟨0, 1⟩ = .ok [root] := by
  obtain ⟨b, hb, hnetwork⟩ := exists_reachable grown_crowded
  obtain ⟨-, -, hgenerate, -, hcalls, hinputs⟩ := Reachable.bookkeeping hb
  obtain ⟨k, -, -, hok, hname, -⟩ := hgenerate "dense"
  obtain ⟨-, root, -, -, hroot, -⟩ := hinputs ⟨0, 1⟩ (by rw [hnetwork]; rfl)
  -- the third name is computed for the network, and the ledger generates the same
  refine ⟨b, hb, hnetwork, ?_, ((hcalls _).1 _).2 ?_, root, hroot⟩
  · have hthird : crowded.generateName "dense" = "dense_3" := by decide +kernel
    rw [← hname, hnetwork, hthird] at hok
    exact ⟨_, hok⟩
  · rw [hnetwork, Network.add, if_neg (by decide +kernel)]
    exact if_pos (by decide +kernel)

end Ledger
end TensorGraph
