import Mathlib.Data.List.Forall2

/-!
# Related lists

Two lists are related when their elements are, place by place. Inputs and what they are fed, outputs
and their values, layers and their nodes are lists of this kind.

## Main results

* `exists_of_forall₂` and `exists_mem_of_forall₂`: what an element is related to.
* `exists_forall₂`: a list of what the elements of another one are related to.
* `forall₂_compose`: two relations of lists, one after the other.
-/

namespace TensorGraph

variable {α β γ : Type}

/-- Related lists have related elements in the same places. -/
theorem exists_of_forall₂ {R : α → β → Prop} {xs : List α} {ys : List β}
    (h : List.Forall₂ R xs ys) {i : Nat} {x : α} (hx : xs[i]? = some x) :
    ∃ y, ys[i]? = some y ∧ R x y := by
  induction h generalizing i with
  | nil => simp at hx
  | @cons a b _ _ hhead _ ih =>
    cases i with
    | zero =>
      obtain rfl : a = x := by simpa using hx
      exact ⟨b, by simp, hhead⟩
    | succ i => simpa using ih (by simpa using hx)

/-- An element of a list is related to one of the other list. -/
theorem exists_mem_of_forall₂ {R : α → β → Prop} {xs : List α} {ys : List β}
    (h : List.Forall₂ R xs ys) {x : α} (hx : x ∈ xs) : ∃ y ∈ ys, R x y := by
  obtain ⟨i, hi⟩ := List.getElem?_of_mem hx
  obtain ⟨y, hy, hr⟩ := exists_of_forall₂ h hi
  exact ⟨y, List.mem_of_getElem? hy, hr⟩

/-- Two relations of lists, one after the other. -/
theorem forall₂_compose {R : α → β → Prop} {Q : β → γ → Prop} {T : α → γ → Prop}
    {as : List α} {bs : List β} {cs : List γ} (h : List.Forall₂ R as bs)
    (h' : List.Forall₂ Q bs cs) (hstep : ∀ {a b c}, b ∈ bs → R a b → Q b c → T a c) :
    List.Forall₂ T as cs := by
  induction h generalizing cs with
  | nil =>
    cases h'
    exact .nil
  | cons hab _ ih =>
    cases h' with | cons hbc htail =>
    exact .cons (hstep List.mem_cons_self hab hbc)
      (ih htail fun hb => hstep (List.mem_cons_of_mem _ hb))

/-- Related lists are related as well beside a third one. -/
theorem forall₂_zip {R : α → β → Prop} {Q : β → γ → Prop}
    {T : α × β → α × γ → Prop} {as : List α} {bs : List β} {cs : List γ}
    (h : List.Forall₂ R as bs) (h' : List.Forall₂ Q bs cs)
    (hstep : ∀ {a b c}, R a b → Q b c → T (a, b) (a, c)) :
    List.Forall₂ T (as.zip bs) (as.zip cs) := by
  induction h generalizing cs with
  | nil => exact .nil
  | cons hab _ ih =>
    cases h' with | cons hbc htail =>
    exact .cons (hstep hab hbc) (ih htail)

/-- A list of what the elements of another one are related to. -/
theorem exists_forall₂ {R : α → β → Prop} {as : List α}
    (h : ∀ a ∈ as, ∃ b, R a b) : ∃ bs, List.Forall₂ R as bs := by
  induction as with
  | nil => exact ⟨[], .nil⟩
  | cons a as ih =>
    obtain ⟨ha, has⟩ := List.forall_mem_cons.1 h
    obtain ⟨b, hb⟩ := ha
    obtain ⟨bs, hbs⟩ := ih has
    exact ⟨b :: bs, .cons hb hbs⟩

/-- Every element of a list that is not longer stands beside one of the other list. -/
theorem exists_mem_zip {as : List α} {bs : List β} (h : as.length ≤ bs.length) {a : α}
    (ha : a ∈ as) : ∃ b, (a, b) ∈ as.zip bs := by
  rw [← List.map_fst_zip h] at ha
  obtain ⟨row, hrow, rfl⟩ := List.mem_map.1 ha
  exact ⟨row.2, hrow⟩

/-- What stands beside another list is taken in order. -/
theorem map_snd_zip_sublist (as : List α) (bs : List β) :
    ((as.zip bs).map (·.2)).Sublist bs := by
  induction as generalizing bs with
  | nil => exact List.nil_sublist bs
  | cons a as ih =>
    cases bs with
    | nil => exact List.Sublist.refl []
    | cons b bs => exact (ih bs).cons_cons b

end TensorGraph
