import TensorGraph.Proofs.Shape.Covering

/-!
# Declared shapes as sets of shapes

A declared shape stands for the set of shapes it covers. Stretching two declared shapes loses
nothing and adds nothing: the common declared shape covers the common shapes of what the two cover,
and there is none when no two covered shapes have one. Shapes may have any number of axes here.

## Main results

* `DeclaredShape.exists_joinAxes`: what a common axis covers is a common size.
* `DeclaredShape.broadcast_exact`: stretching declared shapes is stretching the sets they stand for.
-/

namespace TensorGraph

/-! ## Lists combined axis by axis -/

section Combining

variable {α β : Type} {R : α → β → Prop} {f : α → α → Option α} {g : β → β → Option β}

/-- Whatever is related to a combined list is combined from related lists, when this holds of
elements. -/
theorem exists_combineKeeping
    (h : ∀ {a b c c'}, f a b = some c → R c c' → ∃ a' b', R a a' ∧ R b b' ∧ g a' b' = some c') :
    ∀ {xs ys zs : List α} {zs' : List β}, combineKeeping f xs ys = some zs →
      List.Forall₂ R zs zs' → ∃ xs' ys', List.Forall₂ R xs xs' ∧ List.Forall₂ R ys ys' ∧
        combineKeeping g xs' ys' = some zs'
  -- what is left of the longer list is the combined one
  | [], ys, zs, zs', hf, hz => by
    simp only [combineKeeping, Option.some.injEq] at hf
    exact ⟨[], zs', .nil, hf ▸ hz, rfl⟩
  | x :: xs, [], zs, zs', hf, hz => by
    simp only [combineKeeping, Option.some.injEq] at hf
    subst hf
    cases hz with
    | cons hhead htail => exact ⟨_ :: _, [], .cons hhead htail, .nil, rfl⟩
  | x :: xs, y :: ys, zs, zs', hf, hz => by
    simp only [combineKeeping, Option.bind_eq_bind, Option.bind_eq_some_iff,
      Option.pure_def, Option.some.injEq] at hf
    obtain ⟨c, hc, cs, hcs, rfl⟩ := hf
    cases hz with
    | cons hhead htail =>
      obtain ⟨a', b', ha, hb, hjoin⟩ := h hc hhead
      obtain ⟨xs', ys', hxs, hys, hrest⟩ := exists_combineKeeping h hcs htail
      exact ⟨a' :: xs', b' :: ys', .cons ha hxs, .cons hb hys, by
        simp [combineKeeping, hjoin, hrest]⟩

/-- Where two lists do not combine, related lists do not either, when this holds of elements. -/
theorem combineKeeping_eq_none
    (h : ∀ a b a' b', R a a' → R b b' → f a b = none → g a' b' = none) :
    ∀ {xs ys : List α} {xs' ys' : List β}, List.Forall₂ R xs xs' → List.Forall₂ R ys ys' →
      combineKeeping f xs ys = none → combineKeeping g xs' ys' = none := by
  intro xs ys xs' ys' hxs hys hf
  induction hxs generalizing ys ys' with
  | nil => simp [combineKeeping] at hf
  | @cons x _ xs _ hx _ ih =>
    cases hys with
    | nil => simp [combineKeeping] at hf
    | @cons y _ ys _ hy hys =>
      -- either the heads have nothing in common or the tails do not combine
      cases hjoin : f x y with
      | none => simp [combineKeeping, h _ _ _ _ hx hy hjoin]
      | some z =>
        have hrest : combineKeeping f xs ys = none := by
          cases htail : combineKeeping f xs ys with
          | none => rfl
          | some zs => simp [combineKeeping, hjoin, htail] at hf
        simp [combineKeeping, ih hys hrest]

end Combining

namespace DeclaredShape

/-! ## Axes -/

/-- A positive or open axis covers a size. -/
theorem exists_coversAxis {d : Int} (h : 0 < d ∨ d = openAxis) : ∃ n, CoversAxis d n := by
  rcases h with hpos | rfl
  · exact ⟨d.toNat, by omega, .inr (by omega)⟩
  · exact ⟨1, Nat.one_pos, .inl rfl⟩

/-- Axes that cannot be joined cover no sizes that can. -/
theorem CoversAxis.joinAxes_eq_none (x y : Int) (m n : Nat) (hx : CoversAxis x m)
    (hy : CoversAxis y n) (h : joinAxes x y = none) : Shape.joinAxes m n = none := by
  -- both axes are fixed, to sizes that differ and are not one
  obtain ⟨hm, hx⟩ := hx
  obtain ⟨hn, hy⟩ := hy
  simp only [joinAxes, Shape.joinAxes, openAxis] at *
  grind

/-- A size that a common axis covers is the common size of two that the axes cover. -/
theorem exists_joinAxes {x y z : Int} {k : Nat} (hz : joinAxes x y = some z)
    (hk : CoversAxis z k) :
    ∃ m n, CoversAxis x m ∧ CoversAxis y n ∧ Shape.joinAxes m n = some k := by
  have hself : Shape.joinAxes k k = some k := by simp [Shape.joinAxes]
  have hleft : Shape.joinAxes k 1 = some k := by
    unfold Shape.joinAxes
    grind
  have hright : Shape.joinAxes 1 k = some k := by
    unfold Shape.joinAxes
    grind
  have hopen : CoversAxis openAxis k := ⟨hk.1, .inl rfl⟩
  have hone : CoversAxis 1 1 := ⟨Nat.one_pos, .inr rfl⟩
  unfold joinAxes at hz
  -- one case per rule: an axis that gives way to the other one covers that one's size or one
  split at hz
  case isTrue h =>
    obtain rfl : x = z := by simpa using hz
    exact ⟨k, k, hk, h ▸ hk, hself⟩
  split at hz
  case isTrue h =>
    obtain rfl : y = z := by simpa using hz
    exact ⟨1, k, h ▸ hone, hk, hright⟩
  split at hz
  case isTrue h =>
    obtain rfl : x = z := by simpa using hz
    exact ⟨k, 1, hk, h ▸ hone, hleft⟩
  split at hz
  case isTrue h =>
    obtain rfl : y = z := by simpa using hz
    exact ⟨k, k, h ▸ hopen, hk, hself⟩
  split at hz
  case isTrue h =>
    obtain rfl : x = z := by simpa using hz
    exact ⟨k, k, hk, h ▸ hopen, hself⟩
  case isFalse => cases hz

/-! ## Shapes -/

/-- A declared shape with positive and open axes covers a shape. -/
theorem Regular.exists_covers : ∀ {s : DeclaredShape}, s.Regular → ∃ t, s.Covers t
  | [], _ => ⟨[], .nil⟩
  | d :: s, h => by
    obtain ⟨hd, hs⟩ := List.forall_mem_cons.1 h
    obtain ⟨n, hn⟩ := exists_coversAxis hd
    obtain ⟨t, ht⟩ := Regular.exists_covers hs
    exact ⟨n :: t, .cons hn ht⟩

/-- A shape that the common declared shape covers is the common shape of two covered ones. -/
theorem Covers.exists_broadcast {a b c : DeclaredShape} {u : Shape} (hu : c.Covers u)
    (hc : a.broadcast b = some c) :
    ∃ s t, a.Covers s ∧ b.Covers t ∧ s.broadcast t = some u := by
  obtain ⟨zs, hzs, rfl⟩ := Option.map_eq_some_iff.1 hc
  -- axes are combined from the last one
  have hrev : List.Forall₂ CoversAxis zs u.reverse := by
    rwa [← List.forall₂_reverse_iff, List.reverse_reverse]
  obtain ⟨s, t, hs, ht, hst⟩ := exists_combineKeeping exists_joinAxes hzs hrev
  refine ⟨s.reverse, t.reverse, ?_, ?_, ?_⟩
  · rwa [Covers, ← List.forall₂_reverse_iff, List.reverse_reverse]
  · rwa [Covers, ← List.forall₂_reverse_iff, List.reverse_reverse]
  · rw [Shape.broadcast, combineAligned, List.reverse_reverse, List.reverse_reverse, hst,
      Option.map_some, List.reverse_reverse]

/-- Declared shapes that have no common one cover no shapes that have one. -/
theorem Covers.broadcast_eq_none {a b : DeclaredShape} {s t : Shape} (ha : a.Covers s)
    (hb : b.Covers t) (h : a.broadcast b = none) : s.broadcast t = none :=
  Option.map_eq_none_iff.2 (combineKeeping_eq_none CoversAxis.joinAxes_eq_none
    (List.forall₂_reverse_iff.2 ha) (List.forall₂_reverse_iff.2 hb) (Option.map_eq_none_iff.1 h))

/-- Stretching declared shapes is stretching the sets of shapes they stand for: two declared shapes
have a common one exactly when some of the shapes they cover have one, and it covers the common
shapes of what the two cover, and nothing else. -/
theorem broadcast_exact {a b : DeclaredShape} (ha : a.Regular) (hb : b.Regular) :
    (a.broadcast b = none ↔ ∀ s t, a.Covers s → b.Covers t → s.broadcast t = none) ∧
      ∀ c, a.broadcast b = some c →
        ∀ u, (∃ s t, a.Covers s ∧ b.Covers t ∧ s.broadcast t = some u) ↔ c.Covers u := by
  refine ⟨⟨fun h s t hs ht => hs.broadcast_eq_none ht h, fun h => ?_⟩, fun c hc u =>
    ⟨fun ⟨s, t, hs, ht, hu⟩ => hs.broadcast ht hc hu, fun hu => hu.exists_broadcast hc⟩⟩
  -- a common declared shape covers some shape, which is a common one
  rw [Option.eq_none_iff_forall_ne_some]
  intro c hc
  obtain ⟨u, hu⟩ := (ha.broadcast hb hc).exists_covers
  obtain ⟨s, t, hs, ht, hst⟩ := hu.exists_broadcast hc
  rw [h s t hs ht] at hst
  cases hst

/-- Three axes and two: the second axis from the end is fixed by the shorter shape, and the other
two stay open. -/
theorem broadcast_exact_three_two :
    Regular [openAxis, openAxis, 1] ∧ Regular [5, openAxis] ∧
      broadcast [openAxis, openAxis, 1] [5, openAxis] = some [openAxis, 5, openAxis] ∧
      ∀ u, (∃ s t, Covers [openAxis, openAxis, 1] s ∧ Covers [5, openAxis] t ∧
        s.broadcast t = some u) ↔ Covers [openAxis, 5, openAxis] u :=
  have hlong : Regular [openAxis, openAxis, 1] := by decide
  have hshort : Regular [5, openAxis] := by decide
  ⟨hlong, hshort, rfl, (broadcast_exact hlong hshort).2 _ rfl⟩

end DeclaredShape
end TensorGraph
