import TensorGraph.Data.Shape
import TensorGraph.Proofs.Evaluation.Related

/-!
# Declared shapes and the shapes they cover

A declared shape covers a shape without empty axes when both have the same number of axes and agree
on every axis that is not open. Covering is what a fed value is checked for, and what the rules by
which declared shapes are worked out keep.

## Main definitions

* `DeclaredShape.Covers`: the shapes that a declared shape covers.
* `DeclaredShape.Closed` and `DeclaredShape.Held`: the shapes that may be declared for a node with
  and without a value of its own.

## Main results

* `DeclaredShape.covers_of_admits`: an admitted shape without empty axes is covered.
* `DeclaredShape.concrete?_eq_some_iff`: the shape that a closed declared shape stands for.
* `DeclaredShape.Covers.broadcast`: stretching two declared shapes covers stretching two shapes.
-/

namespace TensorGraph

/-! ## Lists combined axis by axis -/

/-- Combining two pairs of related lists gives related lists, when combining two pairs of related
elements does. -/
theorem forall₂_combineKeeping {α β : Type} {R : α → β → Prop} {f : α → α → Option α}
    {g : β → β → Option β}
    (h : ∀ {a b c a' b' c'}, R a a' → R b b' → f a b = some c → g a' b' = some c' → R c c') :
    ∀ {xs ys zs : List α} {xs' ys' zs' : List β}, List.Forall₂ R xs xs' → List.Forall₂ R ys ys' →
      combineKeeping f xs ys = some zs → combineKeeping g xs' ys' = some zs' →
      List.Forall₂ R zs zs'
  | [], ys, zs, _, ys', zs', .nil, hy, hf, hg => by
    simp only [combineKeeping, Option.some.injEq] at hf hg
    exact hf ▸ hg ▸ hy
  -- what is left of the longer list is kept on both sides
  | x :: xs, [], zs, _, _, zs', hx, .nil, hf, hg => by
    cases hx with
    | cons hhead htail =>
      simp only [combineKeeping, Option.some.injEq] at hf hg
      exact hf ▸ hg ▸ .cons hhead htail
  | x :: xs, y :: ys, zs, _, _, zs', .cons hx hxs, .cons hy hys, hf, hg => by
    simp only [combineKeeping, Option.bind_eq_bind, Option.bind_eq_some_iff,
      Option.pure_def, Option.some.injEq] at hf hg
    obtain ⟨c, hc, cs, hcs, rfl⟩ := hf
    obtain ⟨c', hc', cs', hcs', rfl⟩ := hg
    exact .cons (h hx hy hc hc') (forall₂_combineKeeping h hxs hys hcs hcs')

/-- The same for lists aligned at their ends. -/
theorem forall₂_combineAligned {α β : Type} {R : α → β → Prop} {f : α → α → Option α}
    {g : β → β → Option β}
    (h : ∀ {a b c a' b' c'}, R a a' → R b b' → f a b = some c → g a' b' = some c' → R c c')
    {xs ys zs : List α} {xs' ys' zs' : List β} (hx : List.Forall₂ R xs xs')
    (hy : List.Forall₂ R ys ys') (hf : combineAligned f xs ys = some zs)
    (hg : combineAligned g xs' ys' = some zs') : List.Forall₂ R zs zs' := by
  obtain ⟨us, hus, rfl⟩ := Option.map_eq_some_iff.1 hf
  obtain ⟨us', hus', rfl⟩ := Option.map_eq_some_iff.1 hg
  rw [List.forall₂_reverse_iff]
  exact forall₂_combineKeeping h (List.forall₂_reverse_iff.2 hx) (List.forall₂_reverse_iff.2 hy)
    hus hus'

/-- A combined list is as long as the longer one. -/
theorem length_combineKeeping {α : Type} {f : α → α → Option α} :
    ∀ {xs ys zs : List α}, combineKeeping f xs ys = some zs →
      zs.length = max xs.length ys.length
  | [], ys, zs, h => by
    simp only [combineKeeping, Option.some.injEq] at h
    simp [h]
  | x :: xs, [], zs, h => by
    simp only [combineKeeping, Option.some.injEq] at h
    simp [← h]
  | x :: xs, y :: ys, zs, h => by
    simp only [combineKeeping, Option.bind_eq_bind, Option.bind_eq_some_iff,
      Option.pure_def, Option.some.injEq] at h
    obtain ⟨c, -, cs, hcs, rfl⟩ := h
    have ih := length_combineKeeping hcs
    simp only [List.length_cons]
    omega

/-- Every element of a combined list has a property that the elements of both lists have and that
joining keeps. -/
theorem forall_combineKeeping {α : Type} {P : α → Prop} {f : α → α → Option α}
    (h : ∀ {a b c}, P a → P b → f a b = some c → P c) :
    ∀ {xs ys zs : List α}, (∀ x ∈ xs, P x) → (∀ y ∈ ys, P y) → combineKeeping f xs ys = some zs →
      ∀ z ∈ zs, P z
  | [], ys, zs, _, hy, hf => by
    simp only [combineKeeping, Option.some.injEq] at hf
    exact hf ▸ hy
  | x :: xs, [], zs, hx, _, hf => by
    simp only [combineKeeping, Option.some.injEq] at hf
    exact hf ▸ hx
  | x :: xs, y :: ys, zs, hx, hy, hf => by
    simp only [combineKeeping, Option.bind_eq_bind, Option.bind_eq_some_iff,
      Option.pure_def, Option.some.injEq] at hf
    obtain ⟨c, hc, cs, hcs, rfl⟩ := hf
    rw [List.forall_mem_cons] at hx hy ⊢
    exact ⟨h hx.1 hy.1 hc, forall_combineKeeping h hx.2 hy.2 hcs⟩

namespace DeclaredShape

/-! ## Shapes that may be declared -/

/-- The declared shapes of nodes with a value of their own: at most two axes, all of them
positive. -/
structure Closed (s : DeclaredShape) : Prop where
  /-- There are at most two axes. -/
  length_le : s.length ≤ 2
  /-- No axis is open or empty. -/
  pos : ∀ d ∈ s, 0 < d

/-- The declared shapes that the engine can hold: at most two axes, each positive or open. -/
structure Held (s : DeclaredShape) : Prop where
  /-- There are at most two axes. -/
  length_le : s.length ≤ 2
  /-- Every axis is positive or open. -/
  pos_or_open : ∀ d ∈ s, 0 < d ∨ d = openAxis

/-- The declared shapes whose axes are positive or open, however many there are. -/
def Regular (s : DeclaredShape) : Prop := ∀ d ∈ s, 0 < d ∨ d = openAxis

instance (s : DeclaredShape) : Decidable s.Regular :=
  inferInstanceAs (Decidable (∀ d ∈ s, 0 < d ∨ d = openAxis))

theorem Held.regular {s : DeclaredShape} (h : s.Held) : s.Regular := h.pos_or_open

theorem Closed.held {s : DeclaredShape} (h : s.Closed) : s.Held :=
  ⟨h.length_le, fun d hd => .inl (h.pos d hd)⟩

theorem closed_nil : Closed [] := ⟨by simp, by simp⟩

theorem Held.dropLast {s : DeclaredShape} (h : s.Held) : Held s.dropLast where
  length_le := by have := h.length_le; simp only [List.length_dropLast]; omega
  pos_or_open d hd := h.pos_or_open d (List.dropLast_subset _ hd)

/-- Joining two axes gives one of them. -/
theorem joinAxes_eq_or {x y z : Int} (h : joinAxes x y = some z) : z = x ∨ z = y := by
  -- five of the six branches give an axis, in the order in which the definition tries them
  unfold joinAxes at h
  split at h
  · left; simpa using h.symm
  split at h
  · right; simpa using h.symm
  split at h
  · left; simpa using h.symm
  split at h
  · right; simpa using h.symm
  split at h
  · left; simpa using h.symm
  · cases h

/-- Stretching keeps axes positive or open. -/
theorem Regular.broadcast {a b c : DeclaredShape} (ha : a.Regular) (hb : b.Regular)
    (h : a.broadcast b = some c) : c.Regular := by
  obtain ⟨zs, hzs, rfl⟩ := Option.map_eq_some_iff.1 h
  intro d hd
  -- a common axis is one of the two, so it is positive or open as they are
  have hkeep : ∀ {x y z : Int}, (0 < x ∨ x = openAxis) → (0 < y ∨ y = openAxis) →
      joinAxes x y = some z → 0 < z ∨ z = openAxis := by
    intro x y z hx hy hz
    rcases joinAxes_eq_or hz with rfl | rfl
    · exact hx
    · exact hy
  exact forall_combineKeeping hkeep (fun x hx => ha x (List.mem_reverse.1 hx))
    (fun y hy => hb y (List.mem_reverse.1 hy)) hzs d (List.mem_reverse.1 hd)

/-- Stretching keeps to the shapes that the engine can hold. -/
theorem Held.broadcast {a b c : DeclaredShape} (ha : a.Held) (hb : b.Held)
    (h : DeclaredShape.broadcast a b = some c) : c.Held where
  length_le := by
    obtain ⟨zs, hzs, rfl⟩ := Option.map_eq_some_iff.1 h
    have hlen := length_combineKeeping hzs
    have := ha.length_le
    have := hb.length_le
    simp only [List.length_reverse] at hlen ⊢
    omega
  pos_or_open := ha.regular.broadcast hb.regular h

/-! ## Covered shapes -/

/-- The sizes that an axis of a declared shape covers. -/
def CoversAxis (d : Int) (n : Nat) : Prop := 0 < n ∧ (d = openAxis ∨ d = n)

/-- The shapes that a declared shape covers: as many axes, none of them empty, and equal sizes where
the declared axis is not open. -/
def Covers (declared : DeclaredShape) (s : Shape) : Prop := List.Forall₂ CoversAxis declared s

theorem Covers.length_eq {declared : DeclaredShape} {s : Shape} (h : declared.Covers s) :
    s.length = declared.length :=
  (List.Forall₂.length_eq h).symm

/-- A declared shape without open axes that covers a shape is the declaration of it. -/
theorem Covers.eq_declared {declared : DeclaredShape} {s : Shape} (h : declared.Covers s)
    (hclosed : openAxis ∉ declared) : declared = Shape.declared s := by
  induction h with
  | nil => rfl
  | cons hhead _ ih =>
    simp only [List.mem_cons, not_or] at hclosed
    rcases hhead.2 with hopen | rfl
    · exact absurd hopen.symm hclosed.1
    · rw [ih hclosed.2]
      rfl

/-- A shape that two declared axes cover has two axes. -/
theorem Covers.exists_pair {declared : DeclaredShape} {d d' : Int} {s : Shape}
    (h : declared.Covers s) (hdeclared : declared = [d, d']) :
    ∃ m n, s = [m, n] ∧ CoversAxis d m ∧ CoversAxis d' n := by
  subst hdeclared
  obtain ⟨m, _, hm, htail, rfl⟩ := List.forall₂_cons_left_iff.1 h
  obtain ⟨n, _, hn, hnil, rfl⟩ := List.forall₂_cons_left_iff.1 htail
  obtain rfl := List.forall₂_nil_left_iff.1 hnil
  exact ⟨m, n, rfl, hm, hn⟩

/-- A shape is as it was declared: it has as many axes, none of them empty, and the declared size on
every axis that is not open. -/
structure Describes (declared : DeclaredShape) (s : Shape) : Prop where
  rank : s.length = declared.length
  size : ∀ {axis : Nat} {d : Int}, declared[axis]? = some d → d ≠ openAxis →
    ∃ n : Nat, s[axis]? = some n ∧ d = n
  pos : ∀ n ∈ s, 0 < n

/-- A covered shape is as it was declared. -/
theorem Covers.describes {declared : DeclaredShape} {s : Shape} (h : declared.Covers s) :
    declared.Describes s where
  rank := h.length_eq
  size hd hopen := by
    obtain ⟨n, hn, -, hsize⟩ := exists_of_forall₂ h hd
    exact ⟨n, hn, hsize.resolve_left hopen⟩
  pos := by
    induction h with
    | nil => simp
    | cons hhead _ ih => exact List.forall_mem_cons.2 ⟨hhead.1, ih⟩

/-- An admitted shape without empty axes is covered. -/
theorem covers_of_admits {declared : DeclaredShape} {s : Shape} (h : declared.admits s)
    (hpos : 0 ∉ s) : declared.Covers s := by
  rw [admits, Bool.and_eq_true, beq_iff_eq] at h
  obtain ⟨hlen, hall⟩ := h
  -- the lists are as long as each other, so zipping them leaves no axis out
  induction s generalizing declared with
  | nil =>
    obtain rfl := List.length_eq_zero_iff.1 hlen.symm
    exact .nil
  | cons n ns ih =>
    cases declared with
    | nil => simp at hlen
    | cons d ds =>
      simp only [List.zip_cons_cons, List.all_cons, Bool.and_eq_true, Bool.or_eq_true,
        beq_iff_eq] at hall
      simp only [List.mem_cons, not_or] at hpos
      simp only [List.length_cons, Nat.add_right_cancel_iff] at hlen
      exact .cons ⟨by omega, hall.1⟩ (ih hpos.2 hlen hall.2)

/-- A declared shape stands for the shape whose declaration it is, provided that no axis of it is
empty. -/
theorem concrete?_eq_some_iff {declared : DeclaredShape} {s : Shape} :
    declared.concrete? = some s ↔ declared = Shape.declared s ∧ ∀ n ∈ s, 0 < n := by
  induction declared generalizing s with
  | nil => cases s <;> simp [concrete?, Shape.declared]
  | cons d ds ih =>
    simp only [concrete?, List.mapM_cons, Option.bind_eq_bind, Option.bind_eq_some_iff,
      Option.pure_def, Option.some.injEq]
    constructor
    · -- an axis is read as a size only when it is positive
      rintro ⟨n, hn, ns, hns, rfl⟩
      obtain ⟨rfl, hpos⟩ := ih.1 hns
      split at hn
      · simp only [Option.some.injEq] at hn
        refine ⟨?_, List.forall_mem_cons.2 ⟨by omega, hpos⟩⟩
        simp only [Shape.declared, List.map_cons, List.cons.injEq, and_true, Int.ofNat_eq_natCast]
        omega
      · cases hn
    · -- a positive size is not the unknown one, so it is read back
      rintro ⟨h, hpos⟩
      cases s with
      | nil => cases h
      | cons n ns =>
        obtain ⟨hn, hpos⟩ := List.forall_mem_cons.1 hpos
        simp only [Shape.declared, List.map_cons, List.cons.injEq, Int.ofNat_eq_natCast] at h
        obtain ⟨rfl, hds⟩ := h
        exact ⟨n, by simp [hn], ns, ih.2 ⟨hds, hpos⟩, rfl⟩

/-- A declared shape covers the shape it stands for, and no other. -/
theorem covers_iff_of_concrete? {declared : DeclaredShape} {s t : Shape}
    (h : declared.concrete? = some s) : declared.Covers t ↔ t = s := by
  obtain ⟨rfl, hpos⟩ := concrete?_eq_some_iff.1 h
  clear h
  -- no declared axis is open, so every size is forced
  induction s generalizing t with
  | nil => simp [Shape.declared, Covers]
  | cons n ns ih =>
    obtain ⟨hn, hns⟩ := List.forall_mem_cons.1 hpos
    have hcons : Shape.declared (n :: ns) = (n : Int) :: Shape.declared ns := rfl
    rw [hcons, Covers, List.forall₂_cons_left_iff]
    constructor
    · rintro ⟨m, ms, ⟨-, hm⟩, hms, rfl⟩
      obtain rfl := (ih hns).1 hms
      have : m = n := by
        rcases hm with hm | hm
        · simp only [openAxis] at hm; omega
        · omega
      rw [this]
    · rintro rfl
      exact ⟨n, ns, ⟨hn, .inr rfl⟩, (ih hns).2 rfl, rfl⟩

/-- A closed declared shape stands for a shape. -/
theorem Closed.exists_concrete? {declared : DeclaredShape} (h : declared.Closed) :
    ∃ s, declared.concrete? = some s := by
  -- positive axes are their own sizes
  refine ⟨declared.map Int.toNat, concrete?_eq_some_iff.2 ⟨?_, ?_⟩⟩
  · rw [Shape.declared, List.map_map]
    calc declared = declared.map id := (List.map_id _).symm
      _ = declared.map (Int.ofNat ∘ Int.toNat) := by
        refine List.map_congr_left fun d hd => ?_
        have := h.pos d hd
        simp only [id_eq, Function.comp_apply, Int.ofNat_eq_natCast]
        omega
  · intro n hn
    obtain ⟨d, hd, rfl⟩ := List.mem_map.1 hn
    have := h.pos d hd
    omega

/-- The common size of two covered axes is covered by the common declared size. -/
theorem CoversAxis.join {x y z : Int} {m n k : Nat} (hx : CoversAxis x m) (hy : CoversAxis y n)
    (hz : joinAxes x y = some z) (hk : Shape.joinAxes m n = some k) : CoversAxis z k := by
  obtain ⟨hm, hx⟩ := hx
  obtain ⟨hn, hy⟩ := hy
  -- a one yields to the other size and an open axis to a declared one; both rules agree on sizes
  simp only [joinAxes, Shape.joinAxes, openAxis, CoversAxis] at *
  grind

/-- Stretching two declared shapes covers stretching two shapes that they cover. -/
theorem Covers.broadcast {a b c : DeclaredShape} {s t u : Shape} (ha : a.Covers s)
    (hb : b.Covers t) (hc : DeclaredShape.broadcast a b = some c)
    (hu : Shape.broadcast s t = some u) : c.Covers u :=
  forall₂_combineAligned (fun hx hy hz hk => hx.join hy hz hk) ha hb hc hu

/-- Leaving out the last axis of both shapes keeps them covered. -/
theorem Covers.dropLast {declared : DeclaredShape} {s : Shape} (h : declared.Covers s) :
    Covers declared.dropLast s.dropLast := by
  -- both shapes have as many axes, so the same number of them is left
  rw [Covers, List.dropLast_eq_take, List.dropLast_eq_take, h.length_eq]
  exact List.forall₂_take _ h

end DeclaredShape
end TensorGraph
