/-!
# Outcomes of stateful programs

A program that keeps a state and may fail gives a result and a state, or a failure and a state. This
module takes sequences of such programs apart, and compares runs of one program from two states.

## Main definitions

* `Agree`: two outcomes that are the same, in states that are related.
* `Blind`: a program that cannot tell related states apart.
* `Concur`: outcomes of two programs that both give results, or both fail.
* `Accord`: outcomes of two programs that both give results, or both fail for reasons that belong
  together.
* `Preserves`: a program that keeps an invariant of its state when it gives a result.
* `finalState`: the state that a program ends in.
* `Maintains`: a program that keeps an invariant also when it fails.
* `Succeeds`: a program that always gives a result.

## Main results

* `bind_eq_ok_iff`: a sequence gives a result when both of its parts do.
* `mapM_cons_eq_ok_iff`: the results of a program for every element of a list.
* `Blind.bind`: a sequence of blind programs is blind.
-/

namespace TensorGraph

variable {ε σ α β : Type}

/-- A sequence gives a result when its first part does and its second part does from there. -/
theorem bind_eq_ok_iff {c : EStateM ε σ α} {f : α → EStateM ε σ β} {s u : σ} {b : β} :
    (c >>= f) s = .ok b u ↔ ∃ a t, c s = .ok a t ∧ f a t = .ok b u := by
  -- whether the first part fails decides the sequence
  change EStateM.bind c f s = _ ↔ _
  unfold EStateM.bind
  cases h : c s with
  | ok a t =>
    constructor
    · exact fun hf => ⟨a, t, rfl, hf⟩
    · rintro ⟨_, _, heq, hf⟩
      cases heq
      exact hf
  | error e t => simp

/-- A sequence goes on with what its first part gives. -/
theorem bind_of_ok {c : EStateM ε σ α} {f : α → EStateM ε σ β} {s t : σ} {a : α}
    (h : c s = .ok a t) : (c >>= f) s = f a t := by
  change EStateM.bind c f s = _
  rw [EStateM.bind, h]

/-- What comes before the second part of a sequence may be exchanged together with the state. -/
theorem bind_of_eq {c d : EStateM ε σ α} {f : α → EStateM ε σ β} {s t : σ} (h : c s = d t) :
    (c >>= f) s = (d >>= f) t := by
  change EStateM.bind c f s = EStateM.bind d f t
  rw [EStateM.bind, EStateM.bind, h]

/-- A sequence ends where its first part fails. -/
theorem bind_of_error {c : EStateM ε σ α} {f : α → EStateM ε σ β} {s t : σ} {e : ε}
    (h : c s = .error e t) : (c >>= f) s = .error e t := by
  change EStateM.bind c f s = _
  rw [EStateM.bind, h]

/-- A sequence fails when its first part does, or when its second part does from there. -/
theorem bind_eq_error_iff {c : EStateM ε σ α} {f : α → EStateM ε σ β} {s u : σ} {e : ε} :
    (c >>= f) s = .error e u ↔ c s = .error e u ∨ ∃ a t, c s = .ok a t ∧ f a t = .error e u := by
  cases h : c s with
  | ok a t =>
    rw [bind_of_ok h]
    refine ⟨fun hf => .inr ⟨a, t, rfl, hf⟩, fun hor => ?_⟩
    obtain ⟨_, _, ⟨⟩, hf⟩ := hor.resolve_left nofun
    exact hf
  | error e' t => simp [bind_of_error h]

/-- A change of the state that is made under a condition. -/
theorem ite_modify_eq_ok_iff {p : Prop} [Decidable p] {f : σ → σ} {s t : σ} {u : PUnit} :
    (if p then modify f else pure ⟨⟩ : EStateM ε σ PUnit) s = .ok u t ↔
      t = if p then f s else s := by
  split
  · exact ⟨fun h => by cases h; rfl, fun h => h ▸ rfl⟩
  · exact ⟨fun h => by cases h; rfl, fun h => h ▸ rfl⟩

/-- The same for a sequence without a state. -/
theorem except_bind_eq_ok_iff {r : Except ε α} {f : α → Except ε β} {b : β} :
    (r >>= f) = .ok b ↔ ∃ a, r = .ok a ∧ f a = .ok b := by
  cases r <;> simp [bind, Except.bind]

/-- A result is mapped from a result. -/
theorem except_map_eq_ok_iff {r : Except ε α} {f : α → β} {b : β} :
    r.map f = .ok b ↔ ∃ a, r = .ok a ∧ f a = b := by
  cases r with
  | ok a => simp [Except.map]
  | error e => simp [Except.map]

/-- A sequence without a state fails when one of its parts does. -/
theorem except_bind_eq_error_iff {r : Except ε α} {f : α → Except ε β} {e : ε} :
    (r >>= f) = .error e ↔ r = .error e ∨ ∃ a, r = .ok a ∧ f a = .error e := by
  cases r <;> simp [bind, Except.bind]

/-- Mapping keeps errors. -/
theorem except_map_eq_error_iff {r : Except ε α} {f : α → β} {e : ε} :
    r.map f = .error e ↔ r = .error e := by
  cases r <;> simp [Except.map]

/-- Whether a sequence without a state has a value depends on its parts. -/
theorem toOption_bind (x : Except ε α) (f : α → Except ε β) :
    (x >>= f).toOption = x.toOption.bind fun a => (f a).toOption := by
  cases x <;> rfl

/-- A check that throws under a condition has been passed when there is a result. -/
theorem unless_throw_eq_ok_iff {c : Prop} [Decidable c] {err : ε} {rest : Unit → Except ε α}
    {a : α} :
    (if c then throw err >>= rest else rest ()) = .ok a ↔ ¬c ∧ rest () = .ok a := by
  split
  · next hc => exact ⟨nofun, fun h => absurd hc h.1⟩
  · next hc => exact ⟨fun h => ⟨hc, h⟩, fun h => h.2⟩

/-- Checks are passed one by one. -/
theorem forM_eq_ok_iff {f : α → Except ε Unit} {as : List α} :
    as.forM f = .ok () ↔ ∀ a ∈ as, f a = .ok () := by
  change forM as f = .ok () ↔ _
  induction as with
  | nil => simp [pure, Except.pure]
  | cons a as ih =>
    rw [List.forM_cons, List.forall_mem_cons, ← ih, except_bind_eq_ok_iff]
    exact ⟨fun ⟨_, ha, has⟩ => ⟨ha, has⟩, fun ⟨ha, has⟩ => ⟨(), ha, has⟩⟩

/-! ## A program for every element of a list -/

section List

variable {f : α → EStateM ε σ β} {a : α} {as : List α} {bs : List β} {s t : σ}

/-- The first result comes from the first element, and the others follow in the state after it. -/
theorem mapM_cons_eq_ok_iff : (a :: as).mapM f s = .ok bs t ↔
    ∃ b u rest, f a s = .ok b u ∧ as.mapM f u = .ok rest t ∧ bs = b :: rest := by
  rw [List.mapM_cons, bind_eq_ok_iff]
  constructor
  · rintro ⟨b, u, hb, h⟩
    obtain ⟨rest, v, hrest, h⟩ := bind_eq_ok_iff.1 h
    cases h
    exact ⟨b, u, rest, hb, hrest, rfl⟩
  · rintro ⟨b, u, rest, hb, hrest, rfl⟩
    exact ⟨b, u, hb, bind_of_ok hrest⟩

/-- A program for the only element of a list. -/
theorem mapM_singleton_eq_ok_iff : [a].mapM f s = .ok bs t ↔ ∃ b, f a s = .ok b t ∧ bs = [b] := by
  rw [mapM_cons_eq_ok_iff]
  constructor
  · rintro ⟨b, u, rest, hb, hrest, rfl⟩
    cases hrest
    exact ⟨b, hb, rfl⟩
  · rintro ⟨b, hb, rfl⟩
    exact ⟨b, t, [], hb, rfl, rfl⟩

/-- There is one result for every element. -/
theorem length_of_mapM (h : as.mapM f s = .ok bs t) : bs.length = as.length := by
  induction as generalizing bs s with
  | nil =>
    cases h
    rfl
  | cons a as ih =>
    obtain ⟨b, u, rest, -, hrest, rfl⟩ := mapM_cons_eq_ok_iff.1 h
    rw [List.length_cons, List.length_cons, ih hrest]

/-- The program has given a result for every element. -/
theorem exists_of_mapM_eq_ok (h : as.mapM f s = .ok bs t) :
    ∀ a ∈ as, ∃ u b u', f a u = .ok b u' := by
  induction as generalizing bs s with
  | nil => simp
  | cons a as ih =>
    obtain ⟨b, u, rest, hb, hrest, rfl⟩ := mapM_cons_eq_ok_iff.1 h
    exact List.forall_mem_cons.2 ⟨⟨s, b, u, hb⟩, ih hrest⟩

end List

/-! ## Results of basic programs -/

@[simp] theorem pure_apply (a : α) (s : σ) : (pure a : EStateM ε σ α) s = .ok a s := rfl

@[simp] theorem throw_apply (e : ε) (s : σ) : (throw e : EStateM ε σ α) s = .error e s := rfl

@[simp] theorem modify_apply (f : σ → σ) (s : σ) :
    (modify f : EStateM ε σ PUnit) s = .ok ⟨⟩ (f s) := rfl

theorem get_apply (s : σ) : (get : EStateM ε σ σ) s = .ok s s := rfl

/-! ## One program from two states -/

/-- The same result or the same failure, in states that are related. -/
inductive Agree (rel : σ → σ → Prop) : EStateM.Result ε σ α → EStateM.Result ε σ α → Prop
  | ok {a : α} {s t : σ} (states : rel s t) : Agree rel (.ok a s) (.ok a t)
  | error {e : ε} {s t : σ} (states : rel s t) : Agree rel (.error e s) (.error e t)

variable {rel : σ → σ → Prop}

/-- Sequences agree when their first parts do, and their second parts wherever these lead. -/
theorem Agree.bind {c c' : EStateM ε σ α} {f f' : α → EStateM ε σ β} {s t : σ}
    (hc : Agree rel (c s) (c' t))
    (hf : ∀ a s' t', c s = .ok a s' → rel s' t' → Agree rel (f a s') (f' a t')) :
    Agree rel ((c >>= f) s) ((c' >>= f') t) := by
  change Agree rel (EStateM.bind c f s) (EStateM.bind c' f' t)
  unfold EStateM.bind
  revert hc hf
  generalize c s = r
  generalize c' t = r'
  rintro (h | h) hf
  · exact hf _ _ _ rfl h
  · exact .error h

/-- Outcomes that agree up to a relation agree up to a coarser one. -/
theorem Agree.imp {rel' : σ → σ → Prop} {r r' : EStateM.Result ε σ α} (h : Agree rel r r')
    (himp : ∀ s t, rel s t → rel' s t) : Agree rel' r r' := by
  cases h with
  | ok h => exact .ok (himp _ _ h)
  | error h => exact .error (himp _ _ h)

/-- Reading the state is followed by programs that may depend on it. -/
theorem Agree.get_bind {f f' : σ → EStateM ε σ β} {s t : σ} (h : Agree rel (f s s) (f' t t)) :
    Agree rel ((get >>= f) s) ((get >>= f') t) := h

/-- A program whose outcome is the same from related states. -/
def Blind (rel : σ → σ → Prop) (c : EStateM ε σ α) : Prop :=
  ∀ s t, rel s t → Agree rel (c s) (c t)

namespace Blind

theorem pure (a : α) : Blind rel (pure a : EStateM ε σ α) := fun _ _ => .ok

theorem throw (e : ε) : Blind rel (throw e : EStateM ε σ α) := fun _ _ => .error

/-- A change that keeps states related cannot tell them apart. -/
theorem modify {f : σ → σ} (h : ∀ s t, rel s t → rel (f s) (f t)) :
    Blind rel (modify f : EStateM ε σ PUnit) := fun s t hst => .ok (h s t hst)

/-- A sequence of blind programs is blind. -/
theorem bind {c : EStateM ε σ α} {f : α → EStateM ε σ β} (hc : Blind rel c)
    (hf : ∀ a, Blind rel (f a)) : Blind rel (c >>= f) :=
  fun s t h => (hc s t h).bind fun a s' t' _ => hf a s' t'

/-- Reading the state is blind when what follows is the same for related states. -/
theorem get_bind {f : σ → EStateM ε σ β} (h : ∀ s t, rel s t → f s = f t)
    (hf : ∀ s, Blind rel (f s)) : Blind rel (get >>= f) := by
  intro s t hst
  change Agree rel (f s s) (f t t)
  rw [h s t hst]
  exact hf t s t hst

/-- So is a branch between them. -/
theorem ite {p : Prop} [Decidable p] {c d : EStateM ε σ α} (hc : Blind rel c) (hd : Blind rel d) :
    Blind rel (if p then c else d) := by
  split
  · exact hc
  · exact hd

end Blind

/-! ## Two programs -/

section Concur

variable {τ α' β' γ γ' : Type} {excused : ε → Prop} {alike : σ → τ → Prop} {same : α → α' → Prop}
  {same' : β → β' → Prop}

/-- Outcomes of two programs. Either both give results, which belong together, or both fail; the
states belong together, too. The second program may also fail on its own where that is excused. -/
inductive Concur (excused : ε → Prop) (alike : σ → τ → Prop) (same : α → α' → Prop) :
    EStateM.Result ε σ α → EStateM.Result ε τ α' → Prop
  | ok {a : α} {a' : α'} {s : σ} {t : τ} (values : same a a') (states : alike s t) :
      Concur excused alike same (.ok a s) (.ok a' t)
  | error {e e' : ε} {s : σ} {t : τ} (states : alike s t) :
      Concur excused alike same (.error e s) (.error e' t)
  | excuse {r : EStateM.Result ε σ α} {e : ε} {t : τ} (excuse : excused e) :
      Concur excused alike same r (.error e t)

namespace Concur

/-- Sequences concur when their first parts do, and their second parts wherever these lead. -/
theorem bind {c : EStateM ε σ α} {c' : EStateM ε τ α'} {f : α → EStateM ε σ β}
    {f' : α' → EStateM ε τ β'} {s : σ} {t : τ} (hc : Concur excused alike same (c s) (c' t))
    (hf : ∀ a a' s' t', c s = .ok a s' → same a a' → alike s' t' →
      Concur excused alike same' (f a s') (f' a' t')) :
    Concur excused alike same' ((c >>= f) s) ((c' >>= f') t) := by
  change Concur excused alike same' (EStateM.bind c f s) (EStateM.bind c' f' t)
  unfold EStateM.bind
  revert hc hf
  generalize c s = r
  generalize c' t = r'
  rintro (⟨values, states⟩ | states | excuse) hf
  · exact hf _ _ _ _ rfl values states
  · exact .error states
  · exact .excuse excuse

/-- Outcomes that concur do so up to coarser relations. -/
theorem imp {alike' : σ → τ → Prop} {same₁ : α → α' → Prop} {r : EStateM.Result ε σ α}
    {r' : EStateM.Result ε τ α'} (h : Concur excused alike same r r')
    (hsame : ∀ a a', same a a' → same₁ a a') (halike : ∀ s t, alike s t → alike' s t) :
    Concur excused alike' same₁ r r' := by
  cases h with
  | ok values states => exact .ok (hsame _ _ values) (halike _ _ states)
  | error states => exact .error (halike _ _ states)
  | excuse excuse => exact .excuse excuse

/-- When the second program gives a result, the first one does. -/
theorem exists_left {r : EStateM.Result ε σ α} {a' : α'} {t : τ}
    (h : Concur excused alike same r (.ok a' t)) :
    ∃ a s, r = .ok a s ∧ same a a' ∧ alike s t := by
  cases h with
  | ok values states => exact ⟨_, _, rfl, values, states⟩

/-- When the first program gives a result, the second one does, unless it is excused. -/
theorem exists_right {r' : EStateM.Result ε τ α'} {a : α} {s : σ}
    (h : Concur excused alike same (.ok a s) r') :
    (∃ a' t, r' = .ok a' t ∧ same a a' ∧ alike s t) ∨ ∃ e t, r' = .error e t ∧ excused e := by
  cases h with
  | ok values states => exact .inl ⟨_, _, rfl, values, states⟩
  | excuse excuse => exact .inr ⟨_, _, rfl, excuse⟩

theorem get_bind {f : σ → EStateM ε σ α} {f' : τ → EStateM ε τ α'} {s : σ} {t : τ}
    (h : Concur excused alike same (f s s) (f' t t)) :
    Concur excused alike same ((get >>= f) s) ((get >>= f') t) := h

/-- Lists of calls that belong together. -/
theorem mapM {f : α → EStateM ε σ β} {f' : α' → EStateM ε τ β'} {g : α → α'} {k : β → β'}
    (hf : ∀ a s t, alike s t → Concur excused alike (fun b b' => b' = k b) (f a s) (f' (g a) t))
    (as : List α) {s : σ} {t : τ} (h : alike s t) :
    Concur excused alike (fun bs bs' => bs' = bs.map k) (as.mapM f s) ((as.map g).mapM f' t) := by
  induction as generalizing s t with
  | nil => exact .ok rfl h
  | cons a as ih =>
    rw [List.map_cons, List.mapM_cons, List.mapM_cons]
    refine (hf a s t h).bind ?_
    rintro b _ s' t' - rfl h
    refine (ih h).bind ?_
    -- the states stay alike, so the rest of the list starts from a pair to which it applies
    rintro bs _ s' t' - rfl h
    exact .ok rfl h

end Concur

end Concur

section Accord

variable {τ α' β' : Type} {fails : ε → ε → Prop} {alike : σ → τ → Prop} {same : α → α' → Prop}
  {same' : β → β' → Prop}

/-- Outcomes of two programs. Either both give results, or both fail; the results, the failures and
the states belong together. -/
inductive Accord (fails : ε → ε → Prop) (alike : σ → τ → Prop) (same : α → α' → Prop) :
    EStateM.Result ε σ α → EStateM.Result ε τ α' → Prop
  | ok {a : α} {a' : α'} {s : σ} {t : τ} (values : same a a') (states : alike s t) :
      Accord fails alike same (.ok a s) (.ok a' t)
  | error {e e' : ε} {s : σ} {t : τ} (failures : fails e e') (states : alike s t) :
      Accord fails alike same (.error e s) (.error e' t)

namespace Accord

/-- Sequences accord when their first parts do, and their second parts wherever these lead. -/
theorem bind {c : EStateM ε σ α} {c' : EStateM ε τ α'} {f : α → EStateM ε σ β}
    {f' : α' → EStateM ε τ β'} {s : σ} {t : τ} (hc : Accord fails alike same (c s) (c' t))
    (hf : ∀ a a' s' t', c s = .ok a s' → same a a' → alike s' t' →
      Accord fails alike same' (f a s') (f' a' t')) :
    Accord fails alike same' ((c >>= f) s) ((c' >>= f') t) := by
  change Accord fails alike same' (EStateM.bind c f s) (EStateM.bind c' f' t)
  unfold EStateM.bind
  revert hc hf
  generalize c s = r
  generalize c' t = r'
  rintro (⟨values, states⟩ | ⟨failures, states⟩) hf
  · exact hf _ _ _ _ rfl values states
  · exact .error failures states

theorem get_bind {f : σ → EStateM ε σ α} {f' : τ → EStateM ε τ α'} {s : σ} {t : τ}
    (h : Accord fails alike same (f s s) (f' t t)) :
    Accord fails alike same ((get >>= f) s) ((get >>= f') t) := h

/-- When the first program gives a result, the second one does. -/
theorem exists_right {r' : EStateM.Result ε τ α'} {a : α} {s : σ}
    (h : Accord fails alike same (.ok a s) r') :
    ∃ a' t, r' = .ok a' t ∧ same a a' ∧ alike s t := by
  cases h with
  | ok values states => exact ⟨_, _, rfl, values, states⟩

/-- Two programs with the same condition. -/
theorem ite {p p' : Prop} [Decidable p] [Decidable p'] {c d : EStateM ε σ α}
    {c' d' : EStateM ε τ α'} {s : σ} {t : τ} (hp : p ↔ p')
    (hc : p → Accord fails alike same (c s) (c' t))
    (hd : ¬p → Accord fails alike same (d s) (d' t)) :
    Accord fails alike same ((if p then c else d) s) ((if p' then c' else d') t) := by
  by_cases h : p
  · rw [if_pos h, if_pos (hp.1 h)]
    exact hc h
  · rw [if_neg h, if_neg (mt hp.2 h)]
    exact hd h

/-- Calls for a list of things, one after the other. -/
theorem mapM {f : α → EStateM ε σ β} {f' : α → EStateM ε τ β'} {k : β → β'}
    (hf : ∀ a s t, alike s t → Accord fails alike (fun b b' => b' = k b) (f a s) (f' a t))
    (as : List α) {s : σ} {t : τ} (h : alike s t) :
    Accord fails alike (fun bs bs' => bs' = bs.map k) (as.mapM f s) (as.mapM f' t) := by
  induction as generalizing s t with
  | nil => exact .ok rfl h
  | cons a as ih =>
    rw [List.mapM_cons, List.mapM_cons]
    refine (hf a s t h).bind ?_
    rintro b _ s' t' - rfl h
    refine (ih h).bind ?_
    rintro bs _ s' t' - rfl h
    exact .ok rfl h

end Accord

end Accord

/-! ## Invariants -/

/-- A program that keeps an invariant of its state when it gives a result. -/
def Preserves (I : σ → Prop) (c : EStateM ε σ α) : Prop := ∀ s a t, I s → c s = .ok a t → I t

namespace Preserves

variable {I : σ → Prop}

theorem pure (a : α) : Preserves I (pure a : EStateM ε σ α) := by
  rintro s _ _ hs ⟨⟩
  exact hs

theorem throw (e : ε) : Preserves I (throw e : EStateM ε σ α) := by
  rintro _ _ _ _ ⟨⟩

theorem get : Preserves I (get : EStateM ε σ σ) := by
  rintro s _ _ hs ⟨⟩
  exact hs

theorem modify {f : σ → σ} (h : ∀ s, I s → I (f s)) :
    Preserves I (modify f : EStateM ε σ PUnit) := by
  rintro s _ _ hs ⟨⟩
  exact h s hs

/-- A sequence preserves what both of its parts preserve. -/
theorem bind {c : EStateM ε σ α} {f : α → EStateM ε σ β} (hc : Preserves I c)
    (hf : ∀ a, Preserves I (f a)) : Preserves I (c >>= f) := by
  intro s b u hs h
  obtain ⟨a, t, hfirst, hrest⟩ := bind_eq_ok_iff.1 h
  exact hf a t b u (hc s a t hs hfirst) hrest

/-- A branch preserves what is preserved on both sides. -/
theorem ite {p : Prop} [Decidable p] {c d : EStateM ε σ α} (hc : p → Preserves I c)
    (hd : ¬p → Preserves I d) : Preserves I (if p then c else d) := by
  split
  · next h => exact hc h
  · next h => exact hd h

/-- An invariant that is preserved for every element is preserved for a list of them. -/
theorem mapM {f : α → EStateM ε σ β} (hf : ∀ a, Preserves I (f a)) (as : List α) :
    Preserves I (as.mapM f) := by
  induction as with
  | nil => exact .pure []
  | cons a as ih =>
    rw [List.mapM_cons]
    exact (hf a).bind fun _ => ih.bind fun _ => .pure _

/-- The same for a program that passes a result on from element to element. -/
theorem foldlM {f : β → α → EStateM ε σ β} (hf : ∀ b a, Preserves I (f b a)) (as : List α) (b : β) :
    Preserves I (as.foldlM f b) := by
  induction as generalizing b with
  | nil => exact .pure b
  | cons a as ih => exact (hf b a).bind fun b' => ih b'

end Preserves

/-- The state that a program ends in, with a result or a failure. -/
def finalState (c : EStateM ε σ α) (s : σ) : σ :=
  match c s with
  | .ok _ t => t
  | .error _ t => t

/-- A program that gives a result ends in the state that comes with it. -/
theorem finalState_of_ok {c : EStateM ε σ α} {s t : σ} {a : α} (h : c s = .ok a t) :
    finalState c s = t := by
  rw [finalState, h]

/-- A program that fails ends in the state that it has failed in. -/
theorem finalState_of_error {c : EStateM ε σ α} {s t : σ} {e : ε} (h : c s = .error e t) :
    finalState c s = t := by
  rw [finalState, h]

/-- A sequence ends where its second part does, if the first part gives a result. -/
theorem finalState_bind_of_ok {c : EStateM ε σ α} {f : α → EStateM ε σ β} {s t : σ} {a : α}
    (h : c s = .ok a t) : finalState (c >>= f) s = finalState (f a) t := by
  rw [finalState, bind_of_ok h, finalState]

/-- It ends where its first part does otherwise. -/
theorem finalState_bind_of_error {c : EStateM ε σ α} {f : α → EStateM ε σ β} {s t : σ} {e : ε}
    (h : c s = .error e t) : finalState (c >>= f) s = t :=
  finalState_of_error (bind_of_error h)

/-- What the second part of a sequence leaves alone is as the first part has left it. -/
theorem finalState_bind {γ : Type} {g : σ → γ} {c : EStateM ε σ α} {f : α → EStateM ε σ β}
    (h : ∀ a t, g (finalState (f a) t) = g t) (s : σ) :
    g (finalState (c >>= f) s) = g (finalState c s) := by
  cases hc : c s with
  | ok a t => rw [finalState_bind_of_ok hc, finalState_of_ok hc, h]
  | error e t => rw [finalState_bind_of_error hc, finalState_of_error hc]

/-- A program that keeps an invariant of its state, whether it gives a result or fails. -/
def Maintains (I : σ → Prop) (c : EStateM ε σ α) : Prop :=
  ∀ s, I s → match c s with
    | .ok _ t => I t
    | .error _ t => I t

namespace Maintains

variable {I : σ → Prop}

theorem of_eq_ok {c : EStateM ε σ α} {s t : σ} {a : α} (hc : Maintains I c) (hs : I s)
    (h : c s = .ok a t) : I t := by
  have hend := hc s hs
  rwa [h] at hend

theorem of_eq_error {c : EStateM ε σ α} {s t : σ} {e : ε} (hc : Maintains I c) (hs : I s)
    (h : c s = .error e t) : I t := by
  have hend := hc s hs
  rwa [h] at hend

/-- An invariant of where a program ends is maintained. -/
theorem of_finalState {c : EStateM ε σ α} (h : ∀ s, I s → I (TensorGraph.finalState c s)) :
    Maintains I c := by
  intro s hs
  have hend := h s hs
  unfold TensorGraph.finalState at hend
  revert hend
  cases c s <;> exact id

/-- The invariant holds in the state that the program ends in. -/
theorem finalState {c : EStateM ε σ α} {s : σ} (hc : Maintains I c) (hs : I s) :
    I (TensorGraph.finalState c s) := by
  cases h : c s with
  | ok a t => exact finalState_of_ok h ▸ hc.of_eq_ok hs h
  | error e t => exact finalState_of_error h ▸ hc.of_eq_error hs h

theorem pure (a : α) : Maintains I (pure a : EStateM ε σ α) := fun _ hs => hs

theorem throw (e : ε) : Maintains I (throw e : EStateM ε σ α) := fun _ hs => hs

theorem get : Maintains I (get : EStateM ε σ σ) := fun _ hs => hs

theorem modify {f : σ → σ} (h : ∀ s, I s → I (f s)) :
    Maintains I (modify f : EStateM ε σ PUnit) := h

/-- A sequence maintains what both of its parts maintain. -/
theorem bind {c : EStateM ε σ α} {f : α → EStateM ε σ β} (hc : Maintains I c)
    (hf : ∀ a, Maintains I (f a)) : Maintains I (c >>= f) := by
  intro s hs
  have hfirst := hc s hs
  cases h : c s with
  | ok a t =>
    rw [h] at hfirst
    rw [bind_of_ok h]
    exact hf a t hfirst
  | error e t =>
    rw [h] at hfirst
    rw [bind_of_error h]
    exact hfirst

theorem ite {p : Prop} [Decidable p] {c d : EStateM ε σ α} (hc : p → Maintains I c)
    (hd : ¬p → Maintains I d) : Maintains I (if p then c else d) := by
  split
  · next h => exact hc h
  · next h => exact hd h

end Maintains

/-- Outcomes that agree do so in states of which invariants hold. -/
theorem Agree.maintains {I J : σ → Prop} {c c' : EStateM ε σ α} {s t : σ}
    (h : Agree rel (c s) (c' t)) (hc : Maintains I c) (hs : I s) (hc' : Maintains J c')
    (ht : J t) : Agree (fun s t => rel s t ∧ I s ∧ J t) (c s) (c' t) := by
  have hleft := hc s hs
  have hright := hc' t ht
  revert h hleft hright
  generalize c s = r
  generalize c' t = r'
  rintro (h | h) hleft hright
  · exact .ok ⟨h, hleft, hright⟩
  · exact .error ⟨h, hleft, hright⟩

/-! ## Programs that cannot fail -/

/-- A program that gives a result from every state. -/
def Succeeds (c : EStateM ε σ α) : Prop := ∀ s, ∃ a t, c s = .ok a t

namespace Succeeds

theorem pure (a : α) : Succeeds (pure a : EStateM ε σ α) := fun s => ⟨a, s, rfl⟩

theorem get : Succeeds (get : EStateM ε σ σ) := fun s => ⟨s, s, rfl⟩

theorem modify (f : σ → σ) : Succeeds (modify f : EStateM ε σ PUnit) := fun s => ⟨⟨⟩, f s, rfl⟩

/-- A sequence succeeds when both of its parts do. -/
theorem bind {c : EStateM ε σ α} {f : α → EStateM ε σ β} (hc : Succeeds c)
    (hf : ∀ a, Succeeds (f a)) : Succeeds (c >>= f) := by
  intro s
  obtain ⟨a, t, hfirst⟩ := hc s
  obtain ⟨b, u, hrest⟩ := hf a t
  exact ⟨b, u, bind_eq_ok_iff.2 ⟨a, t, hfirst, hrest⟩⟩

theorem ite {p : Prop} [Decidable p] {c d : EStateM ε σ α} (hc : Succeeds c) (hd : Succeeds d) :
    Succeeds (if p then c else d) := by
  split
  · exact hc
  · exact hd

end Succeeds

end TensorGraph
