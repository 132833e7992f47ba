import Mathlib.Tactic.ByContra
import TensorGraph.Proofs.Network.Lineage

/-!
# Generated names

The name that a network generates for a layer ends in a digit, and the endings that are appended to
it for the nodes of the layer have no digits. So the name and the ending can be told from the name
of a node: layers whose names are generated do not compete for names.

## Main definitions

* `Network.Plain`: names like those that are generated.
* `NamedLayer.labels`: the names of the nodes that a layer becomes.

## Main results

* `Network.Grown.plain`: in a network without requested names all names are generated.
* `Network.Plain.append_inj`: the name and the ending.
-/

namespace TensorGraph

/-- A natural number is written as a nonempty list of digits. -/
theorem NumberText.toList_natural (k : Nat) : (natural k).toList = Nat.toDigits 10 k :=
  String.toList_ofList

/-- It can be read back. -/
theorem NumberText.natural_inj {k l : Nat} (h : natural k = natural l) : k = l := by
  have hdigits := congrArg String.toList h
  rw [toList_natural, toList_natural] at hdigits
  have hread := congrArg (Nat.ofDigitChars 10 · 0) hdigits
  rwa [Nat.ofDigitChars_toDigits (by decide) (by decide),
    Nat.ofDigitChars_toDigits (by decide) (by decide)] at hread

/-- Characters that are not digits. -/
def Digitless (s : String) : Prop := ∀ c ∈ s.toList, c.isDigit = false

instance (s : String) : Decidable (Digitless s) :=
  List.decidableBAll (fun c : Char => c.isDigit = false) s.toList

namespace Network

variable {n n' : Network} {id id' : LayerId} {named named' : NamedLayer}

/-- A name that ends in a digit and does not start like the names that are kept for training. -/
structure Plain (name : String) : Prop where
  last : ∃ c, name.toList.getLast? = some c ∧ c.isDigit
  first : name.toList.head? ≠ some 'S'

theorem plain_numbered {kind : String} (hkind : ∃ c, kind.toList.head? = some c ∧ c ≠ 'S')
    (k : Nat) : Plain (numbered kind k) := by
  -- the kind, the line and the digits: the first letter is that of the kind and the last one is a
  -- digit
  have hlist : (numbered kind k).toList = kind.toList ++ ('_' :: Nat.toDigits 10 k) := by
    simp only [numbered, String.toList_append, NumberText.toList_natural, List.append_assoc]
    rfl
  obtain ⟨first, hfirst, hne⟩ := hkind
  constructor
  · have hdigits := Nat.toDigits_ne_nil (n := k) (b := 10)
    refine ⟨(Nat.toDigits 10 k).getLast hdigits, ?_,
      Nat.isDigit_of_mem_toDigits (by decide) (by decide) (List.getLast_mem hdigits)⟩
    rw [hlist, List.getLast?_append, List.getLast?_cons, List.getLast?_eq_some_getLast hdigits]
    rfl
  · rw [hlist, List.head?_append, hfirst]
    exact fun h => hne (Option.some.inj h)

/-- A generated name is numbered. -/
theorem exists_generateName (n : Network) (kind : String) :
    ∃ k, n.generateName kind = numbered kind k := by
  suffices h : ∀ fuel k, ∃ j, n.firstFree kind fuel k = numbered kind j from h _ _
  intro fuel
  induction fuel with
  | zero => exact fun k => ⟨k, rfl⟩
  | succ fuel ih =>
    intro k
    unfold firstFree
    split
    · exact ih (k + 1)
    · exact ⟨k, rfl⟩

theorem plain_generateName (n : Network) (l : Layer) : Plain (n.generateName l.kind) := by
  obtain ⟨k, hk⟩ := n.exists_generateName l.kind
  have hinput : "input".toList.head? = some 'i' := by decide
  have hdense : "dense".toList.head? = some 'd' := by decide
  have hdropout : "dropout".toList.head? = some 'd' := by decide
  rw [hk]
  cases l with
  | input => exact plain_numbered ⟨'i', hinput, by decide⟩ k
  | dense => exact plain_numbered ⟨'d', hdense, by decide⟩ k
  | dropout => exact plain_numbered ⟨'d', hdropout, by decide⟩ k

/-- Where no layer has requested a name, all names are generated. -/
theorem Grown.plain (h : n.Grown)
    (hnames : ∀ {id : LayerId} {named : NamedLayer}, n.layer? id = some named →
      named.layer.requestedName? = none) (hid : n.layer? id = some named) : Plain named.name := by
  induction h generalizing id named with
  | empty => simp [layer?, Network.empty] at hid
  | @add n n' l new grown added ih =>
    have hext := extends_of_add added
    obtain ⟨-, name, -, hname, rfl, rfl⟩ := add_eq_ok_iff.1 added
    -- the name of the new layer has been generated, as it has not requested one
    rcases layer?_push.1 hid with hold | ⟨rfl, rfl⟩
    · exact ih (fun hid => hnames (hext.layer hid)) hold
    · have hunrequested : l.requestedName? = none := hnames hid
      rw [hunrequested] at hname
      exact hname ▸ n.plain_generateName l

/-! ## Endings -/

namespace Plain

variable {a b s t : String}

/-- A name and an ending without digits can be told from each other. -/
theorem append_inj (ha : Plain a) (hb : Plain b) (hs : Digitless s) (ht : Digitless t)
    (h : a ++ s = b ++ t) : a = b ∧ s = t := by
  -- if one name went further than the other one, its last digit would be in an ending
  have hnil : ∀ {a b s t : String} {more : List Char}, Plain b → Digitless s →
      b.toList = a.toList ++ more → s.toList = more ++ t.toList → more = [] := by
    intro a b s t more hb hs hb' hs'
    by_contra hne
    obtain ⟨c, hc, hdigit⟩ := hb.last
    rw [hb', List.getLast?_append, List.getLast?_eq_some_getLast hne] at hc
    have hmem : c ∈ s.toList := by
      rw [hs', ← Option.some.inj hc]
      exact List.mem_append_left _ (List.getLast_mem hne)
    rw [hs c hmem] at hdigit
    cases hdigit
  have hlists := congrArg String.toList h
  rw [String.toList_append, String.toList_append] at hlists
  rcases List.append_eq_append_iff.1 hlists with ⟨more, hb', hs'⟩ | ⟨more, ha', ht'⟩
  · obtain rfl := hnil hb hs hb' hs'
    exact ⟨String.toList_inj.1 (by simpa using hb'.symm), String.toList_inj.1 (by simpa using hs')⟩
  · obtain rfl := hnil ha ht ha' ht'
    exact ⟨String.toList_inj.1 (by simpa using ha'),
      String.toList_inj.1 (by simpa using ht'.symm)⟩

/-- What starts with such a name does not start with the letter kept for training. -/
theorem append_ne (ha : Plain a) (ht : t.toList.head? = some 'S') : a ++ s ≠ t := by
  rintro rfl
  obtain ⟨c, hc, -⟩ := ha.last
  rw [String.toList_append, List.head?_append] at ht
  have hfirst := ha.first
  cases hlist : a.toList with
  | nil => rw [hlist] at hc; cases hc
  | cons d ds =>
    rw [hlist] at ht hfirst
    exact hfirst (by simpa using ht)

end Plain
end Network

/-- The endings of the names of the nodes that a layer becomes. -/
def Layer.endings : Layer → List String
  | .dense _ _ => ["/weights", "/bias", ""]
  | .input _ | .dropout _ _ => [""]

/-- The names of the nodes that a layer becomes. -/
def NamedLayer.labels (l : NamedLayer) : List String := l.layer.endings.map (l.name ++ ·)

theorem Layer.digitless_of_mem_endings {l : Layer} {s : String} (hs : s ∈ l.endings) :
    Digitless s ∧ s ∈ ["/weights", "/bias", ""] := by
  have hall : ∀ s ∈ ["/weights", "/bias", ""], Digitless s := by decide
  have hmem : s ∈ ["/weights", "/bias", ""] := by
    cases l with
    | dense => exact hs
    | input | dropout => exact List.mem_cons_of_mem _ (List.mem_cons_of_mem _ hs)
  exact ⟨hall s hmem, hmem⟩

namespace Network.Plain

variable {named named' : NamedLayer} {label ending : String}

/-- Layers with different names have no name of a node in common. -/
theorem name_eq_of_mem_labels (h : Plain named.name) (h' : Plain named'.name)
    (hlabel : label ∈ named.labels) (hlabel' : label ∈ named'.labels) :
    named.name = named'.name := by
  obtain ⟨s, hs, rfl⟩ := List.mem_map.1 hlabel
  obtain ⟨t, ht, heq⟩ := List.mem_map.1 hlabel'
  exact (h.append_inj h' (Layer.digitless_of_mem_endings hs).1 (Layer.digitless_of_mem_endings ht).1
    heq.symm).1

/-- A name with another ending is not that of a node of a layer. -/
theorem append_not_mem_labels (h : Plain named.name) {name : String} (hname : Plain name)
    (hdigits : Digitless ending) (hending : ending ∉ ["/weights", "/bias", ""]) :
    name ++ ending ∉ named.labels := by
  intro hmem
  obtain ⟨s, hs, heq⟩ := List.mem_map.1 hmem
  obtain ⟨hsdigits, hsmem⟩ := Layer.digitless_of_mem_endings hs
  exact hending ((h.append_inj hname hsdigits hdigits heq).2 ▸ hsmem)

/-- A name kept for training is not that of a node of a layer. -/
theorem not_mem_labels (h : Plain named.name) (hlabel : label.toList.head? = some 'S') :
    label ∉ named.labels := by
  intro hmem
  obtain ⟨s, -, heq⟩ := List.mem_map.1 hmem
  exact h.append_ne hlabel heq

end Network.Plain
end TensorGraph
