import TensorGraph.Document.Configuration
import TensorGraph.Proofs.Document.Scanning

/-!
# Documents that are read back

Every document that is written on one line is read back. Its numbers come back with the digits that
were written, and a string without a text, which no configuration has, comes back empty.

## Main definitions

* `Document.reread`: a document as it is read after it has been written.

## Main results

* `Document.readsBack`: a written document is read back, whatever follows it.
* `Document.readText_compact`: a configuration that is read from a written document.
-/

namespace TensorGraph.Document

mutual

/-- A document as it is read after it has been written. -/
def reread : Document → Document
  | null => null
  | bool b => bool b
  | number n => number n.reread
  | text s => text (some (s.getD ""))
  | array items => array (rereadItems items)
  | object fields => object (rereadFields fields)

def rereadItems : List Document → List Document
  | [] => []
  | d :: ds => reread d :: rereadItems ds

def rereadFields : List (Option String × Document) → List (Option String × Document)
  | [] => []
  | (name, d) :: fs => (some (name.getD ""), reread d) :: rereadFields fs

end

/-! ## Blanks and what follows -/

/-- A character that is not blank is not skipped. -/
theorem skipBlanks_cons {c : Char} (hc : c ∉ [' ', '\n', '\t', '\r']) (cs : List Char) :
    skipBlanks (c :: cs) = c :: cs := by
  simp only [List.mem_cons, List.not_mem_nil, or_false, not_or] at hc
  simp [skipBlanks, hc]

/-- No number goes on with a comma or a closing bracket. -/
theorem delimited_cons {c : Char} (hc : c ∈ [',', ']', '\x7d']) (cs : List Char) :
    Delimited (c :: cs) := by
  rintro _ ⟨⟩
  simp only [List.mem_cons, List.not_mem_nil, or_false] at hc
  rcases hc with rfl | rfl | rfl <;> decide

theorem delimited_nil : Delimited [] := nofun

/-! ## Written items and fields -/

/-- The items of an array as they are written between its brackets. -/
def itemsText (items : List Document) : List Char :=
  (String.intercalate "," (compactItems items)).toList

/-- The fields of an object as they are written between its braces. -/
def fieldsText (fields : List (Option String × Document)) : List Char :=
  (String.intercalate "," (compactFields fields)).toList

/-- An array is written in brackets. -/
theorem toList_compact_array (items : List Document) :
    (compact (array items)).toList = '[' :: (itemsText items ++ [']']) := by
  simp [compact, itemsText]

/-- An object is written in braces. -/
theorem toList_compact_object (fields : List (Option String × Document)) :
    (compact (object fields)).toList = '\x7b' :: (fieldsText fields ++ ['\x7d']) := by
  simp [compact, fieldsText]

theorem itemsText_singleton (d : Document) : itemsText [d] = (compact d).toList := by
  simp [itemsText, compactItems]

/-- Items are separated by commas. -/
theorem itemsText_cons_cons (d d' : Document) (ds : List Document) :
    itemsText (d :: d' :: ds) = (compact d).toList ++ ',' :: itemsText (d' :: ds) := by
  simp [itemsText, compactItems, String.intercalate_cons_cons]

theorem fieldsText_singleton (name : Option String) (d : Document) :
    fieldsText [(name, d)] = (quote (name.getD "")).toList ++ ':' :: (compact d).toList := by
  simp [fieldsText, compactFields]

/-- Fields are separated by commas. -/
theorem fieldsText_cons_cons (name : Option String) (d : Document)
    (f : Option String × Document) (fs : List (Option String × Document)) :
    fieldsText ((name, d) :: f :: fs) =
      (quote (name.getD "")).toList ++
        ':' :: ((compact d).toList ++ ',' :: fieldsText (f :: fs)) := by
  obtain ⟨name', d'⟩ := f
  simp [fieldsText, compactFields, String.intercalate_cons_cons]

/-! ## Reading what is written -/

/-- A number is read as it is read back from its text. -/
theorem value?_print (n : Number) (depth : Nat) {rest : List Char} (hrest : Delimited rest) :
    value? (depth + 1) (n.print.toList ++ rest) = some (number n.reread, rest) := by
  have hscan := number?_print n hrest
  obtain ⟨c, cs, hprint, hc⟩ := n.exists_print_eq_cons
  -- no other document begins like a number
  have hother : ∀ c' ∈ [' ', '\n', '\t', '\r', '"', '[', '\x7b', 'n', 't', 'f'],
      ¬(c' = '-' ∨ c'.isDigit) := by simp
  have hne : ¬_ := fun h => hother c h hc
  simp only [List.mem_cons, List.not_mem_nil, or_false, not_or] at hne
  rw [hprint, List.cons_append] at hscan ⊢
  simp [value?, skipBlanks_cons, hne, hscan]

/-- A text is read as it was quoted. -/
theorem value?_quote (s : String) {depth : Nat} (hdepth : s.toList.length < depth)
    (rest : List Char) :
    value? (depth + 1) ((quote s).toList ++ rest) = some (text (some s), rest) := by
  simp [toList_quote, value?, skipBlanks_cons, string?_quote s hdepth]

/-- That a written document is read back, whatever follows it, unless that goes on with a number. -/
def ReadsBack (d : Document) : Prop :=
  ∀ (depth : Nat) (rest : List Char), (compact d).toList.length ≤ depth → Delimited rest →
    value? depth ((compact d).toList ++ rest) = some (d.reread, rest)

/-- Items are read up to the bracket if each of them can be read back. -/
theorem items?_itemsText {items : List Document} (hitems : ∀ d ∈ items, ReadsBack d)
    (hne : items ≠ []) {depth : Nat} (hdepth : (itemsText items).length < depth)
    (rest : List Char) :
    items? depth (itemsText items ++ ']' :: rest) = some (rereadItems items, rest) := by
  induction items generalizing depth with
  | nil => exact absurd rfl hne
  | cons d ds ih =>
    obtain ⟨depth, rfl⟩ := Nat.exists_eq_succ_of_ne_zero (Nat.ne_zero_of_lt hdepth)
    have hd := hitems d List.mem_cons_self depth
    -- the last item is followed by the bracket, any other one by a comma and the rest
    cases ds with
    | nil =>
      rw [itemsText_singleton] at hdepth ⊢
      have hvalue := hd (']' :: rest) (by omega) (delimited_cons (by decide) rest)
      simp [items?, hvalue, skipBlanks_cons, rereadItems]
    | cons d' ds =>
      rw [itemsText_cons_cons] at hdepth ⊢
      simp only [List.length_append, List.length_cons] at hdepth
      have hvalue := hd (',' :: (itemsText (d' :: ds) ++ ']' :: rest)) (by omega)
        (delimited_cons (by decide) _)
      have hrest := ih (fun x hx => hitems x (List.mem_cons_of_mem d hx)) (by simp)
        (by omega : _ < depth)
      simp [items?, hvalue, hrest, skipBlanks_cons, rereadItems]

/-- The first field of an object, and what the comma or the brace after it leads to. -/
theorem fields?_field {d : Document} (hd : ReadsBack d) (name : String) {depth : Nat}
    (hname : (quote name).toList.length ≤ depth) (hvalue : (compact d).toList.length ≤ depth)
    {rest : List Char} (hrest : Delimited rest) :
    fields? (depth + 1) ((quote name).toList ++ ':' :: ((compact d).toList ++ rest)) =
      match skipBlanks rest with
      | ',' :: rest => do
        let (fs, rest) ← fields? depth rest
        return ((some name, d.reread) :: fs, rest)
      | '\x7d' :: rest => some ([(some name, d.reread)], rest)
      | _ => none := by
  have hlength := length_add_two_le_length_quote name
  have hstring := string?_quote name (by omega : _ < depth) (':' :: ((compact d).toList ++ rest))
  rw [toList_quote, List.cons_append, List.append_assoc, List.singleton_append, fields?,
    skipBlanks_cons (by decide)]
  simp only [hstring, Option.bind_eq_bind, Option.bind_some, skipBlanks_cons (by decide : ':' ∉ _),
    hd depth rest hvalue hrest]
  rfl

/-- Fields are read up to the brace if the document of each can be read back. -/
theorem fields?_fieldsText {fields : List (Option String × Document)}
    (hfields : ∀ f ∈ fields, ReadsBack f.2) (hne : fields ≠ []) {depth : Nat}
    (hdepth : (fieldsText fields).length < depth) (rest : List Char) :
    fields? depth (fieldsText fields ++ '\x7d' :: rest) = some (rereadFields fields, rest) := by
  induction fields generalizing depth with
  | nil => exact absurd rfl hne
  | cons f fs ih =>
    obtain ⟨name, d⟩ := f
    obtain ⟨depth, rfl⟩ := Nat.exists_eq_succ_of_ne_zero (Nat.ne_zero_of_lt hdepth)
    have hd : ReadsBack d := hfields (name, d) List.mem_cons_self
    -- the last field is followed by the brace, any other one by a comma and the rest
    cases fs with
    | nil =>
      rw [fieldsText_singleton] at hdepth ⊢
      simp only [List.length_append, List.length_cons] at hdepth
      rw [List.append_assoc, List.cons_append, fields?_field hd _ (by omega) (by omega)
        (delimited_cons (by decide) rest), skipBlanks_cons (by decide)]
      rfl
    | cons f fs =>
      rw [fieldsText_cons_cons] at hdepth ⊢
      simp only [List.length_append, List.length_cons] at hdepth
      have hrest := ih (fun x hx => hfields x (List.mem_cons_of_mem _ hx)) (by simp)
        (by omega : _ < depth)
      simp only [List.append_assoc, List.cons_append]
      rw [fields?_field hd _ (by omega) (by omega) (delimited_cons (by decide) _),
        skipBlanks_cons (by decide)]
      simp only [hrest]
      rfl

/-- Induction on the documents inside of a document. -/
@[elab_as_elim] theorem induct {motive : Document → Prop} (null : motive null)
    (bool : ∀ b, motive (bool b)) (number : ∀ n, motive (number n)) (text : ∀ s, motive (text s))
    (array : ∀ items, (∀ d ∈ items, motive d) → motive (array items))
    (object : ∀ fields, (∀ f ∈ fields, motive f.2) → motive (object fields)) (d : Document) :
    motive d :=
  @Document.rec motive (fun items => ∀ d ∈ items, motive d) (fun fields => ∀ f ∈ fields, motive f.2)
    (fun f => motive f.2) null bool number text array object nofun
    (fun _ _ hd hds => List.forall_mem_cons.2 ⟨hd, hds⟩) nofun
    (fun _ _ hf hfs => List.forall_mem_cons.2 ⟨hf, hfs⟩) (fun _ _ hd => hd) d

/-- No written document begins with a blank or a closing bracket. -/
theorem exists_compact_eq_cons (d : Document) :
    ∃ c cs, (compact d).toList = c :: cs ∧ c ∉ [' ', '\n', '\t', '\r', ']'] := by
  cases d with
  | null => exact ⟨'n', ['u', 'l', 'l'], rfl, by decide⟩
  | bool b =>
    cases b with
    | false => exact ⟨'f', ['a', 'l', 's', 'e'], rfl, by decide⟩
    | true => exact ⟨'t', ['r', 'u', 'e'], rfl, by decide⟩
  | number n =>
    obtain ⟨c, cs, hprint, hc⟩ := n.exists_print_eq_cons
    have hother : ∀ c' ∈ [' ', '\n', '\t', '\r', ']'], ¬(c' = '-' ∨ c'.isDigit) := by simp
    exact ⟨c, cs, hprint, fun h => hother c h hc⟩
  | text s => exact ⟨'"', _, toList_quote _, by decide⟩
  | array items => exact ⟨'[', _, toList_compact_array items, by decide⟩
  | object fields => exact ⟨'\x7b', _, toList_compact_object fields, by decide⟩

/-- A document takes at least one character, and so there is depth for a first step. -/
theorem ReadsBack.of_succ {d : Document}
    (h : ∀ (depth : Nat) (rest : List Char), (compact d).toList.length ≤ depth + 1 →
      Delimited rest → value? (depth + 1) ((compact d).toList ++ rest) = some (d.reread, rest)) :
    ReadsBack d := by
  intro depth rest hdepth hrest
  obtain ⟨c, cs, hcompact, -⟩ := exists_compact_eq_cons d
  cases depth with
  | zero => simp [hcompact] at hdepth
  | succ depth => exact h depth rest hdepth hrest

/-- Behind an opening bracket items are read, unless it is closed at once. -/
theorem value?_bracket {c : Char} (hc : c ∉ [' ', '\n', '\t', '\r', ']']) (depth : Nat)
    (cs : List Char) :
    value? (depth + 1) ('[' :: c :: cs) =
      (items? depth (c :: cs)).map fun (ds, rest) => (array ds, rest) := by
  simp only [List.mem_cons, List.not_mem_nil, or_false, not_or] at hc
  simp [value?, skipBlanks_cons, hc]

/-- Behind an opening brace and a quotation mark fields are read. -/
theorem value?_brace (depth : Nat) (cs : List Char) :
    value? (depth + 1) ('\x7b' :: '"' :: cs) =
      (fields? depth ('"' :: cs)).map fun (fs, rest) => (object fs, rest) := by
  simp [value?, skipBlanks_cons]

/-- An array is read back if its items are. -/
theorem readsBack_array {items : List Document} (hitems : ∀ d ∈ items, ReadsBack d) :
    ReadsBack (array items) := by
  refine .of_succ fun depth rest hdepth hrest => ?_
  rw [toList_compact_array] at hdepth ⊢
  rw [List.length_cons, List.length_append, List.length_singleton] at hdepth
  cases items with
  | nil => rfl
  | cons d ds =>
    have hread := items?_itemsText hitems (by simp) (by omega : _ < depth) rest
    obtain ⟨c, cs, hcompact, hc⟩ := exists_compact_eq_cons d
    -- the text after the bracket begins like its first item, so it is not taken for an empty array
    obtain ⟨cs', hcs⟩ : ∃ cs', itemsText (d :: ds) = c :: cs' := by
      cases ds with
      | nil => exact ⟨cs, by rw [itemsText_singleton, hcompact]⟩
      | cons d' ds => exact ⟨_, by rw [itemsText_cons_cons, hcompact, List.cons_append]⟩
    simp only [hcs, List.cons_append, List.append_assoc, List.nil_append] at hread ⊢
    rw [value?_bracket hc, hread]
    rfl

/-- An object is read back if its fields are. -/
theorem readsBack_object {fields : List (Option String × Document)}
    (hfields : ∀ f ∈ fields, ReadsBack f.2) : ReadsBack (object fields) := by
  refine .of_succ fun depth rest hdepth hrest => ?_
  rw [toList_compact_object] at hdepth ⊢
  rw [List.length_cons, List.length_append, List.length_singleton] at hdepth
  cases fields with
  | nil => rfl
  | cons f fs =>
    have hread := fields?_fieldsText hfields (by simp) (by omega : _ < depth) rest
    obtain ⟨name, d⟩ := f
    -- the text after the brace begins with a quote, so it is not taken for an empty object
    obtain ⟨cs, hcs⟩ : ∃ cs, fieldsText ((name, d) :: fs) = '"' :: cs := by
      cases fs with
      | nil => exact ⟨_, by rw [fieldsText_singleton, toList_quote, List.cons_append]⟩
      | cons f fs => exact ⟨_, by rw [fieldsText_cons_cons, toList_quote, List.cons_append]⟩
    simp only [hcs, List.cons_append, List.append_assoc, List.nil_append] at hread ⊢
    rw [value?_brace, hread]
    rfl

/-- A written document is read back, whatever follows it, unless that goes on with a number. -/
theorem readsBack (d : Document) : ReadsBack d := by
  induction d using induct with
  | null => exact .of_succ fun _ _ _ _ => rfl
  | bool b => exact .of_succ fun _ _ _ _ => by cases b <;> rfl
  | number n => exact .of_succ fun depth _ _ hrest => value?_print n depth hrest
  | text s =>
    refine .of_succ fun depth rest hdepth _ => ?_
    have hlength := length_add_two_le_length_quote (s.getD "")
    rw [compact] at hdepth ⊢
    exact value?_quote (s.getD "") (by omega) rest
  | array items ih => exact readsBack_array ih
  | object fields ih => exact readsBack_object ih

/-- A written document is read back as the only document of its text. -/
theorem leading?_compact (d : Document) : leading? (compact d) = some (d.reread, []) := by
  have hread := readsBack d (2 * (compact d).toList.length + 2) [] (by omega) delimited_nil
  rwa [List.append_nil] at hread

/-- What a configuration is read from is the document as it is read back. -/
theorem readText_compact {α : Type} (read : Document → Reading α) (d : Document) :
    readText read (compact d) = read d.reread := by
  calc readText read (compact d)
    _ = (read d.reread >>= fun a => .ok a) := by
      rw [readText, leading?_compact]
      rfl
    _ = read d.reread := by cases read d.reread <;> rfl

end TensorGraph.Document
