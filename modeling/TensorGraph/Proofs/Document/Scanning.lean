import Mathlib.Algebra.Field.Rat
import Mathlib.Data.List.TakeDrop
import Mathlib.Tactic.Ring
import TensorGraph.Document.Parser
import TensorGraph.Document.Printer

/-!
# Strings and numbers that are read back

The scanner takes back what the printer writes, whatever follows it: a string as it was, and a
number with the digits and the power of ten that are written. A whole number has a digit more than
it was printed from, since documents show its fraction.

## Main definitions

* `Document.Delimited`: a text that does not go on with a number in front of it.
* `Document.Number.reread`: a number as it is read after it has been written.
* `Document.Number.value`: the rational number that a number of a document stands for.

## Main results

* `Document.string?_quote`: a quoted string is read back.
* `Document.number?_print`: a printed number is read back.
* `Document.Number.value_reread`: with the value that it had.
-/

namespace TensorGraph.Document

open NumberText (digits)

/-! ## Strings -/

/-- A hexadecimal digit stands for the number that it was written for. -/
theorem hexValue?_hexDigit : ∀ n < 16, hexValue? (hexDigit n) = some n := by decide

/-- A control character is the one that its four digits stand for. -/
theorem fourHex?_escape {c : Char} (hc : c.toNat < 32) (rest : List Char) :
    fourHex? ('0' :: '0' :: hexDigit (c.toNat / 16) :: hexDigit (c.toNat % 16) :: rest) =
      some (c.toNat, rest) := by
  have hzero : hexValue? '0' = some 0 := by decide
  have hhigh := hexValue?_hexDigit (c.toNat / 16) (by omega)
  have hlow := hexValue?_hexDigit (c.toNat % 16) (by omega)
  have hsum : ((0 * 16 + 0) * 16 + c.toNat / 16) * 16 + c.toNat % 16 = c.toNat := by omega
  simp only [fourHex?, hzero, hhigh, hlow, Option.bind_eq_bind, Option.bind_some, hsum,
    Option.pure_def]

/-- A string with a part in front of it, as the scanner puts it together. -/
theorem bind_part (part : Unit16) (found : Option (List Unit16 × List Char)) :
    (do
      let (parts, rest) ← found
      return (part :: parts, rest)) = found.map fun (parts, rest) => (part :: parts, rest) := by
  cases found <;> rfl

/-- An escape by a letter is read as the character that it stands for. -/
theorem stringParts?_letter {letter c : Char} (hletter : escapedChar? letter = some c) (depth : Nat)
    (rest : List Char) :
    stringParts? (depth + 1) ('\\' :: letter :: rest) =
      (stringParts? depth rest).map fun (parts, rest) => (.char c :: parts, rest) := by
  have hu : letter ≠ 'u' := by
    rintro rfl
    cases hletter
  rw [stringParts?, hletter]
  · exact bind_part _ _
  · exact hu

/-- An escape by two hexadecimal digits is read as the control character. -/
theorem stringParts?_control {c : Char} (hc : c.toNat < 32) (depth : Nat) (rest : List Char) :
    stringParts? (depth + 1)
        ('\\' :: 'u' :: '0' :: '0' :: hexDigit (c.toNat / 16) :: hexDigit (c.toNat % 16) :: rest) =
      (stringParts? depth rest).map fun (parts, rest) => (.char c :: parts, rest) := by
  have hpart : Unit16.ofNat c.toNat = .char c := by
    rw [Unit16.ofNat, if_neg (by omega), if_neg (by omega), Char.ofNat_toNat]
  simp only [stringParts?, fourHex?_escape hc, hpart, Option.bind_eq_bind, Option.bind_some]
  exact bind_part _ _

/-- A character that needs no escape is read as itself. -/
theorem stringParts?_plain {c : Char} (hquote : c ≠ '"') (hbackslash : c ≠ '\\') (hc : 32 ≤ c.toNat)
    (depth : Nat) (rest : List Char) :
    stringParts? (depth + 1) (c :: rest) =
      (stringParts? depth rest).map fun (parts, rest) => (.char c :: parts, rest) := by
  have hplain : ¬(c = '\\' ∨ c.toNat < 32) := by
    rintro (h | h)
    · exact hbackslash h
    · omega
  -- neither the closing quote nor one of the two escapes matches
  rw [stringParts?, if_neg hplain]
  · exact bind_part _ _
  · exact hquote
  · exact fun _ h _ => hbackslash h
  · exact fun _ _ h _ => hbackslash h

/-- An escaped character is one part of a string. -/
theorem stringParts?_escape (c : Char) (depth : Nat) (rest : List Char) :
    stringParts? (depth + 1) (escape c ++ rest) =
      (stringParts? depth rest).map fun (parts, rest) => (.char c :: parts, rest) := by
  unfold escape
  split_ifs with hquote hbackslash h₁ h₂ h₃ h₄ h₅ hcontrol
  -- seven characters have a letter
  any_goals exact stringParts?_letter (by subst c; rfl) depth rest
  · exact stringParts?_control hcontrol depth rest
  · exact stringParts?_plain hquote hbackslash (by omega) depth rest

/-- An escaped text is read up to the quotation mark, character by character. -/
theorem stringParts?_flatMap_escape (cs : List Char) {depth : Nat} (hdepth : cs.length < depth)
    (rest : List Char) :
    stringParts? depth (cs.flatMap escape ++ '"' :: rest) = some (cs.map .char, rest) := by
  induction cs generalizing depth with
  | nil =>
    obtain ⟨depth, rfl⟩ := Nat.exists_eq_succ_of_ne_zero (Nat.ne_of_gt hdepth)
    rfl
  | cons c cs ih =>
    obtain ⟨depth, rfl⟩ := Nat.exists_eq_succ_of_ne_zero (Nat.ne_zero_of_lt hdepth)
    rw [List.length_cons] at hdepth
    rw [List.flatMap_cons, List.append_assoc, stringParts?_escape, ih (by omega)]
    rfl

/-- Parts that are all characters are joined to those characters. -/
@[simp] theorem joinParts?_map_char (cs : List Char) : joinParts? (cs.map .char) = some cs := by
  induction cs with
  | nil => rfl
  | cons c cs ih => rw [List.map_cons, joinParts?, ih, Option.map_some]

/-- A quoted string is read back, whatever follows it. -/
theorem string?_quote (s : String) {depth : Nat} (hdepth : s.toList.length < depth)
    (rest : List Char) :
    string? depth (s.toList.flatMap escape ++ '"' :: rest) = some (some s, rest) := by
  rw [string?, stringParts?_flatMap_escape _ hdepth]
  simp

theorem toList_quote (s : String) :
    (quote s).toList = '"' :: (s.toList.flatMap escape ++ ['"']) := by
  rw [quote, String.toList_ofList]

/-- Every character is written as something. -/
theorem escape_ne_nil (c : Char) : escape c ≠ [] := by
  unfold escape
  split_ifs <;> simp

/-- A quoted string is longer by its quotes, at least. -/
theorem length_add_two_le_length_quote (s : String) :
    s.toList.length + 2 ≤ (quote s).toList.length := by
  -- every character is written as at least one
  have hflat : ∀ cs : List Char, cs.length ≤ (cs.flatMap escape).length := by
    intro cs
    induction cs with
    | nil => exact Nat.le_refl 0
    | cons c cs ih =>
      have hc := List.length_pos_iff.2 (escape_ne_nil c)
      rw [List.flatMap_cons, List.length_append, List.length_cons]
      omega
  have hs := hflat s.toList
  rw [toList_quote, List.length_cons, List.length_append, List.length_singleton]
  omega

/-! ## Digits -/

/-- Digits are summed up as they are in the library. -/
theorem ofDigits_eq_ofDigitChars (ds : List Char) : ofDigits ds = Nat.ofDigitChars 10 ds 0 := by
  rw [ofDigits, Nat.ofDigitChars_eq_foldl]
  simp only [Nat.mul_comm]

/-- The digits of a number stand for it. -/
@[simp] theorem ofDigits_digits (n : Nat) : ofDigits (digits n) = n := by
  rw [ofDigits_eq_ofDigitChars, digits, Nat.ofDigitChars_ten_toDigits]

/-- Zeros in front of a number do not change it. -/
@[simp] theorem ofDigits_replicate_append (k : Nat) (ds : List Char) :
    ofDigits (List.replicate k '0' ++ ds) = ofDigits ds := by
  rw [ofDigits_eq_ofDigitChars, ofDigits_eq_ofDigitChars, Nat.ofDigitChars_append,
    Nat.ofDigitChars_replicate_zero, Nat.mul_zero]

/-- Each zero at the end multiplies by ten. -/
@[simp] theorem ofDigits_append_replicate (ds : List Char) (k : Nat) :
    ofDigits (ds ++ List.replicate k '0') = ofDigits ds * 10 ^ k := by
  rw [ofDigits_eq_ofDigitChars, ofDigits_eq_ofDigitChars, Nat.ofDigitChars_append,
    Nat.ofDigitChars_replicate_zero, Nat.mul_comm]

/-- The digits of a number are digits. -/
theorem isDigit_of_mem_digits {c : Char} {n : Nat} (hc : c ∈ digits n) : c.isDigit :=
  Nat.isDigit_of_mem_toDigits (by decide) (by decide) hc

/-- Digits without a leading zero, unless zero is all there is. -/
structure Whole (ds : List Char) : Prop where
  isDigit : ∀ c ∈ ds, c.isDigit
  ne_nil : ds ≠ []
  leading : ds.head? = some '0' → ds.length ≤ 1

/-- Only zero is written as the digit zero. -/
theorem digitChar_ne_zero : ∀ n < 10, n ≠ 0 → Nat.digitChar n ≠ '0' := by decide

/-- A positive number does not start with a zero. -/
theorem head?_digits_ne {n : Nat} (hn : n ≠ 0) : (digits n).head? ≠ some '0' := by
  induction n using Nat.strongRecOn with
  | _ n ih =>
    rw [digits, Nat.toDigits_eq_if (by decide)]
    split
    · next hlt => simpa using digitChar_ne_zero n hlt hn
    · rw [List.head?_append, Option.or_of_isSome (by simp [Nat.toDigits_ne_nil])]
      exact ih (n / 10) (by omega) (by omega)

theorem whole_digits (n : Nat) : Whole (digits n) where
  isDigit _ := isDigit_of_mem_digits
  ne_nil := Nat.toDigits_ne_nil
  leading h := by
    by_cases hn : n = 0
    · subst hn
      exact Nat.le_refl 1
    · exact absurd h (head?_digits_ne hn)

/-- Digits that begin like a number other than zero have no leading zero. -/
theorem whole_of_head?_eq {n : Nat} {ds : List Char} (hn : n ≠ 0) (hds : ∀ c ∈ ds, c.isDigit)
    (hhead : ds.head? = (digits n).head?) : Whole ds where
  isDigit := hds
  ne_nil := by
    rintro rfl
    exact (whole_digits n).ne_nil (List.head?_eq_none_iff.1 hhead.symm)
  leading h := absurd (hhead.symm.trans h) (head?_digits_ne hn)

theorem isDigit_of_mem_replicate {c : Char} {k : Nat} (hc : c ∈ List.replicate k '0') :
    c.isDigit := by
  rw [List.eq_of_mem_replicate hc]
  rfl

/-- A run of digits ends where something else comes. -/
theorem spanDigits_append {ds rest : List Char} (hds : ∀ c ∈ ds, c.isDigit)
    (hrest : ∀ c ∈ rest.head?, c.isDigit = false) : spanDigits (ds ++ rest) = (ds, rest) := by
  rw [spanDigits, List.span_eq_takeWhile_dropWhile, List.takeWhile_append_of_pos hds,
    List.dropWhile_append_of_pos hds]
  cases rest with
  | nil => simp
  | cons c rest => simp [hrest c rfl]

/-! ## Numbers -/

/-- A text that does not go on with a number in front of it. -/
def Delimited (rest : List Char) : Prop :=
  ∀ c ∈ rest.head?, c.isDigit = false ∧ c ≠ '.' ∧ c ≠ 'e' ∧ c ≠ 'E'

/-- The digits after a point, and no point without digits. -/
def pointed : List Char → List Char
  | [] => []
  | ds => '.' :: ds

/-- An exponent, if there is one. -/
def scaled : Option Int → List Char
  | none => []
  | some e => 'e' :: (NumberText.integer e).toList

/-- Neither a digit nor a point comes after the exponent. -/
theorem delimited_scaled {rest : List Char} (hrest : Delimited rest) (e : Option Int) :
    ∀ c ∈ (scaled e ++ rest).head?, c.isDigit = false ∧ c ≠ '.' := by
  cases e with
  | none => exact fun c hc => ⟨(hrest c hc).1, (hrest c hc).2.1⟩
  | some e =>
    rintro c ⟨⟩
    decide

/-- Digits after a point are read as a fraction, and no point as no digits. -/
theorem fractionDigits?_pointed {ds rest : List Char} (hds : ∀ c ∈ ds, c.isDigit)
    (hrest : ∀ c ∈ rest.head?, c.isDigit = false ∧ c ≠ '.') :
    fractionDigits? (pointed ds ++ rest) = some (ds, rest) := by
  -- without a point the scan stops at what follows
  cases ds with
  | nil =>
    cases rest with
    | nil => rfl
    | cons c rest =>
      rw [pointed, List.nil_append, fractionDigits?]
      exact fun _ h => (hrest c rfl).2 (List.cons.inj h).1
  | cons d ds =>
    rw [pointed, List.cons_append, fractionDigits?,
      spanDigits_append hds fun c hc => (hrest c hc).1]
    · rfl
    · simp

/-- The digits of an exponent are read with their sign. -/
theorem signedDigits?_digits (negative : Bool) (n : Nat) {rest : List Char}
    (hrest : Delimited rest) :
    signedDigits? negative (digits n ++ rest) =
      some (some (if negative then -(n : Int) else n), rest) := by
  rw [signedDigits?, spanDigits_append (fun _ => isDigit_of_mem_digits) fun c hc => (hrest c hc).1]
  simp [(whole_digits n).ne_nil]

/-- An exponent is read as it is written, if there is one. -/
theorem exponent?_scaled (e : Option Int) {rest : List Char} (hrest : Delimited rest) :
    exponent? (scaled e ++ rest) = some (e, rest) := by
  cases e with
  | none =>
    cases rest with
    | nil => rfl
    | cons c rest =>
      obtain ⟨-, -, he, hE⟩ := hrest c rfl
      simp [scaled, exponent?, he, hE]
  | some e =>
    obtain ⟨d, ds, hds⟩ := List.exists_cons_of_ne_nil (whole_digits e.natAbs).ne_nil
    have hd : d.isDigit := isDigit_of_mem_digits (hds ▸ List.mem_cons_self)
    rw [scaled, NumberText.integer]
    split
    · next hneg =>
      have he : -(e.natAbs : Int) = e := by omega
      have hscan := signedDigits?_digits true e.natAbs hrest
      rw [if_pos rfl, he] at hscan
      simpa [exponent?] using hscan
    · next hneg =>
      have he : (e.natAbs : Int) = e := by omega
      have hscan := signedDigits?_digits false e.natAbs hrest
      rw [if_neg (by decide), he] at hscan
      -- a digit stands where a sign could, so the number is scanned as it is
      have hplus : d ≠ '+' := by
        rintro rfl
        cases hd
      have hminus : d ≠ '-' := by
        rintro rfl
        cases hd
      rw [← hscan, String.toList_ofList, hds, List.cons_append, exponent?, if_pos (.inl rfl)]
      · simpa using fun h => absurd h hplus
      · simpa using fun h => absurd h hminus

/-- What the scanner makes of the parts of a number. -/
def Number.assemble (negative : Bool) (whole fraction : List Char) (e : Option Int) : Number :=
  if fraction.isEmpty ∧ e.isNone then .integer negative (ofDigits whole)
  else .fractional negative (ofDigits (whole ++ fraction)) (e.getD 0 - fraction.length)

/-- A number is read as its whole part, its fraction and its exponent. -/
theorem magnitude?_append (negative : Bool) {whole fraction rest : List Char} (e : Option Int)
    (hwhole : Whole whole) (hfraction : ∀ c ∈ fraction, c.isDigit) (hrest : Delimited rest) :
    magnitude? negative (whole ++ (pointed fraction ++ (scaled e ++ rest))) =
      some (.assemble negative whole fraction e, rest) := by
  have hscaled := delimited_scaled hrest e
  -- the digits before the point end where the fraction, the exponent or the rest begins
  have hpointed : ∀ c ∈ (pointed fraction ++ (scaled e ++ rest)).head?, c.isDigit = false := by
    cases fraction with
    | nil => exact fun c hc => (hscaled c hc).1
    | cons d ds =>
      rintro c ⟨⟩
      rfl
  have hlead : ¬(whole.isEmpty ∨ (whole.head? = some '0' ∧ 1 < whole.length)) := by
    rintro (hempty | ⟨hzero, hlength⟩)
    · exact hwhole.ne_nil (List.isEmpty_iff.1 hempty)
    · exact absurd (hwhole.leading hzero) (by omega)
  rw [magnitude?, spanDigits_append hwhole.isDigit hpointed]
  simp only [hlead, if_false, fractionDigits?_pointed hfraction hscaled, exponent?_scaled e hrest,
    Option.bind_eq_bind, Option.bind_some, Option.pure_def, Number.assemble]
  split <;> rfl

/-- A number as it is read after it has been written. A whole number that is not an integer of the
document is written with a zero after the point. -/
def Number.reread : Number → Number
  | integer negative n => integer negative n
  | fractional negative c e =>
    if c = 0 then fractional negative 0 (-1)
    else if 0 ≤ e ∧ Style.document.isPositional (e + (digits c).length - 1) then
      fractional negative (c * 10 ^ (e.toNat + 1)) (-1)
    else fractional negative c e

/-- The characters of a number with its sign in front. -/
def signed (negative : Bool) (body : List Char) : List Char :=
  if negative then '-' :: body else body

/-- Texts without a sign that stand for a number. -/
inductive Number.Written (negative : Bool) : List Char → Number → Prop
  | mk {whole fraction : List Char} (e : Option Int) (hwhole : Whole whole)
      (hfraction : ∀ c ∈ fraction, c.isDigit) :
    Written negative (whole ++ (pointed fraction ++ scaled e)) (.assemble negative whole fraction e)

namespace Number

variable {negative : Bool}

/-- A number that is written down is read with its sign. -/
theorem Written.number? {body rest : List Char} {n : Number} (h : Written negative body n)
    (hrest : Delimited rest) : number? (signed negative body ++ rest) = some (n, rest) := by
  obtain ⟨e, hwhole, hfraction⟩ := h
  have hscan := magnitude?_append negative e hwhole hfraction hrest
  cases negative with
  | true => simpa [signed, Document.number?] using hscan
  | false =>
    obtain ⟨d, ds, rfl⟩ := List.exists_cons_of_ne_nil hwhole.ne_nil
    -- a number without a sign begins with a digit
    have hminus : d ≠ '-' := by
      rintro rfl
      cases hwhole.isDigit _ List.mem_cons_self
    rw [← hscan, signed]
    simp [Document.number?, hminus]

/-- The digits of a fraction after a point stand for what they are counted by. -/
theorem Written.point {whole fraction : List Char} {c : Nat} {e : Int} (hwhole : Whole whole)
    (hfraction : ∀ c ∈ fraction, c.isDigit) (hne : fraction ≠ [])
    (hc : ofDigits (whole ++ fraction) = c) (he : -(fraction.length : Int) = e) :
    Written negative (whole ++ '.' :: fraction) (.fractional negative c e) := by
  have hwritten : Written negative _ _ := .mk none hwhole hfraction
  obtain ⟨d, ds, rfl⟩ := List.exists_cons_of_ne_nil hne
  simpa [assemble, pointed, scaled, hc, ← he] using hwritten

/-- A whole number is written as its digits. -/
theorem written_integer (n : Nat) : Written negative (digits n) (.integer negative n) := by
  have hwritten : Written negative (digits n ++ (pointed [] ++ scaled none)) _ :=
    .mk none (whole_digits n) nofun
  simpa [assemble, pointed, scaled] using hwritten

/-- A whole number is written with a fraction of one digit. -/
theorem written_positional_of_nonneg {c : Nat} {e : Int} (hc : c ≠ 0) (he : 0 ≤ e) :
    Written negative (NumberText.positional true c e)
      (.fractional negative (c * 10 ^ (e.toNat + 1)) (-1)) := by
  have hwhole : Whole (digits c ++ List.replicate e.toNat '0') := by
    refine whole_of_head?_eq hc (List.forall_mem_append.2 ?_) ?_
    · exact ⟨fun _ => isDigit_of_mem_digits, fun _ => isDigit_of_mem_replicate⟩
    · rw [List.head?_append, Option.or_of_isSome (by simp [(whole_digits c).ne_nil])]
  rw [NumberText.positional, if_pos he, if_pos rfl]
  refine .point hwhole (by simp) (by simp) ?_ rfl
  rw [List.append_assoc, ← List.replicate_one, List.replicate_append_replicate,
    ofDigits_append_replicate, ofDigits_digits]

/-- The point of a number with a fraction stands where its power of ten says. -/
theorem written_positional_of_neg {c : Nat} {e : Int} (hc : c ≠ 0) (he : e < 0) :
    Written negative (NumberText.positional true c e) (.fractional negative c e) := by
  rw [NumberText.positional, if_neg (by omega)]
  dsimp only
  split
  · next hplaces =>
    -- the point falls inside of the digits
    have hwhole : Whole ((digits c).take ((digits c).length - (-e).toNat)) := by
      refine whole_of_head?_eq hc (fun d hd => isDigit_of_mem_digits (List.mem_of_mem_take hd)) ?_
      rw [List.head?_take, if_neg (by omega)]
    have hlength : ((digits c).drop ((digits c).length - (-e).toNat)).length = (-e).toNat := by
      rw [List.length_drop]
      omega
    refine .point hwhole (fun d hd => isDigit_of_mem_digits (List.mem_of_mem_drop hd)) ?_ ?_ ?_
    · exact List.ne_nil_of_length_pos (by omega)
    · rw [List.take_append_drop, ofDigits_digits]
    · omega
  · next hplaces =>
    -- zeros come before the digits
    have hfraction : ∀ d ∈ List.replicate ((-e).toNat - (digits c).length) '0' ++ digits c,
        d.isDigit :=
      List.forall_mem_append.2
        ⟨fun _ => isDigit_of_mem_replicate, fun _ => isDigit_of_mem_digits⟩
    refine .point (whole_digits 0) hfraction ?_ ?_ ?_
    · simp [(whole_digits c).ne_nil]
    · rw [← List.append_assoc]
      exact (ofDigits_replicate_append (_ + 1) _).trans (ofDigits_digits c)
    · rw [List.length_append, List.length_replicate]
      omega

/-- A number with an exponent is written with one digit before the point. -/
theorem written_exponential (c : Nat) (e : Int) :
    Written negative (NumberText.exponential (digits c) e)
      (.fractional negative c (e - ((digits c).length - 1))) := by
  obtain ⟨d, ds, hds⟩ := List.exists_cons_of_ne_nil (whole_digits c).ne_nil
  have hdigit : ∀ x ∈ d :: ds, x.isDigit := fun x hx => isDigit_of_mem_digits (hds ▸ hx)
  have hc : ofDigits (d :: ds) = c := hds ▸ ofDigits_digits c
  have hwhole : Whole [d] := ⟨by simpa using hdigit d List.mem_cons_self, by simp, by simp⟩
  have hwritten : Written negative _ _ :=
    .mk (some e) hwhole fun x hx => hdigit x (List.mem_cons_of_mem d hx)
  rw [assemble, if_neg (by simp), List.singleton_append, List.singleton_append, hc] at hwritten
  rw [hds, List.length_cons]
  cases ds <;> simpa [NumberText.exponential, pointed, scaled] using hwritten

/-- Whatever is printed for a number stands for what it is read back as. -/
theorem exists_written_print (n : Number) :
    ∃ negative body, n.print.toList = signed negative body ∧ Written negative body n.reread := by
  cases n with
  | integer negative n =>
    refine ⟨negative, digits n, ?_, written_integer n⟩
    cases negative <;> simp [print, NumberText.natural, signed]
  | fractional negative c e =>
    rw [print, NumberText.decimal, String.toList_ofList]
    refine ⟨negative, _, rfl, ?_⟩
    rw [reread]
    -- the four forms: zero, a whole number, a fraction with a point, and one with an exponent
    by_cases hc : c = 0
    · rw [if_pos hc, if_pos hc]
      show Written negative (digits 0 ++ '.' :: ['0']) _
      exact .point (whole_digits 0) (by simp) (by simp) rfl rfl
    rw [if_neg hc, if_neg hc]
    by_cases hpositional : Style.document.isPositional (e + (digits c).length - 1)
    · rw [if_pos hpositional]
      by_cases he : 0 ≤ e
      · rw [if_pos ⟨he, hpositional⟩]
        exact written_positional_of_nonneg hc he
      · rw [if_neg fun h => he h.1]
        exact written_positional_of_neg hc (by omega)
    · rw [if_neg hpositional, if_neg fun h => hpositional h.2]
      have hwritten : Written negative _ _ := written_exponential c (e + (digits c).length - 1)
      rwa [show e + (digits c).length - 1 - ((digits c).length - 1) = e by omega] at hwritten

/-- A number starts with a digit once its sign is gone. -/
theorem Written.exists_cons {body : List Char} {n : Number} (h : Written negative body n) :
    ∃ d ds, body = d :: ds ∧ d.isDigit := by
  obtain ⟨e, hwhole, -⟩ := h
  obtain ⟨d, ds, rfl⟩ := List.exists_cons_of_ne_nil hwhole.ne_nil
  exact ⟨d, _, rfl, hwhole.isDigit d List.mem_cons_self⟩

/-- A printed number begins with a minus sign or a digit. -/
theorem exists_print_eq_cons (n : Number) :
    ∃ c cs, n.print.toList = c :: cs ∧ (c = '-' ∨ c.isDigit) := by
  obtain ⟨negative, body, hprint, hwritten⟩ := exists_written_print n
  obtain ⟨d, ds, rfl, hd⟩ := hwritten.exists_cons
  cases negative with
  | true => exact ⟨'-', d :: ds, hprint, .inl rfl⟩
  | false => exact ⟨d, ds, hprint, .inr hd⟩

end Number

/-- A printed number is read back, if what follows does not go on with it. -/
theorem number?_print (n : Number) {rest : List Char} (hrest : Delimited rest) :
    number? (n.print.toList ++ rest) = some (n.reread, rest) := by
  obtain ⟨negative, body, hprint, hwritten⟩ := n.exists_written_print
  rw [hprint, hwritten.number? hrest]

/-- The rational number that a number of a document stands for. -/
def Number.value : Number → ℚ
  | integer negative n => if negative then -(n : ℚ) else n
  | fractional negative c e => (if negative then -(c : ℚ) else c) * 10 ^ e

/-- Writing changes the digits of a number and not its value. -/
theorem Number.value_reread (n : Number) : n.reread.value = n.value := by
  cases n with
  | integer negative n => rfl
  | fractional negative c e =>
    rw [reread]
    split
    · next hc => simp [value, hc]
    split
    · next hwhole =>
      -- the digits grow by the power of ten that leaves the exponent, and by the zero after the
      -- point
      have hten : (10 : ℚ) ^ (e.toNat + 1) * 10 ^ (-1 : ℤ) = 10 ^ e := by
        rw [← zpow_natCast, ← zpow_add₀ (by norm_num)]
        congr 1
        omega
      rw [value, value, ← hten]
      push_cast
      split <;> ring
    · rfl

end TensorGraph.Document
