import TensorGraph.Document.Basic

/-!
# Parsing documents

A strict reader of JSON text: blanks, tabs and line breaks may stand between tokens, strings hold no
raw control character, numbers have no leading zero, and nothing follows the document.

Every step of the reader consumes a character, so the length of the text bounds its depth.
-/

namespace TensorGraph.Document

/-- The text after leading blanks, tabs and line breaks. -/
def skipBlanks (cs : List Char) : List Char :=
  cs.dropWhile fun c => c == ' ' || c == '\n' || c == '\t' || c == '\r'

/-- The text after a given word. -/
def afterWord? : List Char → List Char → Option (List Char)
  | [], cs => some cs
  | w :: ws, c :: cs => if w = c then afterWord? ws cs else none
  | _ :: _, [] => none

def hexValue? (c : Char) : Option Nat :=
  if '0' ≤ c ∧ c ≤ '9' then some (c.toNat - '0'.toNat)
  else if 'a' ≤ c ∧ c ≤ 'f' then some (c.toNat - 'a'.toNat + 10)
  else if 'A' ≤ c ∧ c ≤ 'F' then some (c.toNat - 'A'.toNat + 10)
  else none

/-- The number that four hexadecimal digits stand for, and the text after them. -/
def fourHex? : List Char → Option (Nat × List Char)
  | a :: b :: c :: d :: rest => do
    let a ← hexValue? a
    let b ← hexValue? b
    let c ← hexValue? c
    let d ← hexValue? d
    return (((a * 16 + b) * 16 + c) * 16 + d, rest)
  | _ => none

/-- A part of a string: a character, or half of a surrogate pair. -/
inductive Unit16 where
  | char (c : Char)
  /-- The first half of a pair. -/
  | high (n : Nat)
  /-- The second half of a pair. -/
  | low (n : Nat)

/-- The part that an escaped number stands for. -/
def Unit16.ofNat (n : Nat) : Unit16 :=
  if 0xd800 ≤ n ∧ n < 0xdc00 then .high (n - 0xd800)
  else if 0xdc00 ≤ n ∧ n < 0xe000 then .low (n - 0xdc00)
  else .char (Char.ofNat n)

/-- The character that a letter after a backslash stands for. -/
def escapedChar? (c : Char) : Option Char :=
  match c with
  | '"' => some '"'
  | '\\' => some '\\'
  | '/' => some '/'
  | 'b' => some '\x08'
  | 'f' => some '\x0c'
  | 'n' => some '\n'
  | 'r' => some '\r'
  | 't' => some '\t'
  | _ => none

/-- The parts of a string up to its closing quote, and the text after it. -/
def stringParts? : Nat → List Char → Option (List Unit16 × List Char)
  | 0, _ => none
  | _ + 1, [] => none
  | _ + 1, '"' :: rest => some ([], rest)
  | depth + 1, '\\' :: 'u' :: rest => do
    let (n, rest) ← fourHex? rest
    let (parts, rest) ← stringParts? depth rest
    return (.ofNat n :: parts, rest)
  | depth + 1, '\\' :: c :: rest => do
    let c ← escapedChar? c
    let (parts, rest) ← stringParts? depth rest
    return (.char c :: parts, rest)
  -- a backslash that gets here ends the text
  | depth + 1, c :: rest =>
    if c = '\\' ∨ c.toNat < 32 then none
    else do
      let (parts, rest) ← stringParts? depth rest
      return (.char c :: parts, rest)

/-- The characters of a string, if its surrogates come in pairs. -/
def joinParts? : List Unit16 → Option (List Char)
  | [] => some []
  | .char c :: parts => (joinParts? parts).map (c :: ·)
  -- a first half without a second one, or the other way around, spoils the string
  | .high h :: .low l :: parts =>
    (joinParts? parts).map (Char.ofNat (0x10000 + h * 0x400 + l) :: ·)
  | _ => none

/-- The text of a string up to its closing quote, and what follows it. -/
def string? (depth : Nat) (cs : List Char) : Option (Option String × List Char) := do
  let (parts, rest) ← stringParts? depth cs
  return ((joinParts? parts).map String.ofList, rest)

def ofDigits (ds : List Char) : Nat :=
  ds.foldl (fun n d => n * 10 + (d.toNat - '0'.toNat)) 0

/-- The leading digits of a text and the rest. -/
def spanDigits (cs : List Char) : List Char × List Char := cs.span Char.isDigit

/-- The digits after a decimal point, none without a point. -/
def fractionDigits? : List Char → Option (List Char × List Char)
  | '.' :: cs =>
    let (ds, rest) := spanDigits cs
    if ds.isEmpty then none else some (ds, rest)
  | cs => some ([], cs)

/-- The digits of an exponent with their sign. -/
def signedDigits? (negative : Bool) (cs : List Char) : Option (Option Int × List Char) :=
  let (ds, rest) := spanDigits cs
  if ds.isEmpty then none
  else some (some (if negative then -(ofDigits ds : Int) else ofDigits ds), rest)

/-- The exponent of a number, if it has one. -/
def exponent? : List Char → Option (Option Int × List Char)
  | c :: cs =>
    if c = 'e' ∨ c = 'E' then
      match cs with
      | '+' :: cs => signedDigits? false cs
      | '-' :: cs => signedDigits? true cs
      | cs => signedDigits? false cs
    else some (none, c :: cs)
  | [] => some (none, [])

/-- A number after its sign. -/
def magnitude? (negative : Bool) (cs : List Char) : Option (Number × List Char) := do
  let (whole, rest) := spanDigits cs
  if whole.isEmpty ∨ (whole.head? = some '0' ∧ 1 < whole.length) then none
  else
    let (fraction, rest) ← fractionDigits? rest
    let (exponent, rest) ← exponent? rest
    -- a number is an integer if it is written like one
    if fraction.isEmpty ∧ exponent.isNone then
      return (.integer negative (ofDigits whole), rest)
    else
      return (.fractional negative (ofDigits (whole ++ fraction))
        (exponent.getD 0 - fraction.length), rest)

def number? : List Char → Option (Number × List Char)
  | '-' :: cs => magnitude? true cs
  | cs => magnitude? false cs

mutual

/-- A document at the start of a text, and the rest. -/
def value? : Nat → List Char → Option (Document × List Char)
  | 0, _ => none
  | depth + 1, cs =>
    match skipBlanks cs with
    | [] => none
    | '"' :: cs => (string? depth cs).map fun (s, rest) => (text s, rest)
    | '[' :: cs =>
      match skipBlanks cs with
      | ']' :: rest => some (array [], rest)
      | cs => (items? depth cs).map fun (ds, rest) => (array ds, rest)
    | '\x7b' :: cs =>
      match skipBlanks cs with
      | '\x7d' :: rest => some (object [], rest)
      | cs => (fields? depth cs).map fun (fs, rest) => (object fs, rest)
    | c :: cs =>
      if c = 'n' then (afterWord? ['u', 'l', 'l'] cs).map (null, ·)
      else if c = 't' then (afterWord? ['r', 'u', 'e'] cs).map (bool true, ·)
      else if c = 'f' then (afterWord? ['a', 'l', 's', 'e'] cs).map (bool false, ·)
      else (number? (c :: cs)).map fun (n, rest) => (number n, rest)

def items? : Nat → List Char → Option (List Document × List Char)
  | 0, _ => none
  | depth + 1, cs => do
    let (d, rest) ← value? depth cs
    match skipBlanks rest with
    | ',' :: rest =>
      let (ds, rest) ← items? depth rest
      return (d :: ds, rest)
    | ']' :: rest => return ([d], rest)
    | _ => none

/-- The fields of an object up to its closing brace. -/
def fields? : Nat → List Char → Option (List (Option String × Document) × List Char)
  | 0, _ => none
  | depth + 1, cs =>
    match skipBlanks cs with
    | '"' :: cs => do
      let (name, rest) ← string? depth cs
      match skipBlanks rest with
      | ':' :: rest =>
        let (d, rest) ← value? depth rest
        match skipBlanks rest with
        | ',' :: rest =>
          let (fs, rest) ← fields? depth rest
          return ((name, d) :: fs, rest)
        | '\x7d' :: rest => return ([(name, d)], rest)
        | _ => none
      | _ => none
    | _ => none

end

/-- The document at the start of a text, and what follows it. -/
def leading? (s : String) : Option (Document × List Char) :=
  -- a nested document takes two levels for each of its brackets
  let cs := s.toList
  value? (2 * cs.length + 2) cs

/-- The document that a text holds, if it is one document and nothing else. -/
def parse? (s : String) : Option Document := do
  let (d, rest) ← leading? s
  if (skipBlanks rest).isEmpty then return d else none

end TensorGraph.Document
