import TensorGraph.Document.Basic

/-!
# Printing documents

* `Document.pretty` lays a document out over several lines, two blanks deeper at every level. Items
  and fields stand on lines of their own; an empty list or object is written on one line.
* `Document.compact` writes a document on one line without blanks.
-/

namespace TensorGraph.Document

def hexDigit (n : Nat) : Char := (Nat.toDigits 16 n).headD '0'

/-- A character of a string: quotes, backslashes and control characters are escaped. -/
def escape (c : Char) : List Char :=
  if c = '"' then ['\\', '"']
  else if c = '\\' then ['\\', '\\']
  else if c = '\x08' then ['\\', 'b']
  else if c = '\x0c' then ['\\', 'f']
  else if c = '\n' then ['\\', 'n']
  else if c = '\r' then ['\\', 'r']
  else if c = '\t' then ['\\', 't']
  -- the other control characters have no short form
  else if c.toNat < 32 then ['\\', 'u', '0', '0', hexDigit (c.toNat / 16), hexDigit (c.toNat % 16)]
  else [c]

def quote (s : String) : String := String.ofList ('"' :: (s.toList.flatMap escape ++ ['"']))

/-- A number as a document writes it. -/
def Number.print : Number → String
  | .integer negative n => (if negative then "-" else "") ++ NumberText.natural n
  | .fractional negative c e => NumberText.decimal .document negative c e

/-- A line break and the blanks of a level. -/
def newline (level : Nat) : String := String.ofList ('\n' :: List.replicate (2 * level) ' ')

/-- Parts on lines of their own between two brackets. -/
def block (opening closing : String) (level : Nat) (parts : List String) : String :=
  if parts.isEmpty then opening ++ closing
  else
    opening ++ newline (level + 1) ++ String.intercalate ("," ++ newline (level + 1)) parts ++
      newline level ++ closing

mutual

/-- A document over several lines, at a level of indentation. -/
def prettyAt (level : Nat) : Document → String
  | null => "null"
  | bool b => if b then "true" else "false"
  | number n => n.print
  | text s => quote (s.getD "")
  | array items => block "[" "]" level (prettyItems (level + 1) items)
  | object fields => block "\x7b" "\x7d" level (prettyFields (level + 1) fields)

def prettyItems (level : Nat) : List Document → List String
  | [] => []
  | d :: ds => prettyAt level d :: prettyItems level ds

def prettyFields (level : Nat) : List (Option String × Document) → List String
  | [] => []
  | (name, d) :: fs =>
    (quote (name.getD "") ++ ": " ++ prettyAt level d) :: prettyFields level fs

end

/-- A document over several lines. -/
def pretty (d : Document) : String := prettyAt 0 d

mutual

/-- A document on one line. -/
def compact : Document → String
  | null => "null"
  | bool b => if b then "true" else "false"
  | number n => n.print
  | text s => quote (s.getD "")
  | array items => "[" ++ String.intercalate "," (compactItems items) ++ "]"
  | object fields => "\x7b" ++ String.intercalate "," (compactFields fields) ++ "\x7d"

def compactItems : List Document → List String
  | [] => []
  | d :: ds => compact d :: compactItems ds

def compactFields : List (Option String × Document) → List String
  | [] => []
  | (name, d) :: fs => (quote (name.getD "") ++ ":" ++ compact d) :: compactFields fs

end

end TensorGraph.Document
