/-
# Classwright.Json.Value — JSON values, written and read

A value is written in two ways.  The compact way has no blanks at all.  The pretty way gives every
element and every entry a line of its own, two spaces deeper than the brackets around it; empty
brackets stay on one line.  Both keep the order of elements and entries.

Strings are written with as few escapes as JSON allows: quotes, backslashes and the characters below
U+0020.  Everything else stands for itself.
-/

import Classwright.Json.Reader

namespace Classwright.Json

/-- A JSON value. -/
inductive Value where
  | null
  | boolean (value : Bool)
  | number (value : Number)
  | string (text : String)
  | list (items : List Value)
  | object (entries : List (String × Value))
  deriving Repr

/-! ## Strings -/

/-- The two lower-case hexadecimal digits of a code point below 256. -/
def hexPair (code : Nat) : List Char :=
  [Nat.digitChar (code / 16 % 16), Nat.digitChar (code % 16)]

/-- The spelling of one character inside a JSON string. -/
def escapeChar (c : Char) : List Char :=
  if c = '"' then ['\\', '"']
  else if c = '\\' then ['\\', '\\']
  else if c = '\x08' then ['\\', 'b']
  else if c = '\x0c' then ['\\', 'f']
  else if c = '\n' then ['\\', 'n']
  else if c = '\r' then ['\\', 'r']
  else if c = '\t' then ['\\', 't']
  else if c.toNat < 0x20 then '\\' :: 'u' :: '0' :: '0' :: hexPair c.toNat
  else [c]

/-- A JSON string with its quotes. -/
def stringChars (text : String) : List Char :=
  '"' :: (text.toList.flatMap escapeChar ++ ['"'])

/-! ## Brackets -/

/-- The parts between brackets, with commas between them and nothing else. -/
def enclose (left right : Char) (parts : List (List Char)) : List Char :=
  left :: (List.intercalate [','] parts ++ [right])

/-- A line end and the blanks in front of a line at the given level. -/
def freshLine (level : Nat) : List Char :=
  '\n' :: List.replicate (2 * level) ' '

/-- The parts between brackets that open at `level`, each on a line of its own. -/
def encloseLines (level : Nat) (left right : Char) (parts : List (List Char)) : List Char :=
  match parts with
  | [] => [left, right]
  | _ :: _ =>
    left :: (List.intercalate [','] (parts.map (freshLine (level + 1) ++ ·))
      ++ freshLine level ++ [right])

/-! ## Writing -/

namespace Value

mutual

/-- The value without any blanks. -/
def compactChars : Value → List Char
  | .null => "null".toList
  | .boolean value => (if value then "true" else "false").toList
  | .number value => value.text.toList
  | .string text => stringChars text
  | .list items => enclose '[' ']' (compactItems items)
  | .object entries => enclose '\x7b' '\x7d' (compactEntries entries)

/-- The elements of a list without any blanks. -/
def compactItems : List Value → List (List Char)
  | [] => []
  | item :: items => item.compactChars :: compactItems items

/-- The entries of an object without any blanks. -/
def compactEntries : List (String × Value) → List (List Char)
  | [] => []
  | (key, value) :: entries =>
    (stringChars key ++ ':' :: value.compactChars) :: compactEntries entries

end

mutual

/-- The value with a line for every element and entry, as it stands at `level`. -/
def prettyChars (level : Nat) : Value → List Char
  | .null => "null".toList
  | .boolean value => (if value then "true" else "false").toList
  | .number value => value.text.toList
  | .string text => stringChars text
  | .list items => encloseLines level '[' ']' (prettyItems (level + 1) items)
  | .object entries => encloseLines level '\x7b' '\x7d' (prettyEntries (level + 1) entries)

/-- The elements of a list, as they stand at `level`. -/
def prettyItems (level : Nat) : List Value → List (List Char)
  | [] => []
  | item :: items => item.prettyChars level :: prettyItems level items

/-- The entries of an object, as they stand at `level`. -/
def prettyEntries (level : Nat) : List (String × Value) → List (List Char)
  | [] => []
  | (key, value) :: entries =>
    (stringChars key ++ ':' :: ' ' :: value.prettyChars level) :: prettyEntries level entries

end

/-- The value without any blanks. -/
def compact (value : Value) : String := String.ofList value.compactChars

/-- The value with a line for every element and entry. -/
def pretty (value : Value) : String := String.ofList (value.prettyChars 0)

/-- The value as something that was found where something else was wanted. -/
def found : Value → Found
  | .null => .null
  | .boolean value => .boolean value
  | .number value => .number value
  | .string text => .string text
  | .list _ => .list
  | .object _ => .object

end Value

/-! ## Reading -/

/-- Any value.  The entries of an object come out in the order of their keys; of several under one
key the last is kept. -/
def readValue (levels : Nat) : Reader Value
  | .null :: rest => .ok (.null, ⟨rest, Nat.lt_succ_self _⟩)
  | .boolean value :: rest => .ok (.boolean value, ⟨rest, Nat.lt_succ_self _⟩)
  | .string (some text) :: rest => .ok (.string text, ⟨rest, Nat.lt_succ_self _⟩)
  | .number numeral :: rest =>
    match numeral.value? with
    | some value => .ok (.number value, ⟨rest, Nat.lt_succ_self _⟩)
    | none => malformed
  | .opening bracket :: rest =>
    match levels, bracket with
    | 0, _ => malformed
    | below + 1, .square => ((listBody (readValue below) rest).map .list).behind _
    | below + 1, .curly => ((tableBody (readValue below) rest).map .object).behind _
  | ts => .error (wrongKind "a value" ts)

end Classwright.Json
