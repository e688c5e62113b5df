/-
# Classwright.Text.Sheet — indented text, written edit by edit

A sheet is the text written so far together with the level at which the next line starts.  What is
written is a list of edits: plain data, so that a declaration can be described first and set on a
sheet afterwards.  A body one level deeper is no edit of its own: it is the body between an `indent`
and a `dedent`.

An empty line carries no indentation, and a `dedent` at level zero has no effect.
-/

namespace Classwright.Text

/-- One step of writing. -/
inductive Edit where
  /-- Text as it is. -/
  | text (text : String)
  /-- A line at the current level; an empty text gives a line without trailing blanks. -/
  | line (text : String)
  /-- Text at the current level, without a line end. -/
  | lineStart (text : String)
  /-- An empty line. -/
  | emptyLine
  /-- One level deeper from here on. -/
  | indent
  /-- One level back from here on, never below zero. -/
  | dedent
  deriving DecidableEq, Repr

/-- The edits of a body that stands one level deeper. -/
def indented (body : List Edit) : List Edit :=
  .indent :: (body ++ [.dedent])

/-- The edits of lines at the current level, from top to bottom. -/
def lines (texts : List String) : List Edit :=
  texts.map .line

/-- The edits of a body in braces: the opening line, the body one level deeper, the closing line. -/
def braced (opening : String) (body : List Edit) : List Edit :=
  .line (opening ++ " \x7b") :: (indented body ++ [.line "\x7d"])

/-- The part, if it is wanted. -/
def onlyIf (wanted : Bool) (part : List Edit) : List (List Edit) :=
  if wanted then [part] else []

/-- Parts with an empty line in front of each. -/
def setApart (parts : List (List Edit)) : List Edit :=
  parts.flatMap (.emptyLine :: ·)

/-- The text written so far, the level of the next line, and what one level looks like. -/
structure Sheet where
  unit : String
  level : Nat
  text : String
  deriving DecidableEq, Repr

namespace Sheet

/-- An empty sheet at level zero. -/
def blank (unit : String) : Sheet := ⟨unit, 0, ""⟩

/-- What stands in front of a line at the current level. -/
def margin (sheet : Sheet) : String :=
  String.join (List.replicate sheet.level sheet.unit)

/-- The sheet with text added at its end. -/
def append (text : String) (sheet : Sheet) : Sheet :=
  { sheet with text := sheet.text ++ text }

/-- The sheet after one edit. -/
def edit (sheet : Sheet) : Edit → Sheet
  | .text text => sheet.append text
  | .line text => sheet.append (if text.isEmpty then "\n" else sheet.margin ++ text ++ "\n")
  | .lineStart text => sheet.append (sheet.margin ++ text)
  | .emptyLine => sheet.append "\n"
  | .indent => { sheet with level := sheet.level + 1 }
  | .dedent => { sheet with level := sheet.level - 1 }

/-- The sheet after a list of edits. -/
def run (sheet : Sheet) (edits : List Edit) : Sheet :=
  edits.foldl edit sheet

/-- An empty sheet at the same level, to be written apart and merged later. -/
def detached (sheet : Sheet) : Sheet := { sheet with text := "" }

/-- The sheet with the text of another sheet added at its end. -/
def merge (sheet other : Sheet) : Sheet := sheet.append other.text

end Sheet

/-- The text that edits write on an empty sheet. -/
def typeset (unit : String) (edits : List Edit) : String :=
  ((Sheet.blank unit).run edits).text

end Classwright.Text
