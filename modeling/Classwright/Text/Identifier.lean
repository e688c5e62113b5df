/-
# Classwright.Text.Identifier — names made of words, and identifiers

The case conversions glue the words of a name together again.  They touch ASCII letters only, which
is enough, since a word holds nothing else.

An identifier here is ASCII: a letter or underscore followed by letters, digits and underscores.
Every target language admits at least these.  A converted name may still be empty, start with a
digit or hit a word that the language keeps for itself; the two repairs below mend that.
-/

import Classwright.Text.Words

namespace Classwright.Text

/-! ## Gluing words together -/

/-- A word in small letters. -/
def lowerWord (word : List Char) : List Char :=
  word.map Char.toLower

/-- A word in capitals. -/
def upperWord (word : List Char) : List Char :=
  word.map Char.toUpper

/-- A word with a capital first letter, the rest in small letters. -/
def capitalWord : List Char → List Char
  | [] => []
  | c :: rest => c.toUpper :: lowerWord rest

/-- Words joined with every word capitalised. -/
def joinPascal (words : List (List Char)) : List Char :=
  words.flatMap capitalWord

/-- Words joined with every word but the first capitalised. -/
def joinCamel : List (List Char) → List Char
  | [] => []
  | word :: words => lowerWord word ++ joinPascal words

/-- `first_name` becomes `FirstName`. -/
def pascalCase (text : String) : String :=
  String.ofList (joinPascal (splitWords text.toList))

/-- `first_name` becomes `firstName`. -/
def camelCase (text : String) : String :=
  String.ofList (joinCamel (splitWords text.toList))

/-- `firstName` becomes `FIRST_NAME`. -/
def screamingCase (text : String) : String :=
  String.ofList (List.intercalate ['_'] ((splitWords text.toList).map upperWord))

/-- The text with its ASCII letters in lower case. -/
def lowerCase (text : String) : String :=
  String.ofList (lowerWord text.toList)

/-- The text with its first character capitalised and the rest left as it is. -/
def capitalizeFirst (text : String) : String :=
  match text.toList with
  | [] => ""
  | c :: rest => String.ofList (c.toUpper :: rest)

/-! ## Identifiers and repairs -/

/-- May the character open an identifier? -/
def isIdentifierStart (c : Char) : Bool :=
  c.isAlpha || c == '_'

/-- May the character stand inside an identifier? -/
def isIdentifierPart (c : Char) : Bool :=
  c.isAlphanum || c == '_'

/-- Are the characters an identifier? -/
def identifierChars : List Char → Bool
  | [] => false
  | c :: rest => isIdentifierStart c && rest.all isIdentifierPart

/-- Is the text an identifier? -/
def isIdentifier (text : String) : Bool :=
  identifierChars text.toList

/-- A converted name made fit to open an identifier: an empty name becomes `fallback`, and a name
that starts with a digit gets `fallback` put in front. -/
def identifierOr (fallback name : String) : String :=
  match name.toList with
  | [] => fallback
  | c :: _ => if c.isDigit then fallback ++ name else name

/-- A name that is one of `reserved` gets `suffix`, any other name is kept. -/
def escapeReserved (reserved : List String) (suffix name : String) : String :=
  if name ∈ reserved then name ++ suffix else name

end Classwright.Text
