/-
# Classwright.Text.Words — taking texts apart

White space is what the Unicode property White_Space says: a closed list of twenty-five code points,
so the test below is a table of ranges and not a question to the core library, whose notion of white
space stops at ASCII.  Zero-width characters are *not* blank: the property leaves them out.

A JSON key or class name is a sequence of words, however it is spelled: `first_name`, `firstName`
and `first name` hold the same two.  Only ASCII letters and digits belong to words; every other
character separates.  Between two neighbouring letters or digits a word ends in two places: before a
capital that follows a small letter or a digit, and before the last capital of an acronym
(`HTTPServer` holds `HTTP` and `Server`).

Cutting at every occurrence of a character gives one part more than there are occurrences; parts may
be empty, and a text without the separator is its own only part.
-/

namespace Classwright.Text

/-! ## White space -/

/-- The code points of the Unicode property White_Space, as closed ranges in increasing order. -/
def blankRanges : List (Nat × Nat) :=
  [(0x9, 0xD), (0x20, 0x20), (0x85, 0x85), (0xA0, 0xA0), (0x1680, 0x1680), (0x2000, 0x200A),
    (0x2028, 0x2029), (0x202F, 0x202F), (0x205F, 0x205F), (0x3000, 0x3000)]

/-- Is the character white space? -/
def isBlank (c : Char) : Bool :=
  blankRanges.any fun range => range.1 ≤ c.toNat && c.toNat ≤ range.2

/-- The characters with white space removed from both ends. -/
def trimChars (cs : List Char) : List Char :=
  ((cs.dropWhile isBlank).reverse.dropWhile isBlank).reverse

/-- The text with white space removed from both ends. -/
def trim (text : String) : String :=
  String.ofList (trimChars text.toList)

/-- Does the text hold nothing but white space? -/
def isAllBlank (text : String) : Bool :=
  text.toList.all isBlank

/-! ## Words -/

/-- Does `c`, standing directly after the letter or digit `before`, open a new word?  `after` is the
character that follows `c`, if any: it decides whether a capital ends an acronym. -/
def opensWord (before c : Char) (after : Option Char) : Bool :=
  c.isUpper &&
    (before.isLower || before.isDigit || (before.isUpper && after.any Char.isLower))

/-- Does the word that `c` belongs to go on with the first character of `rest`? -/
def wordGoesOn (c : Char) : List Char → Bool
  | [] => false
  | d :: rest => d.isAlphanum && !opensWord c d rest.head?

/-- Put a character in front of the first word. -/
def attach (c : Char) : List (List Char) → List (List Char)
  | [] => [[c]]
  | word :: words => (c :: word) :: words

/-- The words of a name, from left to right. -/
def splitWords : List Char → List (List Char)
  | [] => []
  | c :: rest =>
    if c.isAlphanum then
      if wordGoesOn c rest then attach c (splitWords rest) else [c] :: splitWords rest
    else
      splitWords rest

/-- The words of a text, from left to right. -/
def words (text : String) : List String :=
  (splitWords text.toList).map String.ofList

/-! ## Parts between separators -/

/-- The parts between the occurrences of a character. -/
def splitChars (separator : Char) : List Char → List (List Char)
  | [] => [[]]
  | c :: rest =>
    if c = separator then [] :: splitChars separator rest
    else attach c (splitChars separator rest)

/-- The parts between the occurrences of a character. -/
def parts (separator : Char) (text : String) : List String :=
  (splitChars separator text.toList).map String.ofList

/-- What stands in front of the first occurrence of a character, and what stands behind it. -/
def cutChars? (separator : Char) : List Char → Option (List Char × List Char)
  | [] => none
  | c :: rest =>
    if c = separator then some ([], rest)
    else (cutChars? separator rest).map fun (left, right) => (c :: left, right)

/-- What stands in front of the first occurrence of a character, and what stands behind it. -/
def cut? (separator : Char) (text : String) : Option (String × String) :=
  (cutChars? separator text.toList).map fun (left, right) =>
    (String.ofList left, String.ofList right)

end Classwright.Text
