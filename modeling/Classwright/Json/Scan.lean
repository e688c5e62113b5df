/-
# Classwright.Json.Scan — from text to tokens

A token is a bracket, a separator or a scalar.  Where the text stops being JSON inside a token, the
token is `stray`, and it is the last one: nothing after it is looked at.  Whether that matters is
for the reader of the tokens to say, since a fault behind the first one that is found does not
count.

A text can go wrong in two ways: something stands there that must not, or the text ends too early.
A value that is read and a value that is only skipped over are held to slightly different rules:
skipping does not pair the halves of surrogate pairs, and it finds an unfinished number malformed
where reading finds it truncated.  A stray token therefore carries both verdicts.

White space is space, tab, line feed and carriage return, and stands between tokens only.  Numbers
have no leading zeros and no plus sign, strings no raw control characters below U+0020.

Each scanner returns what it found together with the rest of the text, and the rest is never longer
than what it was given; that is what the loop over the whole text ends by.
-/

namespace Classwright.Json

/-! ## Tokens -/

/-- The two ways in which a text fails to be JSON. -/
inductive Flaw where
  /-- Something stands where it must not. -/
  | malformed
  /-- The text ends too early. -/
  | truncated
  deriving DecidableEq, Repr

/-- The two kinds of brackets. -/
inductive Bracket where
  | square
  | curly
  deriving DecidableEq, Repr

/-- A number as it is spelled. -/
structure Numeral where
  negative : Bool
  /-- The digits in front of the point. -/
  whole : List Char
  /-- The digits after the point, if there is a point. -/
  fraction : Option (List Char)
  /-- The exponent, if there is one. -/
  exponent : Option Int
  deriving DecidableEq, Repr

/-- A piece of a JSON text. -/
inductive Token where
  | opening (bracket : Bracket)
  | closing (bracket : Bracket)
  | comma
  | colon
  | null
  | boolean (value : Bool)
  | number (numeral : Numeral)
  /-- A string; no text, if it holds half a surrogate pair. -/
  | string (text : Option String)
  /-- The text goes wrong in the token that starts with `lead`. -/
  | stray (lead : Char) (onRead onSkip : Flaw)
  deriving DecidableEq, Repr

/-! ## Words and white space -/

/-- May the character stand between tokens? -/
def isSpace (c : Char) : Bool :=
  c = ' ' || c = '\t' || c = '\n' || c = '\r'

/-- The text after the given characters. -/
def afterWord : List Char → List Char → Except Flaw (List Char)
  | [], text => .ok text
  | _ :: _, [] => .error .truncated
  | expected :: more, c :: text => if expected = c then afterWord more text else .error .malformed

theorem length_of_afterWord {word text rest : List Char} (h : afterWord word text = .ok rest) :
    rest.length ≤ text.length := by
  fun_induction afterWord word text with
  | case1 => cases h; exact Nat.le_refl _
  | case2 => cases h
  | case3 _ _ _ ih => exact Nat.le_succ_of_le (ih h)
  | case4 => cases h

/-! ## Strings -/

/-- A piece of a string: a character, or half of a surrogate pair. -/
inductive Piece where
  | char (c : Char)
  | leading (code : Nat)
  | trailing (code : Nat)
  deriving DecidableEq, Repr

/-- The piece that a sixteen-bit code stands for. -/
def Piece.ofCode (code : Nat) : Piece :=
  if 0xD800 ≤ code ∧ code ≤ 0xDBFF then .leading code
  else if 0xDC00 ≤ code ∧ code ≤ 0xDFFF then .trailing code
  else .char (Char.ofNat code)

/-- The characters of the pieces, if every half of a pair is directly followed by its other half. -/
def joinPieces : List Piece → Option (List Char)
  | [] => some []
  | .char c :: rest => (joinPieces rest).map (c :: ·)
  | .leading high :: .trailing low :: rest =>
    (joinPieces rest).map
      (Char.ofNat (0x10000 + (high - 0xD800) * 0x400 + (low - 0xDC00)) :: ·)
  | _ => none

/-- The pieces without a leading half at the very end, which text to come might complete. -/
def withoutOpenPair (pieces : List Piece) : List Piece :=
  match pieces.getLast? with
  | some (.leading _) => pieces.dropLast
  | _ => pieces

/-- The value of a hexadecimal digit. -/
def hexValue? (c : Char) : Option Nat :=
  if '0' ≤ c ∧ c ≤ '9' then some (c.toNat - '0'.toNat)
  else if 'a' ≤ c ∧ c ≤ 'f' then some (c.toNat - 'a'.toNat + 10)
  else if 'A' ≤ c ∧ c ≤ 'F' then some (c.toNat - 'A'.toNat + 10)
  else none

/-- The code that four hexadecimal digits stand for. -/
def hexCode? (digits : List Char) : Option Nat :=
  (digits.mapM hexValue?).map (·.foldl (fun code digit => 16 * code + digit) 0)

/-- What goes wrong when four hexadecimal digits are missing: the text is too short for them, or
other characters stand there.  An escape takes four bytes, so characters count by their length. -/
def codeFlaw (text : List Char) : Flaw :=
  if (String.ofList (text.take 4)).utf8ByteSize < 4 then .truncated else .malformed

/-- The character of a one-letter escape. -/
def shortEscape? (c : Char) : Option Char :=
  match c with
  | '"' => some '"'
  | '\\' => some '\\'
  | '/' => some '/'
  | 'b' => some '\x08'
  | 'f' => some '\x0c'
  | 'n' => some '\n'
  | 'r' => some '\r'
  | 't' => some '\t'
  | _ => none

/-- Put a piece in front of what the rest of a string holds. -/
def withPiece (piece : Piece) (found : List Piece × Except Flaw (List Char)) :
    List Piece × Except Flaw (List Char) :=
  (piece :: found.1, found.2)

/-- The pieces of a string whose opening quote has been read, and the text behind its closing quote
or what went wrong before that. -/
def stringBody : List Char → List Piece × Except Flaw (List Char)
  | [] => ([], .error .truncated)
  | '"' :: text => ([], .ok text)
  | ['\\'] => ([], .error .truncated)
  | '\\' :: 'u' :: a :: b :: c :: d :: text =>
    match hexCode? [a, b, c, d] with
    | some code => withPiece (.ofCode code) (stringBody text)
    | none => ([], .error (codeFlaw [a, b, c, d]))
  | '\\' :: 'u' :: text => ([], .error (codeFlaw text))
  | '\\' :: letter :: text =>
    match shortEscape? letter with
    | some c => withPiece (.char c) (stringBody text)
    | none => ([], .error .malformed)
  | c :: text =>
    if c.toNat < 0x20 then ([], .error .malformed) else withPiece (.char c) (stringBody text)

theorem length_of_stringBody {text rest : List Char} (h : (stringBody text).2 = .ok rest) :
    rest.length < text.length := by
  fun_induction stringBody text <;> simp_all [withPiece] <;> omega

/-! ## Numbers -/

/-- What is wrong with a number: on reading and on skipping. -/
abbrev NumberFlaw := Flaw × Flaw

/-- The flaw where a digit must follow and does not: the number is malformed, but at the end of the
text a number that is read counts as truncated. -/
def digitFlaw (text : List Char) : NumberFlaw :=
  (if text.isEmpty then .truncated else .malformed, .malformed)

/-- At least one digit, as many as there are. -/
def digits (text : List Char) : Except NumberFlaw (List Char × List Char) :=
  if (text.takeWhile Char.isDigit).isEmpty then .error (digitFlaw text)
  else .ok (text.takeWhile Char.isDigit, text.dropWhile Char.isDigit)

/-- The digits in front of the point: a single zero, or digits that start with another one. -/
def wholePart (text : List Char) : Except NumberFlaw (List Char × List Char) :=
  match text with
  | '0' :: d :: rest =>
    if d.isDigit then .error (.malformed, .malformed) else .ok (['0'], d :: rest)
  | _ => digits text

/-- The point and the digits after it, if there is a point. -/
def fractionPart (text : List Char) : Except NumberFlaw (Option (List Char) × List Char) :=
  match text with
  | '.' :: rest => (digits rest).map fun found => (some found.1, found.2)
  | _ => .ok (none, text)

/-- The integer that a sign and decimal digits stand for. -/
def exponentValue (negative : Bool) (ds : List Char) : Int :=
  let magnitude : Nat := ds.foldl (fun n d => 10 * n + (d.toNat - '0'.toNat)) 0
  if negative then -(magnitude : Int) else magnitude

/-- The exponent, if there is one. -/
def exponentPart (text : List Char) : Except NumberFlaw (Option Int × List Char) :=
  match text with
  | [] => .ok (none, [])
  | e :: rest =>
    if e = 'e' ∨ e = 'E' then
      let signed := match rest with
        | '-' :: more => (true, more)
        | '+' :: more => (false, more)
        | _ => (false, rest)
      (digits signed.2).map fun found => (some (exponentValue signed.1 found.1), found.2)
    else
      .ok (none, e :: rest)

/-- A number without its sign. -/
def magnitude (negative : Bool) (text : List Char) : Except NumberFlaw (Numeral × List Char) := do
  let (whole, text) ← wholePart text
  let (fraction, text) ← fractionPart text
  let (exponent, text) ← exponentPart text
  return (⟨negative, whole, fraction, exponent⟩, text)

theorem length_of_digits {text rest ds : List Char} (h : digits text = .ok (ds, rest)) :
    rest.length < text.length := by
  unfold digits at h
  split at h
  · cases h
  · rename_i found
    cases h
    have whole : (text.takeWhile Char.isDigit ++ text.dropWhile Char.isDigit).length =
        text.length := congrArg List.length List.takeWhile_append_dropWhile
    have : 0 < (text.takeWhile Char.isDigit).length :=
      List.length_pos_iff.mpr fun none => found (by rw [none]; rfl)
    simp only [List.length_append] at whole
    omega

theorem length_of_wholePart {text rest ds : List Char} (h : wholePart text = .ok (ds, rest)) :
    rest.length < text.length := by
  unfold wholePart at h
  split at h
  · split at h <;> cases h
    simp
  · exact length_of_digits h

theorem length_of_fractionPart {text rest : List Char} {ds : Option (List Char)}
    (h : fractionPart text = .ok (ds, rest)) : rest.length ≤ text.length := by
  unfold fractionPart at h
  split at h
  · rename_i more
    cases found : digits more with
    | error flaw => rw [found] at h; cases h
    | ok pair =>
      rw [found] at h
      cases h
      have := length_of_digits found
      simp only [List.length_cons]
      omega
  · cases h
    exact Nat.le_refl _

theorem length_of_exponentPart {text rest : List Char} {exponent : Option Int}
    (h : exponentPart text = .ok (exponent, rest)) : rest.length ≤ text.length := by
  unfold exponentPart at h
  split at h
  · cases h
    exact Nat.le_refl _
  · rename_i e more
    split at h
    · dsimp only at h
      generalize signedEq : (match more with
        | '-' :: more => (true, more)
        | '+' :: more => (false, more)
        | _ => (false, more)) = signed at h
      have shorter : signed.2.length ≤ more.length := by
        subst signedEq
        split <;> simp
      cases found : digits signed.2 with
      | error flaw => rw [found] at h; cases h
      | ok pair =>
        rw [found] at h
        cases h
        have := length_of_digits found
        simp only [List.length_cons]
        omega
    · cases h
      exact Nat.le_refl _

theorem length_of_magnitude {negative : Bool} {text rest : List Char} {numeral : Numeral}
    (h : magnitude negative text = .ok (numeral, rest)) : rest.length < text.length := by
  unfold magnitude at h
  cases first : wholePart text with
  | error flaw => rw [first] at h; cases h
  | ok one =>
    cases second : fractionPart one.2 with
    | error flaw => simp [first, second, bind, Except.bind] at h
    | ok two =>
      cases third : exponentPart two.2 with
      | error flaw => simp [first, second, third, bind, Except.bind] at h
      | ok three =>
        simp only [first, second, third, bind, Except.bind, pure, Except.pure, Except.ok.injEq,
          Prod.mk.injEq] at h
        obtain ⟨_, rfl⟩ := h
        have := length_of_wholePart first
        have := length_of_fractionPart second
        have := length_of_exponentPart third
        omega

/-! ## Tokens -/

/-- A token and the text behind it; no text, if the token is stray. -/
abbrev Scanned (text : List Char) :=
  Token × Option { rest : List Char // rest.length ≤ text.length }

/-- A token that is the given word, of which the first character has been read. -/
def wordToken (lead : Char) (word : List Char) (token : Token) (text : List Char) : Scanned text :=
  match h : afterWord word text with
  | .ok rest => (token, some ⟨rest, length_of_afterWord h⟩)
  | .error flaw => (.stray lead flaw flaw, none)

/-- A string of which the opening quote has been read. -/
def stringToken (text : List Char) : Scanned text :=
  let pieces := (stringBody text).1
  match h : (stringBody text).2 with
  | .ok rest =>
    (.string ((joinPieces pieces).map String.ofList),
      some ⟨rest, Nat.le_of_lt (length_of_stringBody h)⟩)
  | .error flaw =>
    let onRead := if (joinPieces (withoutOpenPair pieces)).isNone then .malformed else flaw
    (.stray '"' onRead flaw, none)

/-- A number of which the minus sign has been read. -/
def negativeToken (text : List Char) : Scanned text :=
  match h : magnitude true text with
  | .ok (numeral, rest) => (.number numeral, some ⟨rest, Nat.le_of_lt (length_of_magnitude h)⟩)
  | .error (onRead, onSkip) => (.stray '-' onRead onSkip, none)

/-- A number without a sign, of which the first character is `lead`. -/
def positiveToken (lead : Char) (text : List Char) : Scanned text :=
  match h : magnitude false (lead :: text) with
  | .ok (numeral, rest) =>
    (.number numeral, some ⟨rest, Nat.le_of_lt_succ (length_of_magnitude h)⟩)
  | .error (onRead, onSkip) => (.stray lead onRead onSkip, none)

/-- The token that starts with the character `lead`, which is no white space. -/
def scanToken (lead : Char) (text : List Char) : Scanned text :=
  let single (token : Token) : Scanned text := (token, some ⟨text, Nat.le_refl _⟩)
  match lead with
  | '[' => single (.opening .square)
  | ']' => single (.closing .square)
  | '\x7b' => single (.opening .curly)
  | '\x7d' => single (.closing .curly)
  | ',' => single .comma
  | ':' => single .colon
  | 'n' => wordToken lead ['u', 'l', 'l'] .null text
  | 't' => wordToken lead ['r', 'u', 'e'] (.boolean true) text
  | 'f' => wordToken lead ['a', 'l', 's', 'e'] (.boolean false) text
  | '"' => stringToken text
  | '-' => negativeToken text
  | _ => if lead.isDigit then positiveToken lead text else (.stray lead .malformed .malformed, none)

/-- The tokens of a text, up to and with the first stray one. -/
def scan : List Char → List Token
  | [] => []
  | c :: text =>
    if isSpace c then scan text
    else
      match scanToken c text with
      | (token, some ⟨rest, _⟩) => token :: scan rest
      | (token, none) => [token]
termination_by text => text.length
decreasing_by
  · exact Nat.lt_succ_self _
  · rename_i le
    exact Nat.lt_succ_of_le le

/-- The tokens of a text. -/
def tokens (text : String) : List Token := scan text.toList

end Classwright.Json
