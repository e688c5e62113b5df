/-
# Classwright.Proofs.Text.Literal — literals read back as the texts they hold

A literal is read as the target languages read it, from the first character of its body on: up to
the closing quote, with escape sequences taken for the characters that they stand for, and nothing
if a line ends on the way.  The languages share all but the escape sequences, so the reader takes
them as a parameter.  A reader of escape sequences here knows the short ones and those by number, as
far as each stands for one character; what it knows it reads as the language does.
-/

import Classwright.Json.Scan
import Classwright.Text.Literal
import Classwright.Text.Words

namespace Classwright.Text

/-! ## Readers -/

/-- Reads an escape sequence behind its backslash: the character that it stands for, and what
follows the sequence. -/
abbrev EscapeReader := List Char → Option (Char × List Char)

/-- What was read, with one character more in front of it. -/
def withChar (c : Char) (found : Option (List Char × List Char)) :
    Option (List Char × List Char) :=
  found.map fun (own, rest) => (c :: own, rest)

/-- Read the body of a literal: the characters that it holds, and what follows the closing quote. -/
def readLiteral (escape : EscapeReader) (cs : List Char) : Option (List Char × List Char) :=
  match cs with
  | [] => none
  | c :: rest =>
    if c = '"' then some ([], rest)
    else if c = '\n' ∨ c = '\r' then none
    else if c = '\\' then
      match escape rest with
      | none => none
      | some (own, after) =>
        if after.length < rest.length then withChar own (readLiteral escape after) else none
    else withChar c (readLiteral escape rest)
termination_by cs.length
decreasing_by all_goals simp_all only [List.length_cons]; omega

/-- Escape sequences of one letter, and others for which they do not suffice. -/
def readShort (table : List (Char × Char)) (others : EscapeReader) : EscapeReader
  | [] => none
  | letter :: rest =>
    match table.lookup letter with
    | some own => some (own, rest)
    | none => others (letter :: rest)

/-- Is the character an octal digit? -/
def isOctalDigit (c : Char) : Bool := '0' ≤ c && c ≤ '7'

/-- As many octal digits as there are, but not more than `most`. -/
def readOctal (most : Nat) : EscapeReader := fun cs =>
  match (cs.take most).takeWhile isOctalDigit with
  | [] => none
  | digits => some (Char.ofNat (Nat.ofDigitChars 8 digits 0), cs.drop digits.length)

/-- One to eight hexadecimal digits in braces behind a letter. -/
def readBraced : EscapeReader
  | 'u' :: '\x7b' :: rest =>
    match cutChars? '\x7d' rest with
    | none => none
    | some (digits, after) =>
      match Json.hexCode? digits with
      | none => none
      | some code =>
        if 1 ≤ digits.length ∧ digits.length ≤ 8 ∧ code.isValidChar then
          some (Char.ofNat code, after)
        else none
  | _ => none

end Classwright.Text

namespace Classwright

open Text (EscapeReader readShort readOctal readBraced)

/-- Escape sequences in Swift. -/
def Swift.readEscape : EscapeReader :=
  readShort [('0', '\x00'), ('\\', '\\'), ('t', '\t'), ('n', '\n'), ('r', '\r'), ('"', '"'),
    ('\'', '\'')] readBraced

/-- Escape sequences in C.  A number stands for a byte, which is a character only if it is ASCII. -/
def ObjectiveC.readEscape : EscapeReader :=
  readShort [('\'', '\''), ('"', '"'), ('?', '?'), ('\\', '\\'), ('a', '\x07'), ('b', '\x08'),
    ('f', '\x0c'), ('n', '\n'), ('r', '\r'), ('t', '\t'), ('v', '\x0b')]
    fun cs => (readOctal 3 cs).filter fun found => found.1.toNat < 0x80

/-- Escape sequences in Java.  Three digits are read only if the number then fits into a byte. -/
def Java.readEscape : EscapeReader :=
  readShort [('b', '\x08'), ('s', ' '), ('t', '\t'), ('n', '\n'), ('f', '\x0c'), ('r', '\r'),
    ('"', '"'), ('\'', '\''), ('\\', '\\')]
    fun cs => readOctal (if cs.head?.any (· ≤ '3') then 3 else 2) cs

end Classwright

namespace Classwright.Text

/-! ## Reading what was escaped -/

/-- The escape sequences of one letter, each with the character that it stands for. -/
def shortEscapes : List (Char × Char) :=
  [('\\', '\\'), ('"', '"'), ('\n', 'n'), ('\r', 'r'), ('\t', 't')]

/-- The reader reads every escape sequence of the dialect as the character it was written for. -/
structure Understands (escape : EscapeReader) (dialect : EscapeDialect) : Prop where
  short : ∀ c letter, (c, letter) ∈ shortEscapes → ∀ rest, escape (letter :: rest) = some (c, rest)
  control : ∀ c code, isControl c → escapeControl dialect c = '\\' :: code →
    ∀ rest, escape (code ++ rest) = some (c, rest)

variable {dialect : EscapeDialect} {escape : EscapeReader}

/-- A character is spelled by a letter, by a number or by itself, and then it can be seen and is
none of those that mean something inside a literal. -/
theorem escapeChar_cases (dialect : EscapeDialect) (c : Char) :
    (∃ letter, (c, letter) ∈ shortEscapes ∧ escapeChar dialect c = ['\\', letter]) ∨
      (isControl c ∧ ∃ code, code ≠ [] ∧ escapeControl dialect c = '\\' :: code ∧
        escapeChar dialect c = '\\' :: code) ∨
      (escapeChar dialect c = [c] ∧ c ≠ '"' ∧ c ≠ '\\' ∧ 0x20 ≤ c.toNat ∧ c.toNat ≠ 0x7F) := by
  by_cases backslash : c = '\\'
  · exact .inl ⟨'\\', by simp [shortEscapes, backslash], by simp [escapeChar, backslash]⟩
  by_cases quote : c = '"'
  · exact .inl ⟨'"', by simp [shortEscapes, quote], by simp [escapeChar, quote]⟩
  by_cases lineFeed : c = '\n'
  · exact .inl ⟨'n', by simp [shortEscapes, lineFeed], by simp [escapeChar, lineFeed]⟩
  by_cases carriageReturn : c = '\r'
  · exact .inl ⟨'r', by simp [shortEscapes, carriageReturn], by simp [escapeChar, carriageReturn]⟩
  by_cases tab : c = '\t'
  · exact .inl ⟨'t', by simp [shortEscapes, tab], by simp [escapeChar, tab]⟩
  have spelling : escapeChar dialect c = if isControl c then escapeControl dialect c else [c] := by
    simp only [escapeChar, backslash, quote, lineFeed, carriageReturn, tab, if_false]
  right
  rw [spelling]
  split
  · next control =>
    cases dialect with
    | braced => exact .inl ⟨control, _, by simp, rfl, rfl⟩
    | octal =>
        by_cases ascii : c.toNat < 0x80
        · have code : escapeControl .octal c = '\\' :: octalDigits c.toNat := if_pos ascii
          exact .inl ⟨control, _, by simp [octalDigits], code, code⟩
        · exact .inr ⟨if_neg ascii, quote, backslash, by omega, by omega⟩
  · next other =>
    simp only [isControl, Bool.or_eq_true, Bool.and_eq_true, decide_eq_true_eq] at other
    exact .inr ⟨rfl, quote, backslash, by omega, by omega⟩

/-- A sequence that is read stands for its character. -/
theorem readLiteral_escape {c : Char} {code rest : List Char} (filled : code ≠ [])
    (read : escape (code ++ rest) = some (c, rest)) :
    readLiteral escape ('\\' :: code ++ rest) = withChar c (readLiteral escape rest) := by
  have longer : rest.length < (code ++ rest).length := by
    have := List.length_pos_iff.mpr filled
    rw [List.length_append]
    omega
  rw [List.cons_append, readLiteral, if_neg (by decide), if_neg (by decide), if_pos rfl, read]
  exact if_pos longer

theorem readLiteral_escapeChar (understands : Understands escape dialect) (c : Char)
    (rest : List Char) :
    readLiteral escape (escapeChar dialect c ++ rest) = withChar c (readLiteral escape rest) := by
  rcases escapeChar_cases dialect c with
    ⟨letter, short, eq⟩ | ⟨control, code, filled, is, eq⟩ | ⟨eq, quote, backslash, visible, _⟩
  · rw [eq]
    exact readLiteral_escape (List.cons_ne_nil letter []) (understands.short c letter short rest)
  · rw [eq]
    exact readLiteral_escape filled (understands.control c code control is rest)
  · have sameLine : ¬ (c = '\n' ∨ c = '\r') := by
      rintro (rfl | rfl)
      all_goals exact absurd visible (by decide)
    rw [eq, List.singleton_append, readLiteral, if_neg quote, if_neg sameLine, if_neg backslash]

/-- Reading a literal stops at the closing quote and gives the text back. -/
theorem readLiteral_escapeChars (understands : Understands escape dialect) (cs rest : List Char) :
    readLiteral escape (escapeChars dialect cs ++ '"' :: rest) = some (cs, rest) := by
  induction cs with
  | nil =>
      show readLiteral escape ('"' :: rest) = _
      rw [readLiteral, if_pos rfl]
  | cons c cs ih =>
      show readLiteral escape ((escapeChar dialect c ++ escapeChars dialect cs) ++ '"' :: rest) = _
      rw [List.append_assoc, readLiteral_escapeChar understands, ih]
      rfl

theorem cutChars?_append {separator : Char} {front : List Char} (apart : separator ∉ front)
    (rest : List Char) : cutChars? separator (front ++ separator :: rest) = some (front, rest) := by
  induction front with
  | nil => simp [cutChars?]
  | cons c front ih =>
      rw [List.mem_cons, not_or] at apart
      rw [List.cons_append, cutChars?, if_neg (Ne.symm apart.1), ih apart.2]
      rfl

/-- Three octal digits are read as the number that they were written for. -/
theorem readOctal_octalDigits {code : Nat} (ascii : code < 0x80) (rest : List Char) :
    readOctal 3 (octalDigits code ++ rest) = some (Char.ofNat code, rest) := by
  have facts : ∀ code < 0x80, (octalDigits code).takeWhile isOctalDigit = octalDigits code ∧
      Nat.ofDigitChars 8 (octalDigits code) 0 = code := by decide +kernel
  obtain ⟨all, value⟩ := facts code ascii
  have front : (octalDigits code ++ rest).take 3 = octalDigits code := rfl
  have back : (octalDigits code ++ rest).drop 3 = rest := rfl
  rw [readOctal, front, all]
  show some (Char.ofNat (Nat.ofDigitChars 8 (octalDigits code) 0), List.drop 3 _) = _
  rw [value, back]

/-- Only ASCII is escaped by number in the octal dialect, so the first digit is a zero or a one. -/
theorem exists_octalDigits {c : Char} {code : List Char} (control : isControl c)
    (is : escapeControl .octal c = '\\' :: code) :
    c.toNat < 0x80 ∧ code = octalDigits c.toNat ∧ ∃ first more,
      code = first :: more ∧ (first = '0' ∨ first = '1') := by
  rw [escapeControl] at is
  split at is
  · next ascii =>
    cases is
    refine ⟨ascii, rfl, _, _, rfl, ?_⟩
    have digit : c.toNat / 64 % 8 = 0 ∨ c.toNat / 64 % 8 = 1 := by omega
    rcases digit with zero | one
    · exact .inl (by rw [zero]; rfl)
    · exact .inr (by rw [one]; rfl)
  · cases is
    cases control

/-! ## Readers that know some escape sequences of one letter -/

section Tables

variable {table : List (Char × Char)} {others : EscapeReader}

theorem readShort_short (lists : ∀ entry ∈ shortEscapes, table.lookup entry.2 = some entry.1)
    (c letter : Char) (short : (c, letter) ∈ shortEscapes) (rest : List Char) :
    readShort table others (letter :: rest) = some (c, rest) := by
  rw [readShort, lists _ short]

theorem readShort_of_lookup {letter : Char} {rest : List Char}
    (unknown : table.lookup letter = none) :
    readShort table others (letter :: rest) = others (letter :: rest) := by
  rw [readShort, unknown]

/-- It is enough to read the numbers in three octal digits that the first two digits open. -/
theorem Understands.octal (lists : ∀ entry ∈ shortEscapes, table.lookup entry.2 = some entry.1)
    (unknown : table.lookup '0' = none ∧ table.lookup '1' = none)
    (reads : ∀ code < 0x80, ∀ rest,
      others (octalDigits code ++ rest) = some (Char.ofNat code, rest)) :
    Understands (readShort table others) .octal where
  short := readShort_short lists
  control c code control is rest := by
    obtain ⟨ascii, rfl, first, more, eq, digit⟩ := exists_octalDigits control is
    have read := reads c.toNat ascii rest
    rw [Char.ofNat_toNat, eq, List.cons_append] at read
    rw [eq, List.cons_append, readShort_of_lookup, read]
    rcases digit with rfl | rfl
    · exact unknown.1
    · exact unknown.2

/-- Hexadecimal digits in braces are read as the number that they were written for. -/
theorem Understands.braced (lists : ∀ entry ∈ shortEscapes, table.lookup entry.2 = some entry.1)
    (unknown : table.lookup 'u' = none) : Understands (readShort table readBraced) .braced where
  short := readShort_short lists
  control c code control is rest := by
    have facts : ∀ code < 0xA0, '\x7d' ∉ Nat.toDigits 16 code ∧
        Json.hexCode? (Nat.toDigits 16 code) = some code ∧
        1 ≤ (Nat.toDigits 16 code).length ∧ (Nat.toDigits 16 code).length ≤ 8 ∧
        code.isValidChar := by decide +kernel
    have small : c.toNat < 0xA0 := by
      simp [isControl] at control
      omega
    obtain ⟨apart, value, least, most, valid⟩ := facts c.toNat small
    cases is
    show readShort table readBraced
      ('u' :: '\x7b' :: ((Nat.toDigits 16 c.toNat ++ ['\x7d']) ++ rest)) = _
    rw [List.append_assoc, List.singleton_append, readShort_of_lookup unknown, readBraced,
      cutChars?_append apart]
    simp only [value, least, most, valid, Char.ofNat_toNat, and_self, if_true]

end Tables

end Classwright.Text

namespace Classwright

open Text (Understands octalDigits)

theorem Java.understands_octal : Understands Java.readEscape .octal := by
  refine .octal (by decide) (by decide) fun code ascii rest => ?_
  -- two digits are left if the first is at most a three, and it is a zero or a one
  have first : ∀ code < 0x80, (octalDigits code).head?.any (· ≤ '3') := by decide +kernel
  have same : (octalDigits code ++ rest).head?.any (· ≤ '3') = true := first code ascii
  rw [same, if_pos rfl]
  exact Text.readOctal_octalDigits ascii rest

theorem ObjectiveC.understands_octal : Understands ObjectiveC.readEscape .octal := by
  refine .octal (by decide) (by decide) fun code ascii rest => ?_
  -- a number that is a character on its own is not refused
  have value : ∀ code < 0x80, (Char.ofNat code).toNat = code := by decide +kernel
  rw [Text.readOctal_octalDigits ascii rest, Option.filter_some, value code ascii,
    decide_eq_true ascii]
  rfl

theorem Swift.understands_braced : Understands Swift.readEscape .braced :=
  .braced (by decide) (by decide)

end Classwright
