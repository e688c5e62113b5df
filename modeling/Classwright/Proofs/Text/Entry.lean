/-
# Classwright.Proofs.Text.Entry — literals in lines of source

Generated source keeps each JSON key in a line of its own: an opening, a name, and the key as a
literal behind it.  Such a line is read from left to right, and what is read is what was written.

In source there is more behind a literal, so the body has to tell where it ends.  It does: whatever
comes behind the closing quote, a reader stops there and has the text.  No escape sequence takes in
what follows it, since hexadecimal digits are closed by a brace, and octal digits, which are read
greedily, are three already.

The languages of a dialect know more sequences than it writes, each language its own.  Literals do
not depend on these: they are read alike with nothing but the sequences of the dialect
(`EscapeDialect.readEscape`).
-/

import Classwright.Language
import Classwright.Proofs.Text.Lines
import Classwright.Proofs.Text.Literal

namespace Classwright.Text

/-! ## Lines that hold a literal -/

theorem isBody_append {cs others : List Char} (before : isBody cs) (behind : isBody others) :
    isBody (cs ++ others) := by
  fun_induction isBody cs with
  | case1 => exact behind
  | case2 c rest ih =>
      rw [Bool.and_eq_true] at before
      rw [List.cons_append, List.cons_append, isBody, Bool.and_eq_true]
      exact ⟨before.1, ih before.2⟩
  | case3 c rest _ ih =>
      rw [Bool.and_eq_true, Bool.and_eq_true] at before
      have own : c ≠ '\\' := bne_iff_ne.mp before.1.2
      rw [List.cons_append, isBody, Bool.and_eq_true, Bool.and_eq_true]
      · exact ⟨before.1, ih before.2⟩
      · exact fun _ _ same _ => own same

theorem isBody_escapeChar (dialect : EscapeDialect) (c : Char) : isBody (escapeChar dialect c) := by
  rcases escapeChar_cases dialect c with
    ⟨letter, short, eq⟩ | ⟨control, code, _, is, eq⟩ | ⟨eq, quote, backslash, visible, noDelete⟩
  · have facts : ∀ entry ∈ shortEscapes, isBody ['\\', entry.2] := by decide
    rw [eq]
    exact facts _ short
  · have facts : ∀ code < 0xA0, isBody (escapeControl dialect (Char.ofNat code)) := by
      cases dialect <;> decide +kernel
    have small : c.toNat < 0xA0 := by
      simp [isControl] at control
      omega
    have own := facts c.toNat small
    rwa [Char.ofNat_toNat, is, ← eq] at own
  · rw [eq]
    simp [isBody, isPlainChar, isPrintable, quote, backslash, visible, noDelete]

theorem isBody_of_isWord {text : String} (word : IsWord text) : isBody text.toList := by
  rw [IsWord] at word
  generalize text.toList = cs at word ⊢
  induction cs with
  | nil => rfl
  | cons c cs ih =>
      rw [List.forall_mem_cons] at word
      have plain := isPlainChar_of_isIdentifierPart word.1
      have other : c ≠ '\\' := by
        rintro rfl
        exact absurd word.1 (by decide)
      have own : isBody [c] := by simp [isBody, plain, other]
      exact isBody_append own (ih word.2)

/-- A key cannot get out of its literal. -/
theorem isBody_literalBody (dialect : EscapeDialect) (text : String) :
    isBody (literalBody dialect text).toList := by
  rw [literalBody, String.toList_ofList, escapeChars]
  induction text.toList with
  | nil => rfl
  | cons c cs ih => exact isBody_append (isBody_escapeChar dialect c) ih

/-- A line with a literal, where the quotes are written together with what is next to them. -/
theorem IsTidy.of_literal {front leading body closing : String} {before behind : List Char}
    (opens : leading = String.ofList (before ++ ['"']))
    (closes : closing = String.ofList ('"' :: behind)) (own : IsPlain front)
    (plain : before.all isPlainChar ∧ behind.all isPlainChar) (inside : isBody body.toList) :
    IsTidy (front ++ leading ++ body ++ closing) := by
  have eq : front ++ leading ++ body ++ closing =
      (front ++ String.ofList before) ++ "\"" ++ body ++ "\"" ++ String.ofList behind := by
    have quote : "\"".toList = ['"'] := String.toList_ofList
    rw [← String.toList_inj]
    simp [opens, closes, quote, String.toList_append]
  rw [eq]
  exact .literal (own.append (.literal plain.1)) inside (.literal plain.2)

/-! ## Readers -/

/-- Read what stands behind the opening of a line. -/
def readLine {α : Type} (opening : String) (read : List Char → Option α) (line : String) :
    Option α :=
  (opening.toList.isPrefixOf? line.toList).bind read

/-- Read a name, what leads to a literal, the literal, and what closes the line. -/
def readEntry (escape : EscapeReader) (leading closing : String) (cs : List Char) :
    Option (String × String) :=
  ((leading.toList.isPrefixOf? (cs.dropWhile isIdentifierPart)).bind (readLiteral escape)).bind
    fun (own, rest) =>
      if rest = closing.toList then
        some (String.ofList (cs.takeWhile isIdentifierPart), String.ofList own)
      else none

theorem readLine_append {α : Type} (opening : String) (read : List Char → Option α)
    (rest : String) : readLine opening read (opening ++ rest) = read rest.toList := by
  rw [readLine, String.toList_append, List.isPrefixOf?_eq_some_iff_append_eq.mpr rfl]
  rfl

theorem readLine_eq_none {α : Type} {opening line : String} (read : List Char → Option α)
    (departs : Departs opening.toList line) : readLine opening read line = none := by
  rw [readLine, Option.bind_eq_none_iff]
  intro rest begins
  have eq := List.isPrefixOf?_eq_some_iff_append_eq.mp begins
  exact absurd (eq ▸ List.prefix_append _ rest) departs.not_prefix.1

variable {escape : EscapeReader} {dialect : EscapeDialect}

/-- A line reads as the name and the text that it was written for. -/
theorem readEntry_append (understands : Understands escape dialect) {name leading : String}
    (word : IsWord name) (gap : ∃ c ∈ leading.toList.head?, isIdentifierPart c = false)
    (key closing : String) :
    readEntry escape leading closing
        (name ++ leading ++ literalBody dialect key ++ "\"" ++ closing).toList =
      some (name, key) := by
  obtain ⟨c, head, other⟩ := gap
  rw [Option.mem_def, List.head?_eq_some_iff] at head
  obtain ⟨more, eq⟩ := head
  have quote : "\"".toList = ['"'] := String.toList_ofList
  have whole : (name ++ leading ++ literalBody dialect key ++ "\"" ++ closing).toList =
      name.toList ++ (leading.toList ++
        (escapeChars dialect key.toList ++ '"' :: closing.toList)) := by
    simp [String.toList_append, literalBody, quote]
  have behind : (name.toList ++ (leading.toList ++
      (escapeChars dialect key.toList ++ '"' :: closing.toList))).dropWhile isIdentifierPart =
        leading.toList ++ (escapeChars dialect key.toList ++ '"' :: closing.toList) := by
    rw [List.dropWhile_append_of_pos word, eq, List.cons_append, List.dropWhile_cons_of_neg]
    simp [other]
  have own : (name.toList ++ (leading.toList ++
      (escapeChars dialect key.toList ++ '"' :: closing.toList))).takeWhile isIdentifierPart =
        name.toList := by
    rw [List.takeWhile_append_of_pos word, eq, List.cons_append, List.takeWhile_cons_of_neg,
      List.append_nil]
    simp [other]
  rw [readEntry, whole, behind, own, List.isPrefixOf?_eq_some_iff_append_eq.mpr rfl,
    Option.bind_some, readLiteral_escapeChars understands]
  simp

/-- In a whole line the margin belongs to the opening and the closing quote to the end. -/
theorem line_eq {margin front leading ending opening closing : String}
    (opens : opening = margin ++ front) (ends : ending = "\"" ++ closing) (name body : String) :
    margin ++ (front ++ name ++ leading ++ body ++ ending) =
      opening ++ (name ++ leading ++ body ++ "\"" ++ closing) := by
  rw [opens, ends]
  simp only [String.append_assoc]

theorem readLine_entry (understands : Understands escape dialect)
    {margin front name leading ending opening closing : String} (opens : opening = margin ++ front)
    (ends : ending = "\"" ++ closing) (word : IsWord name)
    (gap : ∃ c ∈ leading.toList.head?, isIdentifierPart c = false) (key : String) :
    readLine opening (readEntry escape leading closing)
        (margin ++ (front ++ name ++ leading ++ literalBody dialect key ++ ending)) =
      some (name, key) := by
  rw [line_eq opens ends, readLine_append]
  exact readEntry_append understands word gap key closing

end Classwright.Text

/-! ## Where a literal ends -/

namespace Classwright

namespace Text

variable {dialect : EscapeDialect} {escape : EscapeReader}

/-- The escape sequences that the dialect writes: those of one letter, and a number, in braces or in
up to three octal digits, as many as there are. -/
def EscapeDialect.readEscape : EscapeDialect → EscapeReader
  | .braced => readShort (shortEscapes.map Prod.swap) readBraced
  | .octal => readShort (shortEscapes.map Prod.swap) (readOctal 3)

theorem EscapeDialect.understands (dialect : EscapeDialect) :
    Understands dialect.readEscape dialect := by
  cases dialect with
  | braced => exact .braced (by decide) (by decide)
  | octal => exact .octal (by decide) (by decide) fun _ ascii => readOctal_octalDigits ascii

theorem readLiteral_literalBody (understands : Understands escape dialect) (text : String)
    (rest : List Char) :
    readLiteral escape ((literalBody dialect text).toList ++ '"' :: rest) =
      some (text.toList, rest) := by
  rw [literalBody, String.toList_ofList, readLiteral_escapeChars understands]

/-- What is read from a body is its text, so no two texts share a body. -/
theorem literalBody_injective (dialect : EscapeDialect) :
    Function.Injective (literalBody dialect) := by
  intro text other same
  have own := readLiteral_literalBody dialect.understands text []
  rw [same, readLiteral_literalBody dialect.understands other []] at own
  exact String.toList_inj.mp (Prod.ext_iff.mp (Option.some.inj own)).1.symm

end Text

open Text (EscapeDialect EscapeReader Understands readLiteral literalBody)

/-- The dialect that literals of the language are written in. -/
def Language.dialect : Language → EscapeDialect
  | .swift => .braced
  | .objectiveC | .java => .octal

/-- The escape sequences of the language. -/
def Language.readEscape : Language → EscapeReader
  | .swift => Swift.readEscape
  | .objectiveC => ObjectiveC.readEscape
  | .java => Java.readEscape

theorem Language.understands (language : Language) :
    Understands language.readEscape language.dialect := by
  cases language with
  | swift => exact Swift.understands_braced
  | objectiveC => exact ObjectiveC.understands_octal
  | java => exact Java.understands_octal

/-- The body of a literal, with a closing quote and anything behind it, is read as the text that it
was written for, up to exactly that quote — by the rules of the dialect alone, and by those of each
language that uses it.  So no two texts have the same body.  A body holds no line break, no control
character below the blank, and no delete character, whatever the text holds. -/
theorem literals_delimit_themselves :
    (∀ (dialect : EscapeDialect) text rest,
      readLiteral dialect.readEscape ((literalBody dialect text).toList ++ '"' :: rest) =
        some (text.toList, rest)) ∧
    (∀ (language : Language) text rest,
      readLiteral language.readEscape ((literalBody language.dialect text).toList ++ '"' :: rest) =
        some (text.toList, rest)) ∧
    (∀ dialect, Function.Injective (literalBody dialect)) ∧
    ∀ dialect text, ∀ c ∈ (literalBody dialect text).toList,
      c ≠ '\n' ∧ c ≠ '\r' ∧ 0x20 ≤ c.toNat ∧ c.toNat ≠ 0x7F := by
  refine ⟨fun dialect => Text.readLiteral_literalBody dialect.understands,
    fun language => Text.readLiteral_literalBody language.understands,
    Text.literalBody_injective, fun dialect text c among => ?_⟩
  have printable := Text.isPrintable_of_isBody (Text.isBody_literalBody dialect text) c among
  rw [Text.isPrintable, Bool.and_eq_true, decide_eq_true_eq, bne_iff_ne] at printable
  refine ⟨?_, ?_, printable⟩
  all_goals
    rintro rfl
    exact absurd printable.1 (by decide)

/-- A digit behind an escape sequence is left out of it, and the next literal is not touched. -/
example : readLiteral EscapeDialect.octal.readEscape
    ((literalBody .octal "\x1b7\"").toList ++ "\" @\"\"".toList) =
      some (['\x1b', '7', '"'], [' ', '@', '"', '"']) := by
  cbv

end Classwright
