/-
# Classwright.Proofs.Text.Lines — the lines of a text that was written edit by edit

Generated source is looked at line by line, so first of all each line that is written must come out
as one line of the text.  It does if it holds printable characters only (`IsTidy`).  `Block` says
of edits that every line in them has some property and that indentation ends where it started.
These predicates follow the way lines and edits are put together, so the proof that a piece of
source has them is the shape of the piece.

The lines that begin with some opening (`linesWith`) are found piece by piece.  A piece contributes
nothing if each of its lines departs from the opening, or stands at another level (`Quiet`).
-/

import Classwright.Proofs.Text.Identifier
import Classwright.Proofs.Text.Sheet
import Classwright.Text.Literal
import Classwright.Text.Words

namespace Classwright.Text

/-! ## What a line consists of -/

/-- Can the character be seen, or is it a space? -/
def isPrintable (c : Char) : Bool := 0x20 ≤ c.toNat && c.toNat != 0x7F

/-- Is the character printable, and does it open no literal? -/
def isPlainChar (c : Char) : Bool := isPrintable c && c != '"'

/-- A text put together from plain characters. -/
inductive IsPlain : String → Prop
  | literal {cs : List Char} (own : cs.all isPlainChar = true) : IsPlain (String.ofList cs)
  | append {front back : String} (before : IsPlain front) (behind : IsPlain back) :
      IsPlain (front ++ back)

/-- Is this the body of a literal, with an escaped character behind every backslash? -/
def isBody : List Char → Bool
  | [] => true
  | '\\' :: c :: rest => isPrintable c && isBody rest
  | c :: rest => isPlainChar c && c != '\\' && isBody rest

/-- A line is plain, or it holds one literal and is plain around it. -/
inductive IsTidy : String → Prop
  | plain {text : String} (own : IsPlain text) : IsTidy text
  | literal {front body back : String} (before : IsPlain front) (inside : isBody body.toList)
      (behind : IsPlain back) : IsTidy (front ++ "\"" ++ body ++ "\"" ++ back)

theorem isPlain_iff {text : String} : IsPlain text ↔ ∀ c ∈ text.toList, isPlainChar c := by
  constructor
  · intro plain
    induction plain with
    | literal own =>
        rw [String.toList_ofList]
        exact List.all_eq_true.mp own
    | append _ _ before behind =>
        rw [String.toList_append, List.forall_mem_append]
        exact ⟨before, behind⟩
  · intro own
    rw [← String.ofList_toList (s := text)]
    exact .literal (List.all_eq_true.mpr own)

theorem isPlainChar_of_isIdentifierPart {c : Char} (own : isIdentifierPart c) :
    isPlainChar c := by
  rw [isIdentifierPart, Bool.or_eq_true] at own
  rcases own with own | own
  · exact forall_alphanum (P := fun c => isPlainChar c) (by decide +kernel) own
  · rw [eq_of_beq own]
    decide

theorem IsWord.isPlain {text : String} (word : IsWord text) : IsPlain text :=
  isPlain_iff.mpr fun c among => isPlainChar_of_isIdentifierPart (word c among)

theorem isPlain_empty : IsPlain "" := @IsPlain.literal [] rfl

theorem IsPlain.intercalate {separator : String} {texts : List String} (between : IsPlain separator)
    (each : ∀ text ∈ texts, IsPlain text) : IsPlain (separator.intercalate texts) := by
  induction texts with
  | nil => exact isPlain_empty
  | cons text texts ih =>
      rw [List.forall_mem_cons] at each
      cases texts with
      | nil =>
          rw [String.intercalate_singleton]
          exact each.1
      | cons other texts =>
          rw [String.intercalate_cons_cons]
          exact (each.1.append between).append (ih each.2)

theorem isPrintable_of_isBody {cs : List Char} (body : isBody cs) : ∀ c ∈ cs, isPrintable c := by
  fun_induction isBody cs with
  | case1 => simp
  | case2 c rest ih =>
      rw [Bool.and_eq_true] at body
      simp only [List.forall_mem_cons]
      exact ⟨by decide, body.1, ih body.2⟩
  | case3 c rest _ ih =>
      simp only [Bool.and_eq_true, isPlainChar] at body
      exact List.forall_mem_cons.mpr ⟨body.1.1.1, ih body.2⟩

theorem IsTidy.printable {text : String} (tidy : IsTidy text) :
    ∀ c ∈ text.toList, isPrintable c := by
  have printable {own : String} (plain : IsPlain own) : ∀ c ∈ own.toList, isPrintable c := by
    intro c among
    have plain := isPlain_iff.mp plain c among
    rw [isPlainChar, Bool.and_eq_true] at plain
    exact plain.1
  cases tidy with
  | plain own => exact printable own
  | literal before inside behind =>
      simp only [String.toList_append, List.forall_mem_append]
      refine ⟨⟨⟨⟨printable before, ?_⟩, isPrintable_of_isBody inside⟩, ?_⟩, printable behind⟩
      all_goals
        intro c among
        rw [show "\"".toList = ['"'] from String.toList_ofList, List.mem_singleton] at among
        subst among
        decide

theorem IsTidy.lineFeed_notMem {text : String} (tidy : IsTidy text) : '\n' ∉ text.toList :=
  fun among => Bool.false_ne_true (tidy.printable _ among)

theorem IsWord.count_blank {text : String} (word : IsWord text) : text.toList.count ' ' = 0 :=
  List.count_eq_zero.mpr fun among => absurd (word ' ' among) (by decide)

/-! ## Where lines end -/

theorem attach_append (c : Char) {words : List (List Char)} (filled : words ≠ [])
    (others : List (List Char)) : attach c (words ++ others) = attach c words ++ others := by
  cases words with
  | nil => exact absurd rfl filled
  | cons word words => rfl

theorem attach_ne_nil (c : Char) (words : List (List Char)) : attach c words ≠ [] := by
  cases words <;> simp [attach]

theorem splitChars_ne_nil (separator : Char) (cs : List Char) : splitChars separator cs ≠ [] := by
  cases cs with
  | nil => simp [splitChars]
  | cons c rest =>
      rw [splitChars]
      split
      · simp
      · exact attach_ne_nil c _

theorem splitChars_append (separator : Char) (front back : List Char) :
    splitChars separator (front ++ separator :: back) =
      splitChars separator front ++ splitChars separator back := by
  induction front with
  | nil => simp [splitChars]
  | cons c front ih =>
      rw [List.cons_append, splitChars, splitChars]
      split
      · rw [ih, List.cons_append]
      · rw [ih, attach_append c (splitChars_ne_nil _ _)]

theorem splitChars_of_notMem {separator : Char} {cs : List Char} (apart : separator ∉ cs) :
    splitChars separator cs = [cs] := by
  induction cs with
  | nil => rfl
  | cons c cs ih =>
      rw [List.mem_cons, not_or] at apart
      rw [splitChars, if_neg (Ne.symm apart.1), ih apart.2]
      rfl

/-- The parts hold every character but the separators. -/
theorem flatten_splitChars (separator : Char) (cs : List Char) :
    (splitChars separator cs).flatten = cs.filter (· ≠ separator) := by
  induction cs with
  | nil => rfl
  | cons c cs ih =>
      rw [splitChars]
      split
      · next same => simpa [same] using ih
      · next other => rw [flatten_attach, ih, List.filter_cons_of_pos (by simpa using other)]

/-- A character that does not separate stands in one of the parts. -/
theorem exists_mem_parts {separator c : Char} {text : String} (among : c ∈ text.toList)
    (other : c ≠ separator) : ∃ part ∈ parts separator text, c ∈ part.toList := by
  have inside : c ∈ (splitChars separator text.toList).flatten := by
    rw [flatten_splitChars]
    exact List.mem_filter.mpr ⟨among, by simpa using other⟩
  obtain ⟨part, listed, own⟩ := List.mem_flatten.mp inside
  exact ⟨.ofList part, List.mem_map.mpr ⟨part, listed, rfl⟩, by rwa [String.toList_ofList]⟩

/-! ## Lines with an opening -/

/-- Does the line begin with the opening? -/
def begins (opening line : String) : Bool := opening.toList.isPrefixOf line.toList

/-- The lines of the text that begin with the opening. -/
def linesWith (opening text : String) : List String :=
  (parts '\n' text).filter (begins opening)

/-- The text consists of whole lines. -/
def IsWhole (text : String) : Prop := text = "" ∨ ∃ front, text = front ++ "\n"

variable {opening : String}

/-- What a text begins with does not depend on what comes behind it. -/
theorem prefix_append {start : List Char} {front : String} (starts : start <+: front.toList)
    (back : String) : start <+: (front ++ back).toList := by
  rw [String.toList_append]
  exact starts.trans (List.prefix_append _ _)

theorem not_begins_empty (filled : opening ≠ "") : begins opening "" = false := by
  rw [begins, Bool.eq_false_iff]
  intro starts
  have empty := List.prefix_nil.mp (List.isPrefixOf_iff_prefix.mp starts)
  exact filled (String.toList_inj.mp empty)

theorem parts_append (front back : String) :
    parts '\n' (front ++ "\n" ++ back) = parts '\n' front ++ parts '\n' back := by
  have eq : (front ++ "\n" ++ back).toList = front.toList ++ '\n' :: back.toList := by
    rw [String.toList_append, String.toList_append, List.append_assoc]
    rfl
  rw [parts, eq, splitChars_append, List.map_append]
  rfl

/-- What is read from a text, line by line. -/
def readLines {α : Type} (read : String → List α) (text : String) : List α :=
  (parts '\n' text).flatMap read

section ReadLines

variable {α : Type} {read : String → List α} (silent : read "" = [])

include silent

theorem readLines_empty : readLines read "" = [] := by
  show [""].flatMap read = []
  rw [List.flatMap_singleton, silent]

/-- Behind whole lines a text goes on as if nothing were in front. -/
theorem readLines_append {front : String} (whole : IsWhole front) (back : String) :
    readLines read (front ++ back) = readLines read front ++ readLines read back := by
  obtain rfl | ⟨front, rfl⟩ := whole
  · rw [readLines_empty silent, String.empty_append, List.nil_append]
  · have ends : readLines read (front ++ "\n") = readLines read front := by
      have eq := parts_append front ""
      rw [String.append_empty] at eq
      rw [readLines, eq, List.flatMap_append]
      show _ ++ readLines read "" = _
      rw [readLines_empty silent, List.append_nil]
      rfl
    rw [ends, readLines, parts_append, List.flatMap_append]
    rfl

theorem readLines_line {text : String} (one : '\n' ∉ text.toList) :
    readLines read (text ++ "\n") = read text := by
  have whole : IsWhole (text ++ "\n") := .inr ⟨text, rfl⟩
  have eq := parts_append text ""
  have own : parts '\n' text = [text] := by
    rw [parts, splitChars_of_notMem one, List.map_singleton, String.ofList_toList]
  rw [String.append_empty, own] at eq
  rw [readLines, eq, List.flatMap_append, List.flatMap_singleton]
  show _ ++ readLines read "" = _
  rw [readLines_empty silent, List.append_nil]

theorem readLines_emptyLine : readLines read "\n" = [] := by
  have eq := @readLines_line _ _ silent "" (by simp)
  rwa [String.empty_append, silent] at eq

end ReadLines

/-- The lines with a longer opening are among those with a shorter one. -/
theorem linesWith_filter {longer : String} (within : opening.toList <+: longer.toList)
    (text : String) : (linesWith opening text).filter (begins longer) = linesWith longer text := by
  rw [linesWith, List.filter_filter, linesWith]
  refine List.filter_congr fun line _ => ?_
  by_cases starts : begins longer line
  · have also : begins opening line :=
      List.isPrefixOf_iff_prefix.mpr (within.trans (List.isPrefixOf_iff_prefix.mp starts))
    rw [starts, also, Bool.and_self]
  · rw [Bool.not_eq_true] at starts
    rw [starts, Bool.false_and]

/-- The line, if it begins with the opening. -/
def lineWith (opening line : String) : List String := if begins opening line then [line] else []

theorem linesWith_eq_readLines (opening text : String) :
    linesWith opening text = readLines (lineWith opening) text := by
  unfold linesWith readLines
  induction parts '\n' text with
  | nil => rfl
  | cons line lines ih =>
      rw [List.filter_cons, List.flatMap_cons, ← ih, lineWith]
      split <;> rfl

theorem lineWith_empty (filled : opening ≠ "") : lineWith opening "" = [] := by
  rw [lineWith, not_begins_empty filled]
  rfl

theorem linesWith_empty (filled : opening ≠ "") : linesWith opening "" = [] := by
  rw [linesWith_eq_readLines]
  exact readLines_empty (lineWith_empty filled)

theorem linesWith_append (filled : opening ≠ "") {front : String} (whole : IsWhole front)
    (back : String) : linesWith opening (front ++ back) =
      linesWith opening front ++ linesWith opening back := by
  simp only [linesWith_eq_readLines]
  exact readLines_append (lineWith_empty filled) whole back

theorem linesWith_line (filled : opening ≠ "") {text : String} (one : '\n' ∉ text.toList) :
    linesWith opening (text ++ "\n") = if begins opening text then [text] else [] := by
  rw [linesWith_eq_readLines]
  exact readLines_line (lineWith_empty filled) one

theorem isWhole_emptyLine : IsWhole "\n" := .inr ⟨"", String.empty_append.symm⟩

theorem IsWhole.append {front back : String} (before : IsWhole front) (behind : IsWhole back) :
    IsWhole (front ++ back) := by
  obtain rfl | ⟨last, rfl⟩ := behind
  · rwa [String.append_empty]
  · exact .inr ⟨front ++ last, String.append_assoc.symm⟩

/-! ## Edits in blocks -/

/-- Every line of the edits, at its level, has the property, and the level ends where it started. -/
inductive Block (P : Nat → String → Prop) : Nat → List Edit → Prop
  | nil {level : Nat} : Block P level []
  | line {level : Nat} {text : String} {edits : List Edit} (own : P level text)
      (others : Block P level edits) : Block P level (.line text :: edits)
  | emptyLine {level : Nat} {edits : List Edit} (others : Block P level edits) :
      Block P level (.emptyLine :: edits)
  | indented {level : Nat} {body : List Edit} (inner : Block P (level + 1) body) :
      Block P level (indented body)
  | append {level : Nat} {edits others : List Edit} (before : Block P level edits)
      (behind : Block P level others) : Block P level (edits ++ others)

/-- What the edit tells by its line. -/
def Edit.told {α : Type} (told : String → List α) : Edit → List α
  | .line own => told own
  | _ => []

/-- Every line of the edits is tidy. -/
abbrev TidyBlock (level : Nat) (edits : List Edit) : Prop :=
  Block (fun _ text => IsTidy text) level edits

theorem levelAfter_append (level : Nat) (edits others : List Edit) :
    levelAfter level (edits ++ others) = levelAfter (levelAfter level edits) others :=
  List.foldl_append

theorem addedBy_append (unit : String) (level : Nat) (edits others : List Edit) :
    addedBy unit level (edits ++ others) =
      addedBy unit level edits ++ addedBy unit (levelAfter level edits) others := by
  induction edits generalizing level with
  | nil => exact String.empty_append.symm
  | cons edit edits ih =>
      rw [List.cons_append, addedBy, addedBy, ih, String.append_assoc]
      rfl

theorem addedBy_line (unit : String) (level : Nat) (text : String) :
    addedBy unit level [.line text] =
      (if text.isEmpty then "" else Edit.margin unit level ++ text) ++ "\n" := by
  show (if text.isEmpty then "\n" else Edit.margin unit level ++ text ++ "\n") ++ "" = _
  rw [String.append_empty]
  split
  · exact String.empty_append.symm
  · rfl

theorem addedBy_cons (unit : String) (level : Nat) (edit : Edit) (edits : List Edit) :
    addedBy unit level (edit :: edits) =
      addedBy unit level [edit] ++ addedBy unit (edit.levelAfter level) edits :=
  addedBy_append unit level [edit] edits

theorem addedBy_indented (unit : String) (level : Nat) (body : List Edit) :
    addedBy unit level (indented body) = addedBy unit (level + 1) body := by
  show "" ++ addedBy unit (level + 1) (body ++ [.dedent]) = _
  rw [String.empty_append, addedBy_append]
  exact String.append_empty

namespace Block

variable {P Q : Nat → String → Prop} {level : Nat} {edits others : List Edit} {unit : String}

theorem levelAfter_eq (block : Block P level edits) : levelAfter level edits = level := by
  induction block with
  | nil => rfl
  | line _ _ ih => exact ih
  | emptyLine _ ih => exact ih
  | @indented level body _ ih =>
      show levelAfter (level + 1) (body ++ [.dedent]) = level
      rw [levelAfter_append, ih]
      rfl
  | append _ _ before behind => rw [levelAfter_append, before, behind]

/-- A property of lines may be exchanged for another one that they have at the levels inside. -/
theorem mono_from {least : Nat} (block : Block P level edits) (from_ : least ≤ level)
    (implies : ∀ level text, least ≤ level → P level text → Q level text) :
    Block Q level edits := by
  induction block with
  | nil => exact .nil
  | line own _ ih => exact .line (implies _ _ from_ own) (ih from_)
  | emptyLine _ ih => exact .emptyLine (ih from_)
  | indented _ ih => exact .indented (ih (Nat.le_succ_of_le from_))
  | append _ _ before behind => exact .append (before from_) (behind from_)

theorem mono (block : Block P level edits) (implies : ∀ level text, P level text → Q level text) :
    Block Q level edits :=
  block.mono_from (Nat.zero_le level) fun level text _ => implies level text

theorem addedBy_append (block : Block P level edits) (others : List Edit) :
    addedBy unit level (edits ++ others) =
      addedBy unit level edits ++ addedBy unit level others := by
  rw [Text.addedBy_append, block.levelAfter_eq]

theorem isWhole (block : Block P level edits) : IsWhole (addedBy unit level edits) := by
  induction block with
  | nil => exact .inl rfl
  | line _ _ ih =>
      rw [addedBy_cons, addedBy_line]
      exact IsWhole.append (.inr ⟨_, rfl⟩) ih
  | emptyLine _ ih => exact isWhole_emptyLine.append ih
  | indented _ ih => rwa [addedBy_indented]
  | append before _ front back =>
      rw [before.addedBy_append]
      exact front.append back

/-- The line that a block begins with has the property. -/
theorem of_cons_line {text : String} (block : Block P level (.line text :: others)) :
    P level text := by
  generalize eq : Edit.line text :: others = whole at block
  induction block generalizing others with
  | nil => cases eq
  | line own _ _ =>
      cases eq
      exact own
  | emptyLine _ _ => cases eq
  | indented _ _ => cases eq
  | @append level edits more _ _ before behind =>
      cases edits with
      | nil => exact behind eq
      | cons edit edits =>
          cases eq
          exact before rfl

theorem linesWith_append (block : Block P level edits) (filled : opening ≠ "")
    (others : List Edit) :
    linesWith opening (addedBy unit level (edits ++ others)) =
      linesWith opening (addedBy unit level edits) ++
        linesWith opening (addedBy unit level others) := by
  rw [block.addedBy_append, Text.linesWith_append filled block.isWhole]

/-- What is read from edits, if reading does not depend on the margin. -/
theorem readLines_addedBy {α : Type} {read told : String → List α} (block : Block P level edits)
    (silent : read "" = []) (same : told "" = [])
    (each : ∀ level text, P level text → '\n' ∉ (Edit.margin unit level ++ text).toList ∧
      read (Edit.margin unit level ++ text) = told text) :
    readLines read (addedBy unit level edits) = edits.flatMap (Edit.told told) := by
  induction block with
  | nil => exact readLines_empty silent
  | @line level text edits own _ ih =>
      have ends : IsWhole (addedBy unit level [.line text]) := by
        rw [addedBy_line]
        exact .inr ⟨_, rfl⟩
      rw [addedBy_cons, readLines_append silent ends, List.flatMap_cons]
      refine congrArg₂ _ ?_ ih
      rw [addedBy_line]
      show _ = told text
      split
      · next empty =>
        rw [String.isEmpty_iff.mp empty, String.empty_append, readLines_emptyLine silent, same]
      · obtain ⟨one, eq⟩ := each _ _ own
        rw [readLines_line silent one, eq]
  | @emptyLine level edits _ ih =>
      show readLines read ("\n" ++ addedBy unit level edits) = _
      rw [readLines_append silent isWhole_emptyLine, ih, readLines_emptyLine silent]
      rfl
  | @indented level body _ ih =>
      rw [addedBy_indented, ih, Text.indented, List.flatMap_cons, List.flatMap_append]
      exact (List.append_nil _).symm
  | append before _ front back =>
      rw [before.addedBy_append, readLines_append silent before.isWhole, front, back,
        List.flatMap_append]

theorem readLines_eq_nil {α : Type} {read : String → List α} (block : Block P level edits)
    (silent : read "" = [])
    (each : ∀ level text, P level text → '\n' ∉ (Edit.margin unit level ++ text).toList ∧
      read (Edit.margin unit level ++ text) = []) :
    readLines read (addedBy unit level edits) = [] := by
  have told : ∀ edit ∈ edits, edit.told (fun _ => ([] : List α)) = [] := by
    intro edit _
    cases edit <;> rfl
  exact (block.readLines_addedBy silent rfl each).trans (List.flatMap_eq_nil_iff.mpr told)

/-- Edits contribute nothing if none of their lines begins with the opening. -/
theorem linesWith_eq_nil (block : Block P level edits) (filled : opening ≠ "")
    (other : ∀ level text, P level text → '\n' ∉ (Edit.margin unit level ++ text).toList ∧
      begins opening (Edit.margin unit level ++ text) = false) :
    linesWith opening (addedBy unit level edits) = [] := by
  rw [linesWith_eq_readLines]
  refine block.readLines_eq_nil (lineWith_empty filled) fun level text own => ?_
  obtain ⟨one, departs⟩ := other level text own
  rw [lineWith, departs]
  exact ⟨one, rfl⟩

/-! ### Edits put together -/

theorem forall_mem_onlyIf {wanted : Bool} {part : List Edit} {p : List Edit → Prop} :
    (∀ own ∈ onlyIf wanted part, p own) ↔ (wanted → p part) := by
  cases wanted <;> simp [onlyIf]

theorem map {α : Type} {as : List α} {f : α → Edit} (each : ∀ a ∈ as, Block P level [f a]) :
    Block P level (as.map f) := by
  induction as with
  | nil => exact .nil
  | cons a as ih =>
      rw [List.forall_mem_cons] at each
      exact .append each.1 (ih each.2)

theorem lines {texts : List String} (each : ∀ text ∈ texts, P level text) :
    Block P level (lines texts) :=
  map fun text among => .line (each text among) .nil

theorem flatMap {α : Type} {as : List α} {f : α → List Edit}
    (each : ∀ a ∈ as, Block P level (f a)) : Block P level (as.flatMap f) := by
  induction as with
  | nil => exact .nil
  | cons a as ih =>
      rw [List.forall_mem_cons] at each
      exact .append each.1 (ih each.2)

theorem braced {start : String} {body : List Edit} (opens : P level (start ++ " \x7b"))
    (closes : P level "\x7d") (inner : Block P (level + 1) body) :
    Block P level (braced start body) :=
  .line opens (.append (.indented inner) (.line closes .nil))

theorem setApart {parts : List (List Edit)} (each : ∀ part ∈ parts, Block P level part) :
    Block P level (setApart parts) :=
  flatMap fun part among => .emptyLine (each part among)

end Block

/-- A line that begins with the opening is the first of those that do. -/
theorem linesWith_cons {text unit : String} {level : Nat} (filled : opening ≠ "")
    (own : text ≠ "") (one : '\n' ∉ (Edit.margin unit level ++ text).toList)
    (starts : begins opening (Edit.margin unit level ++ text)) (edits : List Edit) :
    linesWith opening (addedBy unit level (.line text :: edits)) =
      (Edit.margin unit level ++ text) :: linesWith opening (addedBy unit level edits) := by
  have alone : addedBy unit level [.line text] = Edit.margin unit level ++ text ++ "\n" := by
    rw [addedBy_line, if_neg (by simpa using own)]
  rw [addedBy_cons, alone, Text.linesWith_append filled (.inr ⟨_, rfl⟩), linesWith_line filled one,
    if_pos starts]
  rfl

/-! ## Lines that do not begin with an opening -/

/-- The text and the start of another one have different characters at some place. -/
inductive Departs (start : List Char) : String → Prop
  | literal {cs : List Char} (apart : ¬ start <+: cs ∧ ¬ cs <+: start) :
      Departs start (String.ofList cs)
  | append {front back : String} (early : Departs start front) : Departs start (front ++ back)

theorem Departs.not_prefix {start : List Char} {text : String} (departs : Departs start text) :
    ¬ start <+: text.toList ∧ ¬ text.toList <+: start := by
  induction departs with
  | literal apart => rwa [String.toList_ofList]
  | @append front back _ ih =>
      rw [String.toList_append]
      refine ⟨fun goesOn => ?_, fun within => ih.2 ((List.prefix_append _ _).trans within)⟩
      rcases List.prefix_or_prefix_of_prefix goesOn (List.prefix_append _ back.toList) with h | h
      · exact ih.1 h
      · exact ih.2 h

theorem Departs.of_apart {start : List Char} {text : String} (goesOn : ¬ start <+: text.toList)
    (within : ¬ text.toList <+: start) : Departs start text := by
  rw [← String.ofList_toList (s := text)]
  exact .literal ⟨goesOn, within⟩

/-- A text departs where its own beginning does. -/
theorem Departs.of_front {start front : List Char} {text : String}
    (apart : ¬ start <+: front ∧ ¬ front <+: start) (begins : front <+: text.toList) :
    Departs start text := by
  refine .of_apart (fun goesOn => ?_) fun within => apart.2 (begins.trans within)
  rcases List.prefix_or_prefix_of_prefix goesOn begins with shorter | longer
  · exact apart.1 shorter
  · exact apart.2 longer

theorem Departs.of_literal_front {start front cs : List Char}
    (apart : ¬ start <+: front ∧ ¬ front <+: start) (begins : front <+: cs) :
    Departs start (String.ofList cs) :=
  .of_front apart (by rwa [String.toList_ofList])

/-- Up to some character that the start does not hold, another character does not occur often
enough. -/
theorem Departs.of_count {start rest : List Char} {front : String} {ends c : Char}
    (absent : ends ∉ start) (fewer : front.toList.count c < start.count c) :
    Departs start (front ++ String.ofList (ends :: rest)) := by
  refine .of_apart (fun goesOn => ?_) fun within => ?_
  · rw [String.toList_append, String.toList_ofList] at goesOn
    rcases List.prefix_or_prefix_of_prefix goesOn (List.prefix_append _ _) with within | ⟨more, eq⟩
    · exact absurd (within.sublist.count_le c) (by omega)
    · -- the start goes on behind the front, so it holds the character there
      rw [← eq, List.prefix_append_right_inj] at goesOn
      cases more with
      | nil =>
          rw [List.append_nil] at eq
          rw [eq] at fewer
          omega
      | cons other more =>
          rw [← eq, (List.cons_prefix_cons.mp goesOn).1] at absent
          exact absent (by simp)
  · rw [String.toList_append, String.toList_ofList] at within
    exact absent (within.subset (by simp))

/-- A text determines what stands in front of its first separator. -/
theorem eq_of_words {separator : Char} {word other rest more : List Char}
    (before : separator ∉ word) (behind : separator ∉ other)
    (within : word ++ separator :: rest <+: other ++ separator :: more) : word = other := by
  have front {cs ds : List Char} (apart : separator ∉ cs) :
      (cs ++ separator :: ds).takeWhile (· ≠ separator) = cs := by
    rw [List.takeWhile_append_of_pos, List.takeWhile_cons_of_neg (by simp), List.append_nil]
    intro c among
    simpa using fun same : c = separator => apart (same ▸ among)
  obtain ⟨ending, eq⟩ := within
  rw [List.append_assoc, List.cons_append] at eq
  have same := congrArg (List.takeWhile (· ≠ separator)) eq
  rwa [front before, front behind] at same

/-- Two words with a separator behind them are the same or differ early. -/
theorem Departs.of_word {word rest : List Char} {name : String} {separator : Char}
    (other : name.toList ≠ word) (before : separator ∉ word) (behind : separator ∉ name.toList) :
    Departs (word ++ [separator]) (name ++ String.ofList (separator :: rest)) := by
  refine .of_apart (fun goesOn => ?_) fun within => ?_
  · rw [String.toList_append, String.toList_ofList] at goesOn
    exact other (eq_of_words before behind goesOn).symm
  · rw [String.toList_append, String.toList_ofList] at within
    exact other (eq_of_words behind before within)

/-- A line that is not at the level, or that departs from the start.  One that is further out must
not begin with a blank, which would move it in. -/
inductive Quiet (at_ : Nat) (start : List Char) : Nat → String → Prop
  | own {text : String} (tidy : IsTidy text) (departs : Departs start text) :
      Quiet at_ start at_ text
  | inner {level : Nat} {text : String} (tidy : IsTidy text) (deeper : at_ < level) :
      Quiet at_ start level text
  | outer {level : Nat} {text : String} (tidy : IsTidy text) (departs : Departs [' '] text)
      (shallower : level < at_) : Quiet at_ start level text

theorem Quiet.tidy {at_ level : Nat} {start : List Char} {text : String}
    (quiet : Quiet at_ start level text) : IsTidy text := by
  cases quiet <;> assumption

/-- A line that departs from the start and does not begin with a blank is quiet at any level. -/
theorem Quiet.anywhere {at_ level : Nat} {start : List Char} {text : String} (tidy : IsTidy text)
    (departs : Departs start text) (unblank : Departs [' '] text) : Quiet at_ start level text := by
  rcases Nat.lt_trichotomy level at_ with shallower | rfl | deeper
  · exact .outer tidy unblank shallower
  · exact .own tidy departs
  · exact .inner tidy deeper

/-- At the margin a line is quiet if it does not begin with a blank, and departs from a start that
is looked for there. -/
theorem Quiet.atMargin {at_ : Nat} {start : List Char} {text : String} (tidy : IsTidy text)
    (departs : at_ = 0 → Departs start text) (unblank : Departs [' '] text) :
    Quiet at_ start 0 text := by
  rcases Nat.eq_zero_or_pos at_ with rfl | deeper
  · exact .own tidy (departs rfl)
  · exact .outer tidy unblank deeper

/-- Blocks that are further in do not matter. -/
theorem TidyBlock.quiet {at_ level : Nat} {start : List Char} {edits : List Edit}
    (block : TidyBlock level edits) (deeper : at_ < level) : Block (Quiet at_ start) level edits :=
  block.mono_from deeper fun _ _ further tidy => .inner tidy further

end Classwright.Text
