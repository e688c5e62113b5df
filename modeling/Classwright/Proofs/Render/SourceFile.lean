/-
# Classwright.Proofs.Render.SourceFile — the lines of a file of generated source

With the indentation that files have, a line at another level does not begin with an opening, and a
line at the level begins with it exactly if its own text goes on like the opening.  So the lines of
interest in a file are found in the pieces that they are written by.

Blanks in front of a line mean nothing to the languages here.  Read without them, a line says the
same at every level, so what is read from generated source is what its edits tell by their lines
(`toldBy`), and that is computed along the way in which edits are put together.
-/

import Classwright.Proofs.Text.Lines

namespace Classwright.SourceFile

open Text (Edit Block IsPlain IsTidy IsWhole Departs Quiet begins linesWith addedBy)

/-! ## Openings of lines -/

/-- The opening of lines at a level that go on with a given text. -/
def openingAt (level : Nat) (start : List Char) : String :=
  Edit.margin indentation level ++ String.ofList start

theorem toList_margin (level : Nat) :
    (Edit.margin indentation level).toList = List.replicate (4 * level) ' ' := by
  have unit : indentation.toList = List.replicate 4 ' ' := String.toList_ofList
  induction level with
  | zero => rfl
  | succ level ih =>
      rw [Edit.margin] at ih ⊢
      rw [List.replicate_succ, String.join_cons, String.toList_append, ih, unit,
        List.replicate_append_replicate, Nat.mul_succ, Nat.add_comm]

/-- A deeper margin has a blank where the other one ends. -/
theorem exists_margin_eq {level deeper : Nat} (inside : level < deeper) :
    ∃ more, (Edit.margin indentation deeper).toList =
      (Edit.margin indentation level).toList ++ ' ' :: more := by
  refine ⟨List.replicate (4 * deeper - 4 * level - 1) ' ', ?_⟩
  rw [toList_margin, toList_margin, ← List.replicate_succ, List.replicate_append_replicate]
  congr 1
  omega

/-- What lines are looked for by starts neither like an indented line nor like a comment. -/
def IsStart (start : List Char) : Prop := ∃ c rest, start = c :: rest ∧ c ≠ ' ' ∧ c ≠ '/'

variable {at_ level : Nat} {start : List Char} {text : String} {edits others : List Edit}
  {P : Nat → String → Prop}

theorem openingAt_ne_empty (opens : IsStart start) : openingAt at_ start ≠ "" := by
  obtain ⟨c, rest, rfl, _⟩ := opens
  intro empty
  rw [← String.toList_inj, openingAt, String.toList_append, String.toList_ofList] at empty
  exact List.cons_ne_nil c rest (List.append_eq_nil_iff.mp empty).2

theorem lineFeed_notMem (tidy : IsTidy text) :
    '\n' ∉ (Edit.margin indentation level ++ text).toList := by
  rw [String.toList_append, toList_margin, List.mem_append, List.mem_replicate]
  exact fun among => among.elim (fun blank => absurd blank.2 (by decide)) tidy.lineFeed_notMem

theorem begins_iff : begins (openingAt level start) (Edit.margin indentation level ++ text) ↔
    start <+: text.toList := by
  rw [begins, openingAt, List.isPrefixOf_iff_prefix, String.toList_append, String.toList_append,
    String.toList_ofList, List.prefix_append_right_inj]

theorem not_begins (quiet : Quiet at_ start level text) (opens : IsStart start) :
    begins (openingAt at_ start) (Edit.margin indentation level ++ text) = false := by
  rw [Bool.eq_false_iff]
  intro starts
  cases quiet with
  | own _ departs => exact departs.not_prefix.1 (begins_iff.mp starts)
  | inner _ deeper =>
      obtain ⟨more, eq⟩ := exists_margin_eq deeper
      obtain ⟨c, rest, rfl, unblank, _⟩ := opens
      rw [begins, openingAt, List.isPrefixOf_iff_prefix, String.toList_append,
        String.toList_append, String.toList_ofList, eq, List.append_assoc,
        List.prefix_append_right_inj] at starts
      exact unblank (List.cons_prefix_cons.mp starts).1
  | outer _ departs shallower =>
      obtain ⟨more, eq⟩ := exists_margin_eq shallower
      rw [begins, openingAt, List.isPrefixOf_iff_prefix, String.toList_append,
        String.toList_append, String.toList_ofList, eq, List.append_assoc,
        List.prefix_append_right_inj] at starts
      have blank : [' '] <+: ' ' :: more ++ start := List.prefix_append [' '] (more ++ start)
      exact departs.not_prefix.1 (blank.trans starts)

/-! ## Pieces of a file -/

theorem linesWith_eq_nil (quiet : Block (Quiet at_ start) level edits) (opens : IsStart start) :
    linesWith (openingAt at_ start) (addedBy indentation level edits) = [] :=
  quiet.linesWith_eq_nil (openingAt_ne_empty opens) fun _ _ own =>
    ⟨lineFeed_notMem own.tidy, not_begins own opens⟩

/-- Behind a quiet block the lines of the others are left. -/
theorem linesWith_append_of_quiet (quiet : Block (Quiet at_ start) level edits)
    (opens : IsStart start) (others : List Edit) :
    linesWith (openingAt at_ start) (addedBy indentation level (edits ++ others)) =
      linesWith (openingAt at_ start) (addedBy indentation level others) := by
  rw [quiet.linesWith_append (openingAt_ne_empty opens), linesWith_eq_nil quiet opens,
    List.nil_append]

/-- In front of a quiet block the lines of the others are left. -/
theorem linesWith_append_quiet (block : Block P level edits)
    (quiet : Block (Quiet at_ start) level others) (opens : IsStart start) :
    linesWith (openingAt at_ start) (addedBy indentation level (edits ++ others)) =
      linesWith (openingAt at_ start) (addedBy indentation level edits) := by
  rw [block.linesWith_append (openingAt_ne_empty opens), linesWith_eq_nil quiet opens,
    List.append_nil]

/-- What stands in braces has the lines that it has without them. -/
theorem linesWith_braced {head : String} (before : Quiet at_ start level (head ++ " \x7b"))
    (behind : Quiet at_ start level "\x7d") (block : Block P (level + 1) edits)
    (opens : IsStart start) :
    linesWith (openingAt at_ start) (addedBy indentation level (Text.braced head edits)) =
      linesWith (openingAt at_ start) (addedBy indentation (level + 1) edits) := by
  have pieces : Text.braced head edits =
      [.line (head ++ " \x7b")] ++ (Text.indented edits ++ [.line "\x7d"]) := rfl
  rw [pieces, linesWith_append_of_quiet (.line before .nil) opens,
    linesWith_append_quiet (.indented block) (.line behind .nil) opens, Text.addedBy_indented]

theorem linesWith_setApart (opens : IsStart start) {parts : List (List Edit)}
    (each : ∀ part ∈ parts, Block P level part) :
    linesWith (openingAt at_ start) (addedBy indentation level (Text.setApart parts)) =
      parts.flatMap fun part => linesWith (openingAt at_ start) (addedBy indentation level part) := by
  induction parts with
  | nil => exact Text.linesWith_empty (openingAt_ne_empty opens)
  | cons part parts ih =>
      rw [List.forall_mem_cons] at each
      have pieces : Text.setApart (part :: parts) =
          [.emptyLine] ++ (part ++ Text.setApart parts) := rfl
      have gap : Block (Quiet at_ start) level [.emptyLine] := .emptyLine .nil
      rw [pieces, linesWith_append_of_quiet gap opens,
        each.1.linesWith_append (openingAt_ne_empty opens), ih each.2, List.flatMap_cons]

/-- A line at the level that goes on like the opening. -/
theorem linesWith_cons (opens : IsStart start) (tidy : IsTidy text) (starts : start <+: text.toList)
    (edits : List Edit) :
    linesWith (openingAt level start) (addedBy indentation level (.line text :: edits)) =
      (Edit.margin indentation level ++ text) ::
        linesWith (openingAt level start) (addedBy indentation level edits) := by
  refine Text.linesWith_cons (openingAt_ne_empty opens) (fun empty => ?_) (lineFeed_notMem tidy)
    (begins_iff.mpr starts) edits
  obtain ⟨c, rest, rfl, _⟩ := opens
  rw [empty] at starts
  exact List.cons_ne_nil c rest (List.prefix_nil.mp starts)

/-- Lines at the level that all go on like the opening. -/
theorem linesWith_map_line {α : Type} {as : List α} {f : α → String} (opens : IsStart start)
    (each : ∀ a ∈ as, IsTidy (f a) ∧ start <+: (f a).toList) :
    linesWith (openingAt level start) (addedBy indentation level (as.map fun a => .line (f a))) =
      as.map fun a => Edit.margin indentation level ++ f a := by
  induction as with
  | nil => exact Text.linesWith_empty (openingAt_ne_empty opens)
  | cons a as ih =>
      rw [List.forall_mem_cons] at each
      rw [List.map_cons, List.map_cons, linesWith_cons opens each.1.1 each.1.2, ih each.2]

/-- A block that begins like the opening, and has nothing else at the level that does. -/
theorem linesWith_braced_eq_head {head : String} (opens : IsStart start)
    (tidy : IsTidy (head ++ " \x7b")) (starts : start <+: (head ++ " \x7b").toList)
    (closes : Departs start "\x7d") (inner : Text.TidyBlock (level + 1) edits) :
    linesWith (openingAt level start) (addedBy indentation level (Text.braced head edits)) =
      [Edit.margin indentation level ++ (head ++ " \x7b")] := by
  have behind : Block (Quiet level start) level (Text.indented edits ++ [Edit.line "\x7d"]) :=
    .append (.indented (inner.quiet (Nat.lt_succ_self level)))
      (.line (.own (.plain (.literal (by decide))) closes) .nil)
  exact (linesWith_cons opens tidy starts _).trans (congrArg _ (linesWith_eq_nil behind opens))

/-- At the margin nothing stands in front of a line. -/
theorem margin_zero (text : String) : Edit.margin indentation 0 ++ text = text :=
  String.empty_append

/-! ## Whole files -/

/-- The comment at the top is looked over. -/
theorem quiet_header {name : String} (plain : IsPlain name) (opens : IsStart start) :
    Block (Quiet at_ start) 0 (header name) := by
  obtain ⟨c, rest, rfl, _, other⟩ := opens
  have comment (cs : List Char) : Departs (c :: rest) (String.ofList ('/' :: cs)) ∧
      Departs [' '] (String.ofList ('/' :: cs)) :=
    ⟨.literal (by simp [List.cons_prefix_cons, other, Ne.symm other]),
      .literal (by simp [List.cons_prefix_cons])⟩
  refine .append (.lines ?_) (.emptyLine .nil)
  simp only [List.forall_mem_cons]
  refine ⟨?_, ?_, ?_, ?_, ?_, nofun⟩
  · exact .anywhere (.plain (.literal (by decide))) (comment _).1 (comment _).2
  · exact .anywhere (.plain (.append (.literal (by decide)) plain)) (.append (comment _).1)
      (.append (comment _).2)
  all_goals exact .anywhere (.plain (.literal (by decide))) (comment _).1 (comment _).2

theorem typeset_eq (edits : List Edit) : typeset edits = addedBy indentation 0 edits :=
  Text.typeset_eq_addedBy indentation edits

/-- A file has the lines that it has without its comment. -/
theorem linesWith_headed {name : String} (plain : IsPlain name) (opens : IsStart start)
    (edits : List Edit) :
    linesWith (openingAt at_ start) (headed name edits).contents =
      linesWith (openingAt at_ start) (addedBy indentation 0 edits) := by
  rw [headed, typeset_eq]
  exact linesWith_append_of_quiet (quiet_header plain opens) opens edits

/-- Texts that were put into a file are read as they were on their own. -/
theorem readLines_spaced {α : Type} {read : String → List α} (silent : read "" = [])
    {texts : List String} (whole : ∀ text ∈ texts, IsWhole text) :
    Text.readLines read (addedBy indentation level (spaced texts)) =
      texts.flatMap (Text.readLines read) := by
  induction texts with
  | nil => exact Text.readLines_empty silent
  | cons text texts ih =>
      rw [List.forall_mem_cons] at whole
      cases texts with
      | nil =>
          show Text.readLines _ (text ++ "") = _
          rw [String.append_empty, List.flatMap_singleton]
      | cons other texts =>
          show Text.readLines _ (text ++ ("\n" ++
            addedBy indentation level (spaced (other :: texts)))) = _
          rw [Text.readLines_append silent whole.1, Text.readLines_append silent
            Text.isWhole_emptyLine, Text.readLines_emptyLine silent, ih whole.2]
          rfl

theorem linesWith_spaced (opens : IsStart start) {texts : List String}
    (whole : ∀ text ∈ texts, IsWhole text) :
    linesWith (openingAt at_ start) (addedBy indentation level (spaced texts)) =
      texts.flatMap (linesWith (openingAt at_ start)) := by
  have silent := Text.lineWith_empty (@openingAt_ne_empty at_ _ opens)
  have same : linesWith (openingAt at_ start) =
      Text.readLines (Text.lineWith (openingAt at_ start)) :=
    funext (Text.linesWith_eq_readLines _)
  rw [same]
  exact readLines_spaced silent whole

/-- A file with texts behind some edits has the lines of both. -/
theorem linesWith_headed_spaced {name : String} (plain : IsPlain name) (opens : IsStart start)
    (front : Block P 0 edits) {texts : List String} (whole : ∀ text ∈ texts, IsWhole text) :
    linesWith (openingAt at_ start) (headed name (edits ++ spaced texts)).contents =
      linesWith (openingAt at_ start) (addedBy indentation 0 edits) ++
        texts.flatMap (linesWith (openingAt at_ start)) := by
  rw [linesWith_headed plain opens, front.linesWith_append (openingAt_ne_empty opens),
    linesWith_spaced opens whole]

end Classwright.SourceFile

namespace Classwright.Text

variable {α β : Type} {told : String → List α}

/-! ## What edits tell -/

/-- What edits tell by their lines. -/
def toldBy (told : String → List α) (edits : List Edit) : List α := edits.flatMap (Edit.told told)

theorem toldBy_append (edits others : List Edit) :
    toldBy told (edits ++ others) = toldBy told edits ++ toldBy told others := List.flatMap_append

theorem toldBy_line (text : String) (edits : List Edit) :
    toldBy told (.line text :: edits) = told text ++ toldBy told edits := rfl

theorem toldBy_emptyLine (edits : List Edit) :
    toldBy told (.emptyLine :: edits) = toldBy told edits := rfl

theorem toldBy_nil : toldBy told [] = [] := rfl

theorem toldBy_indented (body : List Edit) : toldBy told (indented body) = toldBy told body := by
  show toldBy told (body ++ [.dedent]) = toldBy told body
  rw [toldBy_append]
  exact List.append_nil _

theorem toldBy_braced (head : String) (body : List Edit) :
    toldBy told (braced head body) =
      told (head ++ " \x7b") ++ (toldBy told body ++ told "\x7d") := by
  rw [braced, toldBy_line, toldBy_append, toldBy_indented, toldBy_line, toldBy_nil, List.append_nil]

theorem toldBy_flatMap (as : List β) (f : β → List Edit) :
    toldBy told (as.flatMap f) = as.flatMap fun a => toldBy told (f a) := List.flatMap_assoc

theorem toldBy_map_line (as : List β) (f : β → String) :
    toldBy told (as.map fun a => .line (f a)) = as.flatMap fun a => told (f a) := by
  rw [toldBy, List.flatMap_map]
  rfl

theorem toldBy_setApart (parts : List (List Edit)) :
    toldBy told (setApart parts) = parts.flatMap (toldBy told) := toldBy_flatMap parts _

/-- Whatever a block tells is told by a line of it. -/
theorem Block.forall_mem_toldBy {P : Nat → String → Prop} {Q : α → Prop} {level : Nat}
    {edits : List Edit} (block : Block P level edits)
    (each : ∀ level text, P level text → ∀ a ∈ told text, Q a) : ∀ a ∈ toldBy told edits, Q a := by
  induction block with
  | nil => exact List.forall_mem_nil _
  | line own _ ih =>
      rw [toldBy_line, List.forall_mem_append]
      exact ⟨each _ _ own, ih⟩
  | emptyLine _ ih => exact ih
  | indented _ ih => rwa [toldBy_indented]
  | append _ _ before behind =>
      rw [toldBy_append, List.forall_mem_append]
      exact ⟨before, behind⟩

/-! ## Indentation -/

/-- The line without the blanks in front of it. -/
def unindented (line : String) : String := String.ofList (line.toList.dropWhile (· = ' '))

theorem unindented_eq_self {text : String} (unblank : Departs [' '] text) :
    unindented text = text := by
  have apart := unblank.not_prefix.1
  rw [← String.toList_inj, unindented, String.toList_ofList]
  cases letters : text.toList with
  | nil => rfl
  | cons c rest =>
      rw [letters, List.cons_prefix_cons] at apart
      have other : c ≠ ' ' := fun same => apart ⟨same.symm, List.nil_prefix⟩
      rw [List.dropWhile_cons_of_neg (by simpa using other)]

theorem unindented_margin (level : Nat) (text : String) :
    unindented (Edit.margin SourceFile.indentation level ++ text) = unindented text := by
  rw [unindented, String.toList_append, SourceFile.toList_margin, List.dropWhile_append_of_pos]
  · rfl
  · intro c among
    exact decide_eq_true (List.eq_of_mem_replicate among)

/-- What is read from a text, line by line and without the indentation of the lines. -/
def readUnindented (read : String → List α) : String → List α :=
  readLines fun line => read (unindented line)

/-- What is read from a block is what its lines tell. -/
theorem TidyBlock.readUnindented {read : String → List α} {level : Nat} {edits : List Edit}
    (block : TidyBlock level edits) (silent : read "" = []) :
    Text.readUnindented read (addedBy SourceFile.indentation level edits) =
      toldBy (fun text => read (unindented text)) edits := by
  refine block.readLines_addedBy silent silent fun level text own => ?_
  exact ⟨SourceFile.lineFeed_notMem own, congrArg read (unindented_margin level text)⟩

/-- The lines of a text that are not empty, without their indentation. -/
def shownLines : String → List String := readUnindented fun line => if line = "" then [] else [line]

end Classwright.Text
