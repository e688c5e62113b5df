/-
# Classwright.Proofs.Text.Sheet — what edits add to a sheet

Edits only ever add text at the end, and what they add depends on the level alone.  So the text of
a list of edits is put together from the front (`addedBy`), piece by piece, and it is as long as the
pieces are together.
-/

import Mathlib
import Classwright.Render.Backend

namespace Classwright.Text

/-! ## Text added by edits -/

namespace Edit

/-- The level of the next line behind the edit. -/
def levelAfter (level : Nat) : Edit → Nat
  | .indent => level + 1
  | .dedent => level - 1
  | _ => level

/-- What stands in front of a line at a level. -/
def margin (unit : String) (level : Nat) : String :=
  String.join (List.replicate level unit)

/-- What the edit adds to the text at a level. -/
def added (unit : String) (level : Nat) : Edit → String
  | .text own => own
  | .line own => if own.isEmpty then "\n" else margin unit level ++ own ++ "\n"
  | .lineStart own => margin unit level ++ own
  | .emptyLine => "\n"
  | .indent | .dedent => ""

/-- The text that the edit takes over as it is. -/
def taken : Edit → String
  | .text own => own
  | _ => ""

end Edit

/-- The level behind a list of edits. -/
def levelAfter (level : Nat) (edits : List Edit) : Nat :=
  edits.foldl Edit.levelAfter level

/-- What a list of edits adds to the text, from a level on. -/
def addedBy (unit : String) : Nat → List Edit → String
  | _, [] => ""
  | level, edit :: edits => edit.added unit level ++ addedBy unit (edit.levelAfter level) edits

theorem Sheet.edit_eq (sheet : Sheet) (edit : Edit) :
    sheet.edit edit = ⟨sheet.unit, edit.levelAfter sheet.level,
      sheet.text ++ edit.added sheet.unit sheet.level⟩ := by
  cases edit with
  | indent => exact congrArg (Sheet.mk _ _) (String.append_empty).symm
  | dedent => exact congrArg (Sheet.mk _ _) (String.append_empty).symm
  | _ => rfl

/-- Edits move the level and add text; what was written before does not matter. -/
theorem Sheet.run_eq (sheet : Sheet) (edits : List Edit) :
    sheet.run edits = ⟨sheet.unit, Text.levelAfter sheet.level edits,
      sheet.text ++ addedBy sheet.unit sheet.level edits⟩ := by
  induction edits generalizing sheet with
  | nil => exact congrArg (Sheet.mk _ _) (String.append_empty).symm
  | cons edit edits ih =>
      show (sheet.edit edit).run edits = _
      rw [ih, Sheet.edit_eq, addedBy, ← String.append_assoc]
      rfl

theorem typeset_eq_addedBy (unit : String) (edits : List Edit) :
    typeset unit edits = addedBy unit 0 edits := by
  rw [typeset, Sheet.run_eq]
  exact String.empty_append

/-! ## How long the text is -/

/-- How many bytes edits take over as they are. -/
def takenBytes (edits : List Edit) : Nat :=
  (edits.map fun edit => edit.taken.utf8ByteSize).sum

@[simp]
theorem takenBytes_append (edits others : List Edit) :
    takenBytes (edits ++ others) = takenBytes edits + takenBytes others := by
  simp [takenBytes]

@[simp]
theorem takenBytes_cons (edit : Edit) (edits : List Edit) :
    takenBytes (edit :: edits) = edit.taken.utf8ByteSize + takenBytes edits := by
  simp [takenBytes]

theorem takenBytes_le_addedBy (unit : String) (level : Nat) (edits : List Edit) :
    takenBytes edits ≤ (addedBy unit level edits).utf8ByteSize := by
  induction edits generalizing level with
  | nil => exact Nat.zero_le _
  | cons edit edits ih =>
      have others := ih (edit.levelAfter level)
      have first : edit.taken.utf8ByteSize ≤ (edit.added unit level).utf8ByteSize := by
        cases edit with
        | text text => exact Nat.le_refl _
        | _ => exact Nat.zero_le _
      rw [takenBytes_cons, addedBy, String.utf8ByteSize_append]
      omega

/-- Nothing that edits take over is lost. -/
theorem takenBytes_le (unit : String) (edits : List Edit) :
    takenBytes edits ≤ (typeset unit edits).utf8ByteSize := by
  rw [typeset_eq_addedBy]
  exact takenBytes_le_addedBy unit 0 edits

end Classwright.Text

namespace Classwright.SourceFile

open Text (takenBytes takenBytes_cons takenBytes_append)

@[simp]
theorem takenBytes_spaced (texts : List String) :
    takenBytes (spaced texts) = (texts.map String.utf8ByteSize).sum := by
  induction texts with
  | nil => rfl
  | cons text texts ih =>
      cases texts with
      | nil => rfl
      | cons other texts =>
          show takenBytes (.text text :: .emptyLine :: spaced (other :: texts)) = _
          rw [takenBytes_cons, takenBytes_cons, ih]
          simp [Text.Edit.taken]

/-- A file is at least as long as the texts that it takes over. -/
theorem takenBytes_le_bytes_headed (name : String) (edits : List Text.Edit) :
    takenBytes edits ≤ (headed name edits).bytes := by
  have whole := Text.takenBytes_le indentation (header name ++ edits)
  rw [takenBytes_append] at whole
  exact Nat.le_trans (Nat.le_add_left _ _) whole

end Classwright.SourceFile
