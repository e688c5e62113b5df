/-
# Classwright.Proofs.Text.Detached — writing apart and merging later

A part of a text may be written on a sheet of its own, which starts empty at the level of the main
sheet, and be merged when it is finished.  The main sheet then has the text that it would have if the
part had been written on it directly, and it stands at the level at which it stood before.

A `dedent` has no effect at level zero, so how far a part moves the level depends on where it starts.
This is why a detached sheet takes over the level.  It is also why a body that is set one level
deeper need not end where it started: entering and leaving the same number of levels is not enough,
the body also has to stay at or above the level at which it is entered.
-/

import Classwright.Proofs.Text.Lines

namespace Classwright.Text

/-! ## Scripts -/

/-- What is done to a sheet, step by step.  A body that is set one level deeper is a script of its
own, so that bodies may be nested, and each may move the level as it likes. -/
inductive Script where
  | done
  | edit (first : Edit) (rest : Script)
  | indented (body rest : Script)
  deriving Repr

/-- The edits of a script, with those of its bodies in their places. -/
def Script.edits : Script → List Edit
  | .done => []
  | .edit first rest => first :: rest.edits
  | .indented body rest => Text.indented body.edits ++ rest.edits

namespace Sheet

/-- The sheet after a script. -/
def follow (sheet : Sheet) : Script → Sheet
  | .done => sheet
  | .edit first rest => (sheet.edit first).follow rest
  | .indented body rest => (((sheet.edit .indent).follow body).edit .dedent).follow rest

theorem run_append (sheet : Sheet) (edits others : List Edit) :
    sheet.run (edits ++ others) = (sheet.run edits).run others :=
  List.foldl_append

/-- Nesting is a way to write edits down: a body stands for its edits, between an `indent` and a
`dedent`. -/
theorem follow_eq_run (sheet : Sheet) (script : Script) :
    sheet.follow script = sheet.run script.edits := by
  induction script generalizing sheet with
  | done => rfl
  | edit first rest ih => exact ih (sheet.edit first)
  | indented body rest inner outer =>
      rw [follow, inner, outer, Script.edits, run_append]
      show _ = ((sheet.edit .indent).run (body.edits ++ [.dedent])).run rest.edits
      rw [run_append]
      rfl

theorem level_follow (sheet : Sheet) (script : Script) :
    (sheet.follow script).level = levelAfter sheet.level script.edits := by
  rw [follow_eq_run, run_eq]

/-- What a script adds to the text depends on the level at which it starts, and on nothing that was
written before. -/
theorem text_follow (sheet : Sheet) (script : Script) :
    (sheet.follow script).text =
      sheet.text ++ addedBy sheet.unit sheet.level script.edits := by
  rw [follow_eq_run, run_eq]

/-- A script that is followed on a detached sheet writes what it would write on the sheet itself. -/
theorem text_merge_detached (sheet : Sheet) (script : Script) :
    (sheet.merge (sheet.detached.follow script)).text = (sheet.follow script).text := by
  have apart : (sheet.detached.follow script).text =
      "" ++ addedBy sheet.unit sheet.level script.edits := text_follow sheet.detached script
  show sheet.text ++ (sheet.detached.follow script).text = _
  rw [apart, String.empty_append, text_follow]

end Sheet

/-! ## Levels -/

/-- While the level stays above zero, each edit moves it as it says. -/
theorem levelAfter_add_count {edits : List Edit} {level least : Nat} (positive : 0 < least)
    (above : ∀ front, front <+: edits → least ≤ levelAfter level front) :
    levelAfter level edits + edits.count .dedent = level + edits.count .indent := by
  induction edits generalizing level with
  | nil => rfl
  | cons edit edits ih =>
      have first : least ≤ edit.levelAfter level := above [edit] (by simp)
      have others := ih fun front inside =>
        above (edit :: front) (List.cons_prefix_cons.mpr ⟨rfl, inside⟩)
      show levelAfter (edit.levelAfter level) edits + _ = _
      cases edit with
      | indent =>
          simp only [Edit.levelAfter, List.count_cons_self, ne_eq, reduceCtorEq,
            not_false_eq_true, List.count_cons_of_ne] at others ⊢
          omega
      | dedent =>
          simp only [Edit.levelAfter, List.count_cons_self, ne_eq, reduceCtorEq,
            not_false_eq_true, List.count_cons_of_ne] at first others ⊢
          omega
      | _ => simpa [Edit.levelAfter] using others

namespace Sheet

/-- From the sheet on, the edits never lead below the level at which they start. -/
def NeverSinks (sheet : Sheet) (edits : List Edit) : Prop :=
  ∀ front, front <+: edits → sheet.level ≤ (sheet.run front).level

instance (sheet : Sheet) (edits : List Edit) : Decidable (sheet.NeverSinks edits) :=
  decidable_of_iff (∀ front ∈ edits.inits, sheet.level ≤ (sheet.run front).level)
    (forall_congr' fun front => imp_congr_left (List.mem_inits front edits))

/-- Behind a body that stays at or above the level at which it is entered, the level is the one in
front of it exactly if the body enters as many levels as it leaves. -/
theorem level_indented_iff {sheet : Sheet} {body : Script}
    (afloat : (sheet.edit .indent).NeverSinks body.edits) :
    (sheet.follow (.indented body .done)).level = sheet.level ↔
      body.edits.count .indent = body.edits.count .dedent := by
  have above : ∀ front, front <+: body.edits →
      sheet.level + 1 ≤ levelAfter (sheet.level + 1) front := by
    intro front inside
    have least := afloat front inside
    rwa [run_eq] at least
  have entered := above body.edits List.prefix_rfl
  have moved := levelAfter_add_count (Nat.succ_pos sheet.level) above
  have left : (sheet.follow (.indented body .done)).level =
      levelAfter (sheet.level + 1) body.edits - 1 := by
    show ((sheet.edit .indent).follow body).level - 1 = _
    rw [level_follow]
    rfl
  omega

end Sheet

/-- Whatever is written on a detached sheet and merged gives the text that it gives when it is
written in place, and merging leaves the level alone.  In place, a body that is set one level deeper
and never falls below that level ends where it started exactly if it enters as many levels as it
leaves. -/
theorem merged_as_written_in_place (sheet : Sheet) (script : Script) :
    (sheet.merge (sheet.detached.follow script)).text = (sheet.follow script).text ∧
      (sheet.merge (sheet.detached.follow script)).level = sheet.level ∧
      ∀ body : Script, (sheet.edit .indent).NeverSinks body.edits →
        ((sheet.follow (.indented body .done)).level = sheet.level ↔
          body.edits.count .indent = body.edits.count .dedent) := by
  refine ⟨sheet.text_merge_detached script, rfl, ?_⟩
  intro body afloat
  exact Sheet.level_indented_iff afloat

/-- The script leaves more levels than there are, and a body of it leaves the level at which it is
entered.  The other body does not. -/
theorem merged_as_written_in_place_sunken :
    let sheet : Sheet := ⟨"  ", 1, "a\n"⟩
    let sunken : Script := .edit .dedent (.edit (.line "b") .done)
    let raised : Script := .edit .indent (.edit (.line "d") (.edit .dedent .done))
    let script : Script := .edit .dedent (.edit .dedent (.edit .indent
      (.indented sunken (.edit (.lineStart "c") (.edit .emptyLine .done)))))
    (sheet.merge (sheet.detached.follow script)).text = "a\n  b\nc\n" ∧
      (sheet.merge (sheet.detached.follow script)).level = 1 ∧
      (sheet.follow (.indented raised .done)).level = 1 := by
  intro sheet sunken raised script
  obtain ⟨same, kept, bodies⟩ := merged_as_written_in_place sheet script
  have afloat : (sheet.edit .indent).NeverSinks raised.edits := by decide
  exact ⟨same.trans (by cbv), kept, (bodies raised afloat).mpr (by decide)⟩

/-- As many levels entered as left are not enough: this body falls to level zero, where one of its
edits has no effect. -/
example : ((Sheet.blank "  ").follow (.indented (.edit .dedent (.edit .dedent
    (.edit .indent (.edit .indent .done)))) .done)).level = 1 := rfl

end Classwright.Text
