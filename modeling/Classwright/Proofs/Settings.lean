/-
# Classwright.Proofs.Settings — what is known of settings with no fault

The checks of settings come one after the other, and the first that fails is reported.  Settings
without a fault have passed all of them: the names that go into source are identifiers, and no
combination is left that a language cannot express.
-/

import Mathlib.Data.Option.Basic
import Classwright.Proofs.Text.Lines
import Classwright.Settings.Basic

namespace Classwright

open Text (isIdentifier)

theorem GeneralSettings.fault?_eq_none_iff {language : Language} {keywords : List String}
    {s : GeneralSettings} :
    s.fault? language keywords = none ↔
      (s.classPrefix = "" ∨ isIdentifier s.classPrefix) ∧
        isIdentifier s.singleFileName ∧ s.singleFileName ∉ keywords := by
  by_cases valid : s.classPrefix = "" ∨ isIdentifier s.classPrefix
  · have passes : ¬ (s.classPrefix ≠ "" ∧ ¬ isIdentifier s.classPrefix) := by
      rwa [not_and_or, not_not, not_not]
    rw [GeneralSettings.fault?, if_neg passes]
    simp [valid]
  · have fails : s.classPrefix ≠ "" ∧ ¬ isIdentifier s.classPrefix := not_or.mp valid
    simp [GeneralSettings.fault?, fails]

theorem baseNameFault?_eq_none_iff {language : Language} {keywords : List String} {name : String} :
    baseNameFault? language keywords name = none ↔ isIdentifier name ∧ name ∉ keywords := by
  simp [baseNameFault?]

/-- A package is a sequence of identifiers with dots between them. -/
theorem JavaSettings.mem_of_isPackage {name : String} (valid : isPackage name) {c : Char}
    (among : c ∈ name.toList) : c = '.' ∨ ∃ part : String, isIdentifier part ∧ c ∈ part.toList := by
  refine or_iff_not_imp_left.mpr fun inside => ?_
  obtain ⟨part, listed, own⟩ := Text.exists_mem_parts among inside
  have word := (Bool.and_eq_true _ _).mp (List.all_eq_true.mp valid part listed)
  exact ⟨part, word.1, own⟩

theorem JavaSettings.fault?_eq_none_iff {s : JavaSettings} :
    s.fault? = none ↔
      s.toGeneralSettings.fault? .java Lexicon.Java.keywords = none ∧
        s.fileLayout ≠ .singleFile ∧ (∀ name ∈ s.package, isPackage name) ∧
        (∀ name ∈ s.baseClass, isIdentifier name ∧ name ∉ Lexicon.Java.keywords) ∧
        ¬ (s.immutable ∧ s.setters) := by
  rw [JavaSettings.fault?, Option.or_eq_none_iff]
  refine and_congr_right fun _ => ?_
  by_cases single : s.fileLayout = .singleFile
  · simp [single]
  · rw [if_neg single, Option.or_eq_none_iff, Option.or_eq_none_iff]
    simp [single, packageFault?, Option.bind_eq_none_iff, baseNameFault?_eq_none_iff]

theorem ObjectiveCSettings.fault?_eq_none_iff {s : ObjectiveCSettings} :
    s.fault? = none ↔
      s.toGeneralSettings.fault? .objectiveC Lexicon.ObjectiveC.keywords = none ∧
        isIdentifier s.baseClass ∧ s.baseClass ∉ Lexicon.ObjectiveC.keywords := by
  rw [ObjectiveCSettings.fault?, Option.or_eq_none_iff, baseNameFault?_eq_none_iff]

theorem SwiftSettings.fault?_eq_none_iff {s : SwiftSettings} :
    s.fault? = none ↔
      s.toGeneralSettings.fault? .swift Lexicon.Swift.keywords = none ∧
        (∀ name ∈ s.baseClass, isIdentifier name ∧ name ∉ Lexicon.Swift.keywords ∧
          s.kind ≠ .struct) ∧
        ¬ (s.access = .inheritable ∧ s.kind ≠ .openClass) := by
  rw [SwiftSettings.fault?, Option.or_eq_none_iff, Option.or_eq_none_iff]
  simp [baseFault?, Option.bind_eq_none_iff, Option.or_eq_none_iff, baseNameFault?_eq_none_iff,
    and_assoc]

end Classwright
