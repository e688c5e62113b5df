/-
# Classwright.Proofs.Render.FileNames — no two files share a name

Files are named by stems with the extensions of the language behind them.  A stem is the type name of
a class, or else the one name that the settings have for all classes; either way it is an
identifier.  An extension begins with a dot, which no identifier holds, so a file name tells its stem
and its extension, and since type names differ, file names do.
-/

import Mathlib
import Classwright.Proofs.Render.Declarations

namespace Classwright

open Text (IsWord isIdentifier isIdentifierPart)

/-- The extensions of the files for a stem. -/
def Language.extensions : Language → List String
  | .swift => [".swift"]
  | .objectiveC => [".h", ".m"]
  | .java => [".java"]

/-- The names of the files for stems. -/
def Language.fileNames (language : Language) (stems : List String) : List String :=
  stems.flatMap fun stem => language.extensions.map (stem ++ ·)

/-! ## What a name tells -/

section Names

variable {language : Language} {stem other extension ending : String} {stems : List String}

/-- Extensions begin with a dot. -/
theorem Language.exists_extension_eq (listed : extension ∈ language.extensions) :
    ∃ letters, extension.toList = '.' :: letters ∧ letters ≠ [] ∧
      ∀ c ∈ letters, isIdentifierPart c := by
  have facts : ∀ extension ∈ language.extensions, extension.toList.head? = some '.' ∧
      extension.toList.tail ≠ [] ∧ ∀ c ∈ extension.toList.tail, isIdentifierPart c := by
    cases language <;> simp [extensions, isIdentifierPart]
  obtain ⟨dot, filled, letters⟩ := facts extension listed
  exact ⟨extension.toList.tail, (List.cons_head?_tail dot).symm, filled, letters⟩

/-- A file name tells its stem and its extension. -/
theorem eq_and_eq_of_append_eq (word : IsWord stem) (wordOther : IsWord other)
    (listed : extension ∈ language.extensions) (listedOther : ending ∈ language.extensions)
    (same : stem ++ extension = other ++ ending) : stem = other ∧ extension = ending := by
  have front {stem extension : String} (word : IsWord stem)
      (listed : extension ∈ language.extensions) :
      (stem ++ extension).toList.takeWhile isIdentifierPart = stem.toList := by
    obtain ⟨letters, eq, _⟩ := Language.exists_extension_eq listed
    rw [String.toList_append, eq, List.takeWhile_append_of_pos word,
      List.takeWhile_cons_of_neg (by decide), List.append_nil]
  have stems : stem = other := by
    rw [← String.toList_inj, ← front word listed, ← front wordOther listedOther, same]
  subst stems
  refine ⟨rfl, ?_⟩
  rw [← String.toList_inj, String.toList_append, String.toList_append,
    List.append_cancel_left_eq] at same
  exact String.toList_inj.mp same

theorem Language.nodup_fileNames (distinct : stems.Nodup) (words : ∀ stem ∈ stems, IsWord stem) :
    (language.fileNames stems).Nodup := by
  have extensions : language.extensions.Nodup := by cases language <;> decide
  refine List.nodup_flatMap.mpr ⟨fun stem among => ?_, ?_⟩
  · refine extensions.map_on fun extension listed ending listedOther same => ?_
    exact (eq_and_eq_of_append_eq (words stem among) (words stem among) listed listedOther same).2
  · refine distinct.imp_of_mem fun {stem other} among amongOthers apart name own others => ?_
    obtain ⟨extension, listed, rfl⟩ := List.mem_map.mp own
    obtain ⟨ending, listedOther, same⟩ := List.mem_map.mp others
    exact apart (eq_and_eq_of_append_eq (words other amongOthers) (words stem among) listedOther
      listed same).1.symm

/-- The name is an identifier with an extension of the language behind it. -/
def Language.IsFileName (language : Language) (name : String) : Prop :=
  ∃ stem, ∃ extension ∈ language.extensions, isIdentifier stem ∧ name = stem ++ extension

theorem Language.isFileName_of_mem (words : ∀ stem ∈ stems, isIdentifier stem) {name : String}
    (among : name ∈ language.fileNames stems) : language.IsFileName name := by
  obtain ⟨stem, listed, among⟩ := List.mem_flatMap.mp among
  obtain ⟨extension, own, rfl⟩ := List.mem_map.mp among
  exact ⟨stem, extension, own, words stem listed, rfl⟩

/-- Nothing in a file name leads elsewhere. -/
theorem Language.IsFileName.isIdentifierPart_or_dot {name : String}
    (own : language.IsFileName name) : ∀ c ∈ name.toList, isIdentifierPart c ∨ c = '.' := by
  obtain ⟨stem, extension, listed, identifier, rfl⟩ := own
  obtain ⟨letters, eq, _, each⟩ := exists_extension_eq listed
  rw [String.toList_append, List.forall_mem_append, eq, List.forall_mem_cons]
  exact ⟨fun c among => .inl (Text.isIdentifierPart_of_isIdentifier identifier c among), .inr rfl,
    fun c among => .inl (each c among)⟩

/-- A file name is longer than a dot and does not begin with one. -/
theorem Language.IsFileName.exists_toList_eq {name : String} (own : language.IsFileName name) :
    ∃ first rest, name.toList = first :: rest ∧ isIdentifierPart first := by
  obtain ⟨stem, extension, _, identifier, rfl⟩ := own
  have parts := Text.isIdentifierPart_of_isIdentifier identifier
  cases eq : stem.toList with
  | nil =>
      rw [String.toList_eq_nil_iff.mp eq] at identifier
      exact absurd identifier (by decide)
  | cons first rest =>
      rw [String.toList_append, eq]
      exact ⟨first, rest ++ extension.toList, rfl, parts first (eq ▸ List.mem_cons_self)⟩

end Names

/-! ## The stems of a rendering -/

/-- The stems of the files for classes with these type names. -/
def GeneralSettings.stems (general : GeneralSettings) (typeNames : List String) : List String :=
  match general.fileLayout with
  | .perClass => typeNames
  | .singleFile => if typeNames.isEmpty then [] else [general.singleFileName]

section Stems

variable {general : GeneralSettings} {language : Language} {keywords typeNames : List String}

theorem GeneralSettings.nodup_stems (distinct : typeNames.Nodup) :
    (general.stems typeNames).Nodup := by
  unfold stems
  split
  · exact distinct
  · split
    · exact List.nodup_nil
    · exact List.nodup_singleton _

theorem GeneralSettings.isIdentifier_stems (valid : general.fault? language keywords = none)
    (each : ∀ typeName ∈ typeNames, isIdentifier typeName) :
    ∀ stem ∈ general.stems typeNames, isIdentifier stem := by
  unfold stems
  split
  · exact each
  · split
    · exact List.forall_mem_nil _
    · exact List.forall_mem_singleton.mpr (fault?_eq_none_iff.mp valid).2.1

end Stems

theorem Swift.map_name_files (s : SwiftSettings) (ds : List Declaration) :
    (files s (ds.map (sourceOf s))).map (·.name) =
      Language.swift.fileNames (s.stems (ds.map (·.name))) := by
  unfold files GeneralSettings.stems Language.fileNames
  cases s.fileLayout with
  | perClass =>
      rw [List.map_map, List.map_map, List.flatMap_map, List.map_eq_flatMap]
      rfl
  | singleFile => cases ds <;> rfl

theorem ObjectiveC.map_name_files (s : ObjectiveCSettings) (ds : List Declaration) :
    (files s (ds.map (sourceOf s))).map (·.name) =
      Language.objectiveC.fileNames (s.stems (ds.map (·.name))) := by
  unfold files GeneralSettings.stems Language.fileNames
  cases s.fileLayout with
  | perClass =>
      rw [List.flatMap_map, List.flatMap_map, List.map_flatMap]
      rfl
  | singleFile => cases ds <;> rfl

theorem Java.map_name_files (s : JavaSettings) (ds : List Declaration) :
    (ds.map (file s)).map (·.name) = Language.java.fileNames (ds.map (·.name)) := by
  rw [List.map_map, Language.fileNames, List.flatMap_map, List.map_eq_flatMap]
  rfl

/-- The files of a rendering are those of some stems, which differ and are identifiers. -/
theorem exists_stems_of_render {language : Language} {settings : Settings} {budget : Budget}
    {s : Schema} {files : List SourceFile}
    (done : language.render settings budget s = .ok files) :
    ∃ stems : List String, stems.Nodup ∧ (∀ stem ∈ stems, isIdentifier stem) ∧
      files.map (·.name) = language.fileNames stems := by
  unfold Language.render at done
  split at done
  · next settings =>
    obtain ⟨valid, m, _, sources, declares, rfl⟩ :=
      Backend.exists_declares_of_render Swift.countsOutput_backend done
    obtain ⟨ds, rfl, declared⟩ := Swift.exists_declarations valid declares
    obtain ⟨general, _⟩ := SwiftSettings.fault?_eq_none_iff.mp valid
    exact ⟨_, GeneralSettings.nodup_stems (AreNamed.nodup declared.named),
      GeneralSettings.isIdentifier_stems general (AreNamed.isIdentifier general declared.named),
      Swift.map_name_files settings ds⟩
  · next settings =>
    obtain ⟨valid, m, _, sources, declares, rfl⟩ :=
      Backend.exists_declares_of_render ObjectiveC.countsOutput_backend done
    obtain ⟨ds, rfl, covers⟩ := ObjectiveC.exists_covers valid declares
    obtain ⟨general, _⟩ := ObjectiveCSettings.fault?_eq_none_iff.mp valid
    have named := covers.declared.named
    exact ⟨_, GeneralSettings.nodup_stems (AreNamed.nodup named),
      GeneralSettings.isIdentifier_stems general (AreNamed.isIdentifier general named),
      ObjectiveC.map_name_files settings ds⟩
  · next settings =>
    obtain ⟨valid, m, _, sources, declares, rfl⟩ :=
      Backend.exists_declares_of_render Java.countsOutput_backend done
    obtain ⟨ds, rfl, declared⟩ := Java.exists_declarations valid declares
    obtain ⟨general, _⟩ := JavaSettings.fault?_eq_none_iff.mp valid
    exact ⟨_, AreNamed.nodup declared.named, AreNamed.isIdentifier general declared.named,
      Java.map_name_files settings ds⟩
  · cases done

/-- The only class of a schema is in a header and an implementation. -/
theorem ObjectiveC.map_name_of_render {s : Schema} {c : ClassDef} {typeName : String}
    {files : List SourceFile} (order : s.inOrder backend.order = [c])
    (name : (backend.typeNames {} s).get c.name = .ok typeName)
    (done : backend.render {} .unlimited s = .ok files) :
    files.map (·.name) = Language.objectiveC.fileNames [typeName] := by
  obtain ⟨valid, m, merged, sources, declares, rfl⟩ :=
    Backend.exists_declares_of_render countsOutput_backend done
  cases merged
  obtain ⟨ds, rfl, covers⟩ := @exists_covers {} _ valid _ declares
  have named := covers.declared.named
  rw [AreNamed, order, List.forall₂_map_right_iff] at named
  obtain ⟨d, _, found, none, rfl⟩ := List.forall₂_cons_left_iff.mp named
  cases none
  have is : d.name = typeName := Except.ok.inj (found.symm.trans name)
  refine (map_name_files {} [d]).trans ?_
  rw [List.map_singleton, is]
  rfl

/-- Marks are in a header and an implementation. -/
theorem ObjectiveC.map_name_of_render_marks {files : List SourceFile}
    (done : backend.render {} .unlimited .marks = .ok files) :
    files.map (·.name) = ["Mark.h", "Mark.m"] := by
  have order : Schema.marks.inOrder backend.order =
      [⟨"Mark", [⟨"\"", .string⟩, ⟨"\n1", .integer⟩]⟩] := by cbv
  have name : (backend.typeNames {} .marks).get "Mark" = .ok "Mark" := by cbv
  exact map_name_of_render order name done

end Classwright
