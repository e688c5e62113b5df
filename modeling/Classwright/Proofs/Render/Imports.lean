/-
# Classwright.Proofs.Render.Imports — which headers a rendering imports

A header imports that of the base class, unless this is the root of all classes, and nothing else of
this project.  The base class is no generated class, so with files for each class its header is no
generated file.  With one header for all classes the name of that header comes from the settings,
and nothing keeps the settings from giving it the name of the base class: then the header imports
itself, and the base class is declared nowhere.
-/

import Mathlib
import Classwright.Proofs.Render.FileNames

namespace Classwright

open Text (IsWord linesWith)

/-! ## Imports of a file -/

/-- The line that imports a header of the project. -/
def importing (name : String) : String := "#import \"" ++ name ++ "\""

/-- One line of the file imports the header. -/
def SourceFile.Imports (file : SourceFile) (name : String) : Prop :=
  importing name ∈ Text.parts '\n' file.contents

theorem importing_inj {name other : String} : importing name = importing other ↔ name = other := by
  simp [importing, ← String.toList_inj]

namespace ObjectiveC

variable {settings : ObjectiveCSettings} {budget : Budget} {s m : Schema} {ds : List Declaration}
  {files : List SourceFile} {file : SourceFile} {stem name : String} {nested : List String}

theorem importText_eq (stem : String) : importText stem = importing (headerName stem) := rfl

theorem imports_iff : file.Imports name ↔ importing name ∈ linesWith "#import " file.contents := by
  have starts : Text.begins "#import " (importing name) := by
    rw [Text.begins, List.isPrefixOf_iff_prefix]
    refine Text.prefix_append (Text.prefix_append ?_ _) _
    exact ⟨['"'], by simp⟩
  rw [SourceFile.Imports, linesWith, List.mem_filter, and_iff_left starts]

theorem linesWith_headerImports (valid : settings.fault? = none) :
    linesWith "#import " (Text.addedBy SourceFile.indentation 0 (headerImports settings)) =
      "#import <Foundation/Foundation.h>" ::
        (if settings.baseClass = objectiveCRoot then [] else [importText settings.baseClass]) := by
  obtain ⟨_, base, _⟩ := ObjectiveCSettings.fault?_eq_none_iff.mp valid
  have word : IsWord settings.baseClass := Text.isIdentifierPart_of_isIdentifier base
  have framework : importStart <+: "#import <Foundation/Foundation.h>".toList := by decide
  have gap : linesWith (SourceFile.openingAt 0 importStart)
      (Text.addedBy SourceFile.indentation 0 [.emptyLine]) = [] :=
    SourceFile.linesWith_eq_nil (.emptyLine .nil) isStart_importStart
  rw [import_eq, headerImports,
    SourceFile.linesWith_cons isStart_importStart (.plain (.literal (by decide))) framework,
    SourceFile.margin_zero]
  refine congrArg (List.cons _) ?_
  split
  · exact gap
  · rw [importLine, List.cons_append, List.nil_append,
      SourceFile.linesWith_cons isStart_importStart (tidy_importLine word) (prefix_importText _),
      SourceFile.margin_zero, gap]
    rfl

/-- A header imports what every header does, and the header of the base class. -/
theorem linesWith_import_header (valid : settings.fault? = none) (word : IsWord stem)
    (words : ∀ typeName ∈ nested, IsWord typeName) (spelled : ∀ d ∈ ds, d.IsSpelled) :
    linesWith "#import " (header settings stem nested
        (ds.map fun d => (sourceOf settings d).interface)).contents =
      "#import <Foundation/Foundation.h>" ::
        (if settings.baseClass = objectiveCRoot then [] else [importText settings.baseClass]) := by
  have interfaces : (ds.flatMap fun d => linesWith (SourceFile.openingAt 0 importStart)
      (SourceFile.typeset (d.interface settings))) = [] := by
    rw [List.flatMap_eq_nil_iff]
    intro d among
    rw [SourceFile.typeset_eq]
    exact SourceFile.linesWith_eq_nil
      (quiet_interface standsOut_importStart valid (spelled d among)) isStart_importStart
  have front := SourceFile.linesWith_append_quiet (quiet_headerImports isNoImport_keyStart valid)
    (quiet_announcement standsOut_importStart words) isStart_importStart
  have lines := linesWith_header isStart_importStart valid word words spelled
  rw [interfaces, List.append_nil, front] at lines
  rw [← linesWith_headerImports valid]
  exact lines

theorem imports_header_iff (valid : settings.fault? = none) (word : IsWord stem)
    (words : ∀ typeName ∈ nested, IsWord typeName) (spelled : ∀ d ∈ ds, d.IsSpelled) :
    (header settings stem nested (ds.map fun d => (sourceOf settings d).interface)).Imports name ↔
      settings.baseClass ≠ objectiveCRoot ∧ name = headerName settings.baseClass := by
  have framework : importing name ≠ "#import <Foundation/Foundation.h>" := by
    simp [importing, ← String.toList_inj]
  rw [imports_iff, linesWith_import_header valid word words spelled, List.mem_cons,
    or_iff_right framework]
  split
  · next root => simp [root]
  · next other => simp [other, importText_eq, importing_inj]

theorem imports_implementationFile_iff (word : IsWord stem)
    (words : ∀ typeName ∈ nested, IsWord typeName) (spelled : ∀ d ∈ ds, d.IsSpelled) :
    (implementationFile stem nested
        (ds.map fun d => (sourceOf settings d).implementation)).Imports name ↔
      ∃ own ∈ stem :: nested, name = headerName own := by
  rw [imports_iff, linesWith_import word words spelled, List.mem_map]
  exact exists_congr fun own => and_congr_right fun _ => importing_inj.trans eq_comm

/-! ## Files of a rendering -/

theorem headerName_inj {other : String} : headerName stem = headerName other ↔ stem = other := by
  simp [headerName, ← String.toList_inj]

theorem headerName_ne_implementationName {other : String} :
    headerName stem ≠ implementationName other := by
  intro same
  have last := congrArg (·.toList.getLast?) same
  simp [headerName, implementationName] at last

/-- A file is a header or an implementation file, of declarations that are fit to stand in source. -/
inductive IsFile (settings : ObjectiveCSettings) : SourceFile → Prop
  | header {stem : String} {nested : List String} {ds : List Declaration} (word : IsWord stem)
    (words : ∀ typeName ∈ nested, IsWord typeName) (spelled : ∀ d ∈ ds, d.IsSpelled) :
    IsFile settings (ObjectiveC.header settings stem nested
      (ds.map fun d => (sourceOf settings d).interface))
  | implementation {stem : String} {nested : List String} {ds : List Declaration}
    (word : IsWord stem) (words : ∀ typeName ∈ nested, IsWord typeName)
    (spelled : ∀ d ∈ ds, d.IsSpelled) :
    IsFile settings (implementationFile stem nested
      (ds.map fun d => (sourceOf settings d).implementation))

theorem Covers.isFile (covers : Covers settings m ds) (valid : settings.fault? = none) :
    ∀ file ∈ ObjectiveC.files settings (ds.map (sourceOf settings)), IsFile settings file := by
  cases layout : settings.fileLayout with
  | perClass =>
      rw [files_perClass layout]
      intro file among
      obtain ⟨d, listed, own⟩ := List.mem_flatMap.mp among
      have spelled := covers.spelled d listed
      have alone : ∀ e ∈ [d], e.IsSpelled := List.forall_mem_singleton.mpr spelled
      rcases List.mem_cons.mp own with rfl | own
      · exact .header spelled.name spelled.nested alone
      · rw [List.mem_singleton.mp own]
        exact .implementation spelled.name spelled.nested alone
  | singleFile =>
      rcases eq_or_ne ds [] with rfl | written
      · rw [ObjectiveC.files, layout]
        exact List.forall_mem_nil _
      · rw [files_singleFile layout written]
        have word := isWord_fileName valid
        exact List.forall_mem_cons.mpr
          ⟨.header word (List.forall_mem_nil _) covers.spelled, List.forall_mem_singleton.mpr
            (.implementation word (List.forall_mem_nil _) covers.spelled)⟩

namespace IsFile

/-- A header imports the header of the base class and no other of the project. -/
theorem imports_iff (own : IsFile settings file) (valid : settings.fault? = none)
    (named : file.name = headerName stem) :
    file.Imports name ↔
      settings.baseClass ≠ objectiveCRoot ∧ name = headerName settings.baseClass := by
  cases own with
  | header word words spelled => exact imports_header_iff valid word words spelled
  | implementation _ _ _ => exact absurd named.symm headerName_ne_implementationName

/-- A file that imports itself is the header of a base class that is imported. -/
theorem imports_itself_iff (own : IsFile settings file) (valid : settings.fault? = none) :
    file.Imports file.name ↔
      settings.baseClass ≠ objectiveCRoot ∧ file.name = headerName settings.baseClass := by
  cases own with
  | header word words spelled => exact imports_header_iff valid word words spelled
  | implementation word words spelled =>
      rw [imports_implementationFile_iff word words spelled]
      refine iff_of_false ?_ fun both => headerName_ne_implementationName both.2.symm
      rintro ⟨other, _, same⟩
      exact headerName_ne_implementationName same.symm

end IsFile

/-! ## The header of the base class -/

/-- The files for all classes are named like the base class. -/
def SharesBaseName (settings : ObjectiveCSettings) : Prop :=
  settings.fileLayout = .singleFile ∧ settings.singleFileName = settings.baseClass

instance (settings : ObjectiveCSettings) : Decidable (SharesBaseName settings) :=
  inferInstanceAs (Decidable (_ ∧ _))

theorem headerName_mem_fileNames {stems : List String} :
    headerName stem ∈ Language.objectiveC.fileNames stems ↔ stem ∈ stems := by
  rw [Language.fileNames, List.mem_flatMap]
  constructor
  · rintro ⟨other, among, listed⟩
    obtain ⟨extension, own, same⟩ := List.mem_map.mp listed
    rcases List.mem_cons.mp own with rfl | own
    · rwa [← headerName_inj.mp same]
    · rw [List.mem_singleton.mp own] at same
      exact absurd same.symm headerName_ne_implementationName
  · exact fun among => ⟨stem, among, List.mem_cons_self⟩

theorem isGenerated_eq_false
    (apart : (backend.typeNames settings m).baseFault? (some settings.baseClass) = none) :
    (backend.typeNames settings m).isGenerated settings.baseClass = false := by
  rw [TypeNames.baseFault?, Option.bind_some] at apart
  split at apart
  · cases apart
  · next other => exact Bool.eq_false_iff.mpr other

/-- Since the base class is no generated class, only files for all classes can have its name. -/
theorem Covers.headerName_mem_iff (covers : Covers settings m ds)
    (apart : (backend.typeNames settings m).baseFault? (some settings.baseClass) = none) :
    headerName settings.baseClass ∈
        (ObjectiveC.files settings (ds.map (sourceOf settings))).map (·.name) ↔
      SharesBaseName settings ∧ ObjectiveC.files settings (ds.map (sourceOf settings)) ≠ [] := by
  have other : settings.baseClass ∉ ds.map (·.name) := by
    intro among
    obtain ⟨d, listed, same⟩ := List.mem_map.mp among
    obtain ⟨c, _, refers⟩ := covers.exists_refers listed
    have generated := isGenerated_of_isNamed refers.name
    rw [same, isGenerated_eq_false apart] at generated
    cases generated
  rw [map_name_files, headerName_mem_fileNames, GeneralSettings.stems, SharesBaseName,
    ObjectiveC.files]
  cases layout : settings.fileLayout with
  | perClass => simpa using other
  | singleFile =>
      cases ds with
      | nil => simp
      | cons d ds => simpa using eq_comm

/-- What is rendered are files of declarations of all classes, and the base class is none of them. -/
theorem exists_covers_apart (rendered : backend.render settings budget s = .ok files) :
    settings.fault? = none ∧ ∃ m ds, s.merged settings.mergePolicy = .ok m ∧
      Covers settings m ds ∧
      (backend.typeNames settings m).baseFault? (some settings.baseClass) = none ∧
      files = ObjectiveC.files settings (ds.map (sourceOf settings)) := by
  obtain ⟨valid, m, merged, _⟩ := Backend.exists_declares_of_render countsOutput_backend rendered
  rw [Backend.render_of_merged valid merged,
    Backend.renderMerged_eq_ok_iff countsOutput_backend] at rendered
  obtain ⟨apart, sources, declares, rfl, _⟩ := rendered
  obtain ⟨ds, rfl, covers⟩ := exists_covers valid declares
  exact ⟨valid, m, ds, merged, covers, apart, rfl⟩

theorem Covers.exists_imports_itself_iff (covers : Covers settings m ds)
    (valid : settings.fault? = none)
    (apart : (backend.typeNames settings m).baseFault? (some settings.baseClass) = none) :
    (∃ file ∈ ObjectiveC.files settings (ds.map (sourceOf settings)), file.Imports file.name) ↔
      settings.baseClass ≠ objectiveCRoot ∧ SharesBaseName settings ∧
        ObjectiveC.files settings (ds.map (sourceOf settings)) ≠ [] := by
  rw [← covers.headerName_mem_iff apart]
  constructor
  · rintro ⟨file, among, imports⟩
    obtain ⟨other, named⟩ := ((covers.isFile valid file among).imports_itself_iff valid).mp imports
    exact ⟨other, List.mem_map.mpr ⟨file, among, named⟩⟩
  · rintro ⟨other, listed⟩
    obtain ⟨file, among, named⟩ := List.mem_map.mp listed
    exact ⟨file, among,
      ((covers.isFile valid file among).imports_itself_iff valid).mpr ⟨other, named⟩⟩

/-- Marks are rendered in any settings that keep their class and do not take its name. -/
theorem exists_render_marks_of_apart (valid : settings.fault? = none)
    (policy : settings.mergePolicy = .byPath)
    (apart : (backend.typeNames settings .marks).baseFault? (some settings.baseClass) = none) :
    ∃ files, backend.render settings .unlimited .marks = .ok files := by
  have merged : Schema.marks.merged settings.mergePolicy = .ok .marks := by
    rw [policy]
    rfl
  have outcome : FailsIff _ _ (backend.render settings .unlimited .marks) :=
    Backend.failsIff_render isFaithful_backend valid merged apart
  exact outcome.value (Schema.supported_marks .objectiveC)

/-- Whatever is rendered in Objective-C, a header imports the header of the base class, unless this
is the root of all classes, and no other header of the project.  The header of the base class is
among the files exactly if these are files for all classes and have the name of the base class, and
there are any.  So a file imports itself exactly then, if the base class is not the root. -/
theorem self_import_iff_sharesBaseName (rendered : backend.render settings budget s = .ok files) :
    (∀ file ∈ files, ∀ stem, file.name = headerName stem → ∀ name, file.Imports name ↔
      settings.baseClass ≠ objectiveCRoot ∧ name = headerName settings.baseClass) ∧
    (headerName settings.baseClass ∈ files.map (·.name) ↔
      SharesBaseName settings ∧ files ≠ []) ∧
    ((∃ file ∈ files, file.Imports file.name) ↔
      settings.baseClass ≠ objectiveCRoot ∧ SharesBaseName settings ∧ files ≠ []) := by
  obtain ⟨valid, m, ds, _, covers, apart, rfl⟩ := exists_covers_apart rendered
  refine ⟨fun file among stem named name => ?_, covers.headerName_mem_iff apart,
    covers.exists_imports_itself_iff valid apart⟩
  exact (covers.isFile valid file among).imports_iff valid named

/-- Marks descend from a class that is imported from elsewhere. -/
theorem self_import_iff_sharesBaseName_marks :
    ∃ files,
      backend.render { fileLayout := .singleFile, baseClass := "BaseMark" } .unlimited .marks =
        .ok files ∧
      "BaseMark.h" ∉ files.map (·.name) ∧ ∀ file ∈ files, ¬ file.Imports file.name := by
  obtain ⟨files, done⟩ := @exists_render_marks_of_apart
    { fileLayout := .singleFile, baseClass := "BaseMark" } (by decide) rfl (by cbv)
  have other : ¬ SharesBaseName { fileLayout := .singleFile, baseClass := "BaseMark" } := by decide
  obtain ⟨_, among, itself⟩ := self_import_iff_sharesBaseName done
  refine ⟨files, done, fun listed => other (among.mp listed).1, fun file own imports => ?_⟩
  exact other (itself.mp ⟨file, own, imports⟩).2.1

/-- The settings have no fault, and marks descend from a class that is imported from the header with
the marks themselves. -/
theorem imports_own_header_marks :
    ({ fileLayout := .singleFile, baseClass := "Models" } : ObjectiveCSettings).fault? = none ∧
      ∃ files,
        backend.render { fileLayout := .singleFile, baseClass := "Models" } .unlimited .marks =
          .ok files ∧
        ∃ file ∈ files, file.name = "Models.h" ∧ file.Imports "Models.h" := by
  obtain ⟨files, done⟩ := @exists_render_marks_of_apart
    { fileLayout := .singleFile, baseClass := "Models" } (by decide) rfl (by cbv)
  obtain ⟨valid, m, ds, merged, covers, _, rfl⟩ := exists_covers_apart done
  cases merged
  have written : ds ≠ [] := by
    rintro rfl
    have none := List.forall₂_nil_right_iff.mp covers.refers
    have order : Schema.marks.leavesFirst = Schema.marks.classes := by cbv
    rw [order] at none
    cases none
  have word : IsWord "Models" := isWord_fileName valid
  refine ⟨valid, _, done, ?_⟩
  rw [files_singleFile rfl written]
  refine ⟨_, List.mem_cons_self, rfl, ?_⟩
  exact (imports_header_iff valid word (List.forall_mem_nil _) covers.spelled).mpr
    ⟨by decide, rfl⟩

end ObjectiveC

end Classwright
