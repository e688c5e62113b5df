/-
# Classwright.Proofs.Render.Layouts — both layouts hold the same declarations

Classes are declared without a look at the layout of files, which only says where the declarations
go.  So settings that differ in the layout alone have the same declarations put into files: each
into its own, or all into one with an empty line between them.  Either way a file is its comment,
lines that depend on the language, and then declarations (`SourceFile.holding`).  Every class has
one of them, under the type name of the class.
-/

import Mathlib
import Classwright.Proofs.Declaration.Types
import Classwright.Proofs.Render.Orderly

namespace Classwright

open Text (Edit Block IsPlain IsTidy IsWhole IsWord Quiet TidyBlock IsFlush namesBehind)

/-! ## Settings that lead to the same declarations -/

/-- The steps give one list of results. -/
theorem Budget.Runs.unique {σ α β : Type} {step : σ → α → Except RenderFault (β × σ)} {state : σ}
    {items : List α} {results others : List β} (runs : Runs step state items results)
    (again : Runs step state items others) : results = others := by
  induction runs generalizing others with
  | nil =>
      cases again
      rfl
  | cons first _ ih =>
      cases again with
      | cons second rest =>
          rw [first] at second
          cases second
          rw [ih rest]

namespace Backend

variable {σ τ α : Type} {backend : Backend σ τ α} {settings other : σ} {budget : Budget}
  {s m : Schema} {files : List SourceFile}

/-- The settings do not differ in anything that declarations depend on. -/
structure Agrees (backend : Backend σ τ α) (settings other : σ) : Prop where
  fault : backend.fault? other = backend.fault? settings
  mergePolicy : (backend.general other).mergePolicy = (backend.general settings).mergePolicy
  classPrefix : (backend.general other).classPrefix = (backend.general settings).classPrefix
  baseClass : backend.baseClass other = backend.baseClass settings
  declare : backend.declare other = backend.declare settings

theorem Agrees.typeNames (agrees : backend.Agrees settings other) (m : Schema) :
    backend.typeNames other m = backend.typeNames settings m := by
  rw [Backend.typeNames, Backend.typeNames, agrees.classPrefix]

theorem Agrees.declares_iff (agrees : backend.Agrees settings other) {declarations : List α} :
    backend.Declares other m declarations ↔ backend.Declares settings m declarations := by
  rw [Declares, Declares, agrees.declare, agrees.typeNames]

/-- Once something is rendered, its declarations go into the files of all settings that do not
differ in what declarations depend on, and only a budget can be in the way. -/
theorem exists_files_of_render (counts : backend.CountsOutput)
    (done : backend.render settings budget s = .ok files) :
    backend.fault? settings = none ∧
      ∃ m, s.merged (backend.general settings).mergePolicy = .ok m ∧
        ∃ declarations, backend.Declares settings m declarations ∧
          ∀ other, backend.Agrees settings other → ∀ budget files,
            backend.render other budget s = .ok files ↔
              files = backend.files other declarations ∧
                budget.Admits m.size (SourceFile.totalBytes files) := by
  obtain ⟨valid, m, merged, declarations, declares, _⟩ := exists_declares_of_render counts done
  rw [render_of_merged valid merged, renderMerged_eq_ok_iff counts] at done
  obtain ⟨apart, _⟩ := done
  refine ⟨valid, m, merged, declarations, declares, fun other agrees budget files => ?_⟩
  have validOther : backend.fault? other = none := agrees.fault.trans valid
  have mergedOther : s.merged (backend.general other).mergePolicy = .ok m := by
    rw [agrees.mergePolicy, merged]
  rw [render_of_merged validOther mergedOther, renderMerged_eq_ok_iff counts, agrees.typeNames,
    agrees.baseClass]
  constructor
  · rintro ⟨_, others, declaresOthers, rfl, admits⟩
    obtain rfl := declares.unique (agrees.declares_iff.mp declaresOthers)
    exact ⟨rfl, admits⟩
  · rintro ⟨rfl, admits⟩
    exact ⟨apart, declarations, agrees.declares_iff.mpr declares, rfl, admits⟩

end Backend

/-! ## What stands in a file -/

namespace SourceFile

/-- The lines, one under the other. -/
def ofLines (lines : List String) : String := String.join (lines.map (· ++ "\n"))

/-- The lines of the comment at the top of a file, and the gap below it. -/
def comment (name : String) : List String :=
  ["//", "//  " ++ name, "//", "//  Generated by JSONModeler. Do not edit.", "//", ""]

/-- A file with some lines below its comment, and then texts with an empty line between them. -/
def holding (name : String) (front texts : List String) : SourceFile :=
  ⟨name, ofLines (comment name ++ front) ++ "\n".intercalate texts⟩

theorem ofLines_append (lines others : List String) :
    ofLines (lines ++ others) = ofLines lines ++ ofLines others := by
  rw [ofLines, List.map_append, String.join_append, ofLines, ofLines]

variable {edits others : List Edit} {lines more : List String}

/-- At the margin the edits write these lines, whatever comes behind. -/
def Writes (edits : List Edit) (lines : List String) : Prop :=
  ∀ behind, Text.addedBy indentation 0 (edits ++ behind) =
    ofLines lines ++ Text.addedBy indentation 0 behind

namespace Writes

theorem nil : Writes [] [] := fun _ => String.empty_append.symm

theorem append (front : Writes edits lines) (back : Writes others more) :
    Writes (edits ++ others) (lines ++ more) := by
  intro behind
  rw [List.append_assoc, front, back, ofLines_append, String.append_assoc]

theorem emptyLine : Writes [.emptyLine] [""] := fun _ => rfl

theorem line (text : String) : Writes [.line text] [text] := by
  intro behind
  have own : ofLines [text] = text ++ "\n" := String.empty_append
  show Text.addedBy _ 0 (.line text :: behind) = _
  rw [Text.addedBy_cons, Text.addedBy_line, own]
  refine congrArg (· ++ "\n" ++ _) ?_
  split
  · next empty => exact (String.isEmpty_iff.mp empty).symm
  · exact String.empty_append

theorem map {α : Type} (write : α → String) (as : List α) :
    Writes (as.map fun a => .line (write a)) (as.map write) := by
  induction as with
  | nil => exact nil
  | cons a as ih => exact (line (write a)).append ih

end Writes

theorem addedBy_spaced (texts : List String) :
    Text.addedBy indentation 0 (spaced texts) = "\n".intercalate texts := by
  induction texts with
  | nil => rfl
  | cons text texts ih =>
      cases texts with
      | nil => exact String.append_empty.trans String.intercalate_singleton.symm
      | cons other texts =>
          show text ++ ("\n" ++ Text.addedBy indentation 0 (spaced (other :: texts))) = _
          rw [ih, String.intercalate_cons_cons, String.append_assoc]

theorem writes_header (name : String) : Writes (header name) (comment name) := by
  have lines := Writes.map id
    ["//", "//  " ++ name, "//", "//  Generated by JSONModeler. Do not edit.", "//"]
  exact lines.append .emptyLine

theorem headed_eq_holding {name : String} (front : Writes edits lines) (others : List Edit)
    {texts : List String} (rest : Text.addedBy indentation 0 others = "\n".intercalate texts) :
    headed name (edits ++ others) = holding name lines texts := by
  rw [headed, holding, typeset_eq, ← List.append_assoc, (writes_header name).append front, rest]

end SourceFile

/-! ## Swift -/

namespace Swift

variable {settings : SwiftSettings} {s m : Schema} {ds : List Declaration}

/-- What stands below the comment of every file. -/
def frontLines : List String := ["import Foundation", ""]

/-- The files of a layout. -/
def laidOut (settings : SwiftSettings) (sources : List Source) : FileLayout → List SourceFile
  | .perClass => sources.map fun source =>
    .holding (fileName source.typeName) frontLines [source.text]
  | .singleFile =>
    if sources = [] then []
    else [.holding (fileName settings.singleFileName) frontLines (sources.map (·.text))]

/-- The sources are the declarations of all classes, in order and under their type names, and they
are what the files of either layout hold. -/
structure LaysOut (settings : SwiftSettings) (s m : Schema) (sources : List Source) : Prop where
  all : (m.inOrder backend.order).Perm m.classes
  declares : backend.Declares settings m sources
  named : AreNamed (backend.typeNames settings m) (m.inOrder backend.order)
    (sources.map (·.typeName))
  distinct : (sources.map (·.typeName)).Nodup
  text : ∀ source ∈ sources, IsFlush source.text ∧
    namesBehind (typeOpening settings) source.text = [source.typeName]
  rendered : ∀ layout budget files,
    backend.render { settings with fileLayout := layout } budget s = .ok files ↔
      files = laidOut settings sources layout ∧
        budget.Admits m.size (SourceFile.totalBytes files)
  read : ∀ layout, (laidOut settings sources layout).flatMap
      (fun file => namesBehind (typeOpening settings) file.contents) = sources.map (·.typeName)

theorem agrees_layout (settings : SwiftSettings) (layout : FileLayout) :
    backend.Agrees settings { settings with fileLayout := layout } :=
  ⟨rfl, rfl, rfl, rfl, rfl⟩

theorem file_eq_holding (stem : String) (texts : List String) :
    file stem texts = .holding (fileName stem) frontLines texts :=
  SourceFile.headed_eq_holding ((SourceFile.Writes.line _).append .emptyLine) _
    (SourceFile.addedBy_spaced texts)

theorem files_eq_laidOut (layout : FileLayout) (sources : List Source) :
    files { settings with fileLayout := layout } sources = laidOut settings sources layout := by
  cases layout with
  | perClass =>
      rw [files, laidOut]
      exact List.map_congr_left fun source _ => file_eq_holding _ _
  | singleFile =>
      cases sources with
      | nil => rfl
      | cons source sources => exact congrArg ([·]) (file_eq_holding _ _)

theorem namesBehind_file (valid : settings.fault? = none) {stem : String} (word : IsWord stem)
    (spelled : ∀ d ∈ ds, d.IsSpelled) :
    namesBehind (typeOpening settings)
        (file stem (ds.map fun d => (sourceOf settings d).text)).contents =
      ds.map (·.name) := by
  have name : IsPlain (fileName stem) := word.isPlain.append (.literal (by decide))
  have front : Block (Quiet 0 (typeOpening settings).toList) 0 imports :=
    .line (.own (.plain (.literal (by decide))) (departs_typeOpening settings (by decide)))
      (.emptyLine .nil)
  rw [file, SourceFile.namesBehind_headed_spaced name (isStart_typeOpening settings) front]
  · rw [List.flatMap_map, List.map_eq_flatMap]
    exact List.flatMap_congr fun d among => namesBehind_source valid (spelled d among)
  · rw [List.forall_mem_map]
    exact fun d among => (isFlush_source valid (spelled d among)).isWhole

/-- Either layout declares the types of all declarations, in order. -/
theorem namesBehind_files (valid : settings.fault? = none) (spelled : ∀ d ∈ ds, d.IsSpelled) :
    (files settings (ds.map (sourceOf settings))).flatMap
      (fun file => namesBehind (typeOpening settings) file.contents) = ds.map (·.name) := by
  unfold files
  cases settings.fileLayout with
  | perClass =>
      rw [List.map_map, List.flatMap_map, List.map_eq_flatMap]
      refine List.flatMap_congr fun d among => ?_
      have own := spelled d among
      exact @namesBehind_file _ [d] valid _ own.name (List.forall_mem_singleton.mpr own)
  | singleFile =>
      cases ds with
      | nil => rfl
      | cons d ds =>
          show [file settings.singleFileName
            (((d :: ds).map (sourceOf settings)).map (·.text))].flatMap _ = _
          rw [List.map_map, List.flatMap_singleton]
          exact namesBehind_file valid (isWord_fileName valid) spelled

theorem exists_laysOut {budget : Budget} {files : List SourceFile}
    (done : backend.render settings budget s = .ok files) :
    ∃ m sources, s.merged settings.mergePolicy = .ok m ∧ LaysOut settings s m sources := by
  obtain ⟨valid, m, merged, sources, declares, rendered⟩ :=
    Backend.exists_files_of_render countsOutput_backend done
  obtain ⟨ds, rfl, declared⟩ := exists_declarations valid declares
  have named : AreNamed (backend.typeNames settings m) (m.inOrder backend.order)
      ((ds.map (sourceOf settings)).map (·.typeName)) := by
    rw [List.map_map]
    exact declared.named
  refine ⟨m, _, merged, m.perm_inOrder _, declares, named, AreNamed.nodup named, ?_,
    fun layout budget files => ?_, fun layout => ?_⟩
  · rw [List.forall_mem_map]
    exact fun d among => ⟨isFlush_source valid (declared.spelled d among),
      namesBehind_source valid (declared.spelled d among)⟩
  · rw [← files_eq_laidOut]
    exact rendered _ (agrees_layout settings layout) budget files
  · rw [← files_eq_laidOut, List.map_map]
    exact @namesBehind_files { settings with fileLayout := layout } _ valid declared.spelled

end Swift

/-! ## Objective-C -/

namespace ObjectiveC

variable {settings : ObjectiveCSettings} {s m : Schema} {d : Declaration} {ds : List Declaration}
  {stem : String} {nested : List String}

/-- The lines with an empty line behind them, if there are any. -/
def grouped (lines : List String) : List String := if lines.isEmpty then [] else lines ++ [""]

/-- What stands below the comment of a header: what it imports, and the classes that it announces. -/
def headerFront (settings : ObjectiveCSettings) (nested : List String) : List String :=
  ("#import <Foundation/Foundation.h>" ::
    ((if settings.baseClass = objectiveCRoot then [] else [importText settings.baseClass]) ++
      [""])) ++ grouped (announcementLines nested)

/-- What stands below the comment of an implementation file: what it imports. -/
def implementationFront (stem : String) (nested : List String) : List String :=
  (stem :: nested).map importText ++ [""]

/-- The pairs of files of a layout, each a header and an implementation file. -/
def laidOut (settings : ObjectiveCSettings) (sources : List Source) :
    FileLayout → List (SourceFile × SourceFile)
  | .perClass => sources.map fun source =>
    (.holding (headerName source.typeName) (headerFront settings source.nested) [source.interface],
      .holding (implementationName source.typeName)
        (implementationFront source.typeName source.nested) [source.implementation])
  | .singleFile =>
    if sources = [] then []
    else
      [(.holding (headerName settings.singleFileName) (headerFront settings [])
          (sources.map (·.interface)),
        .holding (implementationName settings.singleFileName)
          (implementationFront settings.singleFileName []) (sources.map (·.implementation)))]

/-- The sources are the declarations of all classes, in order and under their type names, and they
are what the files of either layout hold. -/
structure LaysOut (settings : ObjectiveCSettings) (s m : Schema) (sources : List Source) : Prop where
  all : (m.inOrder backend.order).Perm m.classes
  declares : backend.Declares settings m sources
  named : AreNamed (backend.typeNames settings m) (m.inOrder backend.order)
    (sources.map (·.typeName))
  distinct : (sources.map (·.typeName)).Nodup
  interface : ∀ source ∈ sources, IsFlush source.interface ∧
    (interfacesIn source.interface).map Prod.fst = [source.typeName]
  implementation : ∀ source ∈ sources, IsFlush source.implementation ∧
    namesBehind implementationOpening source.implementation = [source.typeName]
  rendered : ∀ layout budget files,
    backend.render { settings with fileLayout := layout } budget s = .ok files ↔
      files = (laidOut settings sources layout).flatMap (fun pair => [pair.1, pair.2]) ∧
        budget.Admits m.size (SourceFile.totalBytes files)
  headers : ∀ layout, (laidOut settings sources layout).flatMap
      (fun pair => (interfacesIn pair.1.contents).map Prod.fst) = sources.map (·.typeName)
  implementations : ∀ layout, (laidOut settings sources layout).flatMap
      (fun pair => namesBehind implementationOpening pair.2.contents) = sources.map (·.typeName)

theorem agrees_layout (settings : ObjectiveCSettings) (layout : FileLayout) :
    backend.Agrees settings { settings with fileLayout := layout } :=
  ⟨rfl, rfl, rfl, rfl, rfl⟩

theorem writes_headerFront (settings : ObjectiveCSettings) (nested : List String) :
    SourceFile.Writes (headerImports settings ++ announcement nested)
      (headerFront settings nested) := by
  have announced : SourceFile.Writes (announcement nested) (grouped (announcementLines nested)) := by
    unfold announcement announcementLines
    split
    · exact .nil
    · exact (SourceFile.Writes.line _).append .emptyLine
  have base : SourceFile.Writes
      (if settings.baseClass = objectiveCRoot then [] else [importLine settings.baseClass])
      (if settings.baseClass = objectiveCRoot then [] else [importText settings.baseClass]) := by
    split
    · exact .nil
    · exact .line _
  exact .append (.append (.line _) (.append base .emptyLine)) announced

theorem header_eq_holding (nested interfaces : List String) :
    header settings stem nested interfaces =
      .holding (headerName stem) (headerFront settings nested) interfaces :=
  SourceFile.headed_eq_holding (writes_headerFront settings nested) _
    (SourceFile.addedBy_spaced interfaces)

theorem implementationFile_eq_holding (nested implementations : List String) :
    implementationFile stem nested implementations =
      .holding (implementationName stem) (implementationFront stem nested) implementations := by
  have front : SourceFile.Writes (importLines stem nested) (implementationFront stem nested) :=
    (SourceFile.Writes.map importText (stem :: nested)).append .emptyLine
  rw [implementationFile_eq]
  exact SourceFile.headed_eq_holding front _ (SourceFile.addedBy_spaced implementations)

theorem files_eq_laidOut (layout : FileLayout) (sources : List Source) :
    files { settings with fileLayout := layout } sources =
      (laidOut settings sources layout).flatMap fun pair => [pair.1, pair.2] := by
  cases layout with
  | perClass =>
      rw [files, laidOut, List.flatMap_map]
      exact List.flatMap_congr fun source _ =>
        congrArg₂ (fun a b => [a, b]) (header_eq_holding _ _) (implementationFile_eq_holding _ _)
  | singleFile =>
      cases sources with
      | nil => rfl
      | cons source sources =>
          exact congrArg₂ (fun a b => [a, b]) (header_eq_holding _ _)
            (implementationFile_eq_holding _ _)

theorem namesBehind_implementationFile (word : IsWord stem)
    (words : ∀ typeName ∈ nested, IsWord typeName) (spelled : ∀ d ∈ ds, d.IsSpelled) :
    namesBehind implementationOpening
        (implementationFile stem nested
          (ds.map fun d => (sourceOf settings d).implementation)).contents =
      ds.map (·.name) := by
  have name : IsPlain (implementationName stem) := word.isPlain.append (.literal (by decide))
  have apart : IsNoImport implementationOpening.toList := by
    rw [implementationOpening_eq]
    decide
  rw [implementationFile_eq, SourceFile.namesBehind_headed_spaced name isStart_implementationOpening
    (quiet_importLines apart word words)]
  · rw [List.flatMap_map, List.map_eq_flatMap]
    exact List.flatMap_congr fun d among => namesBehind_implementation (spelled d among)
  · rw [List.forall_mem_map]
    exact fun d among => (isFlush_implementation (spelled d among)).isWhole

/-- What is read of pairs of files is the same in either layout, if it is read of each declaration in
them. -/
theorem flatMap_laidOut {β : Type} {f : SourceFile × SourceFile → List β} {g : Declaration → β}
    (valid : settings.fault? = none) (spelled : ∀ d ∈ ds, d.IsSpelled)
    (read : ∀ stem nested (own : List Declaration), IsWord stem →
      (∀ typeName ∈ nested, IsWord typeName) → (∀ d ∈ own, d ∈ ds) →
      f (header settings stem nested (own.map fun d => (sourceOf settings d).interface),
        implementationFile stem nested (own.map fun d => (sourceOf settings d).implementation)) =
          own.map g) (layout : FileLayout) :
    (laidOut settings (ds.map (sourceOf settings)) layout).flatMap f = ds.map g := by
  simp only [header_eq_holding, implementationFile_eq_holding] at read
  cases layout with
  | perClass =>
      rw [laidOut, List.flatMap_map, List.flatMap_map, List.map_eq_flatMap]
      refine List.flatMap_congr fun d among => ?_
      have own := spelled d among
      exact read d.name d.nested [d] own.name own.nested (List.forall_mem_singleton.mpr among)
  | singleFile =>
      cases ds with
      | nil => rfl
      | cons d ds =>
          refine (List.flatMap_singleton ..).trans ?_
          rw [List.map_map, List.map_map]
          exact read _ [] (d :: ds) (isWord_fileName valid) (List.forall_mem_nil _)
            fun _ among => among

/-- In either layout the headers hold the interfaces of all declarations, in order. -/
theorem headers_laidOut (valid : settings.fault? = none) (spelled : ∀ d ∈ ds, d.IsSpelled)
    (filled : ∀ d ∈ ds, ∀ m ∈ d.members, m.name ≠ "") (layout : FileLayout) :
    (laidOut settings (ds.map (sourceOf settings)) layout).flatMap
      (fun pair => (interfacesIn pair.1.contents).map Prod.fst) = ds.map (·.name) := by
  refine flatMap_laidOut valid spelled (fun stem nested own word words fit => ?_) layout
  rw [interfacesIn_header valid word words (fun d among => spelled d (fit d among))
    (fun d among => filled d (fit d among)), List.map_map]
  rfl

/-- In either layout the other files hold the implementations of all declarations, in order. -/
theorem implementations_laidOut (valid : settings.fault? = none) (spelled : ∀ d ∈ ds, d.IsSpelled)
    (layout : FileLayout) :
    (laidOut settings (ds.map (sourceOf settings)) layout).flatMap
      (fun pair => namesBehind implementationOpening pair.2.contents) = ds.map (·.name) := by
  refine flatMap_laidOut valid spelled (fun stem nested own word words fit => ?_) layout
  exact namesBehind_implementationFile word words fun d among => spelled d (fit d among)

theorem exists_laysOut {budget : Budget} {files : List SourceFile}
    (done : backend.render settings budget s = .ok files) :
    ∃ m sources, s.merged settings.mergePolicy = .ok m ∧ LaysOut settings s m sources := by
  obtain ⟨valid, m, merged, sources, declares, rendered⟩ :=
    Backend.exists_files_of_render countsOutput_backend done
  obtain ⟨ds, rfl, covers⟩ := exists_covers valid declares
  have names : (ds.map (sourceOf settings)).map (·.typeName) = ds.map (·.name) := List.map_map
  have named := covers.declared.named
  rw [← names] at named
  refine ⟨m, _, merged, m.perm_inOrder _, declares, named, AreNamed.nodup named, ?_, ?_,
    fun layout budget files => ?_, fun layout => ?_, fun layout => ?_⟩
  · rw [List.forall_mem_map]
    intro d among
    refine ⟨isFlush_interface valid (covers.spelled d among), ?_⟩
    rw [interfacesIn_source valid (covers.spelled d among) (covers.filled d among)]
    rfl
  · rw [List.forall_mem_map]
    exact fun d among => ⟨isFlush_implementation (covers.spelled d among),
      namesBehind_implementation (covers.spelled d among)⟩
  · rw [← files_eq_laidOut]
    exact rendered _ (agrees_layout settings layout) budget files
  · rw [names]
    exact headers_laidOut valid covers.spelled covers.filled layout
  · rw [names]
    exact implementations_laidOut valid covers.spelled layout

end ObjectiveC

/-! ## Java -/

namespace Java

variable {settings : JavaSettings} {s m : Schema} {d : Declaration}

/-- What is written for a class. -/
structure Source where
  typeName : String
  imports : List String
  text : String

/-- What stands below the comment of a file: its package and its imports. -/
def frontLines (settings : JavaSettings) (imports : List String) : List String :=
  ((settings.package.map fun name => ["package " ++ name ++ ";", ""]).getD []) ++
    if imports.isEmpty then [] else imports.map (fun name => "import " ++ name ++ ";") ++ [""]

/-- The file of a class. -/
def Source.laidOut (settings : JavaSettings) (source : Source) : SourceFile :=
  .holding (fileName source.typeName) (frontLines settings source.imports) [source.text]

/-- The sources are the declarations of all classes, in order and under their type names, and each
is what a file holds. -/
structure LaysOut (settings : JavaSettings) (s m : Schema) (sources : List Source) : Prop where
  layout : settings.fileLayout = .perClass
  all : (m.inOrder backend.order).Perm m.classes
  declares : backend.Declares settings m (sources.map (·.laidOut settings))
  named : AreNamed (backend.typeNames settings m) (m.inOrder backend.order)
    (sources.map (·.typeName))
  distinct : (sources.map (·.typeName)).Nodup
  text : ∀ source ∈ sources, IsFlush source.text ∧
    namesBehind classOpening source.text = [source.typeName]
  rendered : ∀ budget files, backend.render settings budget s = .ok files ↔
    files = sources.map (·.laidOut settings) ∧
      budget.Admits m.size (SourceFile.totalBytes files)
  read : sources.flatMap (fun source =>
    namesBehind classOpening (source.laidOut settings).contents) = sources.map (·.typeName)

/-- What is written for a declaration. -/
def sourceOf (settings : JavaSettings) (d : Declaration) : Source :=
  ⟨d.name, d.imports, SourceFile.typeset (d.edits settings)⟩

theorem writes_frontLines (settings : JavaSettings) (d : Declaration) :
    SourceFile.Writes (packageLines settings ++ importLines d) (frontLines settings d.imports) := by
  refine .append ?_ ?_
  · unfold packageLines
    cases settings.package with
    | none => exact .nil
    | some name => exact (SourceFile.Writes.line _).append .emptyLine
  · unfold importLines
    split
    · exact .nil
    · exact (SourceFile.Writes.map _ d.imports).append .emptyLine

theorem file_eq_holding (settings : JavaSettings) (d : Declaration) :
    file settings d = .holding (fileName d.name) (frontLines settings d.imports)
      [SourceFile.typeset (d.edits settings)] := by
  refine SourceFile.headed_eq_holding (writes_frontLines settings d) _ ?_
  rw [String.intercalate_singleton, SourceFile.typeset_eq]

theorem file_eq_laidOut (settings : JavaSettings) (d : Declaration) :
    file settings d = (sourceOf settings d).laidOut settings := by
  rw [file_eq_holding]
  rfl

/-- A file declares the class of its declaration. -/
theorem namesBehind_file (valid : settings.fault? = none) (spelled : d.IsSpelled) :
    namesBehind classOpening (file settings d).contents = [d.name] := by
  have name : IsPlain (fileName d.name) := spelled.name.isPlain.append (.literal (by decide))
  have apart : IsNotInFront classOpening.toList := by
    rw [classOpening_eq]
    decide
  -- the file is one with the text of the declaration put into it
  rw [file_eq_holding, ← SourceFile.headed_eq_holding (writes_frontLines settings d) _
      (SourceFile.addedBy_spaced _),
    SourceFile.namesBehind_headed_spaced name isStart_classOpening
      (quiet_front (fun _ => apart) valid),
    List.flatMap_singleton]
  · exact namesBehind_edits valid spelled
  · exact List.forall_mem_singleton.mpr (isFlush_edits valid spelled).isWhole

theorem exists_laysOut {budget : Budget} {files : List SourceFile}
    (done : backend.render settings budget s = .ok files) :
    ∃ m sources, s.merged settings.mergePolicy = .ok m ∧ LaysOut settings s m sources := by
  obtain ⟨valid, m, merged, _, declares, rendered⟩ :=
    Backend.exists_files_of_render countsOutput_backend done
  obtain ⟨ds, rfl, declared⟩ := exists_declarations valid declares
  have files : ds.map (file settings) = (ds.map (sourceOf settings)).map (·.laidOut settings) := by
    rw [List.map_map]
    exact List.map_congr_left fun d _ => file_eq_laidOut settings d
  have names : (ds.map (sourceOf settings)).map (·.typeName) = ds.map (·.name) := List.map_map
  have named := declared.named
  have layout : settings.fileLayout = .perClass := by
    obtain ⟨_, notSingle, _⟩ := JavaSettings.fault?_eq_none_iff.mp valid
    cases layout : settings.fileLayout with
    | perClass => rfl
    | singleFile => exact absurd layout notSingle
  rw [← names] at named
  rw [files] at declares rendered
  refine ⟨m, _, merged, layout, m.perm_inOrder _, declares, named, AreNamed.nodup named, ?_,
    rendered settings ⟨rfl, rfl, rfl, rfl, rfl⟩, ?_⟩
  · rw [List.forall_mem_map]
    simp only [sourceOf]
    exact fun d among => ⟨isFlush_edits valid (declared.spelled d among),
      namesBehind_edits valid (declared.spelled d among)⟩
  · rw [names, List.flatMap_map, List.map_eq_flatMap]
    refine List.flatMap_congr fun d among => ?_
    rw [← file_eq_laidOut]
    exact namesBehind_file valid (declared.spelled d among)

end Java

/-! ## Every language -/

/-- Whatever is rendered, there is one declaration for each class that is left after merging, in the
order of the language and under the type name of the class, and no two share a name.  With files for
each class, each file or pair of files is named like its type and holds that declaration alone, below
the comment, the imports and the announcements.  With one file or pair of files for all classes,
which Java does not have, it holds the same declarations in the same order, with one empty line
between them, and there is no file without classes.  Read from the files, the types that are
declared are those of all classes, each once. -/
theorem layouts_hold_same_declarations (s : Schema) :
    (∀ settings budget files, Swift.backend.render settings budget s = .ok files →
      ∃ m sources, s.merged settings.mergePolicy = .ok m ∧ Swift.LaysOut settings s m sources) ∧
    (∀ settings budget files, ObjectiveC.backend.render settings budget s = .ok files →
      ∃ m sources, s.merged settings.mergePolicy = .ok m ∧
        ObjectiveC.LaysOut settings s m sources) ∧
    ∀ settings budget files, Java.backend.render settings budget s = .ok files →
      ∃ m sources, s.merged settings.mergePolicy = .ok m ∧ Java.LaysOut settings s m sources :=
  ⟨fun _ _ _ done => Swift.exists_laysOut done, fun _ _ _ done => ObjectiveC.exists_laysOut done,
    fun _ _ _ done => Java.exists_laysOut done⟩

/-- Marks have one declaration in Swift, which stands in a file of its own or in the only file. -/
theorem layouts_hold_same_declarations_marks :
    ∃ text, namesBehind "struct " text = ["Mark"] ∧
      Swift.backend.render {} .unlimited .marks =
        .ok [.holding "Mark.swift" ["import Foundation", ""] [text]] ∧
      Swift.backend.render { fileLayout := .singleFile } .unlimited .marks =
        .ok [.holding "Models.swift" ["import Foundation", ""] [text]] := by
  have order : Schema.marks.inOrder Swift.backend.order = Schema.marks.classes := by cbv
  have name : (Swift.backend.typeNames {} .marks).get "Mark" = .ok "Mark" := by cbv
  obtain ⟨swift, _, _⟩ := layouts_hold_same_declarations .marks
  obtain ⟨files, done⟩ := exists_render_marks .swift
  obtain ⟨m, sources, merged, own⟩ := swift {} .unlimited files done
  cases merged
  have named := own.named
  rw [AreNamed, order, List.forall₂_map_right_iff] at named
  obtain ⟨source, _, found, none, rfl⟩ := List.forall₂_cons_left_iff.mp named
  cases none
  have is : source.typeName = "Mark" := Except.ok.inj (found.symm.trans name)
  have read := (own.text source List.mem_cons_self).2
  have rendered (layout : FileLayout) :=
    (own.rendered layout .unlimited _).mpr ⟨rfl, Budget.admits_unlimited _ _⟩
  have perClass := rendered .perClass
  rw [Swift.laidOut, List.map_singleton, is] at perClass
  rw [is] at read
  exact ⟨source.text, read, perClass, rendered .singleFile⟩

end Classwright
