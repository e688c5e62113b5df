/-
# Classwright.Proofs.Render.Keys — every JSON key can be read back from generated source

Member names are made from keys and lose most of what a key says, so the keys themselves must be in
the source.  Java and Objective-C keep each in a constant, Swift in a coding key unless the member
name says it already.  Here the generated text is read as the languages read it, line by line, and
what is read are the keys of the class, in their order, each under a name of its own.
-/

import Classwright.Backend.Basic
import Classwright.Proofs.Declaration.Java
import Classwright.Proofs.Declaration.ObjectiveC
import Classwright.Proofs.Declaration.Swift
import Classwright.Proofs.Render.Limits
import Classwright.Proofs.Render.TypeNaming

namespace Classwright

open Text (linesWith readEntry readLine)

/-! ## Readers -/

/-- The lines of constants for keys in a class. -/
def Java.keyOpening : String := "    public static final String "

/-- The constant and the key in a line. -/
def Java.readKey : String → Option (String × String) :=
  readLine keyOpening (readEntry readEscape " = \"" ";")

/-- The lines of constants for keys in an implementation. -/
def ObjectiveC.keyOpening : String := "static NSString *const "

/-- The constant and the key in a line. -/
def ObjectiveC.readKey : String → Option (String × String) :=
  readLine keyOpening (readEntry readEscape " = @\"" ";")

/-- The line that opens the coding keys of a class. -/
def Swift.enumOpening : String := "    enum CodingKeys"

/-- The lines of cases among coding keys. -/
def Swift.caseOpening : String := "        case "

/-- The name and the raw value of a case; without a literal the name is the raw value. -/
def Swift.readCase : String → Option (String × String) :=
  readLine caseOpening fun cs =>
    if cs.all Text.isIdentifierPart then some (String.ofList cs, String.ofList cs)
    else readEntry readEscape " = \"" "" cs

/-- The lines of stored properties in a class. -/
def Swift.propertyOpening (s : SwiftSettings) : String :=
  "    " ++ s.access.ofMembers.modifier ++ (if s.mutable then "var " else "let ")

/-- The name of a stored property. -/
def Swift.readProperty (s : SwiftSettings) : String → Option String :=
  readLine (propertyOpening s) fun cs => some (String.ofList (cs.takeWhile Text.isIdentifierPart))

theorem Java.keyOpening_eq : keyOpening = SourceFile.openingAt 1 keyStart := rfl

theorem ObjectiveC.keyOpening_eq : keyOpening = SourceFile.openingAt 0 keyStart := rfl

theorem Swift.enumOpening_eq : enumOpening = SourceFile.openingAt 1 enumStart := rfl

theorem Swift.caseOpening_eq : caseOpening = SourceFile.openingAt 2 caseStart := rfl

/-! ## Reading what was written -/

/-- Lines that were written one for each item are read one for each item. -/
theorem mapM_map_eq_some {α β γ : Type} {as : List α} {write : α → β} {read : β → Option γ}
    {meaning : α → γ} (each : ∀ a ∈ as, read (write a) = some (meaning a)) :
    (as.map write).mapM read = some (as.map meaning) := by
  induction as with
  | nil => rfl
  | cons a as ih =>
      rw [List.forall_mem_cons] at each
      rw [List.map_cons, List.mapM_cons, each.1, ih each.2]
      rfl

theorem Java.readKey_constantText {m : Member} (spelled : m.IsSpelled) :
    readKey (Text.Edit.margin SourceFile.indentation 1 ++ constantText m) =
      some (m.constant, m.key) := by
  have opens : keyOpening =
      Text.Edit.margin SourceFile.indentation 1 ++ "public static final String " := rfl
  have ends : "\";" = "\"" ++ ";" := rfl
  have gap : ∃ c ∈ " = \"".toList.head?, Text.isIdentifierPart c = false := ⟨' ', rfl, rfl⟩
  exact Text.readLine_entry understands_octal opens ends spelled.constant gap m.key

theorem Java.mapM_readKey_file {s : JavaSettings} {d : Declaration} (valid : s.fault? = none)
    (spelled : d.IsSpelled) :
    (linesWith keyOpening (file s d).contents).mapM readKey =
      some (d.members.map fun m => (m.constant, m.key)) := by
  rw [keyOpening_eq, linesWith_file valid spelled]
  exact mapM_map_eq_some fun m among => readKey_constantText (spelled.members m among)

theorem ObjectiveC.readKey_constantText {m : Member} (spelled : m.IsSpelled) :
    readKey (Text.Edit.margin SourceFile.indentation 0 ++ constantText m) =
      some (m.constant, m.key) := by
  have opens : keyOpening =
      Text.Edit.margin SourceFile.indentation 0 ++ "static NSString *const " := rfl
  have ends : "\";" = "\"" ++ ";" := rfl
  have gap : ∃ c ∈ " = @\"".toList.head?, Text.isIdentifierPart c = false := ⟨' ', rfl, rfl⟩
  exact Text.readLine_entry understands_octal opens ends spelled.constant gap m.key

theorem ObjectiveC.mapM_readKey_source {s : ObjectiveCSettings} {d : Declaration}
    (spelled : d.IsSpelled) :
    (linesWith keyOpening (sourceOf s d).implementation).mapM readKey =
      some (d.members.map fun m => (m.constant, m.key)) := by
  rw [keyOpening_eq]
  refine Eq.trans (congrArg _ (linesWith_implementation spelled)) ?_
  exact mapM_map_eq_some fun m among => readKey_constantText (spelled.members m among)

theorem ObjectiveC.mapM_readKey_files {s : ObjectiveCSettings} {ds : List Declaration}
    (valid : s.fault? = none) (spelled : ∀ d ∈ ds, d.IsSpelled) :
    ((files s (ds.map (sourceOf s))).flatMap fun file =>
        linesWith keyOpening file.contents).mapM readKey =
      some ((ds.flatMap Declaration.members).map fun m => (m.constant, m.key)) := by
  rw [keyOpening_eq, linesWith_files valid spelled, ← List.map_flatMap]
  refine mapM_map_eq_some fun m among => ?_
  obtain ⟨d, listed, own⟩ := List.mem_flatMap.mp among
  exact readKey_constantText ((spelled d listed).members m own)

theorem Swift.readCase_caseText {m : Member} (spelled : m.IsSpelled) :
    readCase (Text.Edit.margin SourceFile.indentation 2 ++ caseText m) = some (m.name, m.key) := by
  have opens : caseOpening = Text.Edit.margin SourceFile.indentation 2 ++ "case " := rfl
  have word : Text.IsWord m.name := .of_isAlphanum spelled.name
  unfold caseText
  split
  · next same =>
    have all : m.name.toList.all Text.isIdentifierPart := List.all_eq_true.mpr word
    rw [← String.append_assoc, ← opens, readCase, Text.readLine_append, if_pos all,
      String.ofList_toList, ← same]
  · have ends : "\"" = "\"" ++ "" := rfl
    have gap : ∃ c ∈ " = \"".toList.head?, Text.isIdentifierPart c = false := ⟨' ', rfl, rfl⟩
    have literal : ¬ (m.name ++ " = \"" ++ Text.literalBody .braced m.key ++ "\"" ++
        "").toList.all Text.isIdentifierPart := by
      have leading : " = \"".toList = [' ', '=', ' ', '"'] := String.toList_ofList
      intro all
      refine absurd (List.all_eq_true.mp all ' ' ?_) (by decide)
      simp only [String.toList_append, leading, List.mem_append, List.mem_cons, true_or, or_true]
    rw [Text.line_eq opens ends, readCase, Text.readLine_append, if_neg literal]
    exact Text.readEntry_append understands_braced word gap m.key ""

theorem Swift.readProperty_propertyText {s : SwiftSettings} {m : Member} (spelled : m.IsSpelled) :
    readProperty s (Text.Edit.margin SourceFile.indentation 1 ++
      propertyText s.access.ofMembers.modifier s.mutable m) = some m.name := by
  have word : Text.IsWord m.name := .of_isAlphanum spelled.name
  have opens : Text.Edit.margin SourceFile.indentation 1 ++
      propertyText s.access.ofMembers.modifier s.mutable m =
        propertyOpening s ++ (m.name ++ ": " ++ m.type) := by
    have margin : Text.Edit.margin SourceFile.indentation 1 = "    " := rfl
    simp only [margin, propertyText, propertyOpening, String.append_assoc]
  have colon : ": ".toList = [':', ' '] := String.toList_ofList
  rw [opens, readProperty, Text.readLine_append, String.toList_append, String.toList_append, colon,
    List.append_assoc, List.takeWhile_append_of_pos word, List.cons_append,
    List.takeWhile_cons_of_neg (by decide), List.append_nil, String.ofList_toList]

/-! ## The text of a class in Swift -/

namespace Swift

variable {s : SwiftSettings} {d : Declaration}

theorem propertyOpening_eq (s : SwiftSettings) : propertyOpening s =
    SourceFile.openingAt 1 (propertyStart s.access.ofMembers.modifier s.mutable) := by
  have margin : Text.Edit.margin SourceFile.indentation 1 = "    " := rfl
  have word : (if s.mutable then "var " else "let ") = String.ofList (bindingWord s.mutable) := by
    cases s.mutable <;> rfl
  rw [propertyOpening, SourceFile.openingAt, propertyStart, margin, word, String.ofList_append,
    String.ofList_toList, String.append_assoc]

theorem mapM_readProperty_source (valid : s.fault? = none) (spelled : d.IsSpelled) :
    (linesWith (propertyOpening s) (sourceOf s d).text).mapM (readProperty s) =
      some (d.members.map (·.name)) := by
  have own : SourceFile.IsStart (propertyStart _ s.mutable) :=
    isStart_propertyStart (isModifier_ofMembers s.access)
  have lines := linesWith_source spelled own (calm_opening valid spelled).properties
    calm_close.properties
  rw [propertyOpening_eq, lines, linesWith_property_body spelled]
  exact mapM_map_eq_some fun m among => readProperty_propertyText (spelled.members m among)

theorem mapM_readCase_source (valid : s.fault? = none) (spelled : d.IsSpelled)
    (written : writesKeys s d.members) :
    (linesWith caseOpening (sourceOf s d).text).mapM readCase =
      some (d.members.map fun m => (m.name, m.key)) := by
  have opens : Calm "" false 0 (opening s d ++ " \x7b") := calm_opening valid spelled
  have closes : Calm "" false 0 "\x7d" := calm_close
  have lines := linesWith_source spelled isStart_caseStart opens.cases closes.cases
  rw [caseOpening_eq, lines, linesWith_case_body spelled, if_pos written]
  exact mapM_map_eq_some fun m among => readCase_caseText (spelled.members m among)

theorem linesWith_enum_source (valid : s.fault? = none) (spelled : d.IsSpelled) :
    linesWith enumOpening (sourceOf s d).text = [] ↔ writesKeys s d.members = false := by
  have opens : Calm "" false 0 (opening s d ++ " \x7b") := calm_opening valid spelled
  have closes : Calm "" false 0 "\x7d" := calm_close
  have lines := linesWith_source spelled isStart_enumStart opens.keys closes.keys
  rw [enumOpening_eq, lines, linesWith_enum_body spelled]

/-- Coding keys are left out only where every name is its key. -/
theorem name_eq_key (codable : s.codable) {members : List Member}
    (left : writesKeys s members = false) : ∀ m ∈ members, m.name = m.key := by
  intro m among
  have filled : members.isEmpty = false := List.isEmpty_eq_false_iff.mpr (List.ne_nil_of_mem among)
  simp [writesKeys, codable, filled] at left
  exact left.2 m among

end Swift

/-! ## All keys -/

theorem isWord_of_get {language : Language} {keywords reserved : List String}
    {general : GeneralSettings} {m : Schema} (valid : general.fault? language keywords = none) :
    ∀ className typeName, (TypeNames.ofSchema language m general.classPrefix reserved).get className =
      .ok typeName → Text.IsWord typeName := by
  intro className typeName found
  have own := (GeneralSettings.fault?_eq_none_iff.mp valid).1
  exact Text.isIdentifierPart_of_isIdentifier (TypeNames.isIdentifier_of_get own found)

/-- The entries hold the keys of the class, in their order. -/
def HoldsKeys (entries : List (String × String)) (c : ClassDef) : Prop :=
  entries.map Prod.snd = c.fields.map Field.key

namespace Java

variable {s : JavaSettings} {m : Schema} {files : List SourceFile}

theorem holdsKeys_file {c : ClassDef} {d : Declaration} (valid : s.fault? = none)
    (declared : Declaration.ofClass (backend.typeNames s m) c = .ok d) :
    ∃ entries, (linesWith keyOpening (file s d).contents).mapM readKey = some entries ∧
      HoldsKeys entries c ∧ (entries.map Prod.fst).Nodup := by
  obtain ⟨general, _⟩ := JavaSettings.fault?_eq_none_iff.mp valid
  obtain ⟨spelled, keys, distinct⟩ := ofClass_spec (isWord_of_get general) declared
  refine ⟨_, mapM_readKey_file valid spelled, ?_, ?_⟩
  · rw [HoldsKeys, List.map_map, ← keys]
    rfl
  · rwa [List.map_map]

theorem holdsKeys_of_declares (valid : s.fault? = none) (declares : backend.Declares s m files) :
    List.Forall₂ (fun c file => ∃ entries,
      (linesWith keyOpening file.contents).mapM readKey = some entries ∧
        HoldsKeys entries c ∧ (entries.map Prod.fst).Nodup) m.depthFirst files := by
  refine declares.forall₂.imp ?_
  rintro c _ ⟨_, _, found⟩
  obtain ⟨d, declared, rfl⟩ := exists_ofClass_of_declare found
  exact holdsKeys_file valid declared

end Java

namespace ObjectiveC

variable {s : ObjectiveCSettings} {m : Schema} {sources : List Source}

theorem holdsKeys_of_declares (valid : s.fault? = none) (declares : backend.Declares s m sources) :
    List.Forall₂ (fun c source => ∃ entries,
        (linesWith keyOpening source.implementation).mapM readKey = some entries ∧
          HoldsKeys entries c) m.leavesFirst sources ∧
      ∃ entries, ((files s sources).flatMap fun file =>
          linesWith keyOpening file.contents).mapM readKey = some entries ∧
        entries.map Prod.snd = m.leavesFirst.flatMap (fun c => c.fields.map Field.key) ∧
        (entries.map Prod.fst).Nodup := by
  obtain ⟨general, _⟩ := ObjectiveCSettings.fault?_eq_none_iff.mp valid
  obtain ⟨ds, rfl, declared, wanted, issued⟩ := runs_spec (isWord_of_get general) declares
  have each : List.Forall₂ (fun c d => d.IsSpelled ∧
      d.members.map (·.key) = c.fields.map Field.key) m.leavesFirst ds := by
    refine declared.imp fun c d own => ?_
    obtain ⟨_, _, found⟩ := own
    obtain ⟨spelled, keys, _⟩ := ofClass_spec (isWord_of_get general) found
    exact ⟨spelled, keys⟩
  have spelled : ∀ d ∈ ds, d.IsSpelled := fun d among => by
    obtain ⟨_, _, own, _⟩ := exists_of_forall₂ each d among
    exact own
  have keys : m.leavesFirst.map (fun c => c.fields.map Field.key) =
      ds.map fun d => d.members.map (·.key) := map_eq_of_forall₂ each fun _ _ own => own.2.symm
  refine ⟨?_, _, mapM_readKey_files valid spelled, ?_, ?_⟩
  · rw [List.forall₂_map_right_iff]
    refine each.imp fun c d own => ⟨_, mapM_readKey_source own.1, ?_⟩
    rw [HoldsKeys, List.map_map, ← own.2]
    rfl
  · have flat : m.leavesFirst.flatMap (fun c => c.fields.map Field.key) =
        ds.flatMap fun d => d.members.map (·.key) := by
      rw [List.flatMap_def, keys, ← List.flatMap_def]
    rw [flat, List.map_map, List.map_flatMap]
    rfl
  · have distinct := Text.NameSupply.nodup_issueAll wanted backend.start
    rw [issued] at distinct
    rw [List.map_map, List.map_flatMap]
    exact distinct

end ObjectiveC

namespace Swift

variable {s : SwiftSettings} {m : Schema} {sources : List Source}

/-- Every property of the class is coded under its key: by its name, or else by a case. -/
def CodesKeys (s : SwiftSettings) (text : String) (c : ClassDef) : Prop :=
  ∃ members, (linesWith (propertyOpening s) text).mapM (readProperty s) = some members ∧
    if linesWith enumOpening text = [] then members = c.fields.map Field.key
    else ∃ entries, (linesWith caseOpening text).mapM readCase = some entries ∧
      entries.map Prod.fst = members ∧ HoldsKeys entries c

theorem codesKeys_source {c : ClassDef} {d : Declaration} (valid : s.fault? = none)
    (codable : s.codable) (declared : Declaration.ofClass (backend.typeNames s m) c = .ok d) :
    CodesKeys s (sourceOf s d).text c := by
  obtain ⟨general, _⟩ := SwiftSettings.fault?_eq_none_iff.mp valid
  obtain ⟨spelled, _, keys⟩ := ofClass_spec (isWord_of_get general) declared
  refine ⟨_, mapM_readProperty_source valid spelled, ?_⟩
  split
  · next left =>
    have unwritten := (linesWith_enum_source valid spelled).mp left
    rw [← keys]
    exact List.map_congr_left (name_eq_key codable unwritten)
  · next there =>
    have written : writesKeys s d.members = true := by
      rwa [linesWith_enum_source valid spelled, Bool.not_eq_false] at there
    refine ⟨_, mapM_readCase_source valid spelled written, ?_, ?_⟩
    · rw [List.map_map]
      rfl
    · rw [HoldsKeys, List.map_map, ← keys]
      rfl

theorem codesKeys_of_declares (valid : s.fault? = none) (codable : s.codable)
    (declares : backend.Declares s m sources) :
    List.Forall₂ (fun c source => CodesKeys s source.text c) m.depthFirst sources := by
  refine declares.forall₂.imp ?_
  rintro c _ ⟨_, _, found⟩
  obtain ⟨d, own, rfl⟩ := exists_ofClass_of_declare found
  exact codesKeys_source valid codable own

end Swift

/-- Whatever is rendered, the keys can be read back from it.  In Java the file of a class has a line
with a constant for each key, in the order of the fields, and no two constants of the class share
their name.  In Objective-C the implementation of a class has such lines, and no two constants of
all files together share their name, whether classes share files or not.  In Swift the properties of
a class that can be coded are named like their keys, unless there are coding keys; then these have a
case for each property, in order, whose raw value is the key. -/
theorem keys_read_back (s : Schema) (budget : Budget) :
    (∀ settings files, Java.backend.render settings budget s = .ok files →
      ∃ m, s.merged settings.mergePolicy = .ok m ∧
        List.Forall₂ (fun c file => ∃ entries,
          (linesWith Java.keyOpening file.contents).mapM Java.readKey = some entries ∧
            HoldsKeys entries c ∧ (entries.map Prod.fst).Nodup) m.depthFirst files) ∧
    (∀ settings files, ObjectiveC.backend.render settings budget s = .ok files →
      ∃ m sources, s.merged settings.mergePolicy = .ok m ∧
        files = ObjectiveC.files settings sources ∧
        List.Forall₂ (fun c source => ∃ entries,
          (linesWith ObjectiveC.keyOpening source.implementation).mapM ObjectiveC.readKey =
              some entries ∧ HoldsKeys entries c) m.leavesFirst sources ∧
        ∃ entries, (files.flatMap fun file =>
            linesWith ObjectiveC.keyOpening file.contents).mapM ObjectiveC.readKey = some entries ∧
          entries.map Prod.snd = m.leavesFirst.flatMap (fun c => c.fields.map Field.key) ∧
          (entries.map Prod.fst).Nodup) ∧
    ∀ settings files, settings.codable → Swift.backend.render settings budget s = .ok files →
      ∃ m sources, s.merged settings.mergePolicy = .ok m ∧ files = Swift.files settings sources ∧
        List.Forall₂ (fun c source => Swift.CodesKeys settings source.text c) m.depthFirst
          sources := by
  refine ⟨fun settings files done => ?_, fun settings files done => ?_,
    fun settings files codable done => ?_⟩
  · obtain ⟨valid, m, merged, _, declares, rfl⟩ :=
      Backend.exists_declares_of_render Java.countsOutput_backend done
    exact ⟨m, merged, Java.holdsKeys_of_declares valid declares⟩
  · obtain ⟨valid, m, merged, sources, declares, rfl⟩ :=
      Backend.exists_declares_of_render ObjectiveC.countsOutput_backend done
    obtain ⟨each, all⟩ := ObjectiveC.holdsKeys_of_declares valid declares
    exact ⟨m, sources, merged, rfl, each, all⟩
  · obtain ⟨valid, m, merged, sources, declares, rfl⟩ :=
      Backend.exists_declares_of_render Swift.countsOutput_backend done
    exact ⟨m, sources, merged, rfl, Swift.codesKeys_of_declares valid codable declares⟩

/-- Marks, under keys that hold a quote and a line feed in front of a digit. -/
def Schema.marks : Schema where
  classes := [⟨"Mark", [⟨"\"", .string⟩, ⟨"\n1", .integer⟩]⟩]
  faultless := ClassList.fault?_eq_none.mpr ⟨by decide, by decide, by cbv⟩

/-- No language lacks a type for what a mark holds. -/
theorem Schema.supported_marks (language : Language) :
    ¬ ∃ c ∈ Schema.marks.classes, language.Rejects c := by
  cases language <;> decide

/-- Marks are rendered in every language. -/
theorem exists_render_marks (language : Language) :
    ∃ files, language.render (.initial language) .unlimited .marks = .ok files := by
  have supported := Schema.supported_marks language
  cases language with
  | swift =>
      have outcome : FailsIff _ _ (Swift.backend.render {} .unlimited .marks) :=
        Backend.failsIff_render Swift.isFaithful_backend (by decide) rfl rfl
      exact outcome.value supported
  | objectiveC =>
      have outcome : FailsIff _ _ (ObjectiveC.backend.render {} .unlimited .marks) :=
        Backend.failsIff_render ObjectiveC.isFaithful_backend (by decide) rfl (by cbv)
      exact outcome.value supported
  | java =>
      have outcome : FailsIff _ _ (Java.backend.render {} .unlimited .marks) :=
        Backend.failsIff_render Java.isFaithful_backend (by decide) rfl rfl
      exact outcome.value supported

/-- Marks are rendered in every language, and their keys are in the source. -/
theorem keys_read_back_marks :
    (∃ file entries, Java.backend.render {} .unlimited .marks = .ok [file] ∧
      (linesWith Java.keyOpening file.contents).mapM Java.readKey = some entries ∧
      entries.map Prod.snd = ["\"", "\n1"]) ∧
    (∃ files entries, ObjectiveC.backend.render {} .unlimited .marks = .ok files ∧
      (files.flatMap fun file =>
        linesWith ObjectiveC.keyOpening file.contents).mapM ObjectiveC.readKey = some entries ∧
      entries.map Prod.snd = ["\"", "\n1"]) ∧
    ∃ sources, Swift.backend.render {} .unlimited .marks = .ok (Swift.files {} sources) ∧
      List.Forall₂ (fun c source => Swift.CodesKeys {} source.text c) Schema.marks.classes
        sources := by
  have down : Schema.marks.depthFirst = Schema.marks.classes := by cbv
  have up : Schema.marks.leavesFirst = Schema.marks.classes := by cbv
  obtain ⟨constants, all, coded⟩ := keys_read_back .marks .unlimited
  refine ⟨?_, ?_, ?_⟩
  · obtain ⟨files, done⟩ := exists_render_marks .java
    obtain ⟨m, merged, each⟩ := constants {} _ done
    cases merged
    rw [down] at each
    obtain ⟨file, _, ⟨entries, own, keys, _⟩, none, rfl⟩ := List.forall₂_cons_left_iff.mp each
    cases none
    exact ⟨file, entries, done, own, keys⟩
  · obtain ⟨files, done⟩ := exists_render_marks .objectiveC
    obtain ⟨m, _, merged, _, _, entries, own, keys, _⟩ := all {} _ done
    cases merged
    rw [up] at keys
    exact ⟨files, entries, done, own, keys⟩
  · obtain ⟨files, done⟩ := exists_render_marks .swift
    obtain ⟨m, sources, merged, rfl, each⟩ := coded {} _ rfl done
    cases merged
    rw [down] at each
    exact ⟨sources, done, each⟩

end Classwright
