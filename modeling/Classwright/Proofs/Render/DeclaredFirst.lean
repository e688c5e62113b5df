/-
# Classwright.Proofs.Render.DeclaredFirst — generated classes are declared before they are used

In Objective-C a class must be declared before a property or a message names it.  With a file for
each class, a header announces the classes in the types of its properties, and the implementation
beside it imports the same ones, which are those that it sends messages to.  With one file for all
classes nothing is announced: the interface of a class comes after those of the classes that its
properties name, since classes are written leaves first.
-/

import Mathlib
import Classwright.Backend.Basic
import Classwright.Proofs.Declaration.Interfaces
import Classwright.Proofs.Declaration.Messages
import Classwright.Proofs.Render.Limits

namespace Classwright.ObjectiveC

open Text (IsWord linesWith)

variable {settings : ObjectiveCSettings} {budget : Budget} {s m : Schema} {c : ClassDef}
  {d : Declaration} {ds : List Declaration} {files : List SourceFile} {typeName : String}

/-! ## Generated names in types -/

theorem isGenerated_of_isNamed {className : String}
    (named : IsNamed (backend.typeNames settings m) className typeName) :
    (backend.typeNames settings m).isGenerated typeName := by
  obtain ⟨c, among, rfl⟩ := TypeNames.exists_of_get named
  exact TypeNames.isGenerated_iff.mpr ⟨c, among, named⟩

/-- The types of the library are not generated. -/
theorem notMem_reserved (generated : (backend.typeNames settings m).isGenerated typeName) :
    typeName ∉ Lexicon.ObjectiveC.reservedTypeNames := by
  obtain ⟨c, _, found⟩ := TypeNames.isGenerated_iff.mp generated
  exact TypeNames.notMem_reserved_of_get Lexicon.ObjectiveC.standClear found

/-- A word in the type of a property is the name of a generated class exactly if the property holds
objects of that class. -/
theorem PropertyKind.mem_typeNames_iff {kind : PropertyKind}
    (known : ∀ own ∈ kind.typeNames,
      Text.isIdentifier own ∧ (backend.typeNames settings m).isGenerated own) :
    typeName ∈ kind.typeNames ↔
      typeName ∈ kind.words ∧ (backend.typeNames settings m).isGenerated typeName := by
  have plain (own : kind.IsPlain) (within : typeName ∈ kind.words) :
      typeName ∈ Lexicon.ObjectiveC.reservedTypeNames := by
    obtain ⟨word, among, rfl⟩ := List.mem_map.mp within
    exact spelledWith_declarator own word among
  have filled {own : String} (identifier : Text.isIdentifier own) : own ≠ "" := by
    rintro rfl
    exact absurd identifier (by decide)
  cases kind with
  | object own =>
      obtain ⟨identifier, generated⟩ := known own List.mem_cons_self
      rw [words_object (Text.isIdentifierPart_of_isIdentifier identifier) (filled identifier)]
      refine ⟨fun within => ⟨within, ?_⟩, And.left⟩
      rwa [List.mem_singleton.mp within]
  | objects own =>
      obtain ⟨identifier, generated⟩ := known own List.mem_cons_self
      -- the type is spelled with the name of the library's array too, which no class can have
      rw [words_objects (Text.isIdentifierPart_of_isIdentifier identifier) (filled identifier)]
      constructor
      · intro within
        rw [List.mem_singleton.mp within]
        exact ⟨List.mem_cons_of_mem _ List.mem_cons_self, generated⟩
      · rintro ⟨within, other⟩
        rcases List.mem_cons.mp within with rfl | within
        · exact absurd (by decide +kernel) (notMem_reserved other)
        · exact within
  | scalar _ | number | string | dynamic | array _ =>
      refine ⟨fun within => absurd within List.not_mem_nil, fun both => ?_⟩
      exact absurd (plain trivial both.1) (notMem_reserved both.2)

/-- The words in the types of all properties. -/
def Declaration.words (d : Declaration) : List String := d.members.flatMap (·.kind.words)

/-- A declaration lists the generated classes among the words of its properties. -/
theorem mem_nested_iff_words (valid : settings.fault? = none)
    (refers : d.Refers (backend.typeNames settings m) c) :
    typeName ∈ d.nested ↔
      typeName ∈ d.words ∧ (backend.typeNames settings m).isGenerated typeName := by
  obtain ⟨general, _⟩ := ObjectiveCSettings.fault?_eq_none_iff.mp valid
  have validPrefix := (GeneralSettings.fault?_eq_none_iff.mp general).1
  have each (member : Member) (among : member ∈ d.members) : typeName ∈ member.kind.typeNames ↔
      typeName ∈ member.kind.words ∧ (backend.typeNames settings m).isGenerated typeName := by
    refine PropertyKind.mem_typeNames_iff fun own within => ?_
    obtain ⟨_, _, classes⟩ := exists_of_forall₂ refers.members member among
    obtain ⟨className, _, named⟩ := exists_of_forall₂ classes own within
    exact ⟨TypeNames.isIdentifier_of_get validPrefix named, isGenerated_of_isNamed named⟩
  rw [refers.mem_nested_iff, Declaration.words, List.mem_flatMap]
  constructor
  · rintro ⟨member, among, within⟩
    obtain ⟨word, generated⟩ := (each member among).mp within
    exact ⟨⟨member, among, word⟩, generated⟩
  · rintro ⟨⟨member, among, word⟩, generated⟩
    exact ⟨member, among, (each member among).mpr ⟨word, generated⟩⟩

/-! ## Declarations of all classes -/

/-- These are declarations of all classes, leaves first. -/
structure Covers (settings : ObjectiveCSettings) (m : Schema) (ds : List Declaration) : Prop where
  spelled : ∀ d ∈ ds, d.IsSpelled
  refers : List.Forall₂ (Declaration.Refers (backend.typeNames settings m)) m.leavesFirst ds

theorem exists_covers (valid : settings.fault? = none) {sources : List Source}
    (declares : backend.Declares settings m sources) :
    ∃ ds, sources = ds.map (sourceOf settings) ∧ Covers settings m ds := by
  obtain ⟨general, _⟩ := ObjectiveCSettings.fault?_eq_none_iff.mp valid
  obtain ⟨ds, rfl, declared, _⟩ := runs_spec (isWord_of_get general) declares
  refine ⟨ds, rfl, fun d among => ?_, declared.imp fun c d own => ?_⟩
  · obtain ⟨c, _, _, _, found⟩ := exists_of_forall₂ declared d among
    exact (ofClass_spec (isWord_of_get general) found).1
  · obtain ⟨_, _, found⟩ := own
    exact refers_of_ofClass found

namespace Covers

variable (covers : Covers settings m ds)

include covers

theorem exists_refers (among : d ∈ ds) :
    ∃ c ∈ m.leavesFirst, d.Refers (backend.typeNames settings m) c :=
  exists_of_forall₂ covers.refers d among

theorem filled : ∀ d ∈ ds, ∀ member ∈ d.members, member.name ≠ "" := by
  intro d among
  obtain ⟨c, _, refers⟩ := covers.exists_refers among
  exact refers.filled

/-- Whatever a declaration lists is the name of a declaration. -/
theorem exists_declaration (among : d ∈ ds) (listed : typeName ∈ d.nested) :
    ∃ e ∈ ds, e.name = typeName := by
  obtain ⟨before, after, order⟩ := List.append_of_mem among
  obtain ⟨e, earlier, same⟩ :=
    List.mem_map.mp (mem_before_of_mem_nested covers.refers order listed)
  exact ⟨e, order ▸ List.mem_append_left _ earlier, same⟩

end Covers

/-! ## A file for each class -/

/-- The header of a class announces, and the implementation beside it imports, the generated classes
that they use. -/
structure DeclaresUses (names : TypeNames) (files : List SourceFile) (typeName : String)
    (announced : List String) (header implementation : SourceFile) : Prop where
  headerName : header.name = headerName typeName
  implementationName : implementation.name = implementationName typeName
  announces : linesWith "@class " header.contents = announcementLines announced
  imports : linesWith "#import " implementation.contents =
    (typeName :: announced).map importText
  distinct : (typeName :: announced).Nodup
  properties : ∃ used, interfacesIn header.contents = [(typeName, used)] ∧
    ∀ own, own ∈ announced ↔ own ∈ used ∧ names.isGenerated own
  messages : ∀ own, own ∈ announced ↔ own ∈ receiversIn implementation.contents
  headers : ∀ own ∈ announced, ∃ file ∈ files, file.name = ObjectiveC.headerName own ∧
    (interfacesIn file.contents).map Prod.fst = [own]

/-- The files are a header and an implementation for each class, leaves first, and classes are
declared where they are used. -/
def InOwnFiles (names : TypeNames) (m : Schema) (files : List SourceFile) : Prop :=
  ∃ pairs : List (SourceFile × SourceFile),
    files = pairs.flatMap (fun pair => [pair.1, pair.2]) ∧
    List.Forall₂ (fun c pair => ∃ typeName announced, names.get c.name = .ok typeName ∧
      DeclaresUses names files typeName announced pair.1 pair.2) m.leavesFirst pairs

/-- The header of a class that has its own. -/
def ownHeader (settings : ObjectiveCSettings) (d : Declaration) : SourceFile :=
  header settings d.name d.nested ([d].map fun d => (sourceOf settings d).interface)

/-- The implementation file of a class that has its own. -/
def ownImplementation (settings : ObjectiveCSettings) (d : Declaration) : SourceFile :=
  implementationFile d.name d.nested ([d].map fun d => (sourceOf settings d).implementation)

theorem files_perClass (layout : settings.fileLayout = .perClass) (ds : List Declaration) :
    ObjectiveC.files settings (ds.map (sourceOf settings)) =
      ds.flatMap fun d => [ownHeader settings d, ownImplementation settings d] := by
  rw [ObjectiveC.files, layout, List.flatMap_map]
  rfl

theorem interfacesIn_ownHeader (valid : settings.fault? = none) (spelled : d.IsSpelled)
    (filled : ∀ member ∈ d.members, member.name ≠ "") :
    interfacesIn (ownHeader settings d).contents = [(d.name, d.words)] := by
  have alone : ∀ e ∈ [d], e.IsSpelled := List.forall_mem_singleton.mpr spelled
  exact interfacesIn_header valid spelled.name spelled.nested alone
    (List.forall_mem_singleton.mpr filled)

theorem Covers.declaresUses (covers : Covers settings m ds) (valid : settings.fault? = none)
    (among : d ∈ ds) :
    DeclaresUses (backend.typeNames settings m)
      (ds.flatMap fun d => [ownHeader settings d, ownImplementation settings d]) d.name d.nested
      (ownHeader settings d) (ownImplementation settings d) := by
  have spelled := covers.spelled d among
  have alone : ∀ e ∈ [d], e.IsSpelled := List.forall_mem_singleton.mpr spelled
  obtain ⟨c, _, refers⟩ := covers.exists_refers among
  refine ⟨rfl, rfl, ?_, ?_, ?_, ⟨d.words, ?_, ?_⟩, ?_, ?_⟩
  · exact linesWith_class valid spelled.name spelled.nested alone
  · exact linesWith_import spelled.name spelled.nested alone
  · exact List.nodup_cons.mpr ⟨name_notMem_nested covers.refers among, refers.nodup_nested⟩
  · exact interfacesIn_ownHeader valid spelled (covers.filled d among)
  · exact fun own => mem_nested_iff_words valid refers
  · intro own
    have told : receiversIn (ownImplementation settings d).contents =
        [d].flatMap fun e => e.members.flatMap (·.kind.receivers) :=
      receiversIn_implementationFile spelled.name spelled.nested alone
    rw [told, List.flatMap_singleton, refers.mem_nested_iff, List.mem_flatMap]
    simp only [PropertyKind.mem_receivers_iff]
  · intro own listed
    obtain ⟨e, other, rfl⟩ := covers.exists_declaration among listed
    refine ⟨ownHeader settings e, ?_, rfl, ?_⟩
    · exact List.mem_flatMap.mpr ⟨e, other, List.mem_cons_self⟩
    · rw [interfacesIn_ownHeader valid (covers.spelled e other) (covers.filled e other)]
      rfl

theorem Covers.inOwnFiles (covers : Covers settings m ds) (valid : settings.fault? = none)
    (layout : settings.fileLayout = .perClass) :
    InOwnFiles (backend.typeNames settings m) m
      (ObjectiveC.files settings (ds.map (sourceOf settings))) := by
  have each : List.Forall₂ (fun d c => d ∈ ds ∧ d.Refers (backend.typeNames settings m) c) ds
      m.leavesFirst :=
    (List.forall₂_and_left _ _).mpr ⟨fun d among => among, covers.refers.flip⟩
  rw [files_perClass layout]
  refine ⟨ds.map fun d => (ownHeader settings d, ownImplementation settings d), ?_, ?_⟩
  · rw [List.flatMap_map]
  · rw [List.forall₂_map_right_iff]
    refine each.flip.imp fun c d own => ⟨d.name, d.nested, own.2.name, ?_⟩
    exact covers.declaresUses valid own.1

/-! ## One file for all classes -/

/-- The interface of a generated class stands in front of those with properties that name it. -/
def InterfacesInOrder (names : TypeNames) (interfaces : List (String × List String)) : Prop :=
  ∀ before owner used after, interfaces = before ++ (owner, used) :: after →
    ∀ own ∈ used, names.isGenerated own → own ∈ before.map Prod.fst

theorem Covers.interfacesInOrder (covers : Covers settings m ds) (valid : settings.fault? = none) :
    InterfacesInOrder (backend.typeNames settings m) (ds.map fun d => (d.name, d.words)) := by
  intro before owner used after split own word generated
  obtain ⟨front, back, rfl, rfl, eq⟩ := List.map_eq_append_iff.mp split
  obtain ⟨d, later, rfl, same, _⟩ := List.map_eq_cons_iff.mp eq
  cases same
  -- what stands in the type of a property is listed, and what is listed is declared before
  obtain ⟨c, _, refers⟩ := covers.exists_refers (List.mem_append_right front List.mem_cons_self)
  have listed := (mem_nested_iff_words valid refers).mpr ⟨word, generated⟩
  have earlier := mem_before_of_mem_nested covers.refers rfl listed
  rwa [List.map_map]

/-- The files are a header and an implementation for all classes, unless there are none, and the
header declares each class where those that use it come later. -/
def InOneFile (names : TypeNames) (stem : String) (m : Schema) (files : List SourceFile) : Prop :=
  m.classes = [] ∧ files = [] ∨ ∃ header implementation, files = [header, implementation] ∧
    header.name = headerName stem ∧ implementation.name = implementationName stem ∧
    List.Forall₂ (fun c interface => names.get c.name = .ok interface.1) m.leavesFirst
      (interfacesIn header.contents) ∧
    InterfacesInOrder names (interfacesIn header.contents)

theorem files_singleFile (layout : settings.fileLayout = .singleFile) (written : ds ≠ []) :
    ObjectiveC.files settings (ds.map (sourceOf settings)) =
      [header settings settings.singleFileName [] (ds.map fun d => (sourceOf settings d).interface),
        implementationFile settings.singleFileName []
          (ds.map fun d => (sourceOf settings d).implementation)] := by
  have some : (ds.map (sourceOf settings)).isEmpty = false := by
    rwa [List.isEmpty_eq_false_iff, ne_eq, List.map_eq_nil_iff]
  rw [ObjectiveC.files, layout]
  simp only [some, Bool.false_eq_true, if_false, List.map_map]
  rfl

theorem Covers.inOneFile (covers : Covers settings m ds) (valid : settings.fault? = none)
    (layout : settings.fileLayout = .singleFile) :
    InOneFile (backend.typeNames settings m) settings.singleFileName m
      (ObjectiveC.files settings (ds.map (sourceOf settings))) := by
  rcases eq_or_ne ds [] with rfl | written
  -- without declarations there are no classes, since each class has one
  · have none := List.forall₂_nil_right_iff.mp covers.refers
    have perm := Schema.perm_select m.perm_postorder
    rw [← Schema.leavesFirst, none] at perm
    refine .inl ⟨perm.nil_eq.symm, ?_⟩
    rw [ObjectiveC.files, layout]
    rfl
  · have read := interfacesIn_header valid (isWord_fileName valid) (List.forall_mem_nil _)
      covers.spelled covers.filled
    rw [files_singleFile layout written]
    refine .inr ⟨_, _, rfl, rfl, rfl, ?_, ?_⟩
    · rw [read, List.forall₂_map_right_iff]
      exact covers.refers.imp fun c d refers => refers.name
    · rw [read]
      exact covers.interfacesInOrder valid

/-- Whatever is rendered in Objective-C, generated classes are declared before they are used.

With files for each class, there is a pair of them for each class: a header with its interface, and
an implementation.  The header announces the generated classes in the types of its properties, and
the implementation imports its own header and those of the same classes, which are those that it
makes objects of.  No class is listed twice or in its own files, and each has a header of its own.

With one file for all classes, there is a header with the interfaces of all of them, unless there
are none, and the interface of a class stands in front of those with properties that name it. -/
theorem declared_before_use (rendered : backend.render settings budget s = .ok files) :
    ∃ m, s.merged settings.mergePolicy = .ok m ∧
      (settings.fileLayout = .perClass → InOwnFiles (backend.typeNames settings m) m files) ∧
      (settings.fileLayout = .singleFile →
        InOneFile (backend.typeNames settings m) settings.singleFileName m files) := by
  obtain ⟨valid, m, merged, sources, declares, rfl⟩ :=
    Backend.exists_declares_of_render countsOutput_backend rendered
  obtain ⟨ds, rfl, covers⟩ := exists_covers valid declares
  exact ⟨m, merged, covers.inOwnFiles valid, covers.inOneFile valid⟩

end Classwright.ObjectiveC

namespace Classwright

/-- Letters with a sender and pages, one in an option and the others in an array. -/
def Schema.letters : Schema where
  classes := [⟨"page", [⟨"text", .string⟩]⟩, ⟨"person", [⟨"name", .string⟩]⟩,
    ⟨"letter", [⟨"pages", .array (.reference "page")⟩,
      ⟨"sender", .optional (.reference "person")⟩]⟩]
  faultless := ClassList.fault?_eq_none.mpr ⟨by decide, by decide, by cbv⟩

namespace ObjectiveC

/-- Letters are rendered in both layouts, each with its own way to declare classes first. -/
theorem declared_before_use_letters :
    (∃ files, backend.render {} .unlimited .letters = .ok files ∧
      InOwnFiles (backend.typeNames {} .letters) .letters files) ∧
    ∃ header implementation,
      backend.render { fileLayout := .singleFile } .unlimited .letters =
        .ok [header, implementation] ∧
      (interfacesIn header.contents).map Prod.fst = ["Page", "Person", "Letter"] ∧
      InterfacesInOrder (backend.typeNames {} .letters) (interfacesIn header.contents) := by
  have supported : ¬ ∃ c ∈ Schema.letters.classes, Language.objectiveC.Rejects c := by decide
  have rendered (settings : ObjectiveCSettings) (valid : settings.fault? = none)
      (merged : Schema.letters.merged settings.mergePolicy = .ok .letters)
      (apart : (backend.typeNames settings .letters).baseFault? (some settings.baseClass) = none) :
      ∃ files, backend.render settings .unlimited .letters = .ok files := by
    have outcome : FailsIff _ _ (backend.render settings .unlimited .letters) :=
      Backend.failsIff_render isFaithful_backend valid merged apart
    exact outcome.value supported
  have order : Schema.letters.leavesFirst = Schema.letters.classes := by cbv
  have wanted : (["page", "person", "letter"].map (TypeNames.wanted
      (backend.general {}).classPrefix backend.reserved)) = ["Page", "Person", "Letter"] := by
    decide +kernel
  have issued : (Text.NameSupply.empty.issueAll ["Page", "Person", "Letter"]).1 =
      ["Page", "Person", "Letter"] := by cbv
  have table : (backend.typeNames {} .letters).table =
      [("page", "Page"), ("person", "Person"), ("letter", "Letter")] := by
    show ["page", "person", "letter"].zip (Text.NameSupply.empty.issueAll
      (["page", "person", "letter"].map _)).1 = _
    rw [wanted, issued]
    rfl
  have apart : (backend.typeNames {} .letters).baseFault? (some objectiveCRoot) = none := by
    have none : (backend.typeNames {} .letters).isGenerated objectiveCRoot = false := by
      rw [TypeNames.isGenerated, table]
      decide
    simp [TypeNames.baseFault?, none]
  refine ⟨?_, ?_⟩
  · obtain ⟨files, done⟩ := rendered {} rfl rfl apart
    obtain ⟨m, merged, perClass, _⟩ := declared_before_use done
    cases merged
    exact ⟨files, done, perClass rfl⟩
  · obtain ⟨files, done⟩ := rendered { fileLayout := .singleFile } rfl rfl apart
    obtain ⟨m, merged, _, singleFile⟩ := declared_before_use done
    cases merged
    obtain ⟨none, _⟩ | ⟨header, implementation, rfl, _, _, each, inOrder⟩ := singleFile rfl
    · cases none
    · have named : Schema.letters.classes.map (fun c =>
          (backend.typeNames {} .letters).get c.name) =
            ["Page", "Person", "Letter"].map .ok := by
        simp only [TypeNames.get, table]
        rfl
      rw [order] at each
      have same := map_eq_of_forall₂ each fun c interface own => own
      have own := same.symm.trans named
      refine ⟨header, implementation, done, ?_, inOrder⟩
      refine List.map_injective_iff.mpr (fun _ _ => Except.ok.inj) (Eq.trans ?_ own)
      exact List.map_map

end ObjectiveC

end Classwright
