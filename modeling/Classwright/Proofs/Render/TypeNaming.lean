/-
# Classwright.Proofs.Render.TypeNaming — type names are identifiers that nothing else uses

The type names of a schema are told apart, they are identifiers behind the prefix, and none of them
is a word that the language keeps for itself.  So a spelling that names a type of the standard
library never means a generated class.  Classes that are declared later do not change the names of
those that are there.
-/

import Classwright.Backend.Basic
import Classwright.Proofs.Render.Names
import Classwright.Proofs.Render.Outcome

namespace Classwright

open Text (IsVariant Opens isIdentifier)

/-! ## One name -/

namespace TypeNames

variable {classPrefix className : String} {reserved : List String}

theorem opens_stand : Opens Char.isUpper stand :=
  ⟨'M', ['o', 'd', 'e', 'l'], by simp [stand], by decide, by simp [Char.isAlphanum]⟩

/-- Behind the prefix a class asks for a name that starts with a capital. -/
theorem opens_identifierOr (className : String) :
    Opens Char.isUpper (Text.identifierOr stand (Text.pascalCase className)) := by
  refine opens_stand.identifierOr
    (Text.isAlphanum_of_mem_pascalCase className) fun c first noDigit => ?_
  have small := Text.isLower_head_pascalCase className c first
  have own := Text.isAlphanum_of_mem_pascalCase className c (List.mem_of_mem_head? first)
  simpa [Char.isAlphanum, Char.isAlpha, small, noDigit] using own

theorem exists_wanted_eq (classPrefix : String) (reserved : List String) (className : String) :
    ∃ rest, wanted classPrefix reserved className = classPrefix ++ rest ∧
      Opens Char.isUpper rest := by
  have opens := opens_identifierOr className
  rw [wanted, Text.escapeReserved]
  split
  · exact ⟨_, String.append_assoc, opens.append (by simp [stand])⟩
  · exact ⟨_, rfl, opens⟩

theorem isIdentifier_wanted (valid : classPrefix = "" ∨ isIdentifier classPrefix) :
    isIdentifier (wanted classPrefix reserved className) := by
  obtain ⟨rest, eq, opens⟩ := exists_wanted_eq classPrefix reserved className
  rw [eq]
  rcases valid with rfl | valid
  · rw [String.empty_append]
    exact opens.isIdentifier Text.isAlpha_of_isUpper
  · exact Text.isIdentifier_append valid fun c among =>
      Text.isIdentifierPart_of_isAlphanum (opens.isAlphanum Text.isAlpha_of_isUpper c among)

theorem prefix_of_isVariant {typeName : String}
    (variant : IsVariant (wanted classPrefix reserved className) typeName) :
    classPrefix.toList <+: typeName.toList := by
  obtain ⟨digits, eq, _⟩ := variant.exists_digits
  obtain ⟨rest, own, _⟩ := exists_wanted_eq classPrefix reserved className
  rw [eq, own, String.toList_append, List.append_assoc]
  exact List.prefix_append _ _

/-! ## The names of a schema -/

variable {language : Language} {s t : Schema}

/-- A class has the name that it asks for, or that name with a number. -/
theorem isVariant_of_mem_table {entry : String × String}
    (listed : entry ∈ (ofSchema language s classPrefix reserved).table) :
    IsVariant (wanted classPrefix reserved entry.1) entry.2 := by
  have each := Text.NameSupply.forall₂_issueAll
    ((ClassList.names s.classes).map (wanted classPrefix reserved)) .empty
  rw [List.forall₂_map_left_iff] at each
  exact List.forall₂_zip each listed

theorem isIdentifier_of_get {typeName : String} (valid : classPrefix = "" ∨ isIdentifier classPrefix)
    (found : (ofSchema language s classPrefix reserved).get className = .ok typeName) :
    isIdentifier typeName :=
  (isVariant_of_mem_table (get_eq_ok_iff.mp found)).isIdentifier (isIdentifier_wanted valid)

/-- No class is called by a word that is reserved. -/
theorem notMem_reserved_of_get {typeName : String} (clear : Lexicon.StandClear reserved)
    (found : (ofSchema language s classPrefix reserved).get className = .ok typeName) :
    typeName ∉ reserved :=
  (isVariant_of_mem_table (get_eq_ok_iff.mp found)).notMem clear.ofTypes
    (Text.escapeReserved_notMem clear.ofTypes _)

theorem map_snd_table :
    (ofSchema language s classPrefix reserved).table.map Prod.snd =
      (Text.NameSupply.empty.issueAll
        ((ClassList.names s.classes).map (wanted classPrefix reserved))).1 := by
  refine List.map_snd_zip (Nat.le_of_eq ?_)
  rw [Text.NameSupply.length_issueAll, List.length_map]

/-- No two classes have the same type name. -/
theorem eq_of_get_eq {other typeName : String}
    (found : (ofSchema language s classPrefix reserved).get className = .ok typeName)
    (again : (ofSchema language s classPrefix reserved).get other = .ok typeName) :
    className = other := by
  rw [get_eq_ok_iff] at found again
  have distinct : ((ofSchema language s classPrefix reserved).table.map Prod.snd).Nodup := by
    rw [map_snd_table]
    exact Text.NameSupply.nodup_issueAll _ _
  exact congrArg Prod.fst (List.inj_on_of_nodup_map distinct found again rfl)

/-- The table of a schema is the start of the table of a schema with more classes. -/
theorem table_prefix_table (longer : s.classes <+: t.classes) :
    (ofSchema language s classPrefix reserved).table <+:
      (ofSchema language t classPrefix reserved).table := by
  obtain ⟨more, eq⟩ := longer
  have names : ClassList.names t.classes = ClassList.names s.classes ++ ClassList.names more := by
    rw [← eq, ClassList.names, List.map_append]
    rfl
  simp only [ofSchema, names, List.map_append, Text.NameSupply.issueAll_append]
  rw [List.zip_append]
  · exact List.prefix_append _ _
  · rw [Text.NameSupply.length_issueAll, List.length_map]

theorem get_eq_of_prefix (longer : s.classes <+: t.classes) {c : ClassDef} (among : c ∈ s.classes) :
    (ofSchema language t classPrefix reserved).get c.name =
      (ofSchema language s classPrefix reserved).get c.name := by
  obtain ⟨typeName, found⟩ := @exists_get language s classPrefix reserved c among
  rw [found, get_eq_ok_iff]
  exact (table_prefix_table longer).subset (get_eq_ok_iff.mp found)

end TypeNames

/-! ## Types of the standard libraries -/

namespace Swift

theorem spelledWith_spell {names : TypeNames} {place : FieldPlace} {type : ValueType}
    {text : String} (bare : type.references = []) (spelled : spell names place type = .ok text) :
    Text.SpelledWith Lexicon.Swift.reservedTypeNames text := by
  induction type generalizing text with
  | integer | float | string | boolean =>
      cases spelled
      decide +kernel
  | array item ih =>
      obtain ⟨inner, found, rfl⟩ := exists_of_map_ok spelled
      have eq : Text.identifiersIn ("[" ++ inner ++ "]").toList =
          Text.identifiersIn inner.toList := by
        have enclosed := Text.identifiersIn_enclose [] [] inner.toList (c := '[') (d := ']') rfl rfl
        simpa [Text.identifiersIn, String.toList_append] using enclosed
      rw [Text.SpelledWith, eq]
      exact ih bare found
  | optional item ih =>
      obtain ⟨inner, found, rfl⟩ := exists_of_map_ok spelled
      have eq : Text.identifiersIn (inner ++ "?").toList = Text.identifiersIn inner.toList := by
        have apart := Text.identifiersIn_append inner.toList [] (c := '?') rfl
        simpa [Text.identifiersIn, String.toList_append] using apart
      rw [Text.SpelledWith, eq]
      exact ih bare found
  | reference name => cases bare
  | any | null => cases spelled

end Swift

namespace Java

theorem FieldKind.boxed_boxed (kind : FieldKind) : kind.boxed.boxed = kind.boxed := by
  cases kind <;> rfl

theorem spelledWith_list {item : FieldKind}
    (own : Text.SpelledWith Lexicon.Java.reservedTypeNames item.spelling) :
    Text.SpelledWith Lexicon.Java.reservedTypeNames (FieldKind.list item).spelling := by
  have eq : Text.identifiersIn (FieldKind.list item).spelling.toList =
      ['L', 'i', 's', 't'] :: Text.identifiersIn item.spelling.toList := by
    have enclosed := Text.identifiersIn_enclose ['L', 'i', 's', 't'] [] item.spelling.toList
      (c := '<') (d := '>') rfl rfl
    have front : Text.identifiersIn ['L', 'i', 's', 't'] = [['L', 'i', 's', 't']] := by decide
    rw [front] at enclosed
    simpa [FieldKind.spelling, Text.identifiersIn, String.toList_append] using enclosed
  rw [Text.SpelledWith, eq, List.forall_mem_cons]
  exact ⟨by decide +kernel, own⟩

theorem spelledWith_ofType {names : TypeNames} {type : ValueType} {kind : FieldKind}
    (bare : type.references = []) (found : FieldKind.ofType names type = .ok kind) :
    Text.SpelledWith Lexicon.Java.reservedTypeNames kind.spelling ∧
      Text.SpelledWith Lexicon.Java.reservedTypeNames kind.boxed.spelling := by
  induction type generalizing kind with
  | integer | float | string | boolean | any | null =>
      cases found
      decide +kernel
  | array item ih =>
      obtain ⟨inner, inside, rfl⟩ := exists_of_map_ok found
      have own := spelledWith_list (ih bare inside).2
      exact ⟨own, own⟩
  | optional item ih =>
      obtain ⟨inner, inside, rfl⟩ := exists_of_map_ok found
      rw [FieldKind.boxed_boxed]
      exact ⟨(ih bare inside).2, (ih bare inside).2⟩
  | reference name => cases bare

end Java

namespace ObjectiveC

/-- The property holds no objects of a generated class. -/
def PropertyKind.IsPlain : PropertyKind → Prop
  | .object _ | .objects _ => False
  | _ => True

theorem PropertyKind.IsPlain.boxed {kind : PropertyKind} (plain : kind.IsPlain) :
    kind.boxed.IsPlain := by
  cases kind <;> trivial

theorem spelledWith_declarator {kind : PropertyKind} (plain : kind.IsPlain) :
    Text.SpelledWith Lexicon.ObjectiveC.reservedTypeNames (kind.declarator "") := by
  cases kind with
  | scalar value => cases value <;> decide +kernel
  | array element => cases element <;> decide +kernel
  | number | string | dynamic => decide +kernel
  | object typeName | objects typeName => cases plain

theorem isPlain_arrayOf {names : TypeNames} {place : FieldPlace} {item : ValueType}
    {kind : PropertyKind} (bare : item.references = [])
    (found : arrayOf names place item = .ok kind) : kind.IsPlain := by
  rw [← ValueType.references_present] at bare
  unfold arrayOf at found
  split at found
  · next inside =>
    rw [inside] at bare
    cases bare
  · split at found
    · cases found
      trivial
    · cases found

theorem isPlain_ofPresent {names : TypeNames} {place : FieldPlace} {type : ValueType}
    {kind : PropertyKind} (bare : type.references = [])
    (found : PropertyKind.ofPresent names place type = .ok kind) : kind.IsPlain := by
  induction type with
  | array item ih =>
      have inside : item.references = [] := bare
      exact isPlain_arrayOf inside found
  | optional inner ih => exact ih bare found
  | reference name => cases bare
  | _ =>
      cases found
      trivial

/-- Types without classes are spelled with names of the standard library. -/
theorem spelledWith_ofType {names : TypeNames} {place : FieldPlace} {type : ValueType}
    {kind : PropertyKind} (bare : type.references = [])
    (found : PropertyKind.ofType names place type = .ok kind) :
    Text.SpelledWith Lexicon.ObjectiveC.reservedTypeNames (kind.declarator "") := by
  rw [← ValueType.references_present] at bare
  unfold PropertyKind.ofType at found
  split at found
  · obtain ⟨value, inside, rfl⟩ := exists_of_map_ok found
    exact spelledWith_declarator (isPlain_ofPresent bare inside).boxed
  · exact spelledWith_declarator (isPlain_ofPresent bare found)

end ObjectiveC

/-! ## Any language -/

namespace Language

/-- The names that no type of the language may have. -/
def reservedTypeNames : Language → List String
  | .swift => Swift.backend.reserved
  | .objectiveC => ObjectiveC.backend.reserved
  | .java => Java.backend.reserved

/-- The type names of a schema in the language. -/
def typeNames (language : Language) (classPrefix : String) (s : Schema) : TypeNames :=
  .ofSchema language s classPrefix language.reservedTypeNames

/-- The spelling of the type of a field, with nothing behind it. -/
def spelling (language : Language) (names : TypeNames) (place : FieldPlace) (type : ValueType) :
    Except RenderFault String :=
  match language with
  | .swift => Swift.spell names place type.normalize
  | .objectiveC =>
    (ObjectiveC.PropertyKind.ofType names place type.normalize).map (·.declarator "")
  | .java => (Java.FieldKind.ofType names type.normalize).map (·.spelling)

theorem standClear_reservedTypeNames (language : Language) :
    Lexicon.StandClear language.reservedTypeNames := by
  cases language with
  | swift => exact Lexicon.Swift.standClear
  | objectiveC => exact Lexicon.ObjectiveC.standClear
  | java => exact Lexicon.Java.standClear

theorem spelledWith_spelling {language : Language} {names : TypeNames} {place : FieldPlace}
    {type : ValueType} {text : String} (bare : type.references = [])
    (spelled : language.spelling names place type = .ok text) :
    Text.SpelledWith language.reservedTypeNames text := by
  rw [← ValueType.references_normalize] at bare
  cases language with
  | swift => exact Swift.spelledWith_spell bare spelled
  | objectiveC =>
      obtain ⟨kind, found, rfl⟩ := exists_of_map_ok spelled
      exact ObjectiveC.spelledWith_ofType bare found
  | java =>
      obtain ⟨kind, found, rfl⟩ := exists_of_map_ok spelled
      exact (Java.spelledWith_ofType bare found).1

end Language

/-- In every language, and behind every prefix that can open an identifier, the classes of a schema
have type names: exactly the classes do, no two have the same, each is an identifier behind the
prefix, and none is reserved.  So no type without classes in it is spelled with one of them.
Classes declared behind the others leave the type names of the others as they are. -/
theorem typeNames_tell_classes_apart (language : Language) (s : Schema) (classPrefix : String)
    (valid : classPrefix = "" ∨ Text.isIdentifier classPrefix) :
    (∀ className, (∃ typeName, (language.typeNames classPrefix s).get className = .ok typeName) ↔
      ∃ c ∈ s.classes, c.name = className) ∧
    (∀ typeName, (language.typeNames classPrefix s).isGenerated typeName ↔
      ∃ c ∈ s.classes, (language.typeNames classPrefix s).get c.name = .ok typeName) ∧
    (∀ className other typeName, (language.typeNames classPrefix s).get className = .ok typeName →
      (language.typeNames classPrefix s).get other = .ok typeName → className = other) ∧
    (∀ className typeName, (language.typeNames classPrefix s).get className = .ok typeName →
      Text.isIdentifier typeName ∧ classPrefix.toList <+: typeName.toList ∧
        typeName ∉ language.reservedTypeNames) ∧
    (∀ place type text, type.references = [] →
      language.spelling (language.typeNames classPrefix s) place type = .ok text →
      ∀ own ∈ Text.identifiersIn text.toList,
        (language.typeNames classPrefix s).isGenerated (String.ofList own) = false) ∧
    ∀ t : Schema, s.classes <+: t.classes → ∀ c ∈ s.classes,
      (language.typeNames classPrefix t).get c.name =
        (language.typeNames classPrefix s).get c.name := by
  have shape : ∀ className typeName,
      (language.typeNames classPrefix s).get className = .ok typeName →
      Text.isIdentifier typeName ∧ classPrefix.toList <+: typeName.toList ∧
        typeName ∉ language.reservedTypeNames := by
    intro className typeName found
    have variant := TypeNames.isVariant_of_mem_table (TypeNames.get_eq_ok_iff.mp found)
    exact ⟨TypeNames.isIdentifier_of_get valid found, TypeNames.prefix_of_isVariant variant,
      TypeNames.notMem_reserved_of_get language.standClear_reservedTypeNames found⟩
  refine ⟨fun className => ⟨?_, ?_⟩, fun typeName => TypeNames.isGenerated_iff,
    fun className other typeName => TypeNames.eq_of_get_eq, shape, ?_,
    fun t longer c among => TypeNames.get_eq_of_prefix longer among⟩
  · rintro ⟨typeName, found⟩
    have listed := List.mem_map_of_mem (f := Prod.fst) (TypeNames.get_eq_ok_iff.mp found)
    rw [TypeNames.map_fst_table] at listed
    exact ClassList.mem_names.mp listed
  · rintro ⟨c, among, rfl⟩
    exact TypeNames.exists_get among
  · intro place type text bare spelled own within
    rw [Bool.eq_false_iff]
    -- a type without classes is spelled with reserved names, and no generated name is reserved
    intro generated
    obtain ⟨c, among, found⟩ := TypeNames.isGenerated_iff.mp generated
    exact (shape _ _ found).2.2 (Language.spelledWith_spelling bare spelled own within)

/-- Two classes that would like to be called after a type of the standard library. -/
def Schema.namesakes : Schema where
  classes := [⟨"string", []⟩, ⟨"string_model", []⟩]
  faultless := ClassList.fault?_eq_none.mpr ⟨by decide, by decide, by cbv⟩

/-- Behind the prefix of that library one of them gets a suffix, and the other one a number since it
would have the same suffix. -/
theorem typeNames_namesakes :
    (("NS" = "" ∨ Text.isIdentifier "NS") ∧
      (Language.objectiveC.typeNames "NS" .namesakes).get "string" = .ok "NSStringModel" ∧
      (Language.objectiveC.typeNames "NS" .namesakes).get "string_model" = .ok "NSStringModel2") ∧
    "NSStringModel2" ∉ Language.objectiveC.reservedTypeNames ∧
      (Language.objectiveC.typeNames "NS" .namesakes).get "other" ≠ .ok "NSStringModel" := by
  have valid : "NS" = "" ∨ Text.isIdentifier "NS" := by decide
  have wanted : (["string", "string_model"].map
      (TypeNames.wanted "NS" Language.objectiveC.reservedTypeNames)) =
        ["NSStringModel", "NSStringModel"] := by decide +kernel
  have issued : (Text.NameSupply.empty.issueAll ["NSStringModel", "NSStringModel"]).1 =
      ["NSStringModel", "NSStringModel2"] := by cbv
  have table : (Language.objectiveC.typeNames "NS" .namesakes).table =
      [("string", "NSStringModel"), ("string_model", "NSStringModel2")] := by
    show ["string", "string_model"].zip (Text.NameSupply.empty.issueAll
      (["string", "string_model"].map _)).1 = _
    rw [wanted, issued]
    rfl
  have first : (Language.objectiveC.typeNames "NS" .namesakes).get "string" =
      .ok "NSStringModel" := by
    rw [TypeNames.get, table]
    rfl
  have second : (Language.objectiveC.typeNames "NS" .namesakes).get "string_model" =
      .ok "NSStringModel2" := by
    rw [TypeNames.get, table]
    rfl
  obtain ⟨_, _, distinct, shape, _⟩ :=
    typeNames_tell_classes_apart .objectiveC .namesakes "NS" valid
  refine ⟨⟨valid, first, second⟩, (shape _ _ second).2.2, fun again => ?_⟩
  exact absurd (distinct _ _ _ first again) (by decide)

end Classwright
