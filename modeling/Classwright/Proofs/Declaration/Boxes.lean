/-
# Classwright.Proofs.Declaration.Boxes — primitive types, boxes and lists in Java

A primitive type stands for a value that is always there and on its own.  Inside a list, or if it may
be absent, the value needs a box.  Whether a type is primitive can be told from its text alone, since
no generated class is called by a keyword: types that are put together as texts, and boxed as texts,
come out as the spellings of the types of fields (`Spelled`).
-/

import Mathlib
import Classwright.Proofs.Declaration.Java
import Classwright.Proofs.Declaration.References
import Classwright.Proofs.Render.TypeNaming

namespace Classwright

/-! ## Arrays inside a type -/

namespace ValueType

/-- The type is an array or has one inside. -/
def HoldsArray (type : ValueType) : Prop := ∃ item arrays, (array item).OccursUnder arrays type

theorem holdsArray_array (item : ValueType) : (array item).HoldsArray := ⟨item, 0, .here⟩

theorem not_holdsArray {type : ValueType} (bare : type.IsLeaf) : ¬ type.HoldsArray := by
  rintro ⟨item, arrays, inside⟩
  cases inside <;> cases bare

theorem holdsArray_optional {inner : ValueType} :
    (optional inner).HoldsArray ↔ inner.HoldsArray := by
  constructor
  · rintro ⟨item, _, _ | _ | inside⟩
    exact ⟨item, _, inside⟩
  · rintro ⟨item, arrays, inside⟩
    exact ⟨item, arrays, .optional inside⟩

theorem holdsArray_orAbsent {type : ValueType} : type.orAbsent.HoldsArray ↔ type.HoldsArray := by
  unfold orAbsent
  split
  · exact Iff.rfl
  · exact Iff.rfl
  · exact Iff.rfl
  · exact holdsArray_optional

theorem holdsArray_normalize {type : ValueType} : type.normalize.HoldsArray ↔ type.HoldsArray := by
  induction type with
  | array item _ => exact iff_of_true (holdsArray_array _) (holdsArray_array _)
  | optional inner ih => rw [normalize, holdsArray_orAbsent, holdsArray_optional, ih]
  | _ => exact Iff.rfl

end ValueType

namespace Java

open Text (Edit Block IsPlain IsTidy IsWord Departs Quiet TidyBlock identifiersIn linesWith)

/-! ## Types as texts -/

/-- How two values of a field are compared. -/
inductive Comparison where
  /-- By the operator for primitive values. -/
  | primitive
  /-- By a method, since the operator takes values for different that are the same number. -/
  | floatingPoint
  /-- By the method of objects. -/
  | object
  deriving DecidableEq, Repr

/-- The comparison of a field in two objects. -/
def Comparison.text (name : String) : Comparison → String
  | .primitive => "this." ++ name ++ " == that." ++ name
  | .floatingPoint => "Double.compare(this." ++ name ++ ", that." ++ name ++ ") == 0"
  | .object => "Objects.equals(this." ++ name ++ ", that." ++ name ++ ")"

/-- How two values of this type are compared. -/
def FieldKind.comparison : FieldKind → Comparison
  | .primitive .double => .floatingPoint
  | .primitive _ => .primitive
  | _ => .object

theorem comparison_eq (m : Member) : comparison m = m.kind.comparison.text m.name := by
  unfold comparison
  cases m.kind with
  | primitive basic => cases basic <;> rfl
  | named _ | list _ => rfl

/-- A type of which no more is known than its text, how its values are compared, and whether the
text uses lists. -/
structure Spelled where
  text : String
  comparison : Comparison
  usesList : Bool
  deriving DecidableEq, Repr

/-- What is known of a type by its spelling. -/
def FieldKind.spelled (kind : FieldKind) : Spelled := ⟨kind.spelling, kind.comparison, kind.usesList⟩

/-- The primitive types. -/
def Primitive.all : List Primitive := [.long, .double, .boolean]

/-- The text itself; if it is the name of a primitive type, the name of the box for it. -/
def boxedText (text : String) : String :=
  ((Primitive.all.find? fun basic => basic.typeName = text).map Primitive.boxName).getD text

/-- The type of a field for a normal type, put together as a text. -/
def Spelled.ofType (names : TypeNames) : ValueType → Except RenderFault Spelled
  | .integer => .ok ⟨"long", .primitive, false⟩
  | .float => .ok ⟨"double", .floatingPoint, false⟩
  | .boolean => .ok ⟨"boolean", .primitive, false⟩
  | .string => .ok ⟨"String", .object, false⟩
  | .any | .null => .ok ⟨"Object", .object, false⟩
  | .reference className => (names.get className).map fun typeName => ⟨typeName, .object, false⟩
  | .optional inner =>
    (ofType names inner).map fun spelled => ⟨boxedText spelled.text, .object, spelled.usesList⟩
  | .array item =>
    (ofType names item).map fun spelled => ⟨"List<" ++ boxedText spelled.text ++ ">", .object, true⟩

/-! ## Well-formed types -/

/-- A reference type: the name of a class, or a list of a reference type. -/
inductive IsReference : String → Prop
  | named {name : String} (identifier : Text.isIdentifier name)
      (free : name ∉ Lexicon.Java.keywords) : IsReference name
  | list {item : String} (inner : IsReference item) : IsReference ("List<" ++ item ++ ">")

/-- A type that a field may have. -/
inductive IsFieldType : String → Prop
  | primitive (basic : Primitive) : IsFieldType basic.typeName
  | reference {text : String} (own : IsReference text) : IsFieldType text

/-- The type of the values that a primitive type is for. -/
def Primitive.type : Primitive → ValueType
  | .long => .integer
  | .double => .float
  | .boolean => .boolean

variable {names : TypeNames} {type : ValueType} {kind : FieldKind} {text : String}

theorem Primitive.typeName_mem_keywords (basic : Primitive) :
    basic.typeName ∈ Lexicon.Java.keywords := by
  cases basic
  all_goals decide

/-- In a reference type no word is the name of a primitive type. -/
theorem IsReference.notMem_identifiersIn (own : IsReference text) (basic : Primitive) :
    basic.typeName.toList ∉ identifiersIn text.toList := by
  induction own with
  | @named name identifier free =>
      have word : IsWord name := Text.isIdentifierPart_of_isIdentifier identifier
      have filled : name.toList ≠ [] := by
        intro none
        rw [Text.isIdentifier, none] at identifier
        cases identifier
      rw [Text.identifiersIn_word word filled, List.mem_singleton]
      intro same
      exact free (String.toList_inj.mp same ▸ basic.typeName_mem_keywords)
  | @list item _ ih =>
      -- the words are `List` and, between the brackets, those of the elements
      have letters : ("List<" ++ item ++ ">").toList =
          ['L', 'i', 's', 't'] ++ '<' :: (item.toList ++ '>' :: []) := by
        simp [String.toList_append]
      have front : identifiersIn ['L', 'i', 's', 't'] = [['L', 'i', 's', 't']] := by decide
      have back : identifiersIn [] = [] := by decide
      have other : basic.typeName.toList ≠ ['L', 'i', 's', 't'] := by
        cases basic
        all_goals decide
      rw [letters, Text.identifiersIn_enclose _ _ _ (by decide) (by decide), front, back,
        List.append_nil, List.singleton_append, List.mem_cons, not_or]
      exact ⟨other, ih⟩

theorem Primitive.identifiersIn_typeName (basic : Primitive) :
    identifiersIn basic.typeName.toList = [basic.typeName.toList] := by
  cases basic
  all_goals decide

theorem IsReference.ne_typeName (own : IsReference text) (basic : Primitive) :
    text ≠ basic.typeName := by
  rintro rfl
  have apart := own.notMem_identifiersIn basic
  rw [basic.identifiersIn_typeName] at apart
  exact apart (List.mem_singleton_self _)

theorem boxedText_of_ne (other : ∀ basic : Primitive, text ≠ basic.typeName) :
    boxedText text = text := by
  have none : (Primitive.all.find? fun basic => basic.typeName = text) = none := by
    rw [List.find?_eq_none]
    intro basic _ same
    exact other basic (of_decide_eq_true same).symm
  rw [boxedText, none]
  rfl

theorem boxedText_typeName (basic : Primitive) : boxedText basic.typeName = basic.boxName := by
  cases basic
  all_goals decide

/-! ## Types of fields -/

theorem FieldKind.comparison_boxed (kind : FieldKind) : kind.boxed.comparison = .object := by
  cases kind <;> rfl

theorem FieldKind.usesList_boxed (kind : FieldKind) : kind.boxed.usesList = kind.usesList := by
  cases kind <;> rfl

/-- What a normal type becomes as the type of a field. -/
inductive Becomes (type : ValueType) : FieldKind → Prop
  | primitive (basic : Primitive) (is : type = basic.type) : Becomes type (.primitive basic)
  | reference {kind : FieldKind} (own : IsReference kind.spelling)
      (object : kind.comparison = .object) (others : ∀ basic : Primitive, type ≠ basic.type) :
      Becomes type kind

theorem Becomes.isReference_boxed (becomes : Becomes type kind) :
    IsReference kind.boxed.spelling := by
  cases becomes with
  | primitive basic _ =>
      cases basic
      all_goals exact .named (by decide) (by decide)
  | reference own object _ =>
      cases kind with
      | primitive basic => cases basic <;> cases object
      | named className => exact own
      | list item => exact own

theorem Becomes.boxedText_spelling (becomes : Becomes type kind) :
    boxedText kind.spelling = kind.boxed.spelling := by
  cases becomes with
  | primitive basic _ => exact boxedText_typeName basic
  | reference own object _ =>
      rw [boxedText_of_ne own.ne_typeName]
      cases kind with
      | primitive basic => cases basic <;> cases object
      | named className => rfl
      | list item => rfl

section Found

variable (classes : ∀ className typeName, names.get className = .ok typeName →
  Text.isIdentifier typeName ∧ typeName ∉ Lexicon.Java.keywords)

include classes

theorem becomes_ofType (found : FieldKind.ofType names type = .ok kind) : Becomes type kind := by
  induction type generalizing kind with
  | integer =>
      cases found
      exact .primitive .long rfl
  | float =>
      cases found
      exact .primitive .double rfl
  | boolean =>
      cases found
      exact .primitive .boolean rfl
  | string | any | null =>
      cases found
      exact .reference (.named (by decide) (by decide)) rfl (by rintro (_ | _ | _) ⟨⟩)
  | reference className =>
      obtain ⟨typeName, named, rfl⟩ := exists_of_map_ok found
      obtain ⟨identifier, free⟩ := classes _ _ named
      exact .reference (.named identifier free) rfl (by rintro (_ | _ | _) ⟨⟩)
  | optional inner ih =>
      obtain ⟨within, inside, rfl⟩ := exists_of_map_ok found
      exact .reference (ih inside).isReference_boxed within.comparison_boxed
        (by rintro (_ | _ | _) ⟨⟩)
  | array item ih =>
      obtain ⟨within, inside, rfl⟩ := exists_of_map_ok found
      exact .reference (.list (ih inside).isReference_boxed) rfl (by rintro (_ | _ | _) ⟨⟩)

/-- The text alone is enough to put the type together. -/
theorem spelled_ofType (found : FieldKind.ofType names type = .ok kind) :
    Spelled.ofType names type = .ok kind.spelled := by
  induction type generalizing kind with
  | integer | float | boolean | string | any | null =>
      cases found
      rfl
  | reference className =>
      obtain ⟨typeName, named, rfl⟩ := exists_of_map_ok found
      rw [Spelled.ofType, named]
      rfl
  | optional inner ih =>
      obtain ⟨within, inside, rfl⟩ := exists_of_map_ok found
      have own := (becomes_ofType classes inside).boxedText_spelling
      rw [Spelled.ofType, ih inside, FieldKind.spelled, FieldKind.spelled, ← own,
        within.comparison_boxed, within.usesList_boxed]
      rfl
  | array item ih =>
      obtain ⟨within, inside, rfl⟩ := exists_of_map_ok found
      have own := (becomes_ofType classes inside).boxedText_spelling
      rw [Spelled.ofType, ih inside, FieldKind.spelled, FieldKind.spelled, FieldKind.spelling, ← own]
      rfl

end Found

theorem usesList_iff (found : FieldKind.ofType names type = .ok kind) :
    kind.usesList ↔ type.HoldsArray := by
  induction type generalizing kind with
  | integer | float | boolean | string | any | null =>
      cases found
      exact iff_of_false Bool.false_ne_true (ValueType.not_holdsArray trivial)
  | reference className =>
      obtain ⟨typeName, named, rfl⟩ := exists_of_map_ok found
      exact iff_of_false Bool.false_ne_true (ValueType.not_holdsArray trivial)
  | optional inner ih =>
      obtain ⟨within, inside, rfl⟩ := exists_of_map_ok found
      rw [within.usesList_boxed, ValueType.holdsArray_optional]
      exact ih inside
  | array item ih =>
      obtain ⟨within, inside, rfl⟩ := exists_of_map_ok found
      exact iff_of_true rfl (ValueType.holdsArray_array item)

/-- Lists are used for arrays. -/
theorem usesList_ofType_iff (found : FieldKind.ofType names type.normalize = .ok kind) :
    kind.usesList ↔ type.HoldsArray :=
  (usesList_iff found).trans ValueType.holdsArray_normalize

theorem normalize_eq_type_iff (basic : Primitive) :
    type.normalize = basic.type ↔ type = basic.type := by
  -- what becomes of an optional is an optional still, or a type that says nothing of its values
  have absent (inner : ValueType) : inner.orAbsent ≠ basic.type := by
    cases inner <;> cases basic <;> simp [ValueType.orAbsent, Primitive.type]
  cases type with
  | optional inner =>
      refine iff_of_false (absent _) ?_
      cases basic <;> simp [Primitive.type]
  | array item =>
      cases basic <;> simp [ValueType.normalize, Primitive.type]
  | _ => exact Iff.rfl

/-- The type of a field suits the type of its values: it is well-formed, primitive exactly if the
values are scalars, and no primitive type stands inside it.  Values are compared accordingly, lists
are used exactly if the values hold arrays, and the text alone is enough to know all that. -/
structure Suits (names : TypeNames) (type : ValueType) (kind : FieldKind) : Prop where
  wellFormed : IsFieldType kind.spelling
  whole : ∀ basic : Primitive, kind.spelling = basic.typeName ↔ type = basic.type
  inside : ∀ basic : Primitive, basic.typeName.toList ∈ identifiersIn kind.spelling.toList →
    kind.spelling = basic.typeName
  absent : type.normalize.isOptional → IsReference kind.spelling
  list : ∀ item, type = .array item →
    ∃ element, IsReference element ∧ kind.spelling = "List<" ++ element ++ ">"
  compared : kind.comparison =
    if type = .float then .floatingPoint
    else if type = .integer ∨ type = .boolean then .primitive else .object
  usesList : kind.usesList ↔ type.HoldsArray
  boolean : kind = .primitive .boolean ↔ kind.spelling = "boolean"
  byText : Spelled.ofType names type.normalize = .ok kind.spelled

theorem suits_ofType (classes : ∀ className typeName, names.get className = .ok typeName →
      Text.isIdentifier typeName ∧ typeName ∉ Lexicon.Java.keywords)
    (found : FieldKind.ofType names type.normalize = .ok kind) : Suits names type kind := by
  have uses := usesList_ofType_iff found
  have text := spelled_ofType classes found
  have becomes := becomes_ofType classes found
  have list (item : ValueType) (is : type = .array item) :
      ∃ element, IsReference element ∧ kind.spelling = "List<" ++ element ++ ">" := by
    subst is
    obtain ⟨within, inside, rfl⟩ := exists_of_map_ok found
    exact ⟨_, (becomes_ofType classes inside).isReference_boxed, rfl⟩
  cases becomes with
  | primitive basic is =>
      -- the type is the one that the primitive stands for, and there are three of them to look at
      have scalar := (normalize_eq_type_iff basic).mp is
      subst scalar
      have same (other : Primitive) :
          basic.typeName = other.typeName ↔ basic.type = other.type := by
        cases basic <;> cases other <;> decide
      refine ⟨.primitive basic, same, fun other within => ?_, ?_, list, ?_, uses, ?_, text⟩
      · rw [FieldKind.spelling, basic.identifiersIn_typeName, List.mem_singleton] at within
        exact (String.toList_inj.mp within).symm
      · cases basic <;> exact fun absent => (Bool.false_ne_true absent).elim
      · cases basic <;> rfl
      · cases basic <;> decide
  | reference own object others =>
      -- no primitive stands for the type, and the spelling of a reference names no primitive
      have noScalar (basic : Primitive) : type ≠ basic.type :=
        fun is => others basic ((normalize_eq_type_iff basic).mpr is)
      refine ⟨.reference own, fun basic => iff_of_false (own.ne_typeName basic) (noScalar basic),
        fun basic within => absurd within (own.notMem_identifiersIn basic), fun _ => own, list, ?_,
        uses, iff_of_false ?_ (own.ne_typeName .boolean), text⟩
      · have noFloat : type ≠ .float := noScalar .double
        have noOther : ¬ (type = .integer ∨ type = .boolean) :=
          not_or.mpr ⟨noScalar .long, noScalar .boolean⟩
        rw [object, if_neg noFloat, if_neg noOther]
      · rintro rfl
        cases object

/-! ## Imports -/

variable {s : JavaSettings} {d : Declaration}

/-- What imports begin with. -/
def importStart : List Char := ['i', 'm', 'p', 'o', 'r', 't', ' ']

theorem isStart_importStart : SourceFile.IsStart importStart := ⟨'i', _, rfl, by decide⟩

theorem import_eq : "import " = SourceFile.openingAt 0 importStart := rfl

/-- The import of a class. -/
def importText (name : String) : String := "import " ++ name ++ ";"

theorem tidy_importText {name : String} (plain : IsPlain name) : IsTidy (importText name) :=
  .plain (.append (.append (.literal (by decide)) plain) (.literal (by decide)))

theorem linesWith_importLines :
    linesWith "import " (Text.addedBy SourceFile.indentation 0 (importLines d)) =
      d.imports.map importText := by
  have begins (name : String) : importStart <+: (importText name).toList := by
    have opening : "import ".toList = importStart := String.toList_ofList
    refine Text.prefix_append (Text.prefix_append ?_ _) _
    rw [opening]
  have each (name : String) (among : name ∈ d.imports) :
      IsTidy (importText name) ∧ importStart <+: (importText name).toList :=
    ⟨tidy_importText (isPlain_of_mem_imports name among), begins name⟩
  have lines := @SourceFile.linesWith_map_line 0 _ _ d.imports importText isStart_importStart each
  simp only [SourceFile.margin_zero] at lines
  rw [import_eq]
  unfold importLines
  split
  · next none =>
    rw [List.isEmpty_iff.mp none]
    exact Text.linesWith_empty (SourceFile.openingAt_ne_empty isStart_importStart)
  · have block : Text.TidyBlock 0 (d.imports.map fun name => Edit.line (importText name)) :=
      .map fun name among => .line (each name among).1 .nil
    exact (SourceFile.linesWith_append_quiet block (.emptyLine .nil) isStart_importStart).trans lines

/-- A file imports what its declaration needs. -/
theorem linesWith_import (valid : s.fault? = none) (spelled : d.IsSpelled) :
    linesWith "import " (file s d).contents = d.imports.map importText := by
  have name : IsPlain (fileName d.name) := spelled.name.isPlain.append (.literal (by decide))
  have opening : Quiet 0 importStart 0 (opening s d ++ " \x7b") := by
    refine .own (tidy_opening valid spelled) ?_
    unfold opening
    exact .append (.append (.append (.literal (by decide))))
  have edits : Block (Quiet 0 importStart) 0 (d.edits s) :=
    .braced opening (.own (.plain (.literal (by decide))) (.literal (by decide)))
      ((tidy_body spelled).quiet (by decide))
  have front : Block (Quiet 0 importStart) 0 (packageLines s) :=
    quiet_packageLines (fun _ => .literal (by decide)) valid
  have imports : TidyBlock 0 (importLines d) :=
    (@quiet_importLines d 1 importStart (fun margin => absurd margin one_ne_zero)).mono
      fun _ _ => Quiet.tidy
  -- the package in front of the imports and the class behind them begin otherwise
  rw [← linesWith_importLines, import_eq]
  refine (SourceFile.linesWith_headed name isStart_importStart _).trans ?_
  rw [List.append_assoc]
  refine (SourceFile.linesWith_append_of_quiet front isStart_importStart _).trans ?_
  exact SourceFile.linesWith_append_quiet imports edits isStart_importStart

/-- Lists are imported if some field needs them. -/
theorem list_mem_imports :
    "import java.util.List;" ∈ d.imports.map importText ↔ ∃ m ∈ d.members, m.kind.usesList := by
  have list : importText "java.util.List" = "import java.util.List;" := rfl
  have objects : "import java.util.List;" ≠ importText "java.util.Objects" := by decide
  simp only [Declaration.imports, List.map_append, List.mem_append]
  split
  · next some =>
    exact iff_of_true (.inl (List.mem_singleton.mpr list.symm)) (List.any_eq_true.mp some)
  · next none =>
    refine iff_of_false ?_ fun some => none (List.any_eq_true.mpr some)
    split
    · simp
    · simpa using objects

/-! ## Classes -/

/-- The fields of a class have the types that their values call for. -/
theorem forall₂_ofClass {c : ClassDef} (done : Declaration.ofClass names c = .ok d) :
    List.Forall₂ (fun field m => FieldKind.ofType names field.type.normalize = .ok m.kind)
      c.fields d.members := by
  obtain ⟨_, vs, resolved, members⟩ := resolved_of_ofClass done
  obtain ⟨each, _⟩ := forall₂_resolveVariables resolved
  rw [members]
  rw [← map_toVariable_withGetters vs, List.forall₂_map_right_iff] at each
  rw [← memberRule.map_fst_named c, List.forall₂_map_left_iff]
  exact each.imp fun field m own => own.2.2.2

/-- Behind every prefix, generated classes are told from primitive types by their names.  Whatever
the values of a field are, if the classes in their type are declared, there is a type for the field
that suits them, and how the field is compared is decided by that type.  Every class is declared with
such types, and its file imports lists exactly if the values of some field hold arrays. -/
theorem types_are_boxed {settings : JavaSettings} (valid : settings.fault? = none) (s : Schema) :
    (∀ c ∈ s.classes, ∃ typeName, (backend.typeNames settings s).get c.name = .ok typeName ∧
      boxedText typeName = typeName ∧ typeName ≠ "boolean") ∧
    (∀ type : ValueType, (∀ name, type.Mentions name → ∃ c ∈ s.classes, c.name = name) →
      ∃ kind, FieldKind.ofType (backend.typeNames settings s) type.normalize = .ok kind ∧
        Suits (backend.typeNames settings s) type kind ∧
        ∀ m : Member, m.kind = kind → comparison m = kind.comparison.text m.name) ∧
    ∀ c ∈ s.classes, ∃ d : Declaration,
      backend.declare settings (backend.typeNames settings s) () c = .ok (file settings d, ()) ∧
      List.Forall₂ (fun field m =>
        FieldKind.ofType (backend.typeNames settings s) field.type.normalize = .ok m.kind ∧
          Suits (backend.typeNames settings s) field.type m.kind) c.fields d.members ∧
      ("import java.util.List;" ∈ linesWith "import " (file settings d).contents ↔
        ∃ field ∈ c.fields, field.type.HoldsArray) := by
  have classes : ∀ className typeName, (backend.typeNames settings s).get className = .ok typeName →
      Text.isIdentifier typeName ∧ typeName ∉ Lexicon.Java.keywords := by
    intro className typeName named
    obtain ⟨general, _⟩ := JavaSettings.fault?_eq_none_iff.mp valid
    have own := (GeneralSettings.fault?_eq_none_iff.mp general).1
    exact ⟨TypeNames.isIdentifier_of_get own named, fun keyword =>
      TypeNames.notMem_reserved_of_get Lexicon.Java.standClear named
        (List.mem_append_left _ keyword)⟩
  refine ⟨fun c among => ?_, fun type declared => ?_, fun c among => ?_⟩
  · obtain ⟨typeName, named⟩ := TypeNames.exists_get among
    obtain ⟨identifier, free⟩ := classes _ _ named
    have own : IsReference typeName := .named identifier free
    exact ⟨typeName, named, boxedText_of_ne own.ne_typeName, own.ne_typeName .boolean⟩
  · have knows : (backend.typeNames settings s).Knows type := by
      intro name mentions
      obtain ⟨c, among, rfl⟩ := declared name mentions
      exact TypeNames.exists_get among
    obtain ⟨kind, found⟩ := exists_ofType knows.normalize
    refine ⟨kind, found, suits_ofType classes found, ?_⟩
    rintro m rfl
    exact comparison_eq m
  · obtain ⟨d, declared, done, spelled⟩ := exists_declared valid among
    have kinds := forall₂_ofClass done
    refine ⟨d, declared, kinds.imp fun _ _ found => ⟨found, suits_ofType classes found⟩, ?_⟩
    rw [linesWith_import valid spelled, list_mem_imports]
    -- it is the members that ask for the import, and each of them is made of one field
    constructor
    · rintro ⟨m, member, uses⟩
      obtain ⟨field, listed, found⟩ := exists_of_forall₂ kinds m member
      exact ⟨field, listed, (usesList_ofType_iff found).mp uses⟩
    · rintro ⟨field, listed, holds⟩
      obtain ⟨m, member, found⟩ := exists_of_forall₂ kinds.flip field listed
      exact ⟨m, member, (usesList_ofType_iff found).mpr holds⟩

/-- A series of readings, which are numbers in lists. -/
def series : ClassDef := ⟨"Series", [⟨"readings", .array (.array .float)⟩]⟩

/-- A mark on a series, without a list of its own. -/
def mark : ClassDef := ⟨"Mark", [⟨"is_set", .optional .boolean⟩, ⟨"series", .reference "Series"⟩]⟩

/-- A schema of series and marks. -/
def measurements : Schema where
  classes := [series, mark]
  faultless := ClassList.fault?_eq_none.mpr ⟨by decide, by decide, by cbv⟩

theorem types_are_boxed_measurements :
    ({} : JavaSettings).fault? = none ∧
      Suits (backend.typeNames {} measurements) (.array (.array .float))
        (.list (.list (.named "Double"))) ∧
      (∃ d : Declaration,
        backend.declare {} (backend.typeNames {} measurements) () series = .ok (file {} d, ()) ∧
          "import java.util.List;" ∈ linesWith "import " (file {} d).contents) ∧
      ∃ d : Declaration,
        backend.declare {} (backend.typeNames {} measurements) () mark = .ok (file {} d, ()) ∧
          "import java.util.List;" ∉ linesWith "import " (file {} d).contents := by
  have valid : ({} : JavaSettings).fault? = none := by decide
  obtain ⟨_, types, files⟩ := types_are_boxed valid measurements
  refine ⟨valid, ?_, ?_, ?_⟩
  · obtain ⟨kind, found, suits, _⟩ := types (.array (.array .float)) (by
      rintro name ⟨arrays, inside⟩
      obtain _ | inside | _ := inside
      obtain _ | inside | _ := inside
      cases inside)
    cases found
    exact suits
  · obtain ⟨d, declared, _, imports⟩ := files series List.mem_cons_self
    exact ⟨d, declared,
      imports.mpr ⟨_, List.mem_singleton_self _, ValueType.holdsArray_array _⟩⟩
  · obtain ⟨d, declared, _, imports⟩ := files mark (List.mem_cons_of_mem _ List.mem_cons_self)
    refine ⟨d, declared, fun listed => ?_⟩
    obtain ⟨field, among, holds⟩ := imports.mp listed
    simp only [mark, List.mem_cons, List.not_mem_nil, or_false] at among
    rcases among with rfl | rfl
    · exact ValueType.not_holdsArray (by trivial) (ValueType.holdsArray_optional.mp holds)
    · exact ValueType.not_holdsArray (by trivial) holds

end Java

end Classwright
