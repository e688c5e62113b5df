/-
# Classwright.Proofs.Declaration.Members — a class in Java declares nothing twice

What a class declares is read from its file: the lines one level in that begin with an access
modifier, and on each of them the word in front of the arguments, the value or the end.  A word
without a type in front of it belongs to a constructor, which is no member.  What is read are the
constants, the fields, the accessors of each field, and the two methods that every class has.  They
are told apart by how they begin, and among themselves because the names of the fields are.
-/

import Classwright.Backend.Basic
import Classwright.Proofs.Declaration.Accessors
import Classwright.Proofs.Declaration.Java
import Classwright.Proofs.Declaration.References
import Classwright.Proofs.Render.TypeNaming

namespace Classwright.Java

open Text (Edit Block IsTidy IsWord Opens TidyBlock identifiersIn isIdentifierPart linesWith
  readLine)

/-! ## Reading a file -/

/-- A member of a class.  Fields and methods may share names in Java. -/
inductive ClassMember where
  | field (name : String)
  | method (name : String)
  deriving DecidableEq, Repr

/-- Do arguments, a value or nothing follow from here? -/
def endsName (c : Char) : Bool := c = '(' || c = '=' || c = ';'

/-- What is declared behind an access modifier. -/
def readMember (cs : List Char) : Option ClassMember :=
  match (identifiersIn (cs.takeWhile (!endsName ·))).reverse with
  | name :: _ :: _ =>
    some (if (cs.dropWhile (!endsName ·)).head? = some '(' then .method (String.ofList name)
      else .field (String.ofList name))
  | _ => none

/-- What the line of a file declares as a member of the class in it. -/
def declaredOn (line : String) : Option ClassMember :=
  (readLine "    public " readMember line).or (readLine "    private " readMember line)

/-- The members of the class in a file, from top to bottom. -/
def declaredIn (text : String) : List ClassMember := (Text.parts '\n' text).filterMap declaredOn

/-! ## Lines that declare -/

/-- What both access modifiers begin with. -/
def modifierStart : List Char := ['p']

theorem isStart_modifierStart : SourceFile.IsStart modifierStart := ⟨'p', [], rfl, by decide⟩

theorem begins_of_readLine {α : Type} {opening line : String} {read : List Char → Option α}
    (within : (SourceFile.openingAt 1 modifierStart).toList <+: opening.toList)
    (found : (readLine opening read line).isSome) :
    Text.begins (SourceFile.openingAt 1 modifierStart) line := by
  rw [readLine, Option.isSome_bind] at found
  obtain ⟨rest, begins, _⟩ := (Option.any_eq_true _ _).mp found
  refine List.isPrefixOf_iff_prefix.mpr (within.trans ?_)
  rw [← List.isPrefixOf?_eq_some_iff_append_eq.mp begins]
  exact List.prefix_append _ _

/-- Only lines one level in that begin like the modifiers declare anything. -/
theorem declaredIn_eq (text : String) :
    declaredIn text =
      (linesWith (SourceFile.openingAt 1 modifierStart) text).filterMap declaredOn := by
  rw [declaredIn, linesWith, List.filterMap_filter]
  refine List.filterMap_congr fun line _ => ?_
  split
  · rfl
  · next other =>
    rw [← Option.not_isSome_iff_eq_none, declaredOn, Option.isSome_or, Bool.or_eq_true]
    rintro (found | found)
    · exact other (begins_of_readLine (by decide +kernel) found)
    · exact other (begins_of_readLine (by decide +kernel) found)

/-- A text that names something: characters of identifiers, and at least one. -/
def IsName (text : String) : Prop := IsWord text ∧ text ≠ ""

theorem identifiersIn_of_isName {text : String} (own : IsName text) :
    identifiersIn text.toList = [text.toList] :=
  Text.identifiersIn_word own.1 fun empty => own.2 (String.toList_eq_nil_iff.mp empty)

theorem endsName_eq_false_of_isIdentifierPart {c : Char} (own : isIdentifierPart c) :
    endsName c = false := by
  rw [Bool.eq_false_iff]
  intro ends
  simp only [endsName, Bool.or_eq_true, decide_eq_true_eq] at ends
  rcases ends with (rfl | rfl) | rfl
  all_goals exact absurd own (by decide)

/-- What leads to a name: words, such as the type, and no end of a name. -/
def Leads (front : List Char) : Prop :=
  front.all (!endsName ·) ∧ identifiersIn front ≠ []

instance (front : List Char) : Decidable (Leads front) := inferInstanceAs (Decidable (_ ∧ _))

theorem Leads.behind {front back : List Char} (goesOn : front.all (!endsName ·))
    (leads : Leads back) : Leads (front ++ ' ' :: back) := by
  constructor
  · rw [List.all_append, List.all_cons, goesOn, leads.1]
    rfl
  · rw [Text.identifiersIn_append _ _ (by decide)]
    exact List.append_ne_nil_of_right_ne_nil _ leads.2

theorem readMember_append {front gap : List Char} {name : String} {stop : Char} {rest : List Char}
    (leads : Leads front) (own : IsName name) (blank : gap = [] ∨ gap = [' '])
    (stops : endsName stop = true) :
    readMember (front ++ ' ' :: (name.toList ++ gap ++ stop :: rest)) =
      some (if stop = '(' then .method name else .field name) := by
  have quiet : ∀ c ∈ front ++ ' ' :: (name.toList ++ gap), (!endsName c) = true := by
    have inside : ∀ c ∈ gap, (!endsName c) = true := by
      rcases blank with rfl | rfl
      · exact nofun
      · exact List.forall_mem_singleton.mpr (by decide)
    have word : ∀ c ∈ name.toList, (!endsName c) = true := fun c among => by
      rw [endsName_eq_false_of_isIdentifierPart (own.1 c among)]
      rfl
    simp only [List.forall_mem_append, List.forall_mem_cons]
    exact ⟨List.all_eq_true.mp leads.1, by decide, word, inside⟩
  have whole : front ++ ' ' :: (name.toList ++ gap ++ stop :: rest) =
      (front ++ ' ' :: (name.toList ++ gap)) ++ stop :: rest := by simp
  have words : identifiersIn (front ++ ' ' :: (name.toList ++ gap)) =
      identifiersIn front ++ [name.toList] := by
    rw [Text.identifiersIn_append _ _ (by decide)]
    congr 1
    rcases blank with rfl | rfl
    · rw [List.append_nil, identifiersIn_of_isName own]
    · rw [Text.identifiersIn_append _ _ (by decide), identifiersIn_of_isName own]
      rfl
  obtain ⟨first, others, eq⟩ := List.exists_cons_of_ne_nil (List.reverse_ne_nil_iff.mpr leads.2)
  rw [readMember, whole, List.takeWhile_append_of_pos quiet, List.dropWhile_append_of_pos quiet,
    List.takeWhile_cons_of_neg (by simp [stops]), List.dropWhile_cons_of_neg (by simp [stops]),
    List.append_nil, words, List.reverse_append, List.reverse_singleton, List.singleton_append, eq]
  simp

/-- A name with nothing in front of it belongs to a constructor. -/
theorem readMember_of_isName {name : String} (own : IsName name) (rest : List Char) :
    readMember (name.toList ++ '(' :: rest) = none := by
  have quiet : ∀ c ∈ name.toList, (!endsName c) = true := fun c among => by
    rw [endsName_eq_false_of_isIdentifierPart (own.1 c among)]
    rfl
  rw [readMember, List.takeWhile_append_of_pos quiet, List.takeWhile_cons_of_neg (by decide),
    List.append_nil, identifiersIn_of_isName own]
  rfl

/-- The line begins with an access modifier, and this is what it declares in a class. -/
def Tells (text : String) (told : Option ClassMember) : Prop :=
  modifierStart <+: text.toList ∧
    declaredOn (Edit.margin SourceFile.indentation 1 ++ text) = told

section Lines

variable {modifier front name rest : String}

/-- What a line declares is what its rest behind the access modifier does. -/
theorem tells_modifier (access : modifier = "public " ∨ modifier = "private ") (rest : String) :
    Tells (modifier ++ rest) (readMember rest.toList) := by
  have starts : modifierStart <+: modifier.toList := by
    rcases access with rfl | rfl <;> decide +kernel
  have apart : ¬ "    private ".toList <+: "    public ".toList ∧
      ¬ "    public ".toList <+: "    private ".toList := by decide +kernel
  refine ⟨Text.prefix_append starts _, ?_⟩
  rw [← String.append_assoc, declaredOn]
  rcases access with rfl | rfl
  · have own := Text.readLine_append "    public " readMember rest
    have other := Text.readLine_eq_none readMember (.of_front apart
      (Text.prefix_append (List.prefix_refl "    public ".toList) rest))
    show (readLine _ _ ("    public " ++ _)).or (readLine _ _ ("    public " ++ _)) = _
    rw [own, other, Option.or_none]
  · have own := Text.readLine_append "    private " readMember rest
    have other := Text.readLine_eq_none readMember (.of_front apart.symm
      (Text.prefix_append (List.prefix_refl "    private ".toList) rest))
    show (readLine _ _ ("    private " ++ _)).or (readLine _ _ ("    private " ++ _)) = _
    rw [own, other, Option.none_or]

theorem tells_field {gap more : List Char} {stop : Char}
    (access : modifier = "public " ∨ modifier = "private ") (leads : Leads front.toList)
    (own : IsName name) (blank : gap = [] ∨ gap = [' ']) (stops : endsName stop ∧ stop ≠ '(')
    (behind : rest.toList = gap ++ stop :: more) :
    Tells (modifier ++ (front ++ (" " ++ (name ++ rest)))) (some (.field name)) := by
  have whole : (front ++ (" " ++ (name ++ rest))).toList =
      front.toList ++ ' ' :: (name.toList ++ gap ++ stop :: more) := by
    simp [String.toList_append, behind]
  have tells := tells_modifier access (front ++ (" " ++ (name ++ rest)))
  rwa [whole, readMember_append leads own blank stops.1, if_neg stops.2] at tells

theorem tells_method {more : List Char} (leads : Leads front.toList) (own : IsName name)
    (behind : rest.toList = '(' :: more) :
    Tells ("public " ++ (front ++ (" " ++ (name ++ rest)))) (some (.method name)) := by
  have whole : (front ++ (" " ++ (name ++ rest))).toList =
      front.toList ++ ' ' :: (name.toList ++ [] ++ '(' :: more) := by
    simp [String.toList_append, behind]
  have tells := tells_modifier (.inl rfl) (front ++ (" " ++ (name ++ rest)))
  rwa [whole, readMember_append leads own (.inl rfl) (by decide), if_pos rfl] at tells

theorem tells_constructor (own : IsName name) (rest : String) :
    Tells ("public " ++ (name ++ ("(" ++ rest))) none := by
  have whole : (name ++ ("(" ++ rest)).toList = name.toList ++ '(' :: rest.toList := by
    simp [String.toList_append]
  have tells := tells_modifier (.inl rfl) (name ++ ("(" ++ rest))
  rwa [whole, readMember_of_isName own] at tells

end Lines

/-! ## Names in a declaration -/

/-- The type is spelled with the names of types. -/
def FieldKind.IsNamed : FieldKind → Prop
  | .primitive _ => True
  | .named typeName => IsName typeName
  | .list item => item.IsNamed

theorem FieldKind.IsNamed.boxed {kind : FieldKind} (named : kind.IsNamed) : kind.boxed.IsNamed := by
  cases kind with
  | primitive basic =>
      cases basic
      all_goals exact ⟨by decide, by decide⟩
  | named typeName => exact named
  | list item => exact named

theorem isNamed_ofType {names : TypeNames} {type : ValueType} {kind : FieldKind}
    (each : ∀ className typeName, names.get className = .ok typeName → IsName typeName)
    (found : FieldKind.ofType names type = .ok kind) : kind.IsNamed := by
  induction type generalizing kind with
  | integer | float | boolean =>
      cases found
      trivial
  | string | any | null =>
      cases found
      exact ⟨by decide, by decide⟩
  | array item ih =>
      obtain ⟨inner, inside, rfl⟩ := exists_of_map_ok found
      exact (ih inside).boxed
  | optional item ih =>
      obtain ⟨inner, inside, rfl⟩ := exists_of_map_ok found
      exact (ih inside).boxed
  | reference name =>
      obtain ⟨typeName, inside, rfl⟩ := exists_of_map_ok found
      exact each _ _ inside

theorem FieldKind.IsNamed.leads {kind : FieldKind} (named : kind.IsNamed) :
    Leads kind.spelling.toList := by
  induction kind with
  | primitive basic => cases basic <;> decide +kernel
  | named typeName =>
      show typeName.toList.all _ ∧ identifiersIn typeName.toList ≠ []
      rw [identifiersIn_of_isName named, List.all_eq_true]
      refine ⟨fun c among => ?_, List.cons_ne_nil _ _⟩
      rw [endsName_eq_false_of_isIdentifierPart (named.1 c among)]
      rfl
  | list item ih =>
      obtain ⟨goesOn, _⟩ := ih named
      have eq : (FieldKind.list item).spelling.toList =
          ['L', 'i', 's', 't'] ++ '<' :: (item.spelling.toList ++ ['>']) := by
        simp [FieldKind.spelling, String.toList_append]
      rw [eq]
      constructor
      · have word : ['L', 'i', 's', 't'].all (!endsName ·) := by decide
        rw [List.all_append, word, List.all_cons, List.all_append, goesOn]
        decide
      · rw [Text.identifiersIn_append _ _ (by decide)]
        exact List.append_ne_nil_of_left_ne_nil (by decide +kernel) _

/-- The names of a member can be read. -/
structure Member.IsLegible (m : Member) : Prop extends m.IsSpelled where
  kind_isNamed : m.kind.IsNamed
  name_ne_empty : m.name ≠ ""
  constant_ne_empty : m.constant ≠ ""
  getter_ne_empty : m.getter ≠ ""

theorem Member.IsLegible.name_isName {m : Member} (legible : m.IsLegible) : IsName m.name :=
  ⟨.of_isAlphanum legible.name, legible.name_ne_empty⟩

/-- The names of a declaration can be read. -/
structure Declaration.IsLegible (d : Declaration) : Prop where
  name : IsName d.name
  members : ∀ m ∈ d.members, m.IsLegible

theorem Declaration.IsLegible.spelled {d : Declaration} (legible : d.IsLegible) : d.IsSpelled :=
  ⟨legible.name.1, fun m among => (legible.members m among).toIsSpelled⟩

variable {s : JavaSettings} {d : Declaration} {m : Member} {members : List Member}

/-! ## Parts of a class body -/

/-- The members that edits of a class body declare. -/
def declaredBy (edits : List Edit) : List ClassMember :=
  (linesWith (SourceFile.openingAt 1 modifierStart)
    (Text.addedBy SourceFile.indentation 1 edits)).filterMap declaredOn

theorem declaredBy_map_line {α : Type} {as : List α} {f : α → String} {told : α → ClassMember}
    (each : ∀ a ∈ as, IsTidy (f a) ∧ Tells (f a) (some (told a))) :
    declaredBy (as.map fun a => .line (f a)) = as.map told := by
  rw [declaredBy, SourceFile.linesWith_map_line isStart_modifierStart
    fun a among => ⟨(each a among).1, (each a among).2.1⟩, List.filterMap_map]
  exact List.filterMap_eq_map_iff_forall_eq_some.mpr fun a among => (each a among).2.2

/-- A method declares what its head declares. -/
theorem declaredBy_braced {head : String} {inner : List Edit} {told : Option ClassMember}
    (tidy : IsTidy (head ++ " \x7b")) (tells : Tells (head ++ " \x7b") told)
    (block : TidyBlock 2 inner) : declaredBy (Text.braced head inner) = told.toList := by
  rw [declaredBy, SourceFile.linesWith_braced_eq_head isStart_modifierStart tidy tells.1
    (.literal (by decide)) block, ← tells.2]
  cases eq : declaredOn (Edit.margin SourceFile.indentation 1 ++ (head ++ " \x7b"))
  all_goals simp [eq]

/-! ### Constants and fields -/

theorem tells_constantText (legible : m.IsLegible) :
    Tells (constantText m) (some (.field m.constant)) := by
  have front : "public static final String " = "public " ++ ("static final String" ++ " ") := rfl
  have behind : (" = \"" ++ (Text.literalBody .octal m.key ++ "\";")).toList =
      [' '] ++ '=' :: ([' ', '"'] ++ (Text.literalBody .octal m.key ++ "\";").toList) := by
    rw [String.toList_append]
    rfl
  have tells := tells_field (.inl rfl) (by decide +kernel : Leads "static final String".toList)
    ⟨legible.constant, legible.constant_ne_empty⟩ (.inr rfl) (by decide) behind
  unfold constantText
  simpa only [front, String.append_assoc] using tells

theorem declaredBy_constants (legible : ∀ m ∈ members, m.IsLegible) :
    declaredBy (members.map constantLine) = members.map (.field ·.constant) :=
  declaredBy_map_line (f := constantText) fun m among =>
    ⟨tidy_constantText (legible m among).toIsSpelled, tells_constantText (legible m among)⟩

/-- The line of a field. -/
def fieldText (s : JavaSettings) (m : Member) : String :=
  (if s.immutable then "private final " else "private ") ++ m.kind.spelling ++ " " ++ m.name ++ ";"

theorem tells_fieldText (legible : m.IsLegible) :
    Tells (fieldText s m) (some (.field m.name)) := by
  have front : "private final " = "private " ++ ("final" ++ " ") := rfl
  have behind : ";".toList = [] ++ ';' :: [] := rfl
  have type := legible.kind_isNamed.leads
  have final : Leads ("final" ++ (" " ++ m.kind.spelling)).toList := by
    have own : Leads ("final".toList ++ ' ' :: m.kind.spelling.toList) :=
      type.behind (by decide +kernel)
    simpa [String.toList_append] using own
  have tells {front : String} (leads : Leads front.toList) :=
    tells_field (.inr rfl) leads legible.name_isName (.inl rfl) (by decide) behind
  unfold fieldText
  split
  · simpa only [front, String.append_assoc] using tells final
  · simpa only [String.append_assoc] using tells type

theorem declaredBy_fields (legible : ∀ m ∈ members, m.IsLegible) :
    declaredBy (members.map (fieldLine s)) = members.map (.field ·.name) :=
  declaredBy_map_line (f := fieldText s) fun m among =>
    ⟨(quiet_fieldLine (legible m among).toIsSpelled).of_cons_line.tidy,
      tells_fieldText (legible m among)⟩

/-! ### Methods -/

theorem declaredBy_constructor {typeName : String} (own : IsName typeName)
    (legible : ∀ m ∈ members, m.IsLegible) : declaredBy (constructor typeName members) = [] := by
  have spelled : ∀ m ∈ members, m.IsSpelled := fun m among => (legible m among).toIsSpelled
  have tells : Tells ("public " ++ typeName ++ "(" ++
      String.intercalate ", " (members.map parameter) ++ ")" ++ " \x7b") none := by
    simpa only [String.append_assoc] using tells_constructor own _
  exact declaredBy_braced (quiet_constructor own.1 spelled).of_cons_line.tidy tells
    (tidy_assignments spelled)

theorem declaredBy_getter (legible : m.IsLegible) :
    declaredBy (getter m) = [.method m.getter] := by
  have spelled := legible.toIsSpelled
  have behind : ("()" ++ " \x7b").toList = '(' :: [')', ' ', '\x7b'] := rfl
  have tells : Tells ("public " ++ m.kind.spelling ++ " " ++ m.getter ++ "()" ++ " \x7b")
      (some (.method m.getter)) := by
    have own := tells_method legible.kind_isNamed.leads
      ⟨legible.getter, legible.getter_ne_empty⟩ behind
    simpa only [String.append_assoc] using own
  exact declaredBy_braced (quiet_getter spelled).of_cons_line.tidy tells
    (tidy_returnLine spelled.isPlain_name)

/-- The name of the method that sets a field. -/
def Member.setter (m : Member) : String := "set" ++ m.suffix

theorem declaredBy_setter (legible : m.IsLegible) :
    declaredBy (setter m) = [.method m.setter] := by
  have spelled := legible.toIsSpelled
  have name : IsName m.setter :=
    ⟨.append (by decide) (.of_isAlphanum (Text.isAlphanum_of_mem_capitalizeFirst spelled.name)),
      by simp [Member.setter]⟩
  have front : "public void set" = "public " ++ ("void" ++ (" " ++ "set")) := rfl
  have behind : ("(" ++ (parameter m ++ (")" ++ " \x7b"))).toList =
      '(' :: (parameter m ++ (")" ++ " \x7b")).toList := by
    rw [String.toList_append]
    rfl
  have tells : Tells ("public void set" ++ m.suffix ++ "(" ++ parameter m ++ ")" ++ " \x7b")
      (some (.method m.setter)) := by
    have own := tells_method (by decide +kernel : Leads "void".toList) name behind
    simpa only [front, Member.setter, String.append_assoc] using own
  exact declaredBy_braced (quiet_setter spelled).of_cons_line.tidy tells (tidy_assignLine spelled 2)

/-- The names of the methods by which a field can be reached. -/
def Member.accessorNames (s : JavaSettings) (m : Member) : List String :=
  m.getter :: if s.setters && !s.immutable then [m.setter] else []

theorem declaredBy_accessors (legible : m.IsLegible) :
    (accessors s m).flatMap declaredBy = (m.accessorNames s).map .method := by
  rw [accessors, List.flatMap_cons, declaredBy_getter legible, Member.accessorNames, Text.onlyIf]
  split
  · rw [List.flatMap_singleton, declaredBy_setter legible]
    rfl
  · rfl

/-- A line that tells nothing in front of a method. -/
theorem declaredBy_override (edits : List Edit) :
    declaredBy (.line "@Override" :: edits) = declaredBy edits := by
  have quiet : Block (Text.Quiet 1 modifierStart) 1 [.line "@Override"] :=
    .line (.own (.plain (.literal (by decide))) (.literal (by decide))) .nil
  exact congrArg (List.filterMap declaredOn)
    (SourceFile.linesWith_append_of_quiet quiet isStart_modifierStart edits)

theorem declaredBy_equality (legible : d.IsLegible) :
    declaredBy (equality d) = [.method "equals"] := by
  have tidy : IsTidy ("public boolean equals(Object o)" ++ " \x7b") :=
    .plain (.append (.literal (by decide)) (.literal (by decide)))
  have front : "public boolean equals(Object o)" =
    "public " ++ ("boolean" ++ (" " ++ ("equals" ++ "(Object o)"))) := rfl
  have behind : ("(Object o)" ++ " \x7b").toList = '(' :: "Object o) \x7b".toList := rfl
  have tells : Tells ("public boolean equals(Object o)" ++ " \x7b") (some (.method "equals")) := by
    have own := tells_method (by decide +kernel : Leads "boolean".toList)
      (⟨by decide, by decide⟩ : IsName "equals") behind
    simpa only [front, String.append_assoc] using own
  rw [equality, declaredBy_override]
  exact declaredBy_braced tidy tells (tidy_equalityBody legible.spelled)

theorem declaredBy_hashing (legible : d.IsLegible) :
    declaredBy (hashing d.members) = [.method "hashCode"] := by
  have tidy : IsTidy ("public int hashCode()" ++ " \x7b") :=
    .plain (.append (.literal (by decide)) (.literal (by decide)))
  have front : "public int hashCode()" = "public " ++ ("int" ++ (" " ++ ("hashCode" ++ "()"))) :=
    rfl
  have behind : ("()" ++ " \x7b").toList = '(' :: [')', ' ', '\x7b'] := rfl
  have tells : Tells ("public int hashCode()" ++ " \x7b") (some (.method "hashCode")) := by
    have own := tells_method (by decide +kernel : Leads "int".toList)
      (⟨by decide, by decide⟩ : IsName "hashCode") behind
    simpa only [front, String.append_assoc] using own
  rw [hashing, declaredBy_override]
  exact declaredBy_braced tidy tells (tidy_returnLine (isPlain_hashValue legible.spelled.members))

/-! ## Whole files -/

theorem flatMap_onlyIf_of_members {part : List Edit} {told : Member → ClassMember}
    (own : declaredBy part = members.map told) :
    (Text.onlyIf (!members.isEmpty) part).flatMap declaredBy = members.map told := by
  cases members with
  | nil => rfl
  | cons m members =>
      show declaredBy part ++ [] = _
      rw [List.append_nil, own]

theorem flatMap_onlyIf_eq_nil {wanted : Bool} {part : List Edit} (own : declaredBy part = []) :
    (Text.onlyIf wanted part).flatMap declaredBy = [] := by
  cases wanted with
  | false => rfl
  | true =>
      show declaredBy part ++ [] = _
      rw [List.append_nil, own]

/-- The names of the fields of a class: the constants, and the fields that objects have. -/
def Declaration.fieldNames (d : Declaration) : List String :=
  d.members.map (·.constant) ++ d.members.map (·.name)

/-- The names of the methods of a class. -/
def Declaration.methodNames (s : JavaSettings) (d : Declaration) : List String :=
  d.members.flatMap (·.accessorNames s) ++ ["equals", "hashCode"]

/-- All members of a class. -/
def Declaration.allMembers (s : JavaSettings) (d : Declaration) : List ClassMember :=
  d.fieldNames.map .field ++ (d.methodNames s).map .method

theorem declaredBy_body (legible : d.IsLegible) : declaredBy (body s d) = d.allMembers s := by
  have each := legible.members
  have bare : declaredBy (constructor d.name []) = [] :=
    declaredBy_constructor legible.name (List.forall_mem_nil _)
  have accessors_ : (d.members.flatMap (accessors s)).flatMap declaredBy =
      (d.members.flatMap (·.accessorNames s)).map .method := by
    rw [List.flatMap_assoc, List.map_flatMap]
    exact List.flatMap_congr fun m among => declaredBy_accessors (each m among)
  have parts : declaredBy (body s d) =
      (Text.onlyIf (!d.members.isEmpty) (d.members.map constantLine) ++
        behindConstants s d).flatMap declaredBy := by
    rw [declaredBy, body_eq, SourceFile.linesWith_setApart isStart_modifierStart
      (tidy_parts legible.spelled), List.filterMap_flatMap]
    rfl
  rw [parts, behindConstants]
  simp only [List.flatMap_append, List.flatMap_cons, List.flatMap_nil, List.append_nil, accessors_,
    flatMap_onlyIf_of_members (declaredBy_constants each),
    flatMap_onlyIf_of_members (declaredBy_fields each),
    flatMap_onlyIf_eq_nil bare,
    flatMap_onlyIf_eq_nil (declaredBy_constructor legible.name each),
    declaredBy_equality legible, declaredBy_hashing legible]
  simp only [Declaration.allMembers, Declaration.fieldNames, Declaration.methodNames,
    List.map_append, List.map_map, List.append_assoc, List.singleton_append]
  rfl

theorem declaredIn_file (valid : s.fault? = none) (legible : d.IsLegible) :
    declaredIn (file s d).contents = d.allMembers s := by
  have spelled := legible.spelled
  have name : Text.IsPlain (fileName d.name) :=
    spelled.name.isPlain.append (.literal (by decide))
  have body_ : linesWith (SourceFile.openingAt 1 modifierStart) (file s d).contents =
      linesWith (SourceFile.openingAt 1 modifierStart)
        (Text.addedBy SourceFile.indentation 1 (body s d)) := by
    refine (SourceFile.linesWith_headed name isStart_modifierStart _).trans ?_
    refine (SourceFile.linesWith_append_of_quiet (quiet_front_inside valid)
      isStart_modifierStart _).trans ?_
    exact SourceFile.linesWith_braced (quiet_opening valid spelled)
      (.outer (.plain (.literal (by decide))) (.literal (by decide)) (by decide))
      (tidy_body spelled) isStart_modifierStart
  rw [declaredIn_eq, body_, ← declaredBy_body legible, declaredBy]

/-! ## Members of a class -/

section Resolved

variable {names : TypeNames} {c : ClassDef} {vs : List Variable}

/-- The variables of a class have the member names of its fields. -/
theorem map_name_resolveVariables (found : resolveVariables names (memberRule.named c) = .ok vs) :
    vs.map (·.name) = memberRule.names c := by
  rw [← memberRule.map_snd_named]
  exact (map_eq_of_forall₂ (forall₂_resolveVariables found).1
    fun field v own => own.1.symm).symm

theorem areWellNamed_resolveVariables
    (found : resolveVariables names (memberRule.named c) = .ok vs) :
    AreWellNamed vs := by
  have eq := map_name_resolveVariables found
  have listed : ∀ v ∈ vs, v.name ∈ memberRule.names c := fun v among =>
    eq ▸ List.mem_map_of_mem among
  exact ⟨fun v among => isSound_memberRule.opens_name (listed v among),
    fun v among => isSound_memberRule.notMem_reserved (listed v among),
    eq ▸ memberRule.nodup_names c⟩

theorem eq_boolean_of_normalize {type : ValueType} (same : type.normalize = .boolean) :
    type = .boolean := by
  cases type with
  | optional inner =>
      rw [ValueType.normalize] at same
      generalize inner.normalize = normal at same
      cases normal <;> cases same
  | array item => cases same
  | _ => exact same

/-- Only truth values that are not optional are without a box. -/
theorem eq_boolean_of_ofType {type : ValueType}
    (found : FieldKind.ofType names type = .ok (.primitive .boolean)) : type = .boolean := by
  cases type with
  | boolean => rfl
  | optional inner =>
      obtain ⟨kind, _, same⟩ := exists_of_map_ok found
      cases kind <;> cases same
  | array item =>
      obtain ⟨_, _, same⟩ := exists_of_map_ok found
      cases same
  | reference name =>
      obtain ⟨_, _, same⟩ := exists_of_map_ok found
      cases same
  | _ => cases found

theorem isBoolean_iff {field : Field × String} {v : Variable} (own : IsVariableOf names field v) :
    v.isBoolean ↔ field.1.type = .boolean := by
  obtain ⟨_, _, _, found⟩ := own
  rw [Variable.isBoolean, decide_eq_true_eq]
  constructor
  · intro same
    rw [same] at found
    exact eq_boolean_of_normalize (eq_boolean_of_ofType found)
  · intro same
    rw [same] at found
    exact (Except.ok.inj found).symm

/-- The getter of a field with its member name, unless there is a better one. -/
def defaultGetter (field : Field × String) : String :=
  (if field.1.type = .boolean then "is" else "get") ++ Text.capitalizeFirst field.2

/-- The field is a truth value that is there, and its member name starts with `is` and goes on. -/
def IsQuestion (field : Field × String) : Prop :=
  field.1.type = .boolean ∧ ∃ second more, Text.words field.2 = "is" :: second :: more

theorem plainGetter_eq {field : Field × String} {v : Variable} (own : IsVariableOf names field v) :
    v.plainGetter = defaultGetter field := by
  rw [Variable.plainGetter, defaultGetter, Variable.suffix, own.1]
  simp only [isBoolean_iff own]

theorem asksQuestion_iff {field : Field × String} {v : Variable}
    (own : IsVariableOf names field v) : v.AsksQuestion ↔ IsQuestion field := by
  rw [Variable.AsksQuestion, IsQuestion, isBoolean_iff own, own.1]

/-- What a name is compared with are the getters that the other fields have by default. -/
theorem notMem_eraseIdx_iff {fields : List (Field × String)}
    (each : List.Forall₂ (IsVariableOf names) fields vs) {place : Nat} {name : String} :
    name ∉ (vs.map Variable.plainGetter).eraseIdx place ↔
      ∀ i other, fields[i]? = some other → i ≠ place → defaultGetter other ≠ name := by
  have same : vs.map Variable.plainGetter = fields.map defaultGetter :=
    (map_eq_of_forall₂ each fun field v own => (plainGetter_eq own).symm).symm
  rw [same, List.mem_eraseIdx_iff_getElem?]
  simp only [List.getElem?_map, Option.map_eq_some_iff]
  constructor
  · intro free i other there apart clash
    exact free ⟨i, apart, other, there, clash⟩
  · rintro apart ⟨i, other, field, there, clash⟩
    exact apart i field there other clash

/-- The member is read like the field at a place among all of them: by its name or by its default,
and by its name only if that is a question which is not the default of another field. -/
structure IsReadAs (fields : List (Field × String)) (place : Nat) (field : Field × String)
    (m : Member) : Prop where
  name : m.name = field.2
  question : IsQuestion field → (m.getter = field.2 ↔
    ∀ i other, fields[i]? = some other → i ≠ place → defaultGetter other ≠ field.2)
  others : m.getter ≠ field.2 ∨ ¬ IsQuestion field → m.getter = defaultGetter field

theorem exists_isReadAs {fields : List (Field × String)}
    (each : List.Forall₂ (IsVariableOf names) fields vs) {place : Nat} {field : Field × String}
    (there : fields[place]? = some field) :
    ∃ m, (withGetters vs)[place]? = some m ∧ IsReadAs fields place field m := by
  obtain ⟨inside, rfl⟩ := List.getElem?_eq_some_iff.mp there
  have within : place < vs.length := each.length_eq ▸ inside
  have own : IsVariableOf names fields[place] vs[place] := each.get inside within
  have chosen : (withGetters vs)[place]? =
      some ⟨vs[place], chooseGetter (vs.map Variable.plainGetter) vs[place] place⟩ := by
    simp [withGetters, List.getElem?_eq_getElem within]
  have plain := plainGetter_eq own
  have name : vs[place].name = fields[place].2 := own.1
  refine ⟨_, chosen, name, fun question => ?_, fun other => ?_⟩
  · rw [← notMem_eraseIdx_iff each, ← name]
    constructor
    · intro byName clash
      have usual := chooseGetter_eq_plainGetter (v := vs[place]) fun _ => clash
      exact vs[place].plainGetter_ne_name (usual.symm.trans byName)
    · exact chooseGetter_eq_name ((asksQuestion_iff own).mpr question)
  · rcases chooseGetter_cases (vs.map Variable.plainGetter) vs[place] place with
      ⟨byName, asks, _⟩ | usual
    · rcases other with other | silent
      · exact absurd (byName.trans name) other
      · exact absurd ((asksQuestion_iff own).mp asks) silent
    · exact usual.trans plain

/-- The names of constants begin alike. -/
theorem prefix_constant {name constant : String}
    (variant : Text.IsVariant (wantedConstant name) constant) :
    ['K', 'E', 'Y', '_'] <+: constant.toList := by
  obtain ⟨digits, eq, _⟩ := variant.exists_digits
  rw [eq, wantedConstant, String.toList_append, List.append_assoc]
  exact ⟨_, rfl⟩

theorem ne_empty_of_prefix {text : String} {c : Char} {rest : List Char}
    (begins : c :: rest <+: text.toList) : text ≠ "" := by
  rintro rfl
  exact List.cons_ne_nil _ _ (List.prefix_nil.mp begins)

/-- The declaration of a class can be read, and has a member for each variable. -/
theorem isLegible_ofClass
    (each : ∀ className typeName, names.get className = .ok typeName → IsName typeName)
    (done : Declaration.ofClass names c = .ok d) :
    d.IsLegible ∧ ∃ vs, resolveVariables names (memberRule.named c) = .ok vs ∧
      d.members = withGetters vs := by
  have spelled := (ofClass_spec (fun _ _ found => (each _ _ found).1) done).1
  obtain ⟨named, vs, resolved, members⟩ := resolved_of_ofClass done
  have fields := (forall₂_resolveVariables resolved).1
  have own := areWellNamed_resolveVariables resolved
  refine ⟨⟨each _ _ named, fun m among => ?_⟩, vs, resolved, members⟩
  have words := spelled.members m among
  rw [members] at among
  obtain ⟨⟨v, place⟩, numbered, rfl⟩ := List.mem_map.mp among
  have listed : v ∈ vs := List.fst_mem_of_mem_zipIdx numbered
  obtain ⟨field, _, _, _, variant, kind⟩ := exists_of_forall₂ fields v listed
  obtain ⟨first, rest, letters, _⟩ := own.opens v listed
  refine ⟨words, isNamed_ofType each kind, ?_, ne_empty_of_prefix (prefix_constant variant), ?_⟩
  · exact ne_empty_of_prefix (show first :: rest <+: v.name.toList from letters ▸ List.prefix_rfl)
  · rcases own.prefix_chooseGetter listed (vs.map Variable.plainGetter) place with begins | begins
    · exact ne_empty_of_prefix begins
    · exact ne_empty_of_prefix begins

/-! ## Telling members apart -/

theorem setter_prefix (m : Member) : ['s', 'e', 't'] <+: m.setter.toList := by
  rw [Member.setter, String.toList_append]
  exact ⟨_, rfl⟩

namespace AreWellNamed

variable (named : AreWellNamed vs)

include named

theorem getter_prefix {m : Member} (among : m ∈ withGetters vs) :
    ['i', 's'] <+: m.getter.toList ∨ ['g', 'e', 't'] <+: m.getter.toList := by
  obtain ⟨⟨v, place⟩, numbered, rfl⟩ := List.mem_map.mp among
  exact named.prefix_chooseGetter (List.fst_mem_of_mem_zipIdx numbered) _ place

/-- A getter is nothing that begins otherwise. -/
theorem getter_ne {m : Member} (among : m ∈ withGetters vs) {text : String}
    (noIs : ¬ ['i', 's'] <+: text.toList) (noGet : ¬ ['g', 'e', 't'] <+: text.toList) :
    m.getter ≠ text := by
  rintro rfl
  exact (named.getter_prefix among).elim noIs noGet

theorem getter_ne_setter {m n : Member} (among : m ∈ withGetters vs) : m.getter ≠ n.setter := by
  obtain ⟨rest, eq⟩ := setter_prefix n
  refine named.getter_ne among ?_ ?_
  all_goals
    rw [← eq, List.cons_append, List.cons_prefix_cons]
    exact fun within => absurd within.1 (by decide)

theorem nodup_setters : ((withGetters vs).map (·.setter)).Nodup := by
  have suffixes := named.nodup_suffixes
  rw [← map_toVariable_withGetters vs, List.map_map] at suffixes
  have injective : Function.Injective ("set" ++ ·) := fun text other same => by
    simpa [← String.toList_inj, String.toList_append] using same
  have setters := suffixes.map injective
  rwa [List.map_map] at setters

/-- No accessor of a field is an accessor of another one, or the other accessor of its own. -/
theorem nodup_accessors (s : JavaSettings) :
    ((withGetters vs).flatMap (·.accessorNames s)).Nodup := by
  have apart := (List.pairwise_map.mp named.nodup_getters).and
    (List.pairwise_map.mp named.nodup_setters)
  rw [List.nodup_flatMap]
  refine ⟨fun m among => ?_, apart.imp_of_mem fun {m n} hm hn different => ?_⟩
  · have own := named.getter_ne_setter (n := m) among
    rw [Member.accessorNames]
    split <;> simp [own]
  · have before := named.getter_ne_setter (n := n) hm
    have behind := named.getter_ne_setter (n := m) hn
    simp only [Function.onFun, Member.accessorNames]
    split <;> simp [different.1.symm, different.2.symm, before.symm, behind]

theorem getter_ne_getClass {m : Member} (among : m ∈ withGetters vs) : m.getter ≠ "getClass" := by
  obtain ⟨⟨v, place⟩, numbered, rfl⟩ := List.mem_map.mp among
  exact named.chooseGetter_ne_getClass (List.fst_mem_of_mem_zipIdx numbered) _ place

/-- The accessors of the fields are none of the methods that every object has. -/
theorem notMem_accessors (s : JavaSettings) {text : String}
    (listed : text ∈ ["equals", "hashCode", "getClass"]) :
    text ∉ (withGetters vs).flatMap (·.accessorNames s) := by
  intro accessor
  obtain ⟨m, among, own⟩ := List.mem_flatMap.mp accessor
  have apart : m.getter ≠ text ∧ m.setter ≠ text := by
    have begins := setter_prefix m
    simp only [List.mem_cons, List.not_mem_nil, or_false] at listed
    rcases listed with rfl | rfl | rfl
    · refine ⟨named.getter_ne among (by simp) (by simp), fun same => ?_⟩
      simp [same] at begins
    · refine ⟨named.getter_ne among (by simp) (by simp), fun same => ?_⟩
      simp [same] at begins
    · refine ⟨named.getter_ne_getClass among, fun same => ?_⟩
      simp [same] at begins
  rw [Member.accessorNames] at own
  split at own <;> simp [apart.1.symm, apart.2.symm] at own

theorem nodup_methodNames (s : JavaSettings) (found : d.members = withGetters vs) :
    (d.methodNames s).Nodup ∧ "getClass" ∉ d.methodNames s := by
  rw [Declaration.methodNames, found, List.nodup_append, List.mem_append, not_or]
  refine ⟨⟨named.nodup_accessors s, by decide, ?_⟩, named.notMem_accessors s (by decide), by decide⟩
  rintro accessor own _ among rfl
  exact named.notMem_accessors s (List.mem_append_left ["getClass"] among) own

end AreWellNamed

/-- Constants begin with a capital, and the names of fields do not. -/
theorem nodup_fieldNames (found : d.members = withGetters vs)
    (resolved : resolveVariables names (memberRule.named c) = .ok vs) : d.fieldNames.Nodup := by
  have named := areWellNamed_resolveVariables resolved
  obtain ⟨each, constants⟩ := forall₂_resolveVariables resolved
  have same := map_toVariable_withGetters vs
  have eq : d.fieldNames = vs.map (·.constant) ++ vs.map (·.name) := by
    rw [Declaration.fieldNames, found, ← same, List.map_map, List.map_map, same]
    rfl
  rw [eq, List.nodup_append]
  refine ⟨constants, named.distinct, ?_⟩
  rintro constant isConstant name isName rfl
  obtain ⟨v, among, rfl⟩ := List.mem_map.mp isConstant
  obtain ⟨w, also, same⟩ := List.mem_map.mp isName
  obtain ⟨_, _, _, _, variant, _⟩ := exists_of_forall₂ each v among
  obtain ⟨first, rest, letters, small, _⟩ := named.opens w also
  have begins := prefix_constant variant
  rw [← same, letters] at begins
  rw [← (List.cons_prefix_cons.mp begins).1] at small
  exact absurd small (by decide)

end Resolved

/-- Every class of a schema is declared in a file of its own, and whatever the settings are, the
members that are declared there are all different: the constants and the fields by their names, and
the accessors, `equals` and `hashCode` by theirs.  None of them is `getClass`, which every object
has.  The fields have the member names of the class, in their order, and constants begin with
`KEY_`.  A field is read by the word `get` or, for a truth value that is not optional, `is`, with
its name as a capital behind it.  Only if the name of such a truth value is a question already is it
read by its name, and it is exactly if no other field has that name for a getter by default. -/
theorem members_declared_once {settings : JavaSettings} (valid : settings.fault? = none)
    (s : Schema) {c : ClassDef} (among : c ∈ s.classes) :
    ∃ d : Declaration, backend.declare settings (backend.typeNames settings s) () c =
        .ok (file settings d, ()) ∧
      declaredIn (file settings d).contents =
        d.fieldNames.map .field ++ (d.methodNames settings).map .method ∧
      (declaredIn (file settings d).contents).Nodup ∧
      .method "getClass" ∉ declaredIn (file settings d).contents ∧
      d.members.map (·.name) = memberRule.names c ∧
      (∀ m ∈ d.members, "KEY_".toList <+: m.constant.toList) ∧
      ∀ place field, (memberRule.named c)[place]? = some field →
        ∃ m, d.members[place]? = some m ∧ IsReadAs (memberRule.named c) place field m := by
  obtain ⟨general, _⟩ := JavaSettings.fault?_eq_none_iff.mp valid
  have words : ∀ className typeName,
      (backend.typeNames settings s).get className = .ok typeName → IsName typeName := by
    intro className typeName found
    have own := TypeNames.isIdentifier_of_get (GeneralSettings.fault?_eq_none_iff.mp general).1
      found
    refine ⟨Text.isIdentifierPart_of_isIdentifier own, ?_⟩
    rintro rfl
    exact absurd own (by decide)
  obtain ⟨d, declared, done, _⟩ := exists_declared valid among
  obtain ⟨legible, vs, resolved, found⟩ := isLegible_ofClass words done
  obtain ⟨each, _⟩ := forall₂_resolveVariables resolved
  have read : declaredIn (file settings d).contents = d.allMembers settings :=
    declaredIn_file valid legible
  obtain ⟨methods, fixed⟩ :=
    (areWellNamed_resolveVariables resolved).nodup_methodNames settings found
  refine ⟨d, declared, read, ?_, ?_, ?_, ?_, ?_⟩
  · rw [read]
    -- no field is a method, so it is enough that neither kind has a name twice
    refine List.Nodup.append
      ((nodup_fieldNames found resolved).map fun _ _ => ClassMember.field.inj)
      (methods.map fun _ _ => ClassMember.method.inj) ?_
    simp [List.disjoint_left]
  · rw [read]
    simpa [Declaration.allMembers] using fixed
  · rw [found, ← map_name_resolveVariables resolved]
    conv_rhs => rw [← map_toVariable_withGetters vs]
    rw [List.map_map]
    rfl
  · rw [found]
    intro m listed
    obtain ⟨⟨v, place⟩, numbered, rfl⟩ := List.mem_map.mp listed
    obtain ⟨_, _, _, _, variant, _⟩ :=
      exists_of_forall₂ each v (List.fst_mem_of_mem_zipIdx numbered)
    exact prefix_constant variant
  · rw [found]
    exact fun place field there => exists_isReadAs each there

/-- A switch, where the getter of one field by default is the name of another one. -/
def switch : ClassDef :=
  ⟨"Switch", [⟨"active", .boolean⟩, ⟨"is_active", .boolean⟩, ⟨"is_open", .boolean⟩]⟩

/-- A schema of switches. -/
def switches : Schema where
  classes := [switch]
  faultless := ClassList.fault?_eq_none.mpr ⟨by decide, by decide, by cbv⟩

/-- The field whose name is taken for a getter has one of its own by default, and the last field is
read by its name. -/
theorem members_declared_once_switches :
    ({} : JavaSettings).fault? = none ∧ switch ∈ switches.classes ∧
      ∃ d : Declaration,
        backend.declare {} (backend.typeNames {} switches) () switch = .ok (file {} d, ()) ∧
        (declaredIn (file {} d).contents).Nodup ∧
        (∃ m ∈ d.members, m.name = "isActive" ∧ m.getter = "isIsActive") ∧
        ∃ m ∈ d.members, m.name = "isOpen" ∧ m.getter = "isOpen" := by
  have valid : ({} : JavaSettings).fault? = none := by decide
  have listed : switch ∈ switches.classes := List.mem_cons_self
  have wanted : (switch.fields.map fun field => memberRule.wanted field.key) =
      ["active", "isActive", "isOpen"] := by decide +kernel
  have named : memberRule.named switch = [(⟨"active", .boolean⟩, "active"),
      (⟨"is_active", .boolean⟩, "isActive"), (⟨"is_open", .boolean⟩, "isOpen")] := by
    rw [MemberRule.named, MemberRule.names, wanted]
    cbv
  obtain ⟨d, declared, _, distinct, _, _, _, each⟩ := members_declared_once valid switches listed
  rw [named] at each
  obtain ⟨taken, there, own⟩ := each 1 _ rfl
  obtain ⟨free, also, other⟩ := each 2 _ rfl
  refine ⟨valid, listed, d, declared, distinct,
    ⟨taken, List.mem_of_getElem? there, own.name, ?_⟩,
    free, List.mem_of_getElem? also, other.name, ?_⟩
  · have default : defaultGetter (⟨"is_active", .boolean⟩, "isActive") = "isIsActive" := by
      decide +kernel
    have question : IsQuestion (⟨"is_active", .boolean⟩, "isActive") :=
      ⟨rfl, "Active", [], by decide +kernel⟩
    refine (own.others (.inl fun byName => ?_)).trans default
    exact (own.question question).mp byName 0 _ rfl (by decide) (by decide +kernel)
  · have question : IsQuestion (⟨"is_open", .boolean⟩, "isOpen") :=
      ⟨rfl, "Open", [], by decide +kernel⟩
    refine (other.question question).mpr ?_
    rintro (_ | _ | _ | i) field within apart
    · cases within
      decide +kernel
    · cases within
      decide +kernel
    · exact absurd rfl apart
    · cases within

end Classwright.Java
