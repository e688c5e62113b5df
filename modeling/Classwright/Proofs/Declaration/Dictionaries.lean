/-
# Classwright.Proofs.Declaration.Dictionaries — properties and the dictionaries they come from

An implementation takes its properties from a dictionary and gives them back to one.  Scalars go into
boxes there, objects of generated classes become dictionaries, alone or in arrays, and all the rest
is kept as it comes.  What is done to a property must fit its type: a dictionary that is kept where
the interface says object would only be noticed at run time.  The types decide first (`Suits`); the
statements of the implementation are then read from its lines and compared with them.
-/

import Mathlib
import Classwright.Proofs.Declaration.Interfaces
import Classwright.Proofs.Declaration.Messages
import Classwright.Proofs.Declaration.References
import Classwright.Proofs.Render.SourceFile

namespace Classwright.ObjectiveC

open Text (Edit Block IsPlain IsTidy IsWord Departs TidyBlock identifiersIn readLine toldBy)

/-! ## Types of properties -/

/-- The type of the values that a scalar holds. -/
def Scalar.type : Scalar → ValueType
  | .integer => .integer
  | .double => .float
  | .boolean => .boolean

/-- The type says that there may be values of the part, or that there are. -/
def Holds (type part : ValueType) : Prop := type = part ∨ type = .optional part

/-- What a normal type becomes as the type of a property. -/
inductive Becomes (names : TypeNames) (type : ValueType) : PropertyKind → Prop
  | scalar {value : Scalar} (is : type = value.type) : Becomes names type (.scalar value)
  | number {value : Scalar} (may : type = .optional value.type) : Becomes names type .number
  | string (holds : Holds type .string) : Becomes names type .string
  | dynamic (unknown : type = .any ∨ type = .null) : Becomes names type .dynamic
  | object {className typeName : String} (holds : Holds type (.reference className))
      (named : names.get className = .ok typeName) : Becomes names type (.object typeName)
  | objects {item : ValueType} {className typeName : String} (holds : Holds type (.array item))
      (each : Holds item (.reference className)) (named : names.get className = .ok typeName) :
      Becomes names type (.objects typeName)
  | array {item : ValueType} {element : Element} (holds : Holds type (.array item))
      (others : ∀ className, ¬ Holds item (.reference className)) :
      Becomes names type (.array element)

variable {names : TypeNames} {place : FieldPlace} {type item : ValueType} {kind : PropertyKind}

theorem Holds.mentions {part : ValueType} {className : String} (holds : Holds type part)
    (inside : part.Mentions className) : type.Mentions className := by
  rcases holds with rfl | rfl
  · exact inside
  · exact ValueType.mentions_optional.mpr inside

theorem holds_present_reference {className : String} :
    item.present = .reference className ↔ Holds item (.reference className) := by
  cases item <;> simp [ValueType.present, Holds]

theorem becomes_arrayOf (holds : Holds type (.array item))
    (found : arrayOf names place item = .ok kind) : Becomes names type kind := by
  unfold arrayOf at found
  split at found
  · next className inside =>
    obtain ⟨typeName, named, rfl⟩ := exists_of_map_ok found
    exact .objects holds (holds_present_reference.mp inside) named
  · next other =>
    split at found
    · cases found
      exact .array holds fun className each => other _ (holds_present_reference.mpr each)
    · cases found

theorem becomes_ofType (normal : type.Normal)
    (found : PropertyKind.ofType names place type = .ok kind) : Becomes names type kind := by
  cases type with
  | integer | float | boolean =>
      cases found
      exact .scalar rfl
  | string =>
      cases found
      exact .string (.inl rfl)
  | any | null =>
      cases found
      exact .dynamic (by simp)
  | reference className =>
      obtain ⟨typeName, named, rfl⟩ := exists_of_map_ok found
      exact .object (.inl rfl) named
  | array item => exact becomes_arrayOf (.inl rfl) found
  | optional inner =>
      obtain ⟨value, inside, rfl⟩ := exists_of_map_ok found
      obtain ⟨single, noAny, noNull, _⟩ := normal
      cases inner with
      | integer =>
          cases inside
          exact .number (rfl : _ = ValueType.optional Scalar.integer.type)
      | float =>
          cases inside
          exact .number (rfl : _ = ValueType.optional Scalar.double.type)
      | boolean =>
          cases inside
          exact .number (rfl : _ = ValueType.optional Scalar.boolean.type)
      | string =>
          cases inside
          exact .string (.inr rfl)
      | any => exact absurd rfl noAny
      | null => exact absurd rfl noNull
      | reference className =>
          obtain ⟨typeName, named, rfl⟩ := exists_of_map_ok inside
          exact .object (.inr rfl) named
      | array item =>
          have becomes : Becomes names (.optional (.array item)) value :=
            becomes_arrayOf (.inr rfl) inside
          -- an array is no scalar, so the box around it changes nothing
          cases value with
          | scalar value =>
              cases becomes with
              | scalar is => cases value <;> cases is
          | _ => exact becomes
      | optional _ => cases single

/-! ## What is done to a property -/

/-- How a property comes from a dictionary and gets into one. -/
inductive Handling where
  /-- A scalar is taken out of its box and put into one. -/
  | boxed (value : Scalar)
  /-- An object that stands in the dictionary is kept as it is. -/
  | kept
  /-- A dictionary becomes an object of a generated class, and the object a dictionary. -/
  | object
  /-- The same, for each element of an array. -/
  | objects
  deriving DecidableEq, Repr

/-- How a property of this type is handled. -/
def PropertyKind.handling : PropertyKind → Handling
  | .scalar value => .boxed value
  | .object _ => .object
  | .objects _ => .objects
  | _ => .kept

/-- The property type fits the type of the values: it is a scalar, an object or an array of objects
of a generated class exactly if the values are, kept as it comes else, and it holds its value
accordingly.  No class in the type of the values gets lost. -/
structure Suits (names : TypeNames) (type : ValueType) (kind : PropertyKind) : Prop where
  scalar : ∀ value, kind = .scalar value ↔ type.normalize = value.type
  object : ∀ typeName, kind = .object typeName ↔ ∃ className,
    Holds type.normalize (.reference className) ∧ names.get className = .ok typeName
  objects : ∀ typeName, kind = .objects typeName ↔ ∃ item className,
    Holds type.normalize (.array item) ∧ Holds item (.reference className) ∧
      names.get className = .ok typeName
  kept : kind.handling = .kept ↔ (∀ value : Scalar, type.normalize ≠ value.type) ∧
    (∀ className, ¬ Holds type.normalize (.reference className)) ∧
    ∀ item className, Holds type.normalize (.array item) → ¬ Holds item (.reference className)
  assigned : kind.storage = .assign ↔ type.normalize ∈ [.integer, .float, .boolean]
  copied : kind.storage = .copy ↔ Holds type.normalize .string
  retained : kind.storage = .retain ↔
    type.normalize ∉ [.integer, .float, .boolean] ∧ ¬ Holds type.normalize .string
  mentioned : ∀ className, type.Mentions className → ∃ typeName,
    names.get className = .ok typeName ∧ (kind = .object typeName ∨ kind = .objects typeName)

theorem Scalar.exists_type_iff : (∃ value : Scalar, type = value.type) ↔
    type ∈ [.integer, .float, .boolean] := by
  constructor
  · rintro ⟨value, rfl⟩
    cases value <;> simp [Scalar.type]
  · intro among
    simp only [List.mem_cons, List.not_mem_nil, or_false] at among
    rcases among with rfl | rfl | rfl
    · exact ⟨.integer, rfl⟩
    · exact ⟨.double, rfl⟩
    · exact ⟨.boolean, rfl⟩

theorem ofType_scalar (value : Scalar) :
    PropertyKind.ofType names place value.type = .ok (.scalar value) := by
  cases value <;> rfl

theorem ofType_of_holds_string (holds : Holds type .string) :
    PropertyKind.ofType names place type = .ok .string := by
  rcases holds with rfl | rfl <;> rfl

theorem ofType_of_holds_reference {className typeName : String}
    (holds : Holds type (.reference className)) (named : names.get className = .ok typeName) :
    PropertyKind.ofType names place type = .ok (.object typeName) := by
  rcases holds with rfl | rfl
  all_goals
    simp only [PropertyKind.ofType, PropertyKind.ofPresent, ValueType.present, named]
    rfl

theorem ofType_of_holds_array {className typeName : String} (holds : Holds type (.array item))
    (each : Holds item (.reference className)) (named : names.get className = .ok typeName) :
    PropertyKind.ofType names place type = .ok (.objects typeName) := by
  have array : arrayOf names place item = .ok (.objects typeName) := by
    rw [arrayOf, holds_present_reference.mpr each]
    simp only [named]
    rfl
  rcases holds with rfl | rfl
  all_goals
    simp only [PropertyKind.ofType, PropertyKind.ofPresent, ValueType.present, array]
    rfl

section Found

variable (normal : type.Normal) (found : PropertyKind.ofType names place type = .ok kind)

include normal found

theorem eq_scalar_iff (value : Scalar) : kind = .scalar value ↔ type = value.type := by
  constructor
  · rintro rfl
    cases becomes_ofType normal found with
    | scalar is => exact is
  · rintro rfl
    rw [ofType_scalar] at found
    exact (Except.ok.inj found).symm

theorem eq_string_iff : kind = .string ↔ Holds type .string := by
  constructor
  · rintro rfl
    cases becomes_ofType normal found with
    | string holds => exact holds
  · intro holds
    rw [ofType_of_holds_string holds] at found
    exact (Except.ok.inj found).symm

theorem eq_object_iff (typeName : String) : kind = .object typeName ↔
    ∃ className, Holds type (.reference className) ∧ names.get className = .ok typeName := by
  constructor
  · rintro rfl
    cases becomes_ofType normal found with
    | object holds named => exact ⟨_, holds, named⟩
  · rintro ⟨className, holds, named⟩
    rw [ofType_of_holds_reference holds named] at found
    exact (Except.ok.inj found).symm

theorem eq_objects_iff (typeName : String) : kind = .objects typeName ↔
    ∃ item className, Holds type (.array item) ∧ Holds item (.reference className) ∧
      names.get className = .ok typeName := by
  constructor
  · rintro rfl
    cases becomes_ofType normal found with
    | objects holds each named => exact ⟨_, _, holds, each, named⟩
  · rintro ⟨item, className, holds, each, named⟩
    rw [ofType_of_holds_array holds each named] at found
    exact (Except.ok.inj found).symm

end Found

namespace PropertyKind

theorem storage_eq_assign_iff (kind : PropertyKind) :
    kind.storage = .assign ↔ ∃ value : Scalar, kind = .scalar value := by
  cases kind <;> simp [storage]

theorem storage_eq_copy_iff (kind : PropertyKind) : kind.storage = .copy ↔ kind = .string := by
  cases kind <;> simp [storage]

theorem storage_eq_retain_iff (kind : PropertyKind) :
    kind.storage = .retain ↔ kind.storage ≠ .assign ∧ kind.storage ≠ .copy := by
  cases kind <;> simp [storage]

theorem handling_eq_kept_iff (kind : PropertyKind) :
    kind.handling = .kept ↔ (∀ value, kind ≠ .scalar value) ∧
      (∀ typeName, kind ≠ .object typeName) ∧ ∀ typeName, kind ≠ .objects typeName := by
  cases kind <;> simp [handling]

end PropertyKind

/-- Whatever type a property gets, it suits the type of its values. -/
theorem suits_ofType (found : PropertyKind.ofType names place type.normalize = .ok kind) :
    Suits names type kind := by
  have normal := type.normal_normalize
  have scalar := eq_scalar_iff normal found
  have object := eq_object_iff normal found
  have objects := eq_objects_iff normal found
  have references := isNamed_ofType found
  have known {className : String} (mentions : type.normalize.Mentions className) :
      ∃ typeName, names.get className = .ok typeName ∧
        (kind = .object typeName ∨ kind = .objects typeName) := by
    obtain ⟨typeName, own, named⟩ :=
      exists_of_forall₂ references.flip className (ValueType.mem_references_iff.mpr mentions)
    refine ⟨typeName, named, ?_⟩
    cases kind <;> simp_all [PropertyKind.typeNames]
  have assigned := kind.storage_eq_assign_iff
  simp only [scalar, Scalar.exists_type_iff] at assigned
  have copied := kind.storage_eq_copy_iff
  rw [eq_string_iff normal found] at copied
  refine ⟨scalar, object, objects, ?_, assigned, copied, ?_, ?_⟩
  · rw [kind.handling_eq_kept_iff]
    refine and_congr (forall_congr' fun value => not_congr (scalar value)) (and_congr ?_ ?_)
    · -- a class in the type has a type name, or there would be no property
      constructor
      · intro none className holds
        obtain ⟨typeName, named, _⟩ := known (holds.mentions ⟨0, .here⟩)
        exact none typeName ((object typeName).mpr ⟨className, holds, named⟩)
      · intro none typeName is
        obtain ⟨className, holds, _⟩ := (object typeName).mp is
        exact none className holds
    · constructor
      · intro none item className holds each
        have mentions : (ValueType.array item).Mentions className :=
          ValueType.mentions_array.mpr (each.mentions ⟨0, .here⟩)
        obtain ⟨typeName, named, _⟩ := known (holds.mentions mentions)
        exact none typeName ((objects typeName).mpr ⟨item, className, holds, each, named⟩)
      · intro none typeName is
        obtain ⟨item, className, holds, each, _⟩ := (objects typeName).mp is
        exact none item className holds each
  · rw [kind.storage_eq_retain_iff, ne_eq, ne_eq, assigned, copied]
  · rintro className ⟨arrays, inside⟩
    exact known ⟨arrays, (ValueType.occursUnder_normalize (by trivial)).mpr inside⟩

/-! ## Readers -/

/-- What an implementation does to a property. -/
inductive Statement where
  /-- It is set to a value from a dictionary. -/
  | takes (name : String) (how : Handling)
  /-- Its value is put into a dictionary. -/
  | gives (how : Handling)
  /-- Its reference is given up. -/
  | releases (name : String)
  deriving DecidableEq, Repr

/-- The scalars. -/
def Scalar.all : List Scalar := [.integer, .double, .boolean]

/-- How a value that is set was made from a dictionary: by the message that makes an object, by
collecting objects in an array, as it was found, or by unboxing what was found. -/
def readTaken (value : String) : Option Handling :=
  (readLine "[" (fun cs => (receiver? cs).map fun _ => .object) value).or <|
  (readLine "[NSArray arrayWithArray:" (fun _ => some .objects) value).or <|
  (readLine "[self objectOrNilForKey:" (fun _ => some .kept) value).or <|
  readLine "[[self objectOrNilForKey:" (fun cs =>
    (Scalar.all.find? fun scalar => (identifiersIn cs).getLast? = some scalar.getter.toList).map
      .boxed) value

/-- How a value that is put into a dictionary was made from a property. -/
def readGiven (value : String) : Option Handling :=
  (readLine "self." (fun _ => some .kept) value).or <|
  (readLine "[self." (fun _ => some .object) value).or <|
  (readLine "[NSArray arrayWithArray:" (fun _ => some .objects) value).or <|
  readLine "[NSNumber " (fun cs =>
    (Scalar.all.find? fun scalar => cs.takeWhile Text.isIdentifierPart = scalar.boxer.toList).map
      .boxed) value

/-- A name that is set to a value. -/
def readAssignment (cs : List Char) : Option Statement :=
  (readLine " = " (fun value => readTaken (String.ofList value))
      (String.ofList (cs.dropWhile Text.isIdentifierPart))).map
    (.takes (String.ofList (cs.takeWhile Text.isIdentifierPart)))

/-- What the line of an implementation does to a property. -/
def statements (line : String) : List Statement :=
  (readLine "self." readAssignment line).toList ++
    (readLine "[mutableDict setValue:" (fun cs => (readGiven (String.ofList cs)).map .gives)
      line).toList ++
    (readLine "[_" (fun cs => some (.releases (String.ofList (cs.takeWhile Text.isIdentifierPart))))
      line).toList

/-- What an implementation does to its properties. -/
def statementsIn : String → List Statement := Text.readUnindented statements

/-! ## Lines that do nothing to properties -/

/-- What the lines that do something begin with. -/
def statementStarts : List (List Char) :=
  [['s', 'e', 'l', 'f', '.'],
    ['[', 'm', 'u', 't', 'a', 'b', 'l', 'e', 'D', 'i', 'c', 't', ' ', 's', 'e', 't', 'V', 'a', 'l',
      'u', 'e', ':'],
    ['[', '_']]

/-- The line begins like none of those that do something. -/
structure Still (text : String) : Prop where
  unblank : Departs [' '] text
  departs : ∀ start ∈ statementStarts, Departs start text

/-- What the lines of edits do to properties. -/
def done (text : String) : List Statement := statements (Text.unindented text)

variable {text : String}

namespace Still

theorem append {front back : String} (early : Still front) : Still (front ++ back) :=
  ⟨.append early.unblank, fun start among => .append (early.departs start among)⟩

theorem literal {cs : List Char}
    (apart : ∀ start ∈ [' '] :: statementStarts, ¬ start <+: cs ∧ ¬ cs <+: start) :
    Still (String.ofList cs) := by
  rw [List.forall_mem_cons] at apart
  exact ⟨.literal apart.1, fun start among => .literal (apart.2 start among)⟩

/-- A line that begins like none of those is known by its front. -/
theorem of_front {front : List Char} (begins : front <+: text.toList)
    (apart : ∀ start ∈ [' '] :: statementStarts, ¬ start <+: front ∧ ¬ front <+: start) :
    Still text := by
  rw [List.forall_mem_cons] at apart
  exact ⟨.of_front apart.1 begins, fun start among => .of_front (apart.2 start among) begins⟩

theorem done_eq_nil (still : Still text) : done text = [] := by
  have nothing {α : Type} {opening : String} (read : List Char → Option α)
      (among : opening.toList ∈ statementStarts) : readLine opening read text = none :=
    Text.readLine_eq_none read (still.departs _ among)
  have first : "self.".toList ∈ statementStarts := by simp [statementStarts]
  have second : "[mutableDict setValue:".toList ∈ statementStarts := by simp [statementStarts]
  have third : "[_".toList ∈ statementStarts := by simp [statementStarts]
  rw [done, Text.unindented_eq_self still.unblank, statements, nothing _ first, nothing _ second,
    nothing _ third]
  rfl

end Still

/-- Edits none of whose lines does anything. -/
theorem toldBy_done_eq_nil {level : Nat} {edits : List Edit}
    (block : Block (fun _ => Still) level edits) : toldBy done edits = [] := by
  refine List.eq_nil_iff_forall_not_mem.mpr (block.forall_mem_toldBy fun _ text still => ?_)
  rw [still.done_eq_nil]
  exact List.forall_mem_nil _

/-- Edits that do nothing are looked over. -/
theorem toldBy_done_append {level : Nat} {edits : List Edit}
    (block : Block (fun _ => Still) level edits) (others : List Edit) :
    toldBy done (edits ++ others) = toldBy done others := by
  rw [Text.toldBy_append, toldBy_done_eq_nil block, List.nil_append]

theorem toldBy_done_braced {head : String} (still : Still head) (body : List Edit) :
    toldBy done (Text.braced head body) = toldBy done body := by
  have closes : Still "\x7d" := .literal (by decide)
  rw [Text.toldBy_braced, still.append.done_eq_nil, closes.done_eq_nil, List.append_nil,
    List.nil_append]

theorem toldBy_done_method {head : String} (still : Still head) (body : List Edit) :
    toldBy done (method head body) = toldBy done body := by
  have opens : Still "\x7b" := .literal (by decide)
  have closes : Still "\x7d" := .literal (by decide)
  rw [method, Text.toldBy_append, Text.toldBy_append, Text.toldBy_line, Text.toldBy_line,
    Text.toldBy_indented, Text.toldBy_line, still.done_eq_nil, opens.done_eq_nil,
    closes.done_eq_nil]
  simp [Text.toldBy_nil]

/-! ## Lines that do something -/

section Statements

variable {name value back : String}

theorem done_takes (word : IsWord name) {how : Handling} (taken : readTaken value = some how) :
    done ("self." ++ name ++ " = " ++ value) = [.takes name how] := by
  have pieces : "self." ++ name ++ " = " ++ value = "self." ++ (name ++ (" = " ++ value)) := by
    simp only [String.append_assoc]
  have leading : " = ".toList = ' ' :: ['=', ' '] := String.toList_ofList
  have blank : ¬ Text.isIdentifierPart ' ' := by decide
  have behind : (name ++ (" = " ++ value)).toList.dropWhile Text.isIdentifierPart =
      (" = " ++ value).toList := by
    rw [String.toList_append, List.dropWhile_append_of_pos word, String.toList_append, leading,
      List.cons_append, List.dropWhile_cons_of_neg blank]
  have own : (name ++ (" = " ++ value)).toList.takeWhile Text.isIdentifierPart = name.toList := by
    rw [String.toList_append, List.takeWhile_append_of_pos word, String.toList_append, leading,
      List.cons_append, List.takeWhile_cons_of_neg blank, List.append_nil]
  have assignment : readAssignment (name ++ (" = " ++ value)).toList = some (.takes name how) := by
    rw [readAssignment, behind, own, String.ofList_toList, String.ofList_toList,
      Text.readLine_append, String.ofList_toList, taken]
    rfl
  have second : "[mutableDict setValue:".toList = _ := String.toList_ofList
  have third : "[_".toList = _ := String.toList_ofList
  have unblank : Departs [' '] ("self." ++ (name ++ (" = " ++ value))) :=
    .append (.literal (by decide))
  rw [pieces, done, Text.unindented_eq_self unblank, statements, Text.readLine_append, assignment,
    Text.readLine_eq_none _ (second ▸ .append (.literal (by decide))),
    Text.readLine_eq_none _ (third ▸ .append (.literal (by decide)))]
  rfl

theorem done_gives {how : Handling} (given : readGiven (value ++ back) = some how) :
    done ("[mutableDict setValue:" ++ value ++ back) = [.gives how] := by
  have first : "self.".toList = _ := String.toList_ofList
  have third : "[_".toList = _ := String.toList_ofList
  have unblank : Departs [' '] ("[mutableDict setValue:" ++ (value ++ back)) :=
    .append (.literal (by decide))
  rw [String.append_assoc, done, Text.unindented_eq_self unblank, statements,
    Text.readLine_append, String.ofList_toList, given,
    Text.readLine_eq_none _ (first ▸ .append (.literal (by decide))),
    Text.readLine_eq_none _ (third ▸ .append (.literal (by decide)))]
  rfl

theorem done_releases (word : IsWord name) :
    done ("[_" ++ name ++ " release];") = [.releases name] := by
  have first : "self.".toList = _ := String.toList_ofList
  have second : "[mutableDict setValue:".toList = _ := String.toList_ofList
  have unblank : Departs [' '] ("[_" ++ (name ++ " release];")) := .append (.literal (by decide))
  have own : (name ++ " release];").toList.takeWhile Text.isIdentifierPart = name.toList := by
    rw [String.toList_append, List.takeWhile_append_of_pos word]
    simp [Text.isIdentifierPart]
  rw [String.append_assoc, done, Text.unindented_eq_self unblank, statements,
    Text.readLine_append, own, String.ofList_toList,
    Text.readLine_eq_none _ (first ▸ .append (.literal (by decide))),
    Text.readLine_eq_none _ (second ▸ .append (.literal (by decide)))]
  rfl

end Statements

/-! ## From dictionaries to objects -/

variable {m : Member} {members : List Member} {s : ObjectiveCSettings} {d : Declaration}

/-- Something else is sent than the message that makes an object. -/
theorem readLine_receiver_eq_none {cs : List Char}
    (apart : isApart (cs.dropWhile Text.isIdentifierPart)) (rest : String) :
    readLine "[" (fun cs => (receiver? cs).map fun _ => Handling.object)
      (String.ofList ('[' :: cs) ++ rest) = none := by
  have pieces : String.ofList ('[' :: cs) ++ rest = "[" ++ (String.ofList cs ++ rest) := by
    simp [← String.toList_inj, String.toList_append]
  rw [pieces, Text.readLine_append, String.toList_append, String.toList_ofList,
    receiver?_eq_none apart]
  rfl

/-- What stands behind the opening of a lookup. -/
theorem lookup_append (m : Member) (back : String) : lookup m ++ back =
    "[self objectOrNilForKey:" ++ (m.constant ++ (" fromDictionary:dict]" ++ back)) := by
  -- the pieces have names here because rewriting looks into literals, character by character
  have assoc (a b c d : String) : a ++ b ++ c ++ d = a ++ (b ++ (c ++ d)) := by
    simp only [String.append_assoc]
  exact assoc _ _ _ _

theorem readTaken_lookup (m : Member) : readTaken (lookup m ++ ";") = some .kept := by
  have array : "[NSArray arrayWithArray:".toList = _ := String.toList_ofList
  rw [lookup_append, readTaken, readLine_receiver_eq_none (by decide),
    Text.readLine_eq_none _ (array ▸ .append (.literal (by decide))), Text.readLine_append]
  rfl

theorem readTaken_array (collected : String) :
    readTaken ("[NSArray arrayWithArray:" ++ collected) = some .objects := by
  rw [readTaken, readLine_receiver_eq_none (by decide), Text.readLine_append]
  rfl

theorem readTaken_objectOf {typeName : String} (type : IsWord typeName) (dictionary : String) :
    readTaken (objectOf typeName dictionary ++ ";") = some .object := by
  have pieces : objectOf typeName dictionary ++ ";" =
      "[" ++ (typeName ++ (" modelObjectWithDictionary:" ++ (dictionary ++ ("]" ++ ";")))) := by
    simp only [objectOf, String.append_assoc]
  have message : (typeName ++ (" modelObjectWithDictionary:" ++ (dictionary ++ ("]" ++ ";")))).toList
      = typeName.toList ++ (makeMessage ++ (dictionary ++ ("]" ++ ";")).toList) := by
    have sent : " modelObjectWithDictionary:".toList = makeMessage := String.toList_ofList
    rw [String.toList_append, String.toList_append, sent]
  have blank : ¬ Text.isIdentifierPart ' ' := by decide
  have found : (receiver? (typeName.toList ++
      (makeMessage ++ (dictionary ++ ("]" ++ ";")).toList))).isSome := by
    rw [receiver?, List.dropWhile_append_of_pos type, makeMessage, List.cons_append,
      List.dropWhile_cons_of_neg blank, if_pos]
    · rfl
    · exact List.isPrefixOf_iff_prefix.mpr (List.prefix_append makeMessage _)
  obtain ⟨own, found⟩ := Option.isSome_iff_exists.mp found
  rw [readTaken, pieces, Text.readLine_append, message, found]
  rfl

theorem readTaken_scalar (scalar : Scalar) (m : Member) :
    readTaken ("[" ++ lookup m ++ " " ++ scalar.getter ++ "];") = some (.boxed scalar) := by
  have pieces : "[" ++ lookup m ++ " " ++ scalar.getter ++ "];" = "[[self objectOrNilForKey:" ++
      (m.constant ++ (" fromDictionary:dict]" ++ (" " ++ (scalar.getter ++ "];")))) := by
    have assoc (a b c d e : String) : a ++ b ++ c ++ d ++ e = a ++ (b ++ (c ++ (d ++ e))) := by
      simp only [String.append_assoc]
    have opening (back : String) : "[" ++ ("[self objectOrNilForKey:" ++ back) =
        "[[self objectOrNilForKey:" ++ back := String.append_assoc.symm
    rw [assoc, lookup_append, opening]
  have array : "[NSArray arrayWithArray:".toList = _ := String.toList_ofList
  have plain : "[self objectOrNilForKey:".toList = _ := String.toList_ofList
  have letters : (m.constant ++
      (" fromDictionary:dict]" ++ (" " ++ (scalar.getter ++ "];")))).toList =
      (m.constant ++ " fromDictionary:dict]").toList ++
        ' ' :: (scalar.getter.toList ++ ']' :: [';']) := by
    simp [String.toList_append]
  have nothing : identifiersIn [';'] = [] := by decide
  have getter : IsWord scalar.getter ∧ scalar.getter.toList ≠ [] := by
    cases scalar
    all_goals exact ⟨by decide, by simp [Scalar.getter]⟩
  -- scalars differ by what their boxes are asked for, and that stands at the end of the line
  have last : (identifiersIn (m.constant ++ (" fromDictionary:dict]" ++
      (" " ++ (scalar.getter ++ "];")))).toList).getLast? = some scalar.getter.toList := by
    rw [letters, Text.identifiersIn_append _ _ (by decide),
      Text.identifiersIn_append _ _ (by decide), Text.identifiersIn_word getter.1 getter.2, nothing,
      List.append_nil, List.getLast?_concat]
  rw [pieces, readTaken, readLine_receiver_eq_none (by decide),
    Text.readLine_eq_none _ (array ▸ .append (.literal (by decide))),
    Text.readLine_eq_none _ (plain ▸ .append (.literal (by decide))), Text.readLine_append, last]
  cases scalar <;> decide +kernel

/-- Putting an object into an array does nothing to a property. -/
theorem still_addObject {c : Char} {cs : List Char} (small : c ∉ ['m', '_']) (rest object : String) :
    Still ("[" ++ (String.ofList (c :: cs) ++ rest) ++ " addObject:" ++ object ++ "];") := by
  have apart : c ≠ 'm' ∧ c ≠ '_' := by simpa using small
  refine .append (.append (.append (@Still.of_front _ ['[', c] ?_ ?_)))
  · simp [String.toList_append]
  · simp [statementStarts, List.cons_prefix_cons, apart, apart.1.symm, apart.2.symm]

theorem toldBy_done_line (text : String) : toldBy done [.line text] = done text := List.append_nil _

theorem done_takes_target {value : String} (spelled : m.IsSpelled) {how : Handling}
    (taken : readTaken value = some how) :
    toldBy done [.line ("self." ++ m.name ++ " = " ++ value)] = [.takes m.name how] :=
  (toldBy_done_line _).trans (done_takes (.of_isAlphanum spelled.name) taken)

/-- The objects are collected line by line, and then the property is set to all of them. -/
theorem toldBy_done_parseObjects (spelled : m.IsSpelled) (typeName : String) :
    toldBy done (parseObjects m typeName) = [.takes m.name .objects] := by
  have closes : Still "\x7d" := .literal (by decide)
  have target (parsed : String) : "self." ++ m.name ++ " = [NSArray arrayWithArray:" ++ parsed ++
      "];" = "self." ++ m.name ++ " = " ++ ("[NSArray arrayWithArray:" ++ (parsed ++ "];")) := by
    have assoc (a b c d e f : String) : a ++ b ++ (c ++ d) ++ e ++ f =
        a ++ b ++ c ++ (d ++ (e ++ f)) := by
      simp only [String.append_assoc]
    exact assoc _ _ " = " "[NSArray arrayWithArray:" _ _
  unfold parseObjects
  refine (toldBy_done_append (@Block.append _ 0 _ _ (.append (.append ?_ (.indented ?_)) ?_)
    (.indented ?_)) _).trans ?_
  · exact .line (.append (.append (.append (.append (.literal (by decide))))))
      (.line (.append (.append (.literal (by decide))))
        (.line (.append (.append (.literal (by decide)))) .nil))
  · refine .braced (.append (.append (.append (.literal (by decide))))) closes ?_
    refine .braced (.append (.literal (by decide))) closes ?_
    exact .line (still_addObject (by decide) _ _) .nil
  · exact .line (.append (.append (.literal (by decide)))) .nil
  · exact .line (still_addObject (by decide) _ _) .nil
  · rw [Text.toldBy_line, closes.done_eq_nil, List.nil_append, target]
    exact done_takes_target spelled (readTaken_array _)

theorem toldBy_done_parse (spelled : m.IsSpelled) :
    toldBy done (parse m) = [.takes m.name m.kind.handling] := by
  cases kind : m.kind with
  | scalar scalar =>
      have assoc (target a b c d e : String) :
          target ++ a ++ b ++ c ++ d ++ e = target ++ (a ++ b ++ c ++ d ++ e) := by
        simp only [String.append_assoc]
      simp only [parse, kind]
      rw [assoc]
      exact done_takes_target spelled (readTaken_scalar scalar m)
  | object typeName =>
      have taken := readTaken_objectOf (spelled.types _ (.inl kind)) (lookup m)
      simp only [parse, kind]
      rw [String.append_assoc]
      exact done_takes_target spelled taken
  | objects typeName =>
      simp only [parse, kind]
      exact toldBy_done_parseObjects spelled typeName
  | array _ | number | string | dynamic =>
      simp only [parse, kind]
      rw [String.append_assoc]
      exact done_takes_target spelled (readTaken_lookup m)

theorem toldBy_done_initializer (spelled : ∀ m ∈ members, m.IsSpelled) :
    toldBy done (initializer members) = members.map fun m => .takes m.name m.kind.handling := by
  have head : Still "- (instancetype)initWithDictionary:(NSDictionary *)dict" :=
    .literal (by decide)
  have first : Still "self = [super init];" := .literal (by decide)
  have condition : Still "if (self && [dict isKindOfClass:[NSDictionary class]])" :=
    .literal (by decide)
  have last : Still "return self;" := .literal (by decide)
  have each : (members.flatMap fun m => toldBy done (parse m)) =
      members.map fun m => .takes m.name m.kind.handling := by
    rw [← List.flatMap_pure_eq_map]
    exact List.flatMap_congr fun m among => toldBy_done_parse (spelled m among)
  rw [initializer, toldBy_done_method head, Text.toldBy_line, first.done_eq_nil,
    Text.toldBy_append, toldBy_done_braced condition, Text.toldBy_flatMap, each,
    toldBy_done_line, last.done_eq_nil, List.append_nil, List.nil_append]

/-! ## From objects to dictionaries -/

theorem readGiven_property (m : Member) (back : String) :
    readGiven ("self." ++ m.name ++ back) = some .kept := by
  rw [String.append_assoc, readGiven, Text.readLine_append]
  rfl

theorem readGiven_object (m : Member) (back : String) :
    readGiven ("[" ++ ("self." ++ m.name) ++ " dictionaryRepresentation]" ++ back) =
      some .object := by
  have kept : "self.".toList = _ := String.toList_ofList
  have pieces : "[" ++ ("self." ++ m.name) ++ " dictionaryRepresentation]" ++ back =
      "[self." ++ (m.name ++ " dictionaryRepresentation]" ++ back) := by
    have assoc (a b c d e : String) : a ++ (b ++ c) ++ d ++ e = a ++ b ++ (c ++ d ++ e) := by
      simp only [String.append_assoc]
    exact assoc "[" "self." _ _ _
  rw [pieces, readGiven, Text.readLine_append,
    Text.readLine_eq_none _ (kept ▸ .append (.literal (by decide)))]
  rfl

theorem readGiven_array (collected back : String) :
    readGiven ("[NSArray arrayWithArray:" ++ collected ++ "]" ++ back) = some .objects := by
  have kept : "self.".toList = _ := String.toList_ofList
  have object : "[self.".toList = _ := String.toList_ofList
  rw [String.append_assoc, String.append_assoc, readGiven, Text.readLine_append,
    Text.readLine_eq_none _ (kept ▸ .append (.literal (by decide))),
    Text.readLine_eq_none _ (object ▸ .append (.literal (by decide)))]
  rfl

theorem readGiven_scalar (scalar : Scalar) (value back : String) :
    readGiven ("[NSNumber " ++ scalar.boxer ++ ":" ++ value ++ "]" ++ back) =
      some (.boxed scalar) := by
  have kept : "self.".toList = _ := String.toList_ofList
  have object : "[self.".toList = _ := String.toList_ofList
  have array : "[NSArray arrayWithArray:".toList = _ := String.toList_ofList
  have pieces : "[NSNumber " ++ scalar.boxer ++ ":" ++ value ++ "]" ++ back =
      "[NSNumber " ++ (scalar.boxer ++ (":" ++ (value ++ "]" ++ back))) := by
    have assoc (a b c d e f : String) : a ++ b ++ c ++ d ++ e ++ f =
        a ++ (b ++ (c ++ (d ++ e ++ f))) := by
      simp only [String.append_assoc]
    exact assoc _ _ _ _ _ _
  have boxer : IsWord scalar.boxer := by
    cases scalar
    all_goals decide
  have colon : ":".toList = [':'] := String.toList_ofList
  have own : (scalar.boxer ++ (":" ++ (value ++ "]" ++ back))).toList.takeWhile
      Text.isIdentifierPart = scalar.boxer.toList := by
    rw [String.toList_append, List.takeWhile_append_of_pos boxer, String.toList_append, colon,
      List.singleton_append, List.takeWhile_cons_of_neg (by decide), List.append_nil]
  rw [pieces, readGiven, Text.readLine_append, own,
    Text.readLine_eq_none _ (kept ▸ .append (.literal (by decide))),
    Text.readLine_eq_none _ (object ▸ .append (.literal (by decide))),
    Text.readLine_eq_none _ (array ▸ .append (.literal (by decide)))]
  cases scalar <;> decide +kernel

/-- A value is put under the key of its property. -/
theorem toldBy_done_storeLine {value : String} {how : Handling}
    (given : ∀ back, readGiven (value ++ back) = some how) :
    toldBy done [storeLine m value] = [.gives how] := by
  have assoc (a b c d e : String) : a ++ b ++ c ++ d ++ e = a ++ b ++ (c ++ d ++ e) := by
    simp only [String.append_assoc]
  rw [storeLine, toldBy_done_line, assoc]
  exact done_gives (given _)

theorem toldBy_done_storeObjects (m : Member) :
    toldBy done (storeObjects m) = [.gives .objects] := by
  have closes : Still "\x7d" := .literal (by decide)
  have given := readGiven_array ("tempArrayFor" ++ Text.capitalizeFirst m.name)
  unfold storeObjects
  refine (toldBy_done_append (@Block.append _ 0 [_] _ ?_ (.braced ?_ closes ?_)) _).trans
    (toldBy_done_storeLine given)
  · exact .line (.append (.append (.literal (by decide)))) .nil
  · exact .append (.append (.append (.literal (by decide))))
  · refine .append (.append (.append (.append ?_ (.indented ?_)) ?_) (.indented ?_)) ?_
    · exact .line (.literal (by decide)) .nil
    · exact .line (still_addObject (by decide) _ _) .nil
    · exact .line (.literal (by decide)) .nil
    · exact .line (still_addObject (by decide) _ _) .nil
    · exact .line closes .nil

theorem toldBy_done_store (m : Member) : toldBy done (store m) = [.gives m.kind.handling] := by
  cases kind : m.kind with
  | scalar scalar =>
      simp only [store, kind]
      exact toldBy_done_storeLine (readGiven_scalar scalar _)
  | object typeName =>
      simp only [store, kind]
      exact toldBy_done_storeLine (readGiven_object m)
  | objects typeName =>
      simp only [store, kind]
      exact toldBy_done_storeObjects m
  | array _ | number | string | dynamic =>
      simp only [store, kind]
      exact toldBy_done_storeLine (readGiven_property m)

theorem toldBy_done_representation (members : List Member) :
    toldBy done (representation members) = members.map fun m => .gives m.kind.handling := by
  have head : Still "- (NSDictionary *)dictionaryRepresentation" := .literal (by decide)
  have first : Still "NSMutableDictionary *mutableDict = [NSMutableDictionary dictionary];" :=
    .literal (by decide)
  have last : Still "return [NSDictionary dictionaryWithDictionary:mutableDict];" :=
    .literal (by decide)
  have each : (members.flatMap fun m => toldBy done (store m)) =
      members.map fun m => .gives m.kind.handling := by
    rw [← List.flatMap_pure_eq_map]
    exact List.flatMap_congr fun m _ => toldBy_done_store m
  rw [representation, toldBy_done_method head, Text.toldBy_line, first.done_eq_nil,
    Text.toldBy_append, Text.toldBy_flatMap, each, Text.toldBy_emptyLine, toldBy_done_line,
    last.done_eq_nil, List.append_nil, List.nil_append]

/-! ## Implementations -/

/-- The properties that hold references which an object must give up itself. -/
def released (s : ObjectiveCSettings) (members : List Member) : List Member :=
  if s.countsReferences then [] else members.filter fun m => m.kind.storage ≠ .assign

theorem toldBy_done_release (spelled : ∀ m ∈ members, m.IsSpelled) :
    toldBy done (release members) =
      (members.filter fun m => m.kind.storage ≠ .assign).map fun m => .releases m.name := by
  have head : Still "- (void)dealloc" := .literal (by decide)
  have last : Still "[super dealloc];" := .literal (by decide)
  rw [release, toldBy_done_method head, Text.toldBy_append, Text.toldBy_map_line,
    toldBy_done_line, last.done_eq_nil, List.append_nil, ← List.flatMap_pure_eq_map]
  exact List.flatMap_congr fun m among =>
    done_releases (.of_isAlphanum (spelled m (List.mem_of_mem_filter among)).name)

theorem toldBy_done_factory (s : ObjectiveCSettings) : toldBy done (factory s) = [] := by
  have head : Still "+ (instancetype)modelObjectWithDictionary:(NSDictionary *)dict" :=
    .literal (by decide)
  rw [factory, toldBy_done_method head]
  split
  all_goals exact toldBy_done_eq_nil (@Block.line _ 1 _ _ (.literal (by decide)) .nil)

theorem toldBy_done_description : toldBy done description = [] := by
  have head : Still "- (NSString *)description" := .literal (by decide)
  rw [description, toldBy_done_method head]
  exact toldBy_done_eq_nil (@Block.line _ 1 _ _ (.literal (by decide)) .nil)

theorem toldBy_done_helper : toldBy done helper = [] := by
  have mark : Block (fun _ => Still) 0 [.line "#pragma mark - Helper Method", .emptyLine] :=
    .line (.literal (by decide)) (.emptyLine .nil)
  have head : Still "- (id)objectOrNilForKey:(id)aKey fromDictionary:(NSDictionary *)dict" :=
    .literal (by decide)
  rw [helper, toldBy_done_append mark, toldBy_done_method head]
  exact toldBy_done_eq_nil (@Block.line _ 1 _ _ (.literal (by decide))
    (.line (.literal (by decide)) .nil))

/-- An implementation takes each property from a dictionary, gives each to one and gives up the
references that it holds, all as the types of the properties say, and does nothing else to them. -/
theorem statementsIn_implementation (spelled : d.IsSpelled) :
    statementsIn (SourceFile.typeset (d.implementation s)) =
      (d.members.map fun m => .takes m.name m.kind.handling) ++
        (d.members.map fun m => .gives m.kind.handling) ++
        (released s d.members).map fun m => .releases m.name := by
  have silent : statements "" = [] := by decide
  have constants : Block (fun _ => Still) 0 (closedGroup (d.members.map constantLine)) :=
    block_closedGroup (.map fun m _ => .line (.append (.append (.append (.append
      (.literal (by decide)))))) .nil)
  have extension : Block (fun _ => Still) 0 [.line ("@interface " ++ d.name ++ " ()"), .emptyLine,
      .line "- (id)objectOrNilForKey:(id)aKey fromDictionary:(NSDictionary *)dict;", .emptyLine,
      .line "@end", .emptyLine, .line ("@implementation " ++ d.name)] :=
    .line (.append (.append (.literal (by decide)))) (.emptyLine (.line (.literal (by decide))
      (.emptyLine (.line (.literal (by decide)) (.emptyLine
        (.line (.append (.literal (by decide))) .nil))))))
  have ends : toldBy done [.line "@end"] = [] :=
    toldBy_done_eq_nil (@Block.line _ 0 _ _ (.literal (by decide)) .nil)
  have released : (Text.onlyIf (!s.countsReferences) (release d.members)).flatMap (toldBy done) =
      (released s d.members).map fun m => .releases m.name := by
    unfold Text.onlyIf released
    cases s.countsReferences with
    | true => rfl
    | false => exact (List.flatMap_singleton ..).trans (toldBy_done_release spelled.members)
  -- constants and the class extension do nothing, and the rest is told method by method
  rw [SourceFile.typeset_eq, statementsIn, (tidy_implementation spelled).readUnindented silent]
  show toldBy done (d.implementation s) = _
  rw [implementation_eq, toldBy_done_append constants, behindConstants,
    toldBy_done_append extension, Text.toldBy_setApart, List.flatMap_append, List.flatMap_append,
    released]
  simp only [List.flatMap_cons, List.flatMap_nil, toldBy_done_factory,
    toldBy_done_initializer spelled.members, toldBy_done_representation, toldBy_done_description,
    toldBy_done_helper, ends, List.append_nil, List.nil_append]

/-- The properties that are released are those of the fields that hold no scalars. -/
theorem map_name_released {names : TypeNames} {c : ClassDef} (isOf : d.IsOf names c) :
    (released s d.members).map (·.name) =
      if s.countsReferences then []
      else ((memberRule.named c).filter fun named =>
        named.1.type.normalize ∉ [.integer, .float, .boolean]).map (·.2) := by
  have same (field : Field) (m : Member) (found : kindOf names c.name field = .ok m.kind) :
      m.kind.storage ≠ .assign ↔ field.type.normalize ∉ [.integer, .float, .boolean] :=
    not_congr (suits_ofType found).assigned
  have each : ∀ {fields : List Field} {members : List Member},
      List.Forall₂ (fun field m => kindOf names c.name field = .ok m.kind) fields members →
      (members.filter fun m => m.kind.storage ≠ .assign).map (·.name) =
        ((fields.zip (members.map (·.name))).filter fun named =>
          named.1.type.normalize ∉ [.integer, .float, .boolean]).map (·.2) := by
    intro fields members kinds
    induction kinds with
    | nil => rfl
    | @cons field m fields members found _ ih =>
        have own := same field m found
        rw [List.map_cons, List.zip_cons_cons, List.filter_cons, List.filter_cons]
        simp only [decide_eq_true_eq, own]
        split
        · rw [List.map_cons, List.map_cons, ih]
        · exact ih
  unfold released
  split
  · rfl
  · rw [each isOf.kinds, isOf.memberNames]
    rfl

/-- Whatever type a property gets suits the type of its values, and no class in that gets lost.  The
interface holds each property as its type says, the implementation takes it from a dictionary and
gives it to one as its type says, sends the message that makes an object only to the classes of its
properties, and where references are not counted it gives up exactly those of the properties that
are not assigned scalars. -/
theorem dictionaries_suit_types :
    (∀ (names : TypeNames) (place : FieldPlace) (type : ValueType) (kind : PropertyKind),
      PropertyKind.ofType names place type.normalize = .ok kind → Suits names type kind) ∧
    ∀ (settings : ObjectiveCSettings) (s : Schema) (c : ClassDef) (constants : Text.NameSupply),
      settings.fault? = none → c ∈ s.classes → ¬ Language.objectiveC.Rejects c →
      ∃ (source : Source) (after : Text.NameSupply) (members : List Member),
        backend.declare settings (backend.typeNames settings s) constants c = .ok (source, after) ∧
        members.map (·.name) = memberRule.names c ∧
        List.Forall₂ (fun field m => PropertyKind.ofType (backend.typeNames settings s)
          ⟨c.name, field.key⟩ field.type.normalize = .ok m.kind) c.fields members ∧
        propertiesIn source.interface =
          members.map (fun m => (storageWord settings m.kind.storage, m.name)) ∧
        receiversIn source.implementation = members.flatMap (·.kind.receivers) ∧
        statementsIn source.implementation =
          members.map (fun m => .takes m.name m.kind.handling) ++
            members.map (fun m => .gives m.kind.handling) ++
            if settings.countsReferences then []
            else ((memberRule.named c).filter fun named =>
              named.1.type.normalize ∉ [.integer, .float, .boolean]).map
                fun named => .releases named.2 := by
  refine ⟨fun _ _ _ _ found => suits_ofType found, ?_⟩
  intro settings s c constants valid among supported
  obtain ⟨d, after, declared, isOf⟩ := exists_declared valid among supported constants
  refine ⟨_, after, d.members, declared, isOf.memberNames, isOf.kinds,
    propertiesIn_interface valid isOf.spelled isOf.refers.filled,
    receiversIn_implementation isOf.spelled, ?_⟩
  refine (statementsIn_implementation isOf.spelled).trans (congrArg _ ?_)
  have names := congrArg (List.map Statement.releases) (@map_name_released settings d _ c isOf)
  rw [List.map_map] at names
  refine names.trans ?_
  split
  · rfl
  · rw [List.map_map]
    rfl

/-- An order, with a property of each handling. -/
def order : ClassDef :=
  ⟨"Order", [⟨"amount", .integer⟩, ⟨"note", .optional .string⟩, ⟨"buyer", .reference "Buyer"⟩,
    ⟨"agents", .optional (.array (.optional (.reference "Buyer")))⟩]⟩

/-- A schema of orders and buyers. -/
def orders : Schema where
  classes := [⟨"Buyer", [⟨"name", .string⟩]⟩, order]
  faultless := ClassList.fault?_eq_none.mpr ⟨by decide, by decide, by cbv⟩

theorem dictionaries_suit_types_orders :
    ({ countsReferences := false } : ObjectiveCSettings).fault? = none ∧ order ∈ orders.classes ∧
      ¬ Language.objectiveC.Rejects order ∧
      Suits (backend.typeNames { countsReferences := false } orders)
        (.optional (.array (.optional (.reference "Buyer")))) (.objects "Buyer") ∧
      ∃ (source : Source) (after : Text.NameSupply),
        backend.declare { countsReferences := false }
            (backend.typeNames { countsReferences := false } orders) .empty order =
          .ok (source, after) ∧
        propertiesIn source.interface = [("assign", "amount"), ("copy", "note"),
          ("retain", "buyer"), ("retain", "agents")] ∧
        receiversIn source.implementation = ["Buyer", "Buyer", "Buyer"] ∧
        statementsIn source.implementation =
          [.takes "amount" (.boxed .integer), .takes "note" .kept, .takes "buyer" .object,
            .takes "agents" .objects, .gives (.boxed .integer), .gives .kept, .gives .object,
            .gives .objects, .releases "note", .releases "buyer", .releases "agents"] := by
  have valid : ({ countsReferences := false } : ObjectiveCSettings).fault? = none := by decide
  have listed : order ∈ orders.classes := List.mem_cons_of_mem _ List.mem_cons_self
  have supported : ¬ Language.objectiveC.Rejects order := by decide
  obtain ⟨source, after, members, declared, names, kinds, properties, receivers, statements⟩ :=
    dictionaries_suit_types.2 _ orders order .empty valid listed supported
  have buyer : (backend.typeNames { countsReferences := false } orders).get "Buyer" =
      .ok "Buyer" := by cbv
  have suits := dictionaries_suit_types.1 _ ⟨"Order", "agents"⟩
    (.optional (.array (.optional (.reference "Buyer")))) _
    (ofType_of_holds_array (.inr rfl) (.inr rfl) buyer)
  refine ⟨valid, listed, supported, suits, source, after, declared, ?_⟩
  obtain _ | @⟨_, first, _, _, amount, _ | @⟨_, second, _, _, note, _ | @⟨_, third, _, _, single,
    _ | @⟨_, fourth, _, _, several, _ | _⟩⟩⟩⟩ := kinds
  have amountKind : .scalar .integer = first.kind := Except.ok.inj amount
  have noteKind : .string = second.kind := Except.ok.inj note
  have singleKind : .object "Buyer" = third.kind :=
    Except.ok.inj ((ofType_of_holds_reference (.inl rfl) buyer).symm.trans single)
  have severalKind : .objects "Buyer" = fourth.kind :=
    Except.ok.inj ((ofType_of_holds_array (.inr rfl) (.inr rfl) buyer).symm.trans several)
  have own : memberRule.names order = ["amount", "note", "buyer", "agents"] := by decide +kernel
  have named : memberRule.named order = order.fields.zip (memberRule.names order) := rfl
  rw [own] at names named
  simp only [List.map_cons, List.map_nil, List.cons.injEq, and_true] at names
  obtain ⟨firstName, secondName, thirdName, fourthName⟩ := names
  refine ⟨?_, ?_, ?_⟩
  · rw [properties]
    simp [← amountKind, ← noteKind, ← singleKind, ← severalKind, firstName, secondName, thirdName,
      fourthName, PropertyKind.storage, storageWord]
  · rw [receivers]
    simp [← amountKind, ← noteKind, ← singleKind, ← severalKind, PropertyKind.receivers]
  · rw [statements, named]
    simp [← amountKind, ← noteKind, ← singleKind, ← severalKind, firstName, secondName, thirdName,
      fourthName, PropertyKind.handling, order, ValueType.normalize, ValueType.orAbsent]

end Classwright.ObjectiveC
