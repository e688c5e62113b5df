/-
# Classwright.Proofs.Render.Support — which types a language has a counterpart of

What a language cannot express is said of types as they were declared, with redundant wrappers and
all: Swift has nothing for a value that may be anything, and Objective-C nothing for objects of a
class inside arrays of arrays.  The spellings of the languages look at normal types instead.  Each
of them fails exactly on the types that its language has no counterpart of, provided that the
classes that the type refers to have type names; and a declaration fails for the first such field.

Of a type only its leaf and the number of arrays around it count, so it can be computed whether a
language has a counterpart of it.
-/

import Classwright.Backend.Java
import Classwright.Backend.ObjectiveC
import Classwright.Backend.Swift
import Classwright.Proofs.Render.Names
import Classwright.Proofs.Render.Outcome

namespace Classwright

/-! ## Unsupported types -/

namespace Language

/-- The language has no counterpart of the type. -/
def Unsupported : Language → ValueType → Prop
  | .swift, type =>
    ∃ arrays, ValueType.any.OccursUnder arrays type ∨ ValueType.null.OccursUnder arrays type
  | .objectiveC, type =>
    ∃ name arrays, 2 ≤ arrays ∧ (ValueType.reference name).OccursUnder arrays type
  | .java, _ => False

/-- A field of the class has a type that the language has no counterpart of. -/
def Rejects (language : Language) (c : ClassDef) : Prop :=
  ∃ field ∈ c.fields, language.Unsupported field.type

/-- The fault names the first field of the class whose type the language has no counterpart of. -/
def Reports (language : Language) (c : ClassDef) (fault : RenderFault) : Prop :=
  ∃ field, FirstIn (fun field => language.Unsupported field.type) c.fields field ∧
    ∃ type, fault = .unsupportedType language ⟨c.name, field.key⟩ type

variable {language : Language} {type : ValueType}

/-- Only leaves and the arrays around them decide whether a type is supported. -/
theorem unsupported_congr {other : ValueType}
    (same : ∀ (leaf : ValueType) (arrays : Nat), leaf.IsLeaf →
      (leaf.OccursUnder arrays type ↔ leaf.OccursUnder arrays other)) :
    language.Unsupported type ↔ language.Unsupported other := by
  cases language with
  | swift => simp only [Unsupported, same .any _ trivial, same .null _ trivial]
  | objectiveC => simp only [Unsupported, same (.reference _) _ trivial]
  | java => exact Iff.rfl

theorem unsupported_normalize :
    language.Unsupported type.normalize ↔ language.Unsupported type :=
  unsupported_congr fun _ _ bare => ValueType.occursUnder_normalize bare

theorem unsupported_present :
    language.Unsupported type.present ↔ language.Unsupported type :=
  unsupported_congr fun _ _ bare => ValueType.occursUnder_present bare

theorem unsupported_swift_iff :
    swift.Unsupported type ↔ type.core = .any ∨ type.core = .null :=
  exists_or.trans (or_congr (ValueType.exists_occursUnder_iff (by trivial))
    (ValueType.exists_occursUnder_iff (by trivial)))

theorem unsupported_objectiveC_iff :
    objectiveC.Unsupported type ↔ 2 ≤ type.arrayDepth ∧ type.references ≠ [] := by
  constructor
  · rintro ⟨name, _, deep, inside⟩
    obtain ⟨_, rfl⟩ := (ValueType.occursUnder_iff (by trivial)).mp inside
    exact ⟨deep, List.ne_nil_of_mem (ValueType.mem_references_iff.mpr ⟨_, inside⟩)⟩
  · rintro ⟨deep, some⟩
    obtain ⟨name, among⟩ := List.exists_mem_of_ne_nil _ some
    obtain ⟨_, inside⟩ := ValueType.mem_references_iff.mp among
    obtain ⟨_, rfl⟩ := (ValueType.occursUnder_iff (by trivial)).mp inside
    exact ⟨name, _, deep, inside⟩

instance instDecidableUnsupported :
    (language : Language) → (type : ValueType) → Decidable (language.Unsupported type)
  | .swift, _ => decidable_of_iff _ unsupported_swift_iff.symm
  | .objectiveC, _ => decidable_of_iff _ unsupported_objectiveC_iff.symm
  | .java, _ => .isFalse id

instance (language : Language) (c : ClassDef) : Decidable (language.Rejects c) :=
  inferInstanceAs (Decidable (∃ field ∈ c.fields, language.Unsupported field.type))

/-- Java has a counterpart of every type. -/
theorem not_rejects_java (c : ClassDef) : ¬ java.Rejects c := by
  rintro ⟨_, _, impossible⟩
  exact impossible

/-- Names do not decide what a language can express. -/
theorem unsupported_rename (newName : String → String) :
    language.Unsupported (type.rename newName) ↔ language.Unsupported type := by
  cases language with
  | swift =>
      rw [unsupported_swift_iff, unsupported_swift_iff, ValueType.core_rename]
      cases type.core <;> simp [ValueType.rename]
  | objectiveC =>
      rw [unsupported_objectiveC_iff, unsupported_objectiveC_iff, ValueType.arrayDepth_rename,
        ValueType.references_rename, ne_eq, List.map_eq_nil_iff]
  | java => exact Iff.rfl

theorem rejects_rename (newName : String → String) {c : ClassDef} :
    language.Rejects (c.rename newName) ↔ language.Rejects c := by
  simp [Rejects, ClassDef.rename, unsupported_rename]

/-- A class is declared field by field, each with its member name. -/
theorem failsIff_of_named {α : Type} {outcome : Except RenderFault α} {c : ClassDef}
    (rule : MemberRule)
    (tells : FailsIff (∃ member ∈ rule.named c, language.Unsupported member.1.type)
      (fun fault => ∃ member,
        FirstIn (fun member => language.Unsupported member.1.type) (rule.named c) member ∧
          ∃ type, fault = .unsupportedType language ⟨c.name, member.1.key⟩ type) outcome) :
    FailsIff (language.Rejects c) (language.Reports c) outcome := by
  have fields := rule.map_fst_named c
  refine tells.congr ?_ ?_
  · rw [Rejects, ← fields]
    simp
  · rintro fault ⟨member, first, reported⟩
    refine ⟨member.1, ?_, reported⟩
    rw [← fields]
    exact FirstIn.map first

end Language

/-! ## Known names -/

namespace TypeNames

/-- The classes inside the type have type names. -/
def Knows (names : TypeNames) (type : ValueType) : Prop :=
  ∀ target, type.Mentions target → ∃ typeName, names.get target = .ok typeName

/-- The class and all classes that it refers to have type names. -/
structure Covers (names : TypeNames) (c : ClassDef) : Prop where
  own : ∃ typeName, names.get c.name = .ok typeName
  fields : ∀ field ∈ c.fields, names.Knows field.type

variable {names : TypeNames} {type : ValueType}

theorem Knows.normalize (knows : names.Knows type) : names.Knows type.normalize := by
  rintro target ⟨arrays, inside⟩
  exact knows target ⟨arrays, (ValueType.occursUnder_normalize (by trivial)).mp inside⟩

theorem Knows.present (knows : names.Knows type) : names.Knows type.present := by
  rintro target ⟨arrays, inside⟩
  exact knows target ⟨arrays, (ValueType.occursUnder_present (by trivial)).mp inside⟩

/-- The names of a schema cover its classes. -/
theorem covers_ofSchema {language : Language} {s : Schema} {classPrefix : String}
    {reserved : List String} {c : ClassDef} (among : c ∈ s.classes) :
    (ofSchema language s classPrefix reserved).Covers c where
  own := exists_get among
  fields field has target mentions := by
    obtain ⟨d, hd, rfl⟩ := s.sound.declared c among field has target mentions
    exact exists_get hd

end TypeNames

/-! ## Swift -/

namespace Swift

variable {names : TypeNames}

theorem failsIff_spell {type : ValueType} (place : FieldPlace) (knows : names.Knows type) :
    FailsIff (Language.swift.Unsupported type)
      (fun fault => ∃ reported, fault = .unsupportedType .swift place reported)
      (spell names place type) := by
  induction type with
  | any => exact .error ⟨0, .inl .here⟩ ⟨_, rfl⟩
  | null => exact .error ⟨0, .inr .here⟩ ⟨_, rfl⟩
  | reference name =>
      obtain ⟨typeName, found⟩ := knows name ⟨0, .here⟩
      rw [spell, found]
      refine .ok _ ?_
      rintro ⟨_, ⟨_ | _⟩ | ⟨_ | _⟩⟩
  | array item ih =>
      have within := ih fun target mentions => knows target (ValueType.mentions_array.mpr mentions)
      refine (within.map _).congr ?_ fun _ reported => reported
      rw [Language.unsupported_swift_iff, Language.unsupported_swift_iff, ValueType.core]
  | optional inner ih =>
      have within := ih fun target mentions =>
        knows target (ValueType.mentions_optional.mpr mentions)
      refine (within.map _).congr ?_ fun _ reported => reported
      exact Language.unsupported_congr fun _ _ bare => (ValueType.occursUnder_optional bare).symm
  | _ =>
      refine .ok _ ?_
      rintro ⟨_, ⟨_ | _⟩ | ⟨_ | _⟩⟩

theorem failsIff_declare (settings : SwiftSettings) (state : Unit) {c : ClassDef}
    (covers : names.Covers c) :
    FailsIff (Language.swift.Rejects c) (Language.swift.Reports c)
      (backend.declare settings names state c) := by
  obtain ⟨typeName, found⟩ := covers.own
  -- types are spelled in their normal form and without their optional, which changes no verdict
  have members := Language.failsIff_of_named memberRule <|
    FailsIff.mapM (f := Member.ofField names c.name) fun member among => by
      have knows := (covers.fields member.1 (MemberRule.field_mem among)).normalize.present
      have spelled := failsIff_spell ⟨c.name, member.1.key⟩ knows
      rw [Language.unsupported_present, Language.unsupported_normalize] at spelled
      exact spelled.map _
  have declared : FailsIff (Language.swift.Rejects c) (Language.swift.Reports c)
      (Declaration.ofClass names c) := by
    rw [Declaration.ofClass, found]
    refine members.through (fun fault failed => ?_) fun ms done => ⟨⟨typeName, ms⟩, ?_⟩
    · show Except.bind _ _ = _
      rw [failed]
      rfl
    · show Except.bind _ _ = _
      rw [done]
      rfl
  exact (declared.map _).map _

end Swift

/-! ## Java -/

namespace Java

variable {names : TypeNames}

theorem exists_ofType {type : ValueType} (knows : names.Knows type) :
    ∃ kind, FieldKind.ofType names type = .ok kind := by
  induction type with
  | reference name =>
      obtain ⟨typeName, found⟩ := knows name ⟨0, .here⟩
      exact ⟨.named typeName, by rw [FieldKind.ofType, found]; rfl⟩
  | array item ih =>
      obtain ⟨kind, found⟩ := ih fun target mentions =>
        knows target (ValueType.mentions_array.mpr mentions)
      exact ⟨.list kind.boxed, by rw [FieldKind.ofType, found]; rfl⟩
  | optional inner ih =>
      obtain ⟨kind, found⟩ := ih fun target mentions =>
        knows target (ValueType.mentions_optional.mpr mentions)
      exact ⟨kind.boxed, by rw [FieldKind.ofType, found]; rfl⟩
  | _ => exact ⟨_, rfl⟩

theorem failsIff_declare (settings : JavaSettings) (state : Unit) {c : ClassDef}
    (covers : names.Covers c) :
    FailsIff (Language.java.Rejects c) (Language.java.Reports c)
      (backend.declare settings names state c) := by
  obtain ⟨typeName, found⟩ := covers.own
  have known : ∃ kinds, (memberRule.named c).mapM
      (fun member => FieldKind.ofType names member.1.type.normalize) = .ok kinds :=
    exists_mapM_ok fun member among =>
      exists_ofType (covers.fields member.1 (MemberRule.field_mem among)).normalize
  obtain ⟨kinds, resolved⟩ := known
  have declared : ∃ d, Declaration.ofClass names c = .ok d := by
    simp only [Declaration.ofClass, resolveVariables, found, resolved, bind, Except.bind, pure,
      Except.pure]
    exact ⟨_, rfl⟩
  obtain ⟨d, declared⟩ := declared
  show FailsIff _ _ ((Declaration.ofClass names c).map _)
  rw [declared]
  refine .ok _ ?_
  rintro ⟨_, _, impossible⟩
  exact impossible

end Java

/-! ## Objective-C -/

namespace ObjectiveC

variable {names : TypeNames}

/-- The type of an array is known exactly if its elements hold no classes inside further arrays. -/
theorem failsIff_arrayOf {item : ValueType} (place : FieldPlace) (normal : item.Normal)
    (knows : names.Knows item) :
    FailsIff (Language.objectiveC.Unsupported (.array item))
      (fun fault => ∃ reported, fault = .unsupportedType .objectiveC place reported)
      (arrayOf names place item) := by
  -- an optional around the elements changes neither the outcome nor the condition
  have single := normal.present.1
  have bad : Language.objectiveC.Unsupported (.array item) ↔
      1 ≤ item.present.arrayDepth ∧ item.present.references ≠ [] := by
    rw [Language.unsupported_objectiveC_iff, ValueType.arrayDepth_present,
      ValueType.references_present, ValueType.arrayDepth, ValueType.references]
    exact and_congr_left' Nat.succ_le_succ_iff
  have knows := knows.present
  unfold arrayOf
  generalize item.present = element at single bad knows
  suffices tells : FailsIff (1 ≤ element.arrayDepth ∧ element.references ≠ []) _ _ from
    tells.congr bad.symm fun _ reported => reported
  cases element with
  | reference name =>
      obtain ⟨typeName, found⟩ := knows name ⟨0, .here⟩
      simp only [found]
      exact .ok _ fun both => Nat.not_succ_le_zero 0 both.1
  | optional inner => cases single
  -- elements that are arrays themselves are kept as they come, unless classes are in them
  | array inner =>
      simp only [Element.ofType?]
      split
      · next found =>
        split at found
        · next empty => exact .ok _ fun both => both.2 (List.isEmpty_iff.mp empty)
        · cases found
      · next none =>
        split at none
        · cases none
        · next some =>
          refine .error ⟨Nat.le_add_left 1 _, fun empty => ?_⟩ ⟨_, rfl⟩
          exact some (List.isEmpty_iff.mpr empty)
  | _ => exact .ok _ fun both => Nat.not_succ_le_zero 0 both.1

theorem failsIff_ofType {type : ValueType} (place : FieldPlace) (normal : type.Normal)
    (knows : names.Knows type) :
    FailsIff (Language.objectiveC.Unsupported type)
      (fun fault => ∃ reported, fault = .unsupportedType .objectiveC place reported)
      (PropertyKind.ofType names place type) := by
  -- an optional around the whole type only puts scalars into a box
  suffices tells : FailsIff (Language.objectiveC.Unsupported type.present)
      (fun fault => ∃ reported, fault = .unsupportedType .objectiveC place reported)
      (PropertyKind.ofPresent names place type.present) by
    rw [Language.unsupported_present] at tells
    unfold PropertyKind.ofType
    simp only
    split
    · exact tells.map _
    · exact tells
  obtain ⟨single, normal⟩ := normal.present
  have knows := knows.present
  generalize type.present = type at single normal knows
  cases type with
  | reference name =>
      obtain ⟨typeName, found⟩ := knows name ⟨0, .here⟩
      rw [PropertyKind.ofPresent, found]
      refine .ok _ ?_
      rw [Language.unsupported_objectiveC_iff]
      exact fun both => Nat.not_succ_le_zero 1 both.1
  | array item =>
      exact failsIff_arrayOf place normal fun target mentions =>
        knows target (ValueType.mentions_array.mpr mentions)
  | optional inner => cases single
  | _ =>
      refine .ok _ ?_
      rw [Language.unsupported_objectiveC_iff]
      exact fun both => Nat.not_succ_le_zero 1 both.1

theorem failsIff_resolveMembers (className typeName : String)
    {fields : List (Field × String)} (knows : ∀ member ∈ fields, names.Knows member.1.type)
    (constants : Text.NameSupply) :
    FailsIff (∃ member ∈ fields, Language.objectiveC.Unsupported member.1.type)
      (fun fault => ∃ member,
        FirstIn (fun member => Language.objectiveC.Unsupported member.1.type) fields member ∧
          ∃ type, fault = .unsupportedType .objectiveC ⟨className, member.1.key⟩ type)
      (resolveMembers names className typeName constants fields) := by
  induction fields generalizing constants with
  | nil => exact .ok _ (by simp)
  | cons member fields ih =>
      obtain ⟨field, name⟩ := member
      have kind := failsIff_ofType ⟨className, field.key⟩ field.type.normal_normalize
        (knows (field, name) List.mem_cons_self).normalize
      rw [Language.unsupported_normalize] at kind
      rw [resolveMembers]
      refine .cons kind (fun fault failed => ?_) fun kind done => ?_
      · rw [kindOf, failed]
      · rw [kindOf, done]
        generalize constants.issue (wantedConstant typeName name) = issued
        have others := ih (fun other among => knows other (List.mem_cons_of_mem _ among)) issued.2
        refine others.through (fun fault failed => ?_) fun found done =>
          ⟨(⟨name, field.key, issued.1, kind⟩ :: found.1, found.2), ?_⟩
        · simp only [failed]
        · simp only [done]

theorem failsIff_declare (settings : ObjectiveCSettings) (constants : Text.NameSupply)
    {c : ClassDef} (covers : names.Covers c) :
    FailsIff (Language.objectiveC.Rejects c) (Language.objectiveC.Reports c)
      (backend.declare settings names constants c) := by
  obtain ⟨typeName, found⟩ := covers.own
  have nested : ∃ nested, c.nested.mapM names.get = .ok nested := by
    refine exists_mapM_ok fun target among => ?_
    obtain ⟨field, has, mentions⟩ := ClassDef.mem_nested_iff.mp among
    exact covers.fields field has target mentions
  obtain ⟨nested, resolved⟩ := nested
  have members := Language.failsIff_of_named memberRule <|
    failsIff_resolveMembers c.name typeName
      (fun member among => covers.fields member.1 (MemberRule.field_mem among)) constants
  have declared : FailsIff (Language.objectiveC.Rejects c) (Language.objectiveC.Reports c)
      (Declaration.ofClass names constants c) := by
    simp only [Declaration.ofClass, found, resolved, bind, Except.bind, pure, Except.pure]
    refine members.through (fun fault failed => ?_) fun ms done =>
      ⟨(⟨typeName, ms.1, nested⟩, ms.2), ?_⟩
    · rw [failed]
    · rw [done]
  exact declared.map _

end ObjectiveC

end Classwright
