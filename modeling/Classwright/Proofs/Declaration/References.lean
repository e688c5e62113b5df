/-
# Classwright.Proofs.Declaration.References — what a declaration says of its class

A declaration in Objective-C lists the classes of the fields as they are, while its properties are
spelled from normal types, where nested options are gone and elements of arrays are never absent.
None of that touches a class: what a type refers to is what its property is spelled with, so the
list and the properties agree, name by name.

In any language, a class of a schema is declared if the language has counterparts for its types,
whatever the settings are.  What is declared is then known field by field: its member name, its key
and the spelling of its type.
-/

import Mathlib
import Classwright.Proofs.Declaration.ObjectiveC
import Classwright.Proofs.Render.Keys
import Classwright.Proofs.Render.Support
import Classwright.Proofs.Render.TypeNaming
import Classwright.Proofs.Schema.Traversal

namespace Classwright.ObjectiveC

variable {names : TypeNames} {place : FieldPlace} {type item : ValueType} {kind : PropertyKind}
  {c : ClassDef} {d : Declaration} {language : Language} {s : Schema} {classPrefix : String}
  {reserved : List String}

/-- Classes that differ have type names that differ. -/
theorem nodup_of_isNamed {classNames typeNames : List String}
    (each : List.Forall₂ (IsNamed (.ofSchema language s classPrefix reserved)) classNames typeNames)
    (distinct : classNames.Nodup) : typeNames.Nodup := by
  induction each with
  | nil => exact List.nodup_nil
  | @cons className typeName classNames typeNames first rest ih =>
      rw [List.nodup_cons] at distinct ⊢
      refine ⟨fun again => ?_, ih distinct.2⟩
      -- the name stands for one class only, so the class would be there twice as well
      obtain ⟨other, within, named⟩ := exists_of_forall₂ rest typeName again
      rw [TypeNames.eq_of_get_eq first named] at distinct
      exact distinct.1 within

/-! ## Declarations -/

/-- The declaration names the class, its members and the classes that it refers to. -/
structure Declaration.Refers (names : TypeNames) (c : ClassDef) (d : Declaration) : Prop where
  name : IsNamed names c.name d.name
  nested : List.Forall₂ (IsNamed names) c.nested d.nested
  members : List.Forall₂ (fun field m => List.Forall₂ (IsNamed names) field.type.references
    m.kind.typeNames) c.fields d.members
  filled : ∀ m ∈ d.members, m.name ≠ ""

theorem refers_of_ofClass {constants after : Text.NameSupply}
    (done : Declaration.ofClass names constants c = .ok (d, after)) : d.Refers names c := by
  obtain ⟨named, resolved, known⟩ := resolved_of_ofClass done
  obtain ⟨each, _⟩ := resolveMembers_spec resolved
  refine ⟨named, forall₂_of_mapM_ok known, ?_, fun m among => ?_⟩
  · rw [← memberRule.map_fst_named c, List.forall₂_map_left_iff]
    refine each.imp fun field m own => ?_
    -- the property is spelled from the normal type, which refers to the same classes
    rw [← ValueType.references_normalize]
    exact isNamed_ofType own.2.2.2
  · obtain ⟨field, listed, same, _⟩ := exists_of_forall₂ each m among
    -- a name begins with a character that may begin one, so it is not empty
    obtain ⟨first, rest, eq, _⟩ :=
      isSound_memberRule.opens_name (MemberRule.snd_mem_names listed)
    rw [same]
    intro empty
    rw [empty] at eq
    cases eq

namespace Declaration.Refers

/-- The list has the classes of the properties and no others. -/
theorem mem_nested_iff {typeName : String} (refers : d.Refers names c) :
    typeName ∈ d.nested ↔ ∃ m ∈ d.members, typeName ∈ m.kind.typeNames := by
  have functional {className other : String} (named : IsNamed names className typeName)
      (again : IsNamed names className other) : other = typeName :=
    Except.ok.inj (again.symm.trans named)
  constructor
  · intro listed
    obtain ⟨className, within, named⟩ := exists_of_forall₂ refers.nested _ listed
    obtain ⟨field, has, within⟩ := List.mem_flatMap.mp (List.mem_eraseDups.mp within)
    obtain ⟨m, among, own⟩ := exists_of_forall₂ refers.members.flip field has
    obtain ⟨other, inside, again⟩ := exists_of_forall₂ own.flip className within
    rw [functional named again] at inside
    exact ⟨m, among, inside⟩
  · rintro ⟨m, among, inside⟩
    obtain ⟨field, has, own⟩ := exists_of_forall₂ refers.members m among
    obtain ⟨className, within, named⟩ := exists_of_forall₂ own typeName inside
    have listed : className ∈ c.nested :=
      List.mem_eraseDups.mpr (List.mem_flatMap.mpr ⟨field, has, within⟩)
    obtain ⟨other, inside, again⟩ := exists_of_forall₂ refers.nested.flip className listed
    rwa [functional named again] at inside

/-- A class is not listed twice. -/
theorem nodup_nested (refers : d.Refers (.ofSchema language s classPrefix reserved) c) :
    d.nested.Nodup :=
  nodup_of_isNamed refers.nested (ClassList.nodup_eraseDups _)

end Declaration.Refers

/-! ## Declarations of all classes -/

section Order

variable {ds before after : List Declaration} {typeName : String}
  (each : List.Forall₂ (Declaration.Refers (.ofSchema language s classPrefix reserved))
    s.leavesFirst ds)

include each

/-- No two declarations have the same name. -/
theorem nodup_names : (ds.map (·.name)).Nodup := by
  have distinct : (s.leavesFirst.map (·.name)).Nodup :=
    ((Schema.perm_select s.perm_postorder).map _).nodup_iff.mpr s.sound.distinctNames
  have named : List.Forall₂ (IsNamed (.ofSchema language s classPrefix reserved))
      (s.leavesFirst.map (·.name)) (ds.map (·.name)) := by
    rw [List.forall₂_map_left_iff, List.forall₂_map_right_iff]
    exact each.imp fun c d refers => refers.name
  exact nodup_of_isNamed named distinct

/-- What a declaration refers to is declared before it. -/
theorem mem_before_of_mem_nested (order : ds = before ++ d :: after)
    (listed : typeName ∈ d.nested) : typeName ∈ before.map (·.name) := by
  subst order
  -- the classes fall apart as their declarations do
  have front := List.forall₂_take_append _ _ _ each
  have back := List.forall₂_drop_append _ _ _ each
  obtain ⟨c, later, refers, _, eq⟩ := List.forall₂_cons_right_iff.mp back
  have split : s.leavesFirst = s.leavesFirst.take before.length ++ c :: later := by
    rw [← eq, List.take_append_drop]
  have hc : c ∈ s.classes := by
    refine (Schema.perm_select s.perm_postorder).mem_iff.mp ?_
    rw [← Schema.leavesFirst, split]
    exact List.mem_append_right _ List.mem_cons_self
  obtain ⟨className, within, named⟩ := exists_of_forall₂ refers.nested typeName listed
  obtain ⟨other, known, rfl⟩ := TypeNames.exists_of_get named
  -- a class comes after those that it refers to
  have earlier := Schema.mem_before_of_leavesFirst split known
    ⟨c, hc, rfl, ClassDef.mem_nested_iff.mp within⟩
  obtain ⟨e, among, own⟩ := exists_of_forall₂ front.flip other earlier
  have same : e.name = typeName := Except.ok.inj (own.name.symm.trans named)
  exact List.mem_map.mpr ⟨e, among, same⟩

/-- A declaration does not refer to itself. -/
theorem name_notMem_nested (among : d ∈ ds) : d.name ∉ d.nested := by
  intro listed
  obtain ⟨before, after, order⟩ := List.append_of_mem among
  have earlier := mem_before_of_mem_nested each order listed
  -- otherwise the class would be declared once before itself and once more in its place
  have distinct := nodup_names each
  rw [order, List.map_append, List.map_cons] at distinct
  exact (List.nodup_append.mp distinct).2.2 _ earlier _ List.mem_cons_self rfl

end Order

end Classwright.ObjectiveC

/-! ## The declaration of a single class -/

namespace Classwright

variable {s : Schema} {c : ClassDef}

/-! ## Swift -/

theorem Swift.exists_declared {settings : SwiftSettings} (valid : settings.fault? = none)
    (among : c ∈ s.classes) (supported : ¬ Language.swift.Rejects c) :
    ∃ d : Declaration,
      backend.declare settings (backend.typeNames settings s) () c =
          .ok (sourceOf settings d, ()) ∧
        d.IsSpelled ∧ d.members.map (·.name) = memberRule.names c := by
  obtain ⟨general, _⟩ := SwiftSettings.fault?_eq_none_iff.mp valid
  have covers : (backend.typeNames settings s).Covers c := TypeNames.covers_ofSchema among
  obtain ⟨⟨source, _⟩, declared⟩ := (failsIff_declare settings () covers).value supported
  obtain ⟨d, done, rfl⟩ := exists_ofClass_of_declare declared
  obtain ⟨spelled, names, _⟩ := ofClass_spec (isWord_of_get general) done
  exact ⟨d, declared, spelled, names⟩

/-! ## Objective-C -/

namespace ObjectiveC

/-- The declaration is that of the class: it refers to what the class refers to, and has a property
for each field. -/
structure Declaration.IsOf (names : TypeNames) (c : ClassDef) (d : Declaration) : Prop where
  spelled : d.IsSpelled
  refers : d.Refers names c
  kinds : List.Forall₂ (fun field m => kindOf names c.name field = .ok m.kind) c.fields d.members
  memberNames : d.members.map (·.name) = memberRule.names c

theorem isOf_of_ofClass {names : TypeNames} {constants after : Text.NameSupply} {d : Declaration}
    (words : ∀ className typeName, names.get className = .ok typeName → Text.IsWord typeName)
    (done : Declaration.ofClass names constants c = .ok (d, after)) : d.IsOf names c := by
  have spelled := (ofClass_spec words done).1
  have refers := refers_of_ofClass done
  obtain ⟨_, resolved, _⟩ := resolved_of_ofClass done
  obtain ⟨each, _⟩ := resolveMembers_spec resolved
  refine ⟨spelled, refers, ?_, ?_⟩
  · rw [← memberRule.map_fst_named c, List.forall₂_map_left_iff]
    exact each.imp fun field m own => own.2.2.2
  · rw [← map_eq_of_forall₂ each fun field m own => own.1.symm, memberRule.map_snd_named]

theorem exists_declared {settings : ObjectiveCSettings} (valid : settings.fault? = none)
    (among : c ∈ s.classes) (supported : ¬ Language.objectiveC.Rejects c)
    (constants : Text.NameSupply) :
    ∃ (d : Declaration) (after : Text.NameSupply),
      backend.declare settings (backend.typeNames settings s) constants c =
          .ok (sourceOf settings d, after) ∧
        d.IsOf (backend.typeNames settings s) c := by
  obtain ⟨general, _⟩ := ObjectiveCSettings.fault?_eq_none_iff.mp valid
  have covers : (backend.typeNames settings s).Covers c := TypeNames.covers_ofSchema among
  obtain ⟨result, declared⟩ := (failsIff_declare settings constants covers).value supported
  obtain ⟨⟨d, after⟩, done, rfl⟩ := exists_of_map_ok declared
  exact ⟨d, after, declared, isOf_of_ofClass (isWord_of_get general) done⟩

end ObjectiveC

/-! ## Java -/

theorem Java.exists_declared {settings : JavaSettings} (valid : settings.fault? = none)
    (among : c ∈ s.classes) :
    ∃ d : Declaration,
      backend.declare settings (backend.typeNames settings s) () c = .ok (file settings d, ()) ∧
        Declaration.ofClass (backend.typeNames settings s) c = .ok d ∧ d.IsSpelled := by
  obtain ⟨general, _⟩ := JavaSettings.fault?_eq_none_iff.mp valid
  have covers : (backend.typeNames settings s).Covers c := TypeNames.covers_ofSchema among
  obtain ⟨⟨result, _⟩, declared⟩ :=
    (failsIff_declare settings () covers).value (Language.not_rejects_java c)
  obtain ⟨d, done, rfl⟩ := exists_ofClass_of_declare declared
  exact ⟨d, declared, done, (ofClass_spec (isWord_of_get general) done).1⟩

end Classwright
