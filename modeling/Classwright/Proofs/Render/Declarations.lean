/-
# Classwright.Proofs.Render.Declarations — one declaration for each class

Whatever the settings make of them, the classes of a schema are declared one after the other, each
under its type name, and what is rendered is put together from these declarations.  Since the names
are identifiers that no two classes share, so are those of the declarations.
-/

import Mathlib
import Classwright.Proofs.Render.DeclaredFirst
import Classwright.Proofs.Render.Keys

namespace Classwright

open Text (isIdentifier)

/-! ## Type names -/

/-- The classes have these type names, in this order. -/
abbrev AreNamed (names : TypeNames) (classes : List ClassDef) (typeNames : List String) : Prop :=
  List.Forall₂ (fun c typeName => names.get c.name = .ok typeName) classes typeNames

namespace AreNamed

variable {language : Language} {keywords reserved typeNames : List String}
  {general : GeneralSettings} {m : Schema} {order : DeclarationOrder}

theorem isIdentifier (valid : general.fault? language keywords = none) {classes : List ClassDef}
    (named : AreNamed (.ofSchema language m general.classPrefix reserved) classes typeNames) :
    ∀ typeName ∈ typeNames, isIdentifier typeName := by
  intro typeName among
  obtain ⟨c, _, found⟩ := exists_of_forall₂ named typeName among
  exact TypeNames.isIdentifier_of_get (GeneralSettings.fault?_eq_none_iff.mp valid).1 found

/-- Classes in any order have different names. -/
theorem nodup (named : AreNamed (.ofSchema language m general.classPrefix reserved)
    (m.inOrder order) typeNames) : typeNames.Nodup := by
  have same : (m.inOrder order).map
      (fun c => (TypeNames.ofSchema language m general.classPrefix reserved).get c.name) =
        typeNames.map .ok :=
    map_eq_of_forall₂ named fun c typeName found => found
  have names : ((m.inOrder order).map (·.name)).Nodup :=
    ((m.perm_inOrder order).map _).symm.nodup m.sound.distinctNames
  refine List.Nodup.of_map (f := (.ok : String → Except RenderFault String)) ?_
  rw [← same]
  refine List.Nodup.map_on (fun c among other amongOthers eq => ?_) names.of_map
  obtain ⟨typeName, _, found⟩ := exists_of_forall₂ named.flip c among
  exact List.inj_on_of_nodup_map names among amongOthers
    (TypeNames.eq_of_get_eq found (eq ▸ found))

end AreNamed

/-! ## Declarations -/

/-- Each class has a declaration that is fit to stand in source and has its type name. -/
def Declared {δ : Type} (isSpelled : δ → Prop) (name : δ → String) (names : TypeNames)
    (classes : List ClassDef) (ds : List δ) : Prop :=
  List.Forall₂ (fun c d => isSpelled d ∧ names.get c.name = .ok (name d)) classes ds

namespace Declared

variable {δ : Type} {isSpelled : δ → Prop} {name : δ → String} {names : TypeNames}
  {classes : List ClassDef} {ds : List δ}

theorem spelled (declared : Declared isSpelled name names classes ds) : ∀ d ∈ ds, isSpelled d := by
  intro d among
  obtain ⟨_, _, own, _⟩ := exists_of_forall₂ declared d among
  exact own

theorem named (declared : Declared isSpelled name names classes ds) :
    AreNamed names classes (ds.map name) := by
  rw [AreNamed, List.forall₂_map_right_iff]
  exact declared.imp fun c d own => own.2

end Declared

namespace Swift

variable {s : SwiftSettings} {m : Schema} {d : Declaration}

/-- What is written is written for a declaration of each class. -/
theorem exists_declarations (valid : s.fault? = none) {sources : List Source}
    (declares : backend.Declares s m sources) :
    ∃ ds : List Declaration, sources = ds.map (sourceOf s) ∧
      Declared Declaration.IsSpelled Declaration.name (backend.typeNames s m)
        (m.inOrder backend.order) ds := by
  obtain ⟨general, _⟩ := SwiftSettings.fault?_eq_none_iff.mp valid
  refine exists_map_of_forall₂ (declares.forall₂.imp ?_)
  rintro c _ ⟨_, _, found⟩
  obtain ⟨d, own, rfl⟩ := exists_ofClass_of_declare found
  exact ⟨d, rfl, (ofClass_spec (isWord_of_get general) own).1, (resolved_of_ofClass own).1⟩

end Swift

namespace ObjectiveC

variable {s : ObjectiveCSettings} {m : Schema} {ds : List Declaration}

theorem Covers.declared (covers : Covers s m ds) :
    Declared Declaration.IsSpelled Declaration.name (backend.typeNames s m)
      (m.inOrder backend.order) ds := by
  have each : List.Forall₂ (fun d c => d.IsSpelled ∧ d.Refers (backend.typeNames s m) c) ds
      m.leavesFirst :=
    (List.forall₂_and_left _ _).mpr ⟨covers.spelled, covers.refers.flip⟩
  exact each.flip.imp fun c d own => ⟨own.1, own.2.name⟩

end ObjectiveC

namespace Java

variable {s : JavaSettings} {m : Schema} {d : Declaration}

/-- Every file is the file of a declaration, and there is one for each class. -/
theorem exists_declarations (valid : s.fault? = none) {files : List SourceFile}
    (declares : backend.Declares s m files) :
    ∃ ds : List Declaration, files = ds.map (file s) ∧
      Declared Declaration.IsSpelled Declaration.name (backend.typeNames s m)
        (m.inOrder backend.order) ds := by
  obtain ⟨general, _⟩ := JavaSettings.fault?_eq_none_iff.mp valid
  refine exists_map_of_forall₂ (declares.forall₂.imp ?_)
  rintro c _ ⟨_, _, found⟩
  obtain ⟨d, own, rfl⟩ := exists_ofClass_of_declare found
  exact ⟨d, rfl, (ofClass_spec (isWord_of_get general) own).1, (resolved_of_ofClass own).1⟩

end Java

end Classwright
