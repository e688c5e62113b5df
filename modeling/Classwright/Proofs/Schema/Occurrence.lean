/-
# Classwright.Proofs.Schema.Occurrence — what stands inside a type

A type that is no wrapper may stand inside another one, at any depth.  Two things count about the
place: that it is there at all, and how many arrays are around it.  Optionals do not count, since
they come and go when a type is normalized.

A wrapper holds a single type, so there is one leaf inside of every type.  Normalizing does not move
it: what stands inside a type stands inside its normal form, under as many arrays.  Renaming touches
the names of classes and nothing else.
-/

import Classwright.Schema.ValueType

namespace Classwright.ValueType

/-! ## Occurrences -/

/-- `leaf.OccursUnder arrays type`: `leaf` stands inside `type` with so many arrays around it. -/
inductive OccursUnder (leaf : ValueType) : Nat → ValueType → Prop
  | here : OccursUnder leaf 0 leaf
  | array {arrays : Nat} {item : ValueType} :
      OccursUnder leaf arrays item → OccursUnder leaf (arrays + 1) (.array item)
  | optional {arrays : Nat} {inner : ValueType} :
      OccursUnder leaf arrays inner → OccursUnder leaf arrays (.optional inner)

/-- The type refers to the class of that name, at some depth. -/
def Mentions (type : ValueType) (name : String) : Prop :=
  ∃ arrays, (reference name).OccursUnder arrays type

theorem mentions_array {name : String} {item : ValueType} :
    (array item).Mentions name ↔ item.Mentions name := by
  constructor
  · rintro ⟨_, _ | inside | _⟩
    exact ⟨_, inside⟩
  · rintro ⟨arrays, inside⟩
    exact ⟨arrays + 1, .array inside⟩

theorem mentions_optional {name : String} {inner : ValueType} :
    (optional inner).Mentions name ↔ inner.Mentions name := by
  constructor
  · rintro ⟨_, _ | _ | inside⟩
    exact ⟨_, inside⟩
  · rintro ⟨arrays, inside⟩
    exact ⟨arrays, .optional inside⟩

/-- The list of references has exactly the names that the type mentions. -/
theorem mem_references_iff {name : String} {type : ValueType} :
    name ∈ type.references ↔ type.Mentions name := by
  induction type with
  | array item ih => exact ih.trans mentions_array.symm
  | optional inner ih => exact ih.trans mentions_optional.symm
  | reference other =>
      rw [references, List.mem_singleton]
      constructor
      · rintro rfl
        exact ⟨0, .here⟩
      · rintro ⟨_, _ | _⟩
        rfl
  | _ =>
      refine ⟨fun absent => absurd absent List.not_mem_nil, ?_⟩
      rintro ⟨_, _ | _⟩

/-! ## Leaves -/

/-- The type is no wrapper. -/
def IsLeaf : ValueType → Prop
  | .array _ | .optional _ => False
  | _ => True

section Leaves

variable {leaf : ValueType} {arrays : Nat}

theorem occursUnder_array (bare : leaf.IsLeaf) {item : ValueType} :
    leaf.OccursUnder arrays (.array item) ↔
      ∃ fewer, arrays = fewer + 1 ∧ leaf.OccursUnder fewer item := by
  constructor
  · rintro (_ | inside | _)
    · exact bare.elim
    · exact ⟨_, rfl, inside⟩
  · rintro ⟨fewer, rfl, inside⟩
    exact .array inside

theorem occursUnder_optional (bare : leaf.IsLeaf) {inner : ValueType} :
    leaf.OccursUnder arrays (.optional inner) ↔ leaf.OccursUnder arrays inner := by
  constructor
  · rintro (_ | _ | inside)
    · exact bare.elim
    · exact inside
  · exact .optional

theorem occursUnder_orAbsent (bare : leaf.IsLeaf) {type : ValueType} :
    leaf.OccursUnder arrays type.orAbsent ↔ leaf.OccursUnder arrays type := by
  unfold orAbsent
  split
  · exact Iff.rfl
  · exact Iff.rfl
  · exact Iff.rfl
  · exact occursUnder_optional bare

/-- Normalizing keeps what stands inside a type where it is. -/
theorem occursUnder_normalize (bare : leaf.IsLeaf) {type : ValueType} :
    leaf.OccursUnder arrays type.normalize ↔ leaf.OccursUnder arrays type := by
  induction type generalizing arrays with
  | array item ih =>
      rw [normalize, occursUnder_array bare, occursUnder_array bare]
      simp only [ih]
  | optional inner ih =>
      rw [normalize, occursUnder_orAbsent bare, occursUnder_optional bare, ih]
  | _ => exact Iff.rfl

theorem occursUnder_present (bare : leaf.IsLeaf) {type : ValueType} :
    leaf.OccursUnder arrays type.present ↔ leaf.OccursUnder arrays type := by
  unfold present
  split
  · exact (occursUnder_optional bare).symm
  · exact Iff.rfl

end Leaves

/-! ## The leaf of a type -/

/-- The type without its wrappers. -/
def core : ValueType → ValueType
  | .array item => item.core
  | .optional inner => inner.core
  | leaf => leaf

/-- How many arrays are around the core. -/
def arrayDepth : ValueType → Nat
  | .array item => item.arrayDepth + 1
  | .optional inner => inner.arrayDepth
  | _ => 0

/-- Wrappers hold one type each, so one leaf stands inside a type, under all of its arrays. -/
theorem occursUnder_iff {leaf type : ValueType} {arrays : Nat} (bare : leaf.IsLeaf) :
    leaf.OccursUnder arrays type ↔ type.core = leaf ∧ type.arrayDepth = arrays := by
  induction type generalizing arrays with
  | array item ih =>
      rw [occursUnder_array bare, core, arrayDepth]
      constructor
      · rintro ⟨fewer, rfl, inside⟩
        obtain ⟨same, rfl⟩ := ih.mp inside
        exact ⟨same, rfl⟩
      · rintro ⟨same, rfl⟩
        exact ⟨_, rfl, ih.mpr ⟨same, rfl⟩⟩
  | optional inner ih => rw [occursUnder_optional bare, ih, core, arrayDepth]
  | _ =>
      constructor
      · rintro ⟨⟩
        exact ⟨rfl, rfl⟩
      · rintro ⟨rfl, rfl⟩
        exact .here

theorem exists_occursUnder_iff {leaf type : ValueType} (bare : leaf.IsLeaf) :
    (∃ arrays, leaf.OccursUnder arrays type) ↔ type.core = leaf := by
  simp [occursUnder_iff bare]

/-! ## References -/

theorem references_orAbsent (type : ValueType) : type.orAbsent.references = type.references := by
  cases type <;> rfl

/-- Normalizing changes neither the classes that a type refers to nor their order. -/
theorem references_normalize (type : ValueType) :
    type.normalize.references = type.references := by
  induction type with
  | array item ih => exact ih
  | optional inner ih =>
      show inner.normalize.orAbsent.references = inner.references
      rw [references_orAbsent, ih]
  | _ => rfl

theorem references_present (type : ValueType) : type.present.references = type.references := by
  cases type <;> rfl

theorem arrayDepth_present (type : ValueType) : type.present.arrayDepth = type.arrayDepth := by
  cases type <;> rfl

/-! ## Renaming -/

theorem core_rename (newName : String → String) (type : ValueType) :
    (type.rename newName).core = type.core.rename newName := by
  induction type with
  | array item ih => exact ih
  | optional inner ih => exact ih
  | _ => rfl

theorem arrayDepth_rename (newName : String → String) (type : ValueType) :
    (type.rename newName).arrayDepth = type.arrayDepth := by
  induction type with
  | array item ih => exact congrArg (· + 1) ih
  | optional inner ih => exact ih
  | _ => rfl

theorem references_rename (newName : String → String) (type : ValueType) :
    (type.rename newName).references = type.references.map newName := by
  induction type with
  | array item ih => exact ih
  | optional inner ih => exact ih
  | _ => rfl

/-! ## Normal types -/

/-- No optional stands directly around a type to which it adds nothing. -/
def Normal : ValueType → Prop
  | .optional inner => inner.isOptional = false ∧ inner ≠ .any ∧ inner ≠ .null ∧ inner.Normal
  | .array item => item.Normal
  | _ => True

theorem normal_orAbsent {type : ValueType} (normal : type.Normal) : type.orAbsent.Normal := by
  unfold orAbsent
  split
  · exact normal
  · trivial
  · trivial
  · next noOptional noNull noAny =>
    refine ⟨?_, noAny, noNull, normal⟩
    cases type with
    | optional inner => exact absurd rfl (noOptional inner)
    | _ => rfl

theorem normal_normalize (type : ValueType) : type.normalize.Normal := by
  induction type with
  | array item ih => exact ih
  | optional inner ih => exact normal_orAbsent ih
  | _ => trivial

/-- Under the optional of a normal type there is no further one. -/
theorem Normal.present {type : ValueType} (normal : type.Normal) :
    type.present.isOptional = false ∧ type.present.Normal := by
  cases type with
  | optional inner => exact ⟨normal.1, normal.2.2.2⟩
  | _ => exact ⟨rfl, normal⟩

end Classwright.ValueType
