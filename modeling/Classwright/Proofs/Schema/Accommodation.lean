/-
# Classwright.Proofs.Schema.Accommodation — normal types, and the order that a few rules generate

An optional is redundant around another optional, around `null` and around `any`.  A normal type is
one in which no optional is redundant, at whatever depth (`normal_iff`).  Normalizing gives such a
type, and all that it takes out are optionals: the classes, the values that may be anything and those
that are only ever `null` stay where they are, under as many arrays.  So a type may be normalized
whenever that is convenient, before it is widened or afterwards.

When does a normal type have room for the values of another one?  A few rules say so, and the rest
follows by going from one type to the next: `AccommodatedBy` is the least reflexive and transitive
relation on normal types that the rules allow.  It is easy to read, but nothing can be told from it
about the types in between.  `FitsIn` is the same order without a rule for transitivity, since each
of its rules looks at how the types are built.  So the two are shown to agree on normal types, and
widening gives the least type in either.
-/

import Classwright.Proofs.Schema.Widening

namespace Classwright.ValueType

variable {a b c : ValueType}

/-! ## Redundant optionals -/

/-- In a normal type, every optional stands around a type to which it adds something. -/
theorem normal_iff : a.Normal ↔
    ∀ inner arrays, (optional inner).OccursUnder arrays a → inner.Definite := by
  induction a with
  | optional type ih =>
      rw [normal_optional_iff, ih]
      constructor
      · rintro ⟨definite, inside⟩ inner arrays within
        cases within with
        | here => exact definite
        | optional deeper => exact inside inner arrays deeper
      · intro all
        exact ⟨all type 0 .here, fun inner arrays within => all inner arrays (.optional within)⟩
  | array item ih =>
      show item.Normal ↔ _
      rw [ih]
      constructor
      · intro inside inner arrays within
        cases within with
        | array deeper => exact inside inner _ deeper
      · intro all inner arrays within
        exact all inner (arrays + 1) (.array within)
  | _ =>
      refine ⟨fun _ inner arrays within => ?_, fun _ => trivial⟩
      cases within

/-! ## Normalizing and widening -/

/-- Two types may be normalized before they are widened or afterwards. -/
theorem normalize_widen (a b : ValueType) :
    (a.widen b).normalize = a.normalize.widen b.normalize :=
  congrArg Subtype.val (NormalType.of_widen a b)

/-- Normalizing a type takes out its redundant optionals.  It goes along with widening, and it keeps
the references in their order, whether anything may stand somewhere in the type or nothing but
`null` was seen there, and the number of arrays around each reference. -/
theorem normalize_takes_out_redundancy (a b : ValueType) :
    (a.widen b).normalize = a.normalize.widen b.normalize ∧
      (∀ inner arrays, (optional inner).OccursUnder arrays a.normalize →
        inner.isOptional = false ∧ inner ≠ .any ∧ inner ≠ .null) ∧
      a.normalize.normalize = a.normalize ∧
      a.normalize.references = a.references ∧
      ((∃ arrays, any.OccursUnder arrays a.normalize) ↔ ∃ arrays, any.OccursUnder arrays a) ∧
      ((∃ arrays, null.OccursUnder arrays a.normalize) ↔ ∃ arrays, null.OccursUnder arrays a) ∧
      ∀ name arrays, (reference name).OccursUnder arrays a.normalize ↔
        (reference name).OccursUnder arrays a := by
  refine ⟨normalize_widen a b, normal_iff.mp a.normal_normalize, normalize_normalize a,
    references_normalize a, ?_, ?_, ?_⟩
  · have bare : any.IsLeaf := trivial
    simp only [occursUnder_normalize bare]
  · have bare : null.IsLeaf := trivial
    simp only [occursUnder_normalize bare]
  · intro name arrays
    have bare : (reference name).IsLeaf := trivial
    exact occursUnder_normalize bare

/-- Types that are written with redundant optionals.  As they are written they differ, so that
widening makes an optional of them, and that optional is redundant too. -/
example : ((optional (.array (.optional .null))).widen (.optional (.optional (.array .null)))) =
    .optional (.array .null) := by
  cbv

/-! ## Rules -/

/-- `a.AccommodatedBy b`: by the rules, `b` has room for the values of `a`.  Every type on the way
is normal. -/
inductive AccommodatedBy : ValueType → ValueType → Prop
  | refl {type : ValueType} (normal : type.Normal) : AccommodatedBy type type
  | trans {type between other : ValueType} (first : AccommodatedBy type between)
      (second : AccommodatedBy between other) : AccommodatedBy type other
  | number : AccommodatedBy .integer .float
  | any {type : ValueType} (normal : type.Normal) : AccommodatedBy type .any
  | null {type : ValueType} (normal : (ValueType.optional type).Normal) :
      AccommodatedBy .null (.optional type)
  | absent {type : ValueType} (normal : (ValueType.optional type).Normal) :
      AccommodatedBy type (.optional type)
  | array {type other : ValueType} (inside : AccommodatedBy type other) :
      AccommodatedBy (.array type) (.array other)
  | optional {type other : ValueType} (inside : AccommodatedBy type other)
      (left : (ValueType.optional type).Normal) (right : (ValueType.optional other).Normal) :
      AccommodatedBy (.optional type) (.optional other)

/-- The rules speak of normal types only. -/
theorem AccommodatedBy.normal (fits : a.AccommodatedBy b) : a.Normal ∧ b.Normal := by
  induction fits with
  | refl normal => exact ⟨normal, normal⟩
  | trans _ _ first second => exact ⟨first.1, second.2⟩
  | number => exact ⟨trivial, trivial⟩
  | any normal => exact ⟨normal, trivial⟩
  | null normal => exact ⟨trivial, normal⟩
  | absent normal => exact ⟨(normal_optional_iff.mp normal).2, normal⟩
  | array _ ih => exact ih
  | optional _ left right => exact ⟨left, right⟩

/-! ## The same order -/

theorem AccommodatedBy.fitsIn (fits : a.AccommodatedBy b) : a.FitsIn b := by
  induction fits with
  | refl => exact .refl _
  | trans _ _ first second => exact first.trans second
  | number => exact .number
  | any => exact .any _
  | null => exact .null _
  | absent => exact .absent (.refl _)
  | array _ ih => exact .array ih
  | optional _ _ _ ih => exact .optional ih

theorem FitsIn.accommodatedBy (fits : a.FitsIn b) (left : a.Normal) (right : b.Normal) :
    a.AccommodatedBy b := by
  induction fits with
  | refl => exact .refl left
  | number => exact .number
  | any => exact .any left
  | null => exact .null right
  | absent _ ih =>
      -- first to the type that may be absent, and from there to its optional
      have inner := (normal_optional_iff.mp right).2
      exact (ih left inner).trans (.absent right)
  | optional _ ih =>
      have inside := ih (normal_optional_iff.mp left).2 (normal_optional_iff.mp right).2
      exact .optional inside left right
  | array _ ih => exact .array (ih left right)

/-- The rules generate the order in which types fit into each other. -/
theorem accommodatedBy_iff : a.AccommodatedBy b ↔ a.Normal ∧ b.Normal ∧ a.FitsIn b := by
  constructor
  · intro fits
    exact ⟨fits.normal.1, fits.normal.2, fits.fitsIn⟩
  · rintro ⟨left, right, fits⟩
    exact fits.accommodatedBy left right

/-! ## Least upper bounds -/

/-- Widened from two normal types comes a normal type that has room for both, and whatever normal
type has room for both has room for that one. -/
theorem widen_accommodates_least (left : a.Normal) (right : b.Normal) :
    (a.widen b).Normal ∧ a.AccommodatedBy (a.widen b) ∧ b.AccommodatedBy (a.widen b) ∧
      ∀ c : ValueType, c.Normal → a.AccommodatedBy c → b.AccommodatedBy c →
        (a.widen b).AccommodatedBy c := by
  have normal : (a.widen b).Normal := left.widen right
  obtain ⟨first, second⟩ := (widen_fitsIn_iff left right normal).mp (.refl _)
  refine ⟨normal, accommodatedBy_iff.mpr ⟨left, normal, first⟩,
    accommodatedBy_iff.mpr ⟨right, normal, second⟩, ?_⟩
  intro c bound roomLeft roomRight
  rw [accommodatedBy_iff, widen_fitsIn_iff left right bound]
  exact ⟨normal, bound, roomLeft.fitsIn, roomRight.fitsIn⟩

/-- Lists of numbers without fractions, some of them missing, and lists of any numbers.  Their least
common type fits where the list itself may be missing. -/
theorem widen_accommodates_least_numbers :
    (array (.optional .integer)).AccommodatedBy (.array (.optional .float)) ∧
      (array .float).AccommodatedBy (.array (.optional .float)) ∧
      (array (.optional .float)).AccommodatedBy (.optional (.array (.optional .float))) := by
  have left : (array (.optional .integer)).Normal := ⟨rfl, nofun, nofun, trivial⟩
  have numbers : (optional .float).Normal := ⟨rfl, nofun, nofun, trivial⟩
  have bound : (optional (.array (.optional .float))).Normal := ⟨rfl, nofun, nofun, numbers⟩
  have widened : (array (.optional .integer)).widen (.array .float) =
      .array (.optional .float) := by
    cbv
  obtain ⟨_, first, second, least⟩ := widen_accommodates_least left (b := .array .float) trivial
  rw [widened] at first second least
  have room : (array (.optional .float)).AccommodatedBy (.optional (.array (.optional .float))) :=
    .absent bound
  exact ⟨first, second, least _ bound (first.trans room) (second.trans room)⟩

end Classwright.ValueType
