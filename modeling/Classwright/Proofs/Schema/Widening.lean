/-
# Classwright.Proofs.Schema.Widening — widening finds the least type for two

A type fits into another one if its values may be taken for values of the other.  On normal types
this is an order, and widening gives the least type that both of its arguments fit into.  So normal
types are a semilattice (`NormalType`), and what widening does to a list of them depends on the set
of its members alone.

Widening compares its arguments as they are written, so on other types none of this holds on the
nose.  It holds up to `normalize`, because normalizing takes widening to the join.  An optional is
the join with `null`, and each branch of `widen` becomes a law of joins.
-/

import Mathlib
import Classwright.Proofs.Schema.Occurrence

namespace Classwright

namespace ValueType

variable {a b c : ValueType}

/-! ## Normal types -/

theorem Normal.normalize_eq (normal : a.Normal) : a.normalize = a := by
  induction a with
  | array item ih =>
      rw [normalize, ih normal]
  | optional inner ih =>
      obtain ⟨single, noAny, noNull, inside⟩ := normal
      rw [normalize, ih inside]
      cases inner with
      | optional _ => cases single
      | any => exact absurd rfl noAny
      | null => exact absurd rfl noNull
      | _ => rfl
  | _ => rfl

/-- A type is normal exactly if normalizing leaves it alone. -/
theorem normalize_eq_self_iff : a.normalize = a ↔ a.Normal :=
  ⟨fun same => same ▸ a.normal_normalize, Normal.normalize_eq⟩

theorem normalize_normalize (a : ValueType) : a.normalize.normalize = a.normalize :=
  a.normal_normalize.normalize_eq

/-- The type says something about values that are there, and nothing about absent ones. -/
def Definite (a : ValueType) : Prop := a.isOptional = false ∧ a ≠ .any ∧ a ≠ .null

theorem normal_optional_iff : (optional a).Normal ↔ a.Definite ∧ a.Normal := by
  rw [Normal, Definite, and_assoc, and_assoc]

theorem Definite.orAbsent_eq (definite : a.Definite) : a.orAbsent = .optional a := by
  obtain ⟨single, noAny, noNull⟩ := definite
  cases a with
  | optional _ => cases single
  | any => exact absurd rfl noAny
  | null => exact absurd rfl noNull
  | _ => rfl

theorem definite_of_ne (noAny : a = .any → False) (noNull : a = .null → False)
    (single : ∀ inner, a = .optional inner → False) : a.Definite := by
  refine ⟨?_, noAny, noNull⟩
  cases a with
  | optional inner => exact absurd rfl (single inner)
  | _ => rfl

/-! ## Branches of widening -/

theorem widen_self (a : ValueType) : a.widen a = a := by
  rw [widen.eq_def, if_pos rfl]

theorem widen_array (first second : ValueType) :
    (array first).widen (.array second) = .array (first.widen second) := by
  by_cases same : first = second
  · rw [same, widen_self, widen_self]
  · rw [widen, if_neg (by simpa using same)]

/-- Widening by `null` lets the value be absent. -/
theorem null_widen (a : ValueType) : null.widen a = a.orAbsent := by
  cases a with
  | null => exact widen_self .null
  | _ =>
      rw [widen.eq_def, if_neg nofun]
      rfl

/-- Two definite types that are neither alike nor both numbers or arrays have nothing in common. -/
theorem Definite.widen_eq_any (left : a.Definite) (right : b.Definite) (apart : a ≠ b)
    (no_number : a = .integer → b = .float → False)
    (no_other : a = .float → b = .integer → False)
    (no_arrays : ∀ first second, a = .array first → b = .array second → False) :
    a.widen b = .any := by
  obtain ⟨left_single, left_any, left_null⟩ := left
  obtain ⟨right_single, right_any, right_null⟩ := right
  rw [widen.eq_def, if_neg apart]
  split <;> grind [isOptional]

/-- Normalizing changes nothing about a definite type but the elements of an array. -/
theorem Definite.normalize_cases (definite : a.Definite) :
    a.normalize = a ∨ ∃ item, a = .array item ∧ a.normalize = .array item.normalize := by
  cases a with
  | array item => exact .inr ⟨item, rfl, rfl⟩
  | optional _ => cases definite.1
  | _ => exact .inl rfl

theorem Definite.normalize (definite : a.Definite) : a.normalize.Definite := by
  rcases definite.normalize_cases with same | ⟨item, -, array⟩
  · rwa [same]
  · rw [array]
    exact ⟨rfl, nofun, nofun⟩

/-- What is widened from normal types is normal. -/
theorem Normal.widen (left : a.Normal) (right : b.Normal) : (a.widen b).Normal := by
  fun_induction ValueType.widen a b with
  | case1 => exact right
  | case2 => exact left
  | case3 => exact right
  | case4 => exact right
  | case5 => exact left
  | case6 other noAny single other_ne =>
      exact normal_optional_iff.mpr ⟨definite_of_ne noAny (Ne.symm other_ne) single, right⟩
  | case7 other noAny single noNull =>
      exact normal_optional_iff.mpr ⟨definite_of_ne noAny noNull single, left⟩
  | case8 | case9 | case10 => exact normal_normalize _
  | case11 | case12 => trivial
  | case13 first second _ ih => exact ih left right
  | case14 => trivial

/-! ## The order -/

/-- `a.FitsIn b`: values of the type `a` may be taken for values of the type `b`. -/
inductive FitsIn : ValueType → ValueType → Prop
  | refl (type : ValueType) : FitsIn type type
  /-- Numbers without a fractional part are numbers. -/
  | number : FitsIn .integer .float
  | any (type : ValueType) : FitsIn type .any
  /-- Absent values are all alike. -/
  | null (type : ValueType) : FitsIn .null (.optional type)
  /-- Values that are there may be taken for values that may be absent. -/
  | absent {type other : ValueType} (inside : FitsIn type other) : FitsIn type (.optional other)
  | optional {type other : ValueType} (inside : FitsIn type other) :
      FitsIn (.optional type) (.optional other)
  | array {type other : ValueType} (inside : FitsIn type other) :
      FitsIn (.array type) (.array other)

namespace FitsIn

theorem trans (first : a.FitsIn b) (second : b.FitsIn c) : a.FitsIn c := by
  induction second generalizing a with
  | refl => exact first
  | number =>
      cases first with
      | refl => exact .number
  | any => exact .any a
  | null =>
      cases first with
      | refl => exact .null _
  | absent _ ih => exact .absent (ih first)
  | optional inside ih =>
      cases first with
      | refl => exact .optional inside
      | null => exact .null _
      | absent within => exact .absent (ih within)
      | optional within => exact .optional (ih within)
  | array inside ih =>
      cases first with
      | refl => exact .array inside
      | array within => exact .array (ih within)

theorem eq_any (fits : ValueType.any.FitsIn a) (normal : a.Normal) : a = .any := by
  induction a with
  | optional inner ih =>
      cases fits with
      | absent inside =>
          obtain ⟨definite, normal⟩ := normal_optional_iff.mp normal
          exact absurd (ih inside normal) definite.2.1
  | any => rfl
  | _ => cases fits

/-- What has room for the optional of a type is everything or the optional of something. -/
theorem of_optional (fits : (ValueType.optional a).FitsIn c) (normal : c.Normal) :
    c = .any ∨ ∃ inner, c = .optional inner := by
  cases fits with
  | any => exact .inl rfl
  | _ => exact .inr ⟨_, rfl⟩

/-- Inside an optional, a definite type fits into what is definite there. -/
theorem of_definite (fits : a.FitsIn (.optional c)) (definite : a.Definite) : a.FitsIn c := by
  cases fits with
  | absent inside => exact inside
  | refl | optional => cases definite.1
  | null => exact absurd rfl definite.2.2

/-- Two normal types that fit into each other are the same. -/
theorem antisymm (first : a.FitsIn b) (second : b.FitsIn a) (left : a.Normal)
    (right : b.Normal) : a = b := by
  induction first with
  | refl => rfl
  | number => cases second
  | any => exact second.eq_any left
  | null => cases second
  | @absent type other inside _ =>
      obtain ⟨definite, normal⟩ := normal_optional_iff.mp right
      -- the type has room for an optional, so it is one itself, and then it is not definite
      rcases second.of_optional left with rfl | ⟨inner, rfl⟩
      · exact absurd (inside.eq_any normal) definite.2.1
      · rcases inside.of_optional normal with rfl | ⟨_, rfl⟩
        · exact absurd rfl definite.2.1
        · cases definite.1
  | optional _ ih =>
      obtain ⟨definite, normal⟩ := normal_optional_iff.mp right
      cases second with
      | refl => rfl
      | absent within =>
          obtain ⟨bare, inner⟩ := normal_optional_iff.mp left
          rcases within.of_optional inner with rfl | ⟨_, rfl⟩
          · exact absurd rfl bare.2.1
          · cases bare.1
      | optional within => rw [ih within (normal_optional_iff.mp left).2 normal]
  | array _ ih =>
      cases second with
      | refl => rfl
      | array within => rw [ih within left right]

end FitsIn

/-! ## Least types -/

/-- The optional of a type fits exactly where the type and absent values do. -/
theorem orAbsent_fitsIn_iff (normal : c.Normal) :
    a.orAbsent.FitsIn c ↔ null.FitsIn c ∧ a.FitsIn c := by
  constructor
  · intro fits
    have within : null.FitsIn a.orAbsent ∧ a.FitsIn a.orAbsent := by
      cases a with
      | optional inner => exact ⟨.null inner, .refl _⟩
      | any => exact ⟨.any _, .refl _⟩
      | null => exact ⟨.refl _, .refl _⟩
      | _ => exact ⟨.null _, .absent (.refl _)⟩
    exact ⟨within.1.trans fits, within.2.trans fits⟩
  · rintro ⟨empty, fits⟩
    by_cases definite : a.Definite
    · rw [definite.orAbsent_eq]
      -- what has room for absent values is everything, nothing but `null`, or an optional
      cases empty with
      | any => exact .any _
      | refl =>
          cases fits with
          | refl => exact absurd rfl definite.2.2
      | null | absent => exact .optional (fits.of_definite definite)
    · cases a with
      | optional _ | any | null => exact fits
      | _ => exact absurd ⟨rfl, nofun, nofun⟩ definite

/-- A definite type fits into nothing definite but itself, a wider number or another array. -/
theorem FitsIn.cases_definite (fits : a.FitsIn c) (definite : a.Definite) (normal : c.Normal) :
    c = .any ∨ c.present = a ∨ (a = .integer ∧ c.present = .float) ∨
      ∃ item other, a = .array item ∧ c.present = .array other := by
  have flat : ∀ {d : ValueType}, a.FitsIn d → d.Definite → d = a ∨
      (a = .integer ∧ d = .float) ∨ ∃ item other, a = .array item ∧ d = .array other := by
    intro d fits apart
    cases fits with
    | refl => exact .inl rfl
    | number => exact .inr (.inl ⟨rfl, rfl⟩)
    | any => exact absurd rfl apart.2.1
    | null | absent | optional => cases apart.1
    | array => exact .inr (.inr ⟨_, _, rfl, rfl⟩)
  cases c with
  | any => exact .inl rfl
  | optional inner => exact .inr (flat (fits.of_definite definite) (normal_optional_iff.mp normal).1)
  | null =>
      cases fits with
      | refl => exact absurd rfl definite.2.2
  | _ => exact .inr (flat fits ⟨rfl, nofun, nofun⟩)

theorem FitsIn.of_present (fits : a.FitsIn c.present) : a.FitsIn c := by
  cases c with
  | optional inner => exact .absent fits
  | _ => exact fits

/-- Arrays fit where their elements do. -/
theorem array_fitsIn_iff (normal : c.Normal) : (array a).FitsIn c ↔
    c = .any ∨ ∃ item, c.present = .array item ∧ a.FitsIn item := by
  constructor
  · intro fits
    cases fits with
    | refl => exact .inr ⟨a, rfl, .refl a⟩
    | any => exact .inl rfl
    | array inside => exact .inr ⟨_, rfl, inside⟩
    | absent within =>
        have definite := (normal_optional_iff.mp normal).1
        cases within with
        | refl => exact .inr ⟨a, rfl, .refl a⟩
        | any => exact absurd rfl definite.2.1
        | absent => cases definite.1
        | array inside => exact .inr ⟨_, rfl, inside⟩
  · rintro (rfl | ⟨item, eq, inside⟩)
    · exact .any _
    · apply FitsIn.of_present
      rw [eq]
      exact .array inside

/-- Two arrays fit into the same types as the array of their least element type. -/
theorem array_widen_fitsIn_iff (normal : c.Normal)
    (least : ∀ {d : ValueType}, d.Normal →
      ((a.widen b).FitsIn d ↔ a.FitsIn d ∧ b.FitsIn d)) :
    (array (a.widen b)).FitsIn c ↔ (array a).FitsIn c ∧ (array b).FitsIn c := by
  rw [array_fitsIn_iff normal, array_fitsIn_iff normal, array_fitsIn_iff normal]
  constructor
  · rintro (everything | ⟨item, eq, fits⟩)
    · exact ⟨.inl everything, .inl everything⟩
    · have inside : item.Normal := by
        have whole := normal.present.2
        rwa [eq] at whole
      obtain ⟨first, second⟩ := (least inside).mp fits
      exact ⟨.inr ⟨item, eq, first⟩, .inr ⟨item, eq, second⟩⟩
  · rintro ⟨everything | ⟨item, eq, first⟩, everything | ⟨other, same, second⟩⟩
    · exact .inl everything
    · exact .inl everything
    · exact .inl everything
    · obtain rfl : item = other := by simpa [eq] using same
      have inside : item.Normal := by
        have whole := normal.present.2
        rwa [eq] at whole
      exact .inr ⟨item, eq, (least inside).mpr ⟨first, second⟩⟩

/-- Under an optional stands a definite type, so that it fits where `orAbsent` of it does. -/
theorem optional_fitsIn_iff (inside : (optional a).Normal) (normal : c.Normal) :
    (optional a).FitsIn c ↔ null.FitsIn c ∧ a.FitsIn c := by
  rw [← (normal_optional_iff.mp inside).1.orAbsent_eq, orAbsent_fitsIn_iff normal]

theorem normalize_optional_fitsIn_iff (inside : a.Normal) (normal : c.Normal) :
    (optional a).normalize.FitsIn c ↔ null.FitsIn c ∧ a.FitsIn c := by
  rw [normalize, inside.normalize_eq, orAbsent_fitsIn_iff normal]

theorem any_fitsIn_iff (normal : c.Normal) : any.FitsIn c ↔ any.FitsIn c ∧ a.FitsIn c := by
  refine ⟨fun fits => ⟨fits, ?_⟩, And.left⟩
  rw [fits.eq_any normal]
  exact .any a

/-- Widening gives the least type that both types fit into. -/
theorem widen_fitsIn_iff (left : a.Normal) (right : b.Normal) (normal : c.Normal) :
    (a.widen b).FitsIn c ↔ a.FitsIn c ∧ b.FitsIn c := by
  fun_induction ValueType.widen a b generalizing c with
  | case1 => exact and_self_iff.symm
  | case2 => exact any_fitsIn_iff normal
  | case3 =>
      rw [and_comm]
      exact any_fitsIn_iff normal
  | case4 inner => rw [optional_fitsIn_iff right normal, and_self_left]
  | case5 inner => rw [optional_fitsIn_iff left normal, and_right_comm, and_self]
  | case6 other noAny single other_ne =>
      have apart := definite_of_ne noAny (Ne.symm other_ne) single
      exact optional_fitsIn_iff (normal_optional_iff.mpr ⟨apart, right⟩) normal
  | case7 other noAny single noNull =>
      have apart := definite_of_ne noAny noNull single
      rw [and_comm]
      exact optional_fitsIn_iff (normal_optional_iff.mpr ⟨apart, left⟩) normal
  | case8 first second _ ih =>
      have first_normal := (normal_optional_iff.mp left).2
      have second_normal := (normal_optional_iff.mp right).2
      rw [normalize_optional_fitsIn_iff (first_normal.widen second_normal) normal,
        ih first_normal second_normal normal, optional_fitsIn_iff left normal,
        optional_fitsIn_iff right normal, ← and_and_left]
  | case9 inner other _ _ _ _ ih =>
      have inner_normal := (normal_optional_iff.mp left).2
      rw [normalize_optional_fitsIn_iff (inner_normal.widen right) normal,
        ih inner_normal right normal, optional_fitsIn_iff left normal, and_assoc]
  | case10 other inner _ _ _ _ ih =>
      have inner_normal := (normal_optional_iff.mp right).2
      rw [normalize_optional_fitsIn_iff (inner_normal.widen left) normal,
        ih inner_normal left normal, optional_fitsIn_iff right normal]
      exact and_rotate.symm
  | case11 => exact ⟨fun fits => ⟨.trans .number fits, fits⟩, And.right⟩
  | case12 => exact ⟨fun fits => ⟨fits, .trans .number fits⟩, And.left⟩
  | case13 first second _ ih => exact array_widen_fitsIn_iff normal (ih left right)
  | case14 first second apart first_any first_null first_single second_any second_null
      second_single _ _ _ no_number no_other no_arrays =>
      -- two definite types that are not alike have nothing in common
      refine ⟨fun fits => ⟨?_, ?_⟩, ?_⟩
      · exact ((any_fitsIn_iff normal).mp fits).2
      · exact ((any_fitsIn_iff normal).mp fits).2
      · rintro ⟨first_fits, second_fits⟩
        have first_cases := first_fits.cases_definite
          (definite_of_ne first_any first_null first_single) normal
        have second_cases := second_fits.cases_definite
          (definite_of_ne second_any second_null second_single) normal
        have everything : c = .any := by grind
        rw [everything]
        exact .refl _

end ValueType

/-! ## The semilattice of normal types -/

/-- A type without redundant wrappers. -/
def NormalType : Type := {type : ValueType // type.Normal}

namespace NormalType

open ValueType

instance : SemilatticeSup NormalType where
  le a b := a.1.FitsIn b.1
  le_refl a := .refl a.1
  le_trans _ _ _ := .trans
  le_antisymm a b first second := Subtype.ext (first.antisymm second a.2 b.2)
  sup a b := ⟨a.1.widen b.1, a.2.widen b.2⟩
  le_sup_left a b := ((widen_fitsIn_iff a.2 b.2 (a.2.widen b.2)).mp (.refl _)).1
  le_sup_right a b := ((widen_fitsIn_iff a.2 b.2 (a.2.widen b.2)).mp (.refl _)).2
  sup_le a b c first second := (widen_fitsIn_iff a.2 b.2 c.2).mpr ⟨first, second⟩

instance : OrderTop NormalType where
  top := ⟨.any, trivial⟩
  le_top a := .any a.1

/-- The normal form of a type. -/
def of (type : ValueType) : NormalType := ⟨type.normalize, type.normal_normalize⟩

theorem of_eq_of_iff {a b : ValueType} : of a = of b ↔ a.normalize = b.normalize :=
  Subtype.ext_iff

theorem of_normalize (a : ValueType) : of a.normalize = of a :=
  of_eq_of_iff.mpr a.normalize_normalize

/-- An optional is the join with `null`. -/
theorem of_optional (a : ValueType) : of (.optional a) = of .null ⊔ of a :=
  Subtype.ext (null_widen a.normalize).symm

/-- Normalizing takes widening to the join, whether or not its arguments are normal. -/
theorem of_widen (a b : ValueType) : of (a.widen b) = of a ⊔ of b := by
  fun_induction ValueType.widen a b with
  | case1 => exact (sup_idem _).symm
  | case2 => exact (top_sup_eq _).symm
  | case3 => exact (sup_top_eq _).symm
  | case4 => rw [of_optional, sup_left_idem]
  | case5 => rw [of_optional, sup_right_comm, sup_idem]
  | case6 => exact of_optional _
  | case7 => rw [of_optional, sup_comm]
  | case8 first second _ ih =>
      rw [of_normalize, of_optional, ih, of_optional, of_optional, sup_sup_distrib_left]
  | case9 inner other _ _ _ _ ih => rw [of_normalize, of_optional, ih, of_optional, sup_assoc]
  | case10 other inner _ _ _ _ ih =>
      rw [of_normalize, of_optional, ih, of_optional, sup_left_comm (of other), sup_comm (of other)]
  | case11 => exact (sup_eq_right.mpr FitsIn.number).symm
  | case12 => exact (sup_eq_left.mpr FitsIn.number).symm
  | case13 first second _ ih =>
      have inside := congrArg Subtype.val ih
      apply Subtype.ext
      calc (ValueType.array (first.widen second)).normalize
        _ = .array (first.normalize.widen second.normalize) := congrArg ValueType.array inside
        _ = _ := (widen_array _ _).symm
  | case14 first second apart first_any first_null first_single second_any second_null
      second_single _ _ _ no_number no_other no_arrays =>
      -- two definite types with nothing in common stay so when they are normalized
      have left := definite_of_ne first_any first_null first_single
      have right := definite_of_ne second_any second_null second_single
      have left_cases := left.normalize_cases
      have right_cases := right.normalize_cases
      apply Subtype.ext
      refine (Definite.widen_eq_any left.normalize right.normalize ?_ ?_ ?_ ?_).symm
      all_goals grind

/-! ## Several types -/

variable {first other : ValueType} {rest others : List ValueType}

/-- Widening one type after the other gives the least type that all of them fit into. -/
theorem of_foldl_widen_le_iff (c : NormalType) :
    of (rest.foldl widen first) ≤ c ↔ ∀ type ∈ first :: rest, of type ≤ c := by
  induction rest generalizing first with
  | nil => simp
  | cons next rest ih =>
      rw [List.foldl_cons, ih, List.forall_mem_cons, List.forall_mem_cons, List.forall_mem_cons,
        of_widen, sup_le_iff, and_assoc]

/-- Neither the order of the types nor how often they are repeated changes what they widen to. -/
theorem of_foldl_widen_congr (same : ∀ type, type ∈ first :: rest ↔ type ∈ other :: others) :
    of (rest.foldl widen first) = of (others.foldl widen other) := by
  refine eq_of_forall_ge_iff fun c => ?_
  rw [of_foldl_widen_le_iff, of_foldl_widen_le_iff]
  exact forall_congr' fun type => imp_congr_left (same type)

end NormalType

/-- What is widened from normal types is normal. -/
theorem ValueType.Normal.foldl_widen {first : ValueType} {rest : List ValueType}
    (normal : ∀ type ∈ first :: rest, type.Normal) :
    (rest.foldl ValueType.widen first).Normal := by
  induction rest generalizing first with
  | nil => exact normal first List.mem_cons_self
  | cons next rest ih =>
      obtain ⟨head, second, tail⟩ := by simpa only [List.forall_mem_cons] using normal
      exact ih (List.forall_mem_cons.mpr ⟨head.widen second, tail⟩)

end Classwright
