/-
# Classwright.Proofs.Schema.Observation — a class does not depend on the order of its samples

Samples are observed one property at a time.  Whatever the observations and their order, the class
has one field for each key, in the order in which the keys were first observed, and the type of a
field is widened from the types observed for its key, in turn (`Sums`).  One observation keeps that
up, so any number of them does.

What types are widened to depends on the set of them alone, up to `normalize`.  So two lists with
the same observations, in any order and with any repetitions, lead to the same class except for the
order of its fields.
-/

import Mathlib
import Classwright.Proofs.Schema.Sound
import Classwright.Proofs.Schema.Widening

namespace Classwright.ClassDef

/-- The class after observing properties of the given keys and types, one after the other. -/
def observed (name : String) (observations : List (String × ValueType)) : ClassDef :=
  observations.foldl (fun c observation => c.observe observation.1 observation.2) (named name)

/-- The types observed for a key. -/
def typesAt (key : String) (observations : List (String × ValueType)) : List ValueType :=
  (observations.filter (·.1 = key)).map (·.2)

variable {key : String} {type : ValueType} {fields : List Field}
  {observations first second : List (String × ValueType)}

theorem mem_typesAt : type ∈ typesAt key observations ↔ (key, type) ∈ observations := by
  simp [typesAt]

/-! ## One observation -/

/-- A key that is new goes to the end, and any other one stays where it is. -/
theorem keys_observeField (key : String) (type : ValueType) (fields : List Field) :
    (observeField key type fields).map (·.key) =
      if key ∈ fields.map (·.key) then fields.map (·.key) else fields.map (·.key) ++ [key] := by
  induction fields with
  | nil => rfl
  | cons field fields ih =>
      rw [observeField]
      by_cases here : field.key = key
      · simp [here]
      · rw [if_neg here, List.map_cons, ih]
        simp only [List.map_cons, List.mem_cons, Ne.symm here, false_or]
        split <;> rfl

/-- The other fields stay as they are.  The field of the key is new, or its type was widened. -/
theorem mem_observeField {field : Field} (distinct : (fields.map (·.key)).Nodup)
    (among : field ∈ observeField key type fields) :
    (field.key ≠ key ∧ field ∈ fields) ∨
      (key ∉ fields.map (·.key) ∧ field = ⟨key, type⟩) ∨
      ∃ old ∈ fields, old.key = key ∧ field = ⟨key, old.type.widen type⟩ := by
  induction fields with
  | nil => exact .inr (.inl ⟨List.not_mem_nil, List.mem_singleton.mp among⟩)
  | cons head fields ih =>
      obtain ⟨new, distinct⟩ := List.nodup_cons.mp distinct
      rw [observeField] at among
      by_cases here : head.key = key
      · subst here
        rw [if_pos rfl] at among
        rcases List.mem_cons.mp among with rfl | among
        · exact .inr (.inr ⟨head, List.mem_cons_self, rfl, rfl⟩)
        · refine .inl ⟨?_, List.mem_cons_of_mem head among⟩
          intro same
          exact new (List.mem_map.mpr ⟨field, among, same⟩)
      · rw [if_neg here] at among
        rcases List.mem_cons.mp among with rfl | among
        · exact .inl ⟨here, List.mem_cons_self⟩
        · rcases ih distinct among with ⟨other, among⟩ | ⟨unseen, eq⟩ | ⟨old, among, same⟩
          · exact .inl ⟨other, List.mem_cons_of_mem head among⟩
          · refine .inr (.inl ⟨?_, eq⟩)
            rw [List.map_cons, List.mem_cons, not_or]
            exact ⟨Ne.symm here, unseen⟩
          · exact .inr (.inr ⟨old, List.mem_cons_of_mem head among, same⟩)

/-! ## All observations -/

/-- The fields are what the observations come to. -/
structure Sums (observations : List (String × ValueType)) (fields : List Field) : Prop where
  /-- There is a field for each key, in the order in which the keys were first observed. -/
  keys : fields.map (·.key) = (observations.map (·.1)).eraseDups
  /-- A type is widened from the types observed for its key, in turn. -/
  types : ∀ field ∈ fields, ∃ first rest, typesAt field.key observations = first :: rest ∧
    field.type = rest.foldl ValueType.widen first

theorem Sums.distinct (sums : Sums observations fields) : (fields.map (·.key)).Nodup := by
  rw [sums.keys]
  exact ClassList.nodup_eraseDups _

theorem Sums.mem_keys_iff (sums : Sums observations fields) :
    key ∈ fields.map (·.key) ↔ key ∈ observations.map (·.1) := by
  rw [sums.keys, List.mem_eraseDups]

theorem Sums.observe (sums : Sums observations fields) (key : String) (type : ValueType) :
    Sums (observations ++ [(key, type)]) (observeField key type fields) where
  keys := by
    rw [keys_observeField, sums.keys, List.map_append, List.eraseDups_append]
    simp only [List.mem_eraseDups, List.map_cons, List.map_nil, List.removeAll, List.filter_cons,
      List.filter_nil]
    by_cases old : key ∈ observations.map (·.1)
    · simp [old]
    · simp [old, List.eraseDups_cons]
  types field among := by
    have later : typesAt field.key (observations ++ [(key, type)]) =
        typesAt field.key observations ++ if key = field.key then [type] else [] := by
      simp [typesAt, List.filter_cons]
      split <;> simp
    rw [later]
    rcases mem_observeField sums.distinct among with
      ⟨other, old⟩ | ⟨new, rfl⟩ | ⟨old, known, rfl, rfl⟩
    · rw [if_neg (Ne.symm other), List.append_nil]
      exact sums.types field old
    · have none : typesAt key observations = [] := by
        refine List.eq_nil_iff_forall_not_mem.mpr fun type among => new ?_
        exact sums.mem_keys_iff.mpr (List.mem_map_of_mem (mem_typesAt.mp among))
      rw [if_pos rfl, none]
      exact ⟨type, [], rfl, rfl⟩
    · obtain ⟨first, rest, eq, whole⟩ := sums.types old known
      refine ⟨first, rest ++ [type], ?_, ?_⟩
      · rw [if_pos rfl, eq, List.cons_append]
      · rw [List.foldl_append, ← whole]
        rfl

theorem name_observed (name : String) (observations : List (String × ValueType)) :
    (observed name observations).name = name := by
  induction observations using List.reverseRecOn with
  | nil => rfl
  | append_singleton observations observation ih =>
      rw [observed, List.foldl_append]
      exact ih

/-- Any observations come to what they should. -/
theorem sums_observed (name : String) (observations : List (String × ValueType)) :
    Sums observations (observed name observations).fields := by
  induction observations using List.reverseRecOn with
  | nil => exact ⟨rfl, nofun⟩
  | append_singleton observations observation ih =>
      rw [observed, List.foldl_append]
      exact ih.observe observation.1 observation.2

/-! ## Faults -/

/-- Among keys that are told apart only the empty one is at fault. -/
theorem keyFault?_of_nodup {className : String} {seen : List String}
    (distinct : (fields.map (·.key)).Nodup) (new : ∀ key ∈ fields.map (·.key), key ∉ seen) :
    keyFault? className seen fields =
      if "" ∈ fields.map (·.key) then some (.emptyKey className) else none := by
  induction fields generalizing seen with
  | nil => rfl
  | cons field fields ih =>
      obtain ⟨apart, distinct⟩ := List.nodup_cons.mp distinct
      obtain ⟨first, others⟩ := List.forall_mem_cons.mp new
      rw [keyFault?, if_neg first, List.map_cons]
      by_cases empty : field.key = ""
      · rw [if_pos empty, if_pos (empty ▸ List.mem_cons_self)]
      · rw [if_neg empty, ih distinct]
        · simp only [List.mem_cons, Ne.symm empty, false_or]
        · intro key among
          rw [List.mem_cons, not_or]
          refine ⟨?_, others key among⟩
          rintro rfl
          exact apart among

/-- What is wrong with the class depends on its name and on whether the empty key was observed. -/
theorem fault?_observed (name : String) (observations : List (String × ValueType)) :
    (observed name observations).fault? =
      if Text.isAllBlank name then some .blankClassName
      else if "" ∈ observations.map (·.1) then some (.emptyKey name) else none := by
  have sums := sums_observed name observations
  rw [fault?, name_observed, keyFault?_of_nodup sums.distinct (by simp)]
  simp only [sums.mem_keys_iff]

/-! ## The same observations in another order -/

/-- Types widened from the same types have the same normal form. -/
theorem normalize_type_observed {name : String}
    (same : ∀ observation, observation ∈ first ↔ observation ∈ second) {field other : Field}
    (among : field ∈ (observed name first).fields)
    (amongOther : other ∈ (observed name second).fields)
    (sameKey : field.key = other.key) : field.type.normalize = other.type.normalize := by
  obtain ⟨head, rest, eq, whole⟩ := (sums_observed name first).types field among
  obtain ⟨head', rest', eq', whole'⟩ := (sums_observed name second).types other amongOther
  rw [whole, whole', ← NormalType.of_eq_of_iff]
  refine NormalType.of_foldl_widen_congr fun type => ?_
  rw [← eq, ← eq', mem_typesAt, mem_typesAt, sameKey]
  exact same _

/-- Where all observed types are normal, so are the types of the fields. -/
theorem normal_type_observed {name : String}
    (normal : ∀ observation ∈ observations, observation.2.Normal) {field : Field}
    (among : field ∈ (observed name observations).fields) : field.type.Normal := by
  obtain ⟨head, rest, eq, whole⟩ := (sums_observed name observations).types field among
  rw [whole]
  refine ValueType.Normal.foldl_widen fun type within => ?_
  exact normal (field.key, type) (mem_typesAt.mp (eq ▸ within))

/-- Two lists of the same observations, in any order and with any repetitions, lead to the same
fault, or to two classes with the same keys, each listing them as they were first observed, and with
the same types, up to normalizing in general and literally where all types are normal. -/
theorem checked_observed_of_same_members (name : String)
    (first second : List (String × ValueType))
    (same : ∀ observation, observation ∈ first ↔ observation ∈ second) :
    (∃ fault, (observed name first).checked = .error fault ∧
      (observed name second).checked = .error fault) ∨
    ∃ c d, (observed name first).checked = .ok c ∧ (observed name second).checked = .ok d ∧
      c.fields.map (·.key) = (first.map (·.1)).eraseDups ∧ (c.fields.map (·.key)).Nodup ∧
      d.fields.map (·.key) = (second.map (·.1)).eraseDups ∧ (d.fields.map (·.key)).Nodup ∧
      (∀ key, key ∈ c.fields.map (·.key) ↔ key ∈ d.fields.map (·.key)) ∧
      ∀ field ∈ c.fields, ∀ other ∈ d.fields, field.key = other.key →
        field.type.normalize = other.type.normalize ∧
        ((∀ observation ∈ first, observation.2.normalize = observation.2) →
          field.type = other.type) := by
  have sameKeys : ∀ key, key ∈ first.map (·.1) ↔ key ∈ second.map (·.1) := by
    simp [same]
  have sameFault : (observed name first).fault? = (observed name second).fault? := by
    rw [fault?_observed, fault?_observed]
    simp only [sameKeys]
  cases fault : (observed name first).fault? with
  | some found =>
      refine .inl ⟨found, ?_, ?_⟩
      · rw [checked, fault]
      · rw [checked, ← sameFault, fault]
  | none =>
      have sums := sums_observed name first
      have sumsSecond := sums_observed name second
      refine .inr ⟨observed name first, observed name second, ?_, ?_, sums.keys, sums.distinct,
        sumsSecond.keys, sumsSecond.distinct, ?_, ?_⟩
      · rw [checked, fault]
      · rw [checked, ← sameFault, fault]
      · intro key
        rw [sums.mem_keys_iff, sumsSecond.mem_keys_iff, sameKeys]
      · intro field among other amongOther sameKey
        have alike := normalize_type_observed same among amongOther sameKey
        refine ⟨alike, fun plain => ?_⟩
        -- from normal observations comes a normal type, so there is nothing left to normalize
        have normal : ∀ observation ∈ first, observation.2.Normal :=
          fun observation seen => ValueType.normalize_eq_self_iff.mp (plain observation seen)
        have normalSecond : ∀ observation ∈ second, observation.2.Normal :=
          fun observation seen => normal observation ((same observation).mpr seen)
        calc field.type
          _ = field.type.normalize := (normal_type_observed normal among).normalize_eq.symm
          _ = other.type.normalize := alike
          _ = other.type := (normal_type_observed normalSecond amongOther).normalize_eq

/-- Four samples of a reading, and the same ones in another order with one of them twice. -/
def readings : List (String × ValueType) :=
  [("value", .integer), ("unit", .string), ("value", .float), ("unit", .null)]

@[inherit_doc readings]
def readingsAgain : List (String × ValueType) :=
  [("unit", .null), ("value", .float), ("unit", .string), ("unit", .null), ("value", .integer)]

theorem checked_observed_readings :
    ∃ c d, (observed "Reading" readings).checked = .ok c ∧
      (observed "Reading" readingsAgain).checked = .ok d ∧
      c.fields.map (·.key) = ["value", "unit"] ∧ d.fields.map (·.key) = ["unit", "value"] ∧
      ∀ field ∈ c.fields, ∀ other ∈ d.fields, field.key = other.key → field.type = other.type := by
  have same : ∀ observation, observation ∈ readings ↔ observation ∈ readingsAgain := by
    intro observation
    simp only [readings, readingsAgain, List.mem_cons, List.not_mem_nil, or_false]
    tauto
  rcases checked_observed_of_same_members "Reading" readings readingsAgain same with
    ⟨fault, failed, _⟩ | ⟨c, d, built, builtAgain, keys, _, keysAgain, _, _, types⟩
  · have sound : (observed "Reading" readings).fault? = none := by
      rw [fault?_observed]
      decide
    rw [checked, sound] at failed
    cases failed
  · refine ⟨c, d, built, builtAgain, keys.trans (by decide), keysAgain.trans (by decide), ?_⟩
    intro field among other amongOther sameKey
    exact (types field among other amongOther sameKey).2 (by decide)

end Classwright.ClassDef
