/-
# Classwright.Proofs.Render.Readability — a type can be read from its spelling in Swift

Brackets and question marks stand around words, and no word holds any of them.  So a spelling ends
with what its type is: a bracket for an array, a question mark for an optional, and else the whole
of it is one word.  Words are the names of four types that the language has and the type names of
classes, and no two types share a word.
-/

import Classwright.Proofs.Render.Support
import Classwright.Proofs.Render.TypeNaming
import Classwright.Proofs.Schema.Widening

namespace Classwright

open Text (IsWord isIdentifierPart)

namespace Swift

/-! ## Words -/

/-- The types that the language has a word for. -/
def basics : List (ValueType × String) :=
  [(.integer, "Int"), (.float, "Double"), (.string, "String"), (.boolean, "Bool")]

/-- The type is called by the word: the language has it, or it is a class of that type name. -/
def IsCalled (names : TypeNames) (type : ValueType) (word : String) : Prop :=
  (type, word) ∈ basics ∨
    ∃ className, type = .reference className ∧ names.get className = .ok word

/-- Type names are words that tell classes apart, also from the types that the language has. -/
structure AreApart (names : TypeNames) : Prop where
  word : ∀ className typeName, names.get className = .ok typeName → IsWord typeName
  distinct : ∀ className other typeName, names.get className = .ok typeName →
    names.get other = .ok typeName → className = other
  free : ∀ className typeName, names.get className = .ok typeName →
    typeName ∉ basics.map Prod.snd

variable {names : TypeNames} {t u : ValueType} {word : String} {cs : List Char}

theorem IsCalled.isWord (apart : AreApart names) (called : IsCalled names t word) :
    IsWord word := by
  have own : ∀ entry ∈ basics, IsWord entry.2 := by decide +kernel
  rcases called with listed | ⟨className, _, found⟩
  · exact own _ listed
  · exact apart.word _ _ found

/-- No two types share a word. -/
theorem IsCalled.unique (apart : AreApart names) (called : IsCalled names t word)
    (also : IsCalled names u word) : t = u := by
  have shared {type : ValueType} {className : String} (listed : (type, word) ∈ basics)
      (found : names.get className = .ok word) : False :=
    apart.free _ _ found (List.mem_map_of_mem (f := Prod.snd) listed)
  rcases called with listed | ⟨className, rfl, found⟩ <;> rcases also with again | ⟨other, rfl, too⟩
  · have distinct : (basics.map Prod.snd).Nodup := by decide
    exact congrArg Prod.fst (List.inj_on_of_nodup_map distinct listed again rfl)
  · exact (shared listed too).elim
  · exact (shared again found).elim
  · rw [apart.distinct _ _ _ found too]

/-! ## Spellings -/

/-- `Spelled names type cs`: the characters are a spelling of the type. -/
inductive Spelled (names : TypeNames) : ValueType → List Char → Prop
  | word {type : ValueType} {word : String} (called : IsCalled names type word) :
      Spelled names type word.toList
  | array {item : ValueType} {cs : List Char} (inside : Spelled names item cs) :
      Spelled names (.array item) ('[' :: cs ++ [']'])
  | optional {inner : ValueType} {cs : List Char} (inside : Spelled names inner cs) :
      Spelled names (.optional inner) (cs ++ ['?'])

theorem spelled_of_spell {place : FieldPlace} {text : String}
    (found : spell names place t = .ok text) : Spelled names t text.toList := by
  induction t generalizing text with
  | integer | float | string | boolean =>
      cases found
      exact .word (.inl (by decide))
  | reference className => exact .word (.inr ⟨className, rfl, found⟩)
  | array item ih =>
      obtain ⟨inner, inside, rfl⟩ := exists_of_map_ok found
      simpa [String.toList_append] using (ih inside).array
  | optional item ih =>
      obtain ⟨inner, inside, rfl⟩ := exists_of_map_ok found
      simpa [String.toList_append] using (ih inside).optional
  | any | null => cases found

/-- The place is for faults only. -/
theorem spell_elsewhere {place : FieldPlace} {text : String}
    (found : spell names place t = .ok text) (elsewhere : FieldPlace) :
    spell names elsewhere t = .ok text := by
  induction t generalizing text with
  | array item ih =>
      obtain ⟨inner, inside, rfl⟩ := exists_of_map_ok found
      rw [spell, ih inside]
      rfl
  | optional item ih =>
      obtain ⟨inner, inside, rfl⟩ := exists_of_map_ok found
      rw [spell, ih inside]
      rfl
  | any | null => cases found
  | _ => exact found

/-- A character that is in no word is not in this one. -/
theorem IsCalled.ne (apart : AreApart names) (called : IsCalled names t word) {c : Char}
    (other : isIdentifierPart c = false) (among : c ∈ cs) : word.toList ≠ cs := by
  rintro rfl
  rw [called.isWord apart c among] at other
  cases other

/-- No two types have the same spelling. -/
theorem Spelled.unique (apart : AreApart names) (own : Spelled names t cs)
    (also : Spelled names u cs) : t = u := by
  induction own generalizing u with
  | @word t word called =>
      generalize same : word.toList = cs at also
      cases also with
      | word again => exact called.unique apart (String.toList_inj.mp same ▸ again)
      | array _ => exact (called.ne apart (c := '[') rfl (by simp) same).elim
      | optional _ => exact (called.ne apart (c := '?') rfl (by simp) same).elim
  | @array item cs inside ih =>
      generalize same : '[' :: cs ++ [']'] = ds at also
      cases also with
      | word again => exact (again.ne apart (c := '[') rfl (by simp) same.symm).elim
      | array further =>
          have inner := (List.cons.inj (List.append_cancel_right same)).2
          rw [ih (inner ▸ further)]
      | optional _ => exact absurd (List.append_inj' same rfl).2 (by decide)
  | @optional inner cs inside ih =>
      generalize same : cs ++ ['?'] = ds at also
      cases also with
      | word again => exact (again.ne apart (c := '?') rfl (by simp) same.symm).elim
      | array _ => exact absurd (List.append_inj' same rfl).2 (by decide)
      | optional further => rw [ih (List.append_cancel_right same ▸ further)]

end Swift

/-! ## Types of a schema -/

/-- The type says what its values are, and the schema has all classes in it. -/
structure Schema.Expresses (s : Schema) (type : ValueType) : Prop where
  noAny : ∀ arrays, ¬ ValueType.any.OccursUnder arrays type
  noNull : ∀ arrays, ¬ ValueType.null.OccursUnder arrays type
  declared : ∀ name, type.Mentions name → ∃ c ∈ s.classes, c.name = name

variable {s : Schema} {classPrefix : String}

theorem Swift.areApart_typeNames (valid : classPrefix = "" ∨ Text.isIdentifier classPrefix) :
    Swift.AreApart (Language.swift.typeNames classPrefix s) where
  word _ _ found :=
    Text.isIdentifierPart_of_isIdentifier (TypeNames.isIdentifier_of_get valid found)
  distinct _ _ _ found again := TypeNames.eq_of_get_eq found again
  free _ typeName found := by
    have reserved : ∀ word ∈ Swift.basics.map Prod.snd, word ∈ Lexicon.Swift.reservedTypeNames := by
      decide +kernel
    exact fun among => TypeNames.notMem_reserved_of_get
      Language.swift.standClear_reservedTypeNames found (reserved _ among)

/-- A type that a schema can express has a spelling. -/
theorem Swift.exists_spelling (classPrefix : String) {type : ValueType}
    (expresses : s.Expresses type) (place : FieldPlace) :
    ∃ text, Language.swift.spelling (Language.swift.typeNames classPrefix s) place type =
      .ok text := by
  have knows : (Language.swift.typeNames classPrefix s).Knows type := fun target mentions => by
    obtain ⟨c, among, rfl⟩ := expresses.declared target mentions
    exact TypeNames.exists_get among
  refine (Swift.failsIff_spell place knows.normalize).value ?_
  rw [Language.unsupported_normalize]
  rintro ⟨arrays, inside | inside⟩
  · exact expresses.noAny arrays inside
  · exact expresses.noNull arrays inside

/-- In Swift and behind every prefix that can open an identifier, types that a schema can express
have spellings, and two of them are spelled alike exactly if they have the same normal form.  So
normal types are spelled alike only if they are the same: a class is never called like a type of the
language or like another class, and the optional of an array is spelled otherwise than an array of
optionals. -/
theorem spelling_determines_type (valid : classPrefix = "" ∨ Text.isIdentifier classPrefix)
    {t u : ValueType} (first : s.Expresses t) (second : s.Expresses u)
    (place elsewhere : FieldPlace) :
    ∃ text other,
      Language.swift.spelling (Language.swift.typeNames classPrefix s) place t = .ok text ∧
      Language.swift.spelling (Language.swift.typeNames classPrefix s) elsewhere u = .ok other ∧
      (text = other ↔ t.normalize = u.normalize) ∧
      (t.Normal → u.Normal → (text = other ↔ t = u)) := by
  have apart := Swift.areApart_typeNames (s := s) valid
  obtain ⟨text, found⟩ := Swift.exists_spelling classPrefix first place
  obtain ⟨other, also⟩ := Swift.exists_spelling classPrefix second elsewhere
  have alike : text = other ↔ t.normalize = u.normalize := by
    constructor
    · rintro rfl
      exact (Swift.spelled_of_spell found).unique apart (Swift.spelled_of_spell also)
    · intro same
      have again := Swift.spell_elsewhere found elsewhere
      rw [same] at again
      exact Except.ok.inj (again.symm.trans also)
  refine ⟨text, other, found, also, alike, fun normal normal' => ?_⟩
  rw [alike, normal.normalize_eq, normal'.normalize_eq]

theorem Schema.namesakes_expresses_string :
    Schema.namesakes.Expresses (.optional (.array (.reference "string"))) where
  noAny | _, .optional (.array inside) => nomatch inside
  noNull | _, .optional (.array inside) => nomatch inside
  declared target mentions := by
    obtain rfl : target = "string" := by
      simpa [ValueType.references] using ValueType.mem_references_iff.mpr mentions
    exact ⟨⟨"string", []⟩, List.mem_cons_self, rfl⟩

theorem Schema.namesakes_expresses_text :
    Schema.namesakes.Expresses (.array (.optional .string)) where
  noAny | _, .array (.optional inside) => nomatch inside
  noNull | _, .array (.optional inside) => nomatch inside
  declared target mentions := by
    simpa [ValueType.references] using ValueType.mem_references_iff.mpr mentions

/-- The optional of an array of objects whose class would like to be called `String` is not spelled
like an array of optional texts. -/
theorem spelling_determines_type_namesakes :
    (("" = "" ∨ Text.isIdentifier "") ∧
      Schema.namesakes.Expresses (.optional (.array (.reference "string"))) ∧
      Schema.namesakes.Expresses (.array (.optional .string))) ∧
    ∃ text other,
      Language.swift.spelling (Language.swift.typeNames "" .namesakes) ⟨"Box", "items"⟩
        (.optional (.array (.reference "string"))) = .ok text ∧
      Language.swift.spelling (Language.swift.typeNames "" .namesakes) ⟨"Box", "labels"⟩
        (.array (.optional .string)) = .ok other ∧
      text ≠ other := by
  have valid : "" = "" ∨ Text.isIdentifier "" := .inl rfl
  have first := Schema.namesakes_expresses_string
  have second := Schema.namesakes_expresses_text
  obtain ⟨text, other, own, also, _, alike⟩ :=
    spelling_determines_type valid first second ⟨"Box", "items"⟩ ⟨"Box", "labels"⟩
  refine ⟨⟨valid, first, second⟩, text, other, own, also, fun same => ?_⟩
  have normal : (ValueType.optional (.array (.reference "string"))).Normal :=
    ⟨rfl, nofun, nofun, trivial⟩
  have normal' : (ValueType.array (.optional .string)).Normal := ⟨rfl, nofun, nofun, trivial⟩
  cases (alike normal normal').mp same

end Classwright
