/-
# Classwright.Proofs.Render.MemberNaming — member names are identifiers that nothing else uses

A key may be any text.  The member name that it leads to is an identifier with a small first letter,
it is no keyword, and no other field of the class has it.  In Objective-C the names also keep clear
of the methods that generated code defines, and of the words that promise something about memory.
The steps come one after the other, so each has to leave alone what the steps before it have mended
(`IsSound`).

The repairs of a converted key leave marks: a fallback in front, a suffix or a number behind.  A name
without such marks is the member name of a field exactly if the key of a field is converted to it.
So names that generated code uses itself are met by some key, unless a rule keeps clear of them.
-/

import Classwright.Backend.Basic
import Classwright.Proofs.Render.Names
import Classwright.Proofs.Render.Outcome

namespace Classwright

open Text (IsVariant Opens NameSupply)

/-! ## Any rule -/

namespace MemberRule

/-- The last change of a name keeps its shape and makes no keyword of it. -/
structure IsSound (rule : MemberRule) : Prop where
  clear : ∀ word ∈ rule.reserved, Text.standsClear suffix word
  opens : ∀ name, Opens Char.isLower name → Opens Char.isLower (rule.adjust name)
  free : ∀ name, name ∉ rule.reserved → rule.adjust name ∉ rule.reserved

variable {rule : MemberRule} {c : ClassDef} {name : String}

theorem opens_fallback : Opens Char.isLower fallback :=
  ⟨'v', ['a', 'l', 'u', 'e'], by simp [fallback], by decide, by simp [Char.isAlphanum]⟩

/-- A key leads to a name that starts with a small letter. -/
theorem opens_identifierOr (key : String) :
    Opens Char.isLower (Text.identifierOr fallback (Text.camelCase key)) := by
  refine opens_fallback.identifierOr (Text.isAlphanum_of_mem_camelCase key) fun c first noDigit => ?_
  have capital := Text.isUpper_head_camelCase key c first
  have own := Text.isAlphanum_of_mem_camelCase key c (List.mem_of_mem_head? first)
  simpa [Char.isAlphanum, Char.isAlpha, capital, noDigit] using own

theorem IsSound.opens_wanted (sound : rule.IsSound) (key : String) :
    Opens Char.isLower (rule.wanted key) :=
  sound.opens _ ((opens_identifierOr key).escapeReserved (by simp [suffix]))

theorem IsSound.wanted_notMem (sound : rule.IsSound) (key : String) :
    rule.wanted key ∉ rule.reserved :=
  sound.free _ (Text.escapeReserved_notMem sound.clear _)

/-- Every field gets the name that it asks for, or that name with a number. -/
theorem forall₂_names (rule : MemberRule) (c : ClassDef) :
    List.Forall₂ (fun field name => IsVariant (rule.wanted field.key) name) c.fields
      (rule.names c) := by
  have each := NameSupply.forall₂_issueAll (c.fields.map fun field => rule.wanted field.key)
    (NameSupply.empty.reserve rule.generated)
  rwa [List.forall₂_map_left_iff] at each

theorem length_names (rule : MemberRule) (c : ClassDef) :
    (rule.names c).length = c.fields.length :=
  (rule.forall₂_names c).length_eq.symm

theorem isVariant_of_mem_named {member : Field × String} (among : member ∈ rule.named c) :
    IsVariant (rule.wanted member.1.key) member.2 :=
  List.forall₂_zip (rule.forall₂_names c) among

theorem map_snd_named (rule : MemberRule) (c : ClassDef) :
    (rule.named c).map Prod.snd = rule.names c :=
  List.map_snd_zip (rule.length_names c).le

theorem snd_mem_names {member : Field × String} (among : member ∈ rule.named c) :
    member.2 ∈ rule.names c := by
  rw [← map_snd_named]
  exact List.mem_map_of_mem among

theorem exists_isVariant (among : name ∈ rule.names c) :
    ∃ key, IsVariant (rule.wanted key) name := by
  rw [← map_snd_named] at among
  obtain ⟨member, named, rfl⟩ := List.mem_map.mp among
  exact ⟨member.1.key, isVariant_of_mem_named named⟩

theorem nodup_names (rule : MemberRule) (c : ClassDef) : (rule.names c).Nodup :=
  NameSupply.nodup_issueAll _ _

theorem notMem_generated (among : name ∈ rule.names c) : name ∉ rule.generated := fun generated =>
  NameSupply.notMem_taken_of_mem_issueAll among (List.mem_append_left _ generated)

theorem IsSound.opens_name (sound : rule.IsSound) (among : name ∈ rule.names c) :
    Opens Char.isLower name := by
  obtain ⟨key, variant⟩ := exists_isVariant among
  exact (sound.opens_wanted key).variant variant

theorem IsSound.isAlphanum_name (sound : rule.IsSound) (among : name ∈ rule.names c) :
    ∀ c ∈ name.toList, c.isAlphanum :=
  (sound.opens_name among).isAlphanum Text.isAlpha_of_isLower

theorem IsSound.notMem_reserved (sound : rule.IsSound) (among : name ∈ rule.names c) :
    name ∉ rule.reserved := by
  obtain ⟨key, variant⟩ := exists_isVariant among
  exact variant.notMem sound.clear (sound.wanted_notMem key)

/-- Fields that come later leave the names of the others alone. -/
theorem names_prefix (rule : MemberRule) (c : ClassDef) (more : List Field) :
    rule.names c <+: rule.names { c with fields := c.fields ++ more } := by
  rw [names, names, List.map_append, NameSupply.issueAll_append]
  exact List.prefix_append _ _

end MemberRule

/-! ## The rules of the languages -/

theorem Swift.isSound_memberRule : Swift.memberRule.IsSound where
  clear := Lexicon.Swift.standClear.ofMembers
  opens _ own := own
  free _ own := own

theorem Java.isSound_memberRule : Java.memberRule.IsSound where
  clear := Lexicon.Java.standClear.ofMembers
  opens _ own := own
  free _ own := own

namespace ObjectiveC

variable {name base : String}

/-- A name stays out of the families if no family is its whole or goes on with a capital. -/
theorem inMethodFamily_eq_false_iff :
    inMethodFamily name = false ↔
      ∀ family ∈ Lexicon.ObjectiveC.methodFamilies, ∀ rest,
        name.toList = family.toList ++ rest → ∃ c ∈ rest.head?, c.isUpper = false := by
  rw [inMethodFamily, List.any_eq_false]
  refine forall₂_congr fun family _ => ?_
  constructor
  · intro outside rest eq
    rw [List.isPrefixOf?_eq_some_iff_append_eq.mpr eq.symm, Bool.not_eq_true] at outside
    exact (Option.all_eq_false _ _).mp outside
  · intro outside
    split
    · next rest found =>
      have own := outside rest (List.isPrefixOf?_eq_some_iff_append_eq.mp found).symm
      rw [Bool.not_eq_true]
      exact (Option.all_eq_false _ _).mpr own
    · exact Bool.false_ne_true

/-- The families are words of letters, none of which starts like the article. -/
theorem families_spec : ∀ family ∈ Lexicon.ObjectiveC.methodFamilies,
    (∀ c ∈ family.toList, c.isDigit = false) ∧ ∃ c ∈ family.toList.head?, c ≠ 't' := by
  have each : ∀ family ∈ Lexicon.ObjectiveC.methodFamilies,
      family.toList.any Char.isDigit = false ∧ family.toList.head?.any (· != 't') := by
    decide +kernel
  intro family among
  obtain ⟨letters, first⟩ := each family among
  obtain ⟨c, head, other⟩ := (Option.any_eq_true _ _).mp first
  exact ⟨fun c own => (Bool.not_eq_true _).mp (List.any_eq_false.mp letters c own), c, head,
    bne_iff_ne.mp other⟩

/-- A number behind a name does not bring it into a family. -/
theorem inMethodFamily_variant (variant : IsVariant base name)
    (outside : inMethodFamily base = false) : inMethodFamily name = false := by
  obtain ⟨digits, eq, all⟩ := variant.exists_digits
  rw [inMethodFamily_eq_false_iff] at outside ⊢
  intro family among rest whole
  have letters := (families_spec family among).1
  -- a family holds no digits, so it ends where the base ends or before
  have within : ∃ more, base.toList = family.toList ++ more ∧ rest = more ++ digits := by
    rw [eq, List.append_eq_append_iff] at whole
    rcases whole with ⟨more, front, back⟩ | ⟨more, front, back⟩
    · cases more with
      | nil => exact ⟨[], by simpa using front.symm, by simpa using back.symm⟩
      | cons c more =>
          have digit := all c (by simp [back])
          have letter := letters c (by simp [front])
          simp [letter] at digit
    · exact ⟨more, front, back⟩
  obtain ⟨more, front, rfl⟩ := within
  obtain ⟨c, head, small⟩ := outside family among more front
  rw [Option.mem_def, List.head?_eq_some_iff] at head
  obtain ⟨others, rfl⟩ := head
  exact ⟨c, rfl, small⟩

/-- A name with the article in front is in no family. -/
theorem inMethodFamily_article (name : String) :
    inMethodFamily ("the" ++ Text.capitalizeFirst name) = false := by
  rw [inMethodFamily_eq_false_iff]
  intro family among rest whole
  obtain ⟨c, head, other⟩ := (families_spec family among).2
  rw [Option.mem_def, List.head?_eq_some_iff] at head
  obtain ⟨others, eq⟩ := head
  rw [String.toList_append, eq] at whole
  simp at whole
  exact absurd whole.1.symm other

theorem inMethodFamily_avoidFamily (name : String) :
    inMethodFamily (avoidFamily name) = false := by
  rw [avoidFamily]
  split
  · exact inMethodFamily_article name
  · next outside => exact Bool.not_eq_true _ ▸ outside

theorem isSound_memberRule : memberRule.IsSound where
  clear := Lexicon.ObjectiveC.standClear.ofMembers
  opens name own := by
    show Opens Char.isLower (avoidFamily name)
    rw [avoidFamily]
    split
    · have article : Opens Char.isLower "the" :=
        ⟨'t', ['h', 'e'], by simp, by decide, by simp [Char.isAlphanum]⟩
      exact article.append (Text.isAlphanum_of_mem_capitalizeFirst (own.isAlphanum Text.isAlpha_of_isLower))
    · exact own
  free name own := by
    show avoidFamily name ∉ _
    rw [avoidFamily]
    split
    · intro among
      have article : "the".toList <+: ("the" ++ Text.capitalizeFirst name).toList := by
        rw [String.toList_append]
        exact List.prefix_append _ _
      exact Lexicon.ObjectiveC.noArticle _ among article
    · exact own

/-- No getter promises a reference that the caller owns. -/
theorem inMethodFamily_of_mem_names {c : ClassDef} (among : name ∈ memberRule.names c) :
    inMethodFamily name = false := by
  obtain ⟨key, variant⟩ := MemberRule.exists_isVariant among
  have adjusted : memberRule.wanted key = avoidFamily (Text.escapeReserved
      Lexicon.ObjectiveC.keywords MemberRule.suffix
        (Text.identifierOr MemberRule.fallback (Text.camelCase key))) := by
    simp only [MemberRule.wanted, memberRule]
  rw [adjusted] at variant
  exact inMethodFamily_variant variant (inMethodFamily_avoidFamily _)

end ObjectiveC

/-! ## Any language -/

namespace Language

/-- How the language names members. -/
def memberRule : Language → MemberRule
  | .swift => Swift.memberRule
  | .objectiveC => ObjectiveC.memberRule
  | .java => Java.memberRule

/-- The keywords of the language. -/
def keywords : Language → List String
  | .swift => Lexicon.Swift.keywords
  | .objectiveC => Lexicon.ObjectiveC.keywords
  | .java => Lexicon.Java.keywords

theorem isSound_memberRule (language : Language) : language.memberRule.IsSound := by
  cases language with
  | swift => exact Swift.isSound_memberRule
  | objectiveC => exact ObjectiveC.isSound_memberRule
  | java => exact Java.isSound_memberRule

theorem reserved_memberRule (language : Language) :
    language.memberRule.reserved = language.keywords := by
  cases language <;> rfl

end Language

/-- In every language and whatever the keys are, each field of a class has a member name, the one
that its key leads to or that one with a number.  No two fields have the same.  Each is an
identifier that starts with a small letter, and none is a keyword.  In Objective-C none is a method
that generated code defines either, and none is in a method family: no word of a family is its whole
or goes on with a capital.  Fields behind the others leave the names of the others as they are. -/
theorem memberNames_tell_fields_apart (language : Language) (c : ClassDef) :
    List.Forall₂ (fun field name => IsVariant (language.memberRule.wanted field.key) name)
      c.fields (language.memberRule.names c) ∧
    (language.memberRule.names c).Nodup ∧
    (∀ name ∈ language.memberRule.names c, Text.isIdentifier name ∧
      (∃ first ∈ name.toList.head?, first.isLower) ∧ name ∉ language.keywords) ∧
    (language = .objectiveC → ∀ name ∈ language.memberRule.names c,
      name ∉ Lexicon.ObjectiveC.generatedMembers ∧
      ∀ family ∈ Lexicon.ObjectiveC.methodFamilies, ∀ rest,
        name.toList = family.toList ++ rest → ∃ first ∈ rest.head?, first.isUpper = false) ∧
    ∀ more, language.memberRule.names c <+:
      language.memberRule.names { c with fields := c.fields ++ more } := by
  have sound := language.isSound_memberRule
  refine ⟨MemberRule.forall₂_names _ c, MemberRule.nodup_names _ c, fun name among => ?_, ?_,
    MemberRule.names_prefix _ c⟩
  · have own := sound.opens_name among
    have free := sound.notMem_reserved among
    rw [language.reserved_memberRule] at free
    refine ⟨own.isIdentifier Text.isAlpha_of_isLower, ?_, free⟩
    obtain ⟨first, rest, eq, low, _⟩ := own
    exact ⟨first, by rw [eq]; rfl, low⟩
  · rintro rfl name among
    exact ⟨MemberRule.notMem_generated among,
      ObjectiveC.inMethodFamily_eq_false_iff.mp (ObjectiveC.inMethodFamily_of_mem_names among)⟩

/-- A class whose keys ask for a word of a method family, for the same name again, for a keyword,
and for a method that generated code defines. -/
def ClassDef.awkward : ClassDef :=
  ⟨"Car", [⟨"new", .integer⟩, ⟨"the_new", .integer⟩, ⟨"class", .string⟩,
    ⟨"dictionary representation", .any⟩]⟩

/-- Each of its fields gets a name that is fit for use. -/
theorem memberNames_awkward :
    Language.objectiveC.memberRule.names .awkward =
        ["theNew", "theNew2", "classValue", "dictionaryRepresentation2"] ∧
      "dictionaryRepresentation2" ∉ Lexicon.ObjectiveC.generatedMembers ∧
      "theNew2" ∉ Language.objectiveC.keywords := by
  have wanted : (ClassDef.awkward.fields.map
      fun field => Language.objectiveC.memberRule.wanted field.key) =
        ["theNew", "theNew", "classValue", "dictionaryRepresentation"] := by decide +kernel
  have names : Language.objectiveC.memberRule.names .awkward =
      ["theNew", "theNew2", "classValue", "dictionaryRepresentation2"] := by
    rw [MemberRule.names, wanted]
    cbv
  obtain ⟨_, _, shape, apart, _⟩ := memberNames_tell_fields_apart .objectiveC .awkward
  rw [names] at shape apart
  exact ⟨names, (apart rfl _ (by simp)).1, (shape _ (by simp)).2.2⟩

/-! ## Names that only their own keys lead to -/

namespace MemberRule

/-- No repair leads to the name, and nothing makes the rule give it up. -/
structure IsPlainName (rule : MemberRule) (name : String) : Prop where
  opens : ∃ c ∈ name.toList.head?, c.isDigit = false
  apart : ¬ fallback.toList <+: name.toList
  clear : Text.standsClear suffix name
  free : name ∉ rule.reserved
  open_ : name ∉ rule.generated
  adjust : ∀ other, rule.adjust other = name ↔ other = name

variable {rule : MemberRule} {c : ClassDef} {name other : String}

namespace IsPlainName

theorem identifierOr_eq_iff (plain : rule.IsPlainName name) :
    Text.identifierOr fallback other = name ↔ other = name := by
  unfold Text.identifierOr
  split
  · next empty =>
    refine ⟨?_, ?_⟩
    · rintro rfl
      exact absurd List.prefix_rfl plain.apart
    · rintro rfl
      obtain ⟨c, first, _⟩ := plain.opens
      rw [empty] at first
      cases first
  · next c rest eq =>
    split
    · next digit =>
      refine ⟨?_, ?_⟩
      · rintro rfl
        exact absurd ⟨other.toList, String.toList_append.symm⟩ plain.apart
      · rintro rfl
        obtain ⟨d, first, letter⟩ := plain.opens
        rw [eq] at first
        cases first
        exact absurd (digit.symm.trans letter) (by decide)
    · exact Iff.rfl

theorem escapeReserved_eq_iff (plain : rule.IsPlainName name) :
    Text.escapeReserved rule.reserved suffix other = name ↔ other = name := by
  unfold Text.escapeReserved
  split
  · next reserved =>
    refine ⟨fun same => absurd same (Text.ne_append_of_standsClear plain.clear other), ?_⟩
    rintro rfl
    exact absurd reserved plain.free
  · exact Iff.rfl

/-- The name is asked for by the keys that are converted to it. -/
theorem wanted_eq_iff (plain : rule.IsPlainName name) {key : String} :
    rule.wanted key = name ↔ Text.camelCase key = name := by
  rw [wanted, plain.adjust, plain.escapeReserved_eq_iff, plain.identifierOr_eq_iff]

/-- A field has the name exactly if the key of some field is converted to it. -/
theorem mem_names_iff (plain : rule.IsPlainName name) :
    name ∈ rule.names c ↔ ∃ field ∈ c.fields, Text.camelCase field.key = name := by
  constructor
  · intro among
    obtain ⟨field, listed, variant⟩ := exists_of_forall₂ (rule.forall₂_names c) name among
    refine ⟨field, listed, plain.wanted_eq_iff.mp ?_⟩
    rcases variant.eq_or_isDigit_getLast with same | ⟨last, ends, digit⟩
    · exact same.symm
    · have clear := plain.clear
      rw [Option.mem_def] at ends
      simp [Text.standsClear, ends, digit] at clear
  · rintro ⟨field, listed, converted⟩
    refine Text.NameSupply.mem_issueAll ?_ ?_
    · exact List.mem_map.mpr ⟨field, listed, plain.wanted_eq_iff.mpr converted⟩
    · rw [Text.NameSupply.reserve, List.mem_append, not_or]
      exact ⟨plain.open_, List.not_mem_nil⟩

end IsPlainName

end MemberRule

end Classwright
