/-
# Classwright.Proofs.Options — settings depend on what is given, not on the order

Options are applied one after the other, each to what the ones before it left.  What comes out can
be said without that: each setting has the value given for its key, or else its default, and what a
key may be given is one of three forms (`OptionForm`).  A rule means its key and its form (`Means`)
if it reads exactly the values of the form and changes settings described by some values into those
described by one value more.  So all options together lead to the settings described by them, and
since no key is given twice, their order does not count.

In Java the setters are the one setting that asks for two keys.  The draft of Java's settings
remembers whether the one that counts was given, and that, too, is described by what is given.
-/

import Mathlib
import Classwright.Proofs.Render.Outcome
import Classwright.Proofs.Schema.Sound
import Classwright.Proofs.Settings

namespace Classwright

open Function (update)

/-- What is given for each key. -/
abbrev Given := String → Option String

/-! ## Forms of values -/

/-- What the value of an option may be. -/
inductive OptionForm where
  | anyText
  | oneOf (tags : List String)
  | truth
  deriving DecidableEq, Repr

/-- The value has the form. -/
def OptionForm.Fits (value : String) : OptionForm → Prop
  | .anyText => True
  | .oneOf tags => value ∈ tags
  | .truth => Text.lowerCase value ∈ ["true", "yes", "1", "false", "no", "0"]

instance (value : String) (form : OptionForm) : Decidable (form.Fits value) := by
  cases form <;> unfold OptionForm.Fits <;> infer_instance

/-- The truth value that a text stands for. -/
def truth? (value : String) : Option Bool :=
  OptionRule.truthValues.lookup (Text.lowerCase value)

/-- What is chosen for a key. -/
def Given.choice {α : Type} (given : Given) (key : String) (choices : List (String × α)) :
    Option α :=
  (given key).bind fun value => choices.lookup value

/-- Whether a key is on. -/
def Given.flag (given : Given) (key : String) : Option Bool := (given key).bind truth?

namespace OptionRule

variable {σ τ α : Type} {describe : Given → σ}

/-! ## Rules -/

/-- The rule is for the key, reads the values of the form, and turns settings described by some
values into the settings described by one value more. -/
structure Means (describe : Given → σ) (rule : OptionRule σ) (option : String × OptionForm) :
    Prop where
  key : rule.key = option.1
  reads : ∀ value, (∃ change, rule.read value = .ok change) ↔ option.2.Fits value
  puts : ∀ value change, rule.read value = .ok change → ∀ given,
    change (describe given) = describe (update given option.1 (some value))

namespace Means

variable {key : String} {option : String × OptionForm}

theorem text {put : String → σ → σ} (puts : ∀ given value,
      put value (describe given) = describe (update given key (some value))) :
    Means describe (.text key put) (key, .anyText) where
  key := rfl
  reads value := iff_of_true ⟨_, rfl⟩ trivial
  puts value change read given := by
    cases read
    exact puts given value

theorem optionalText {put : Option String → σ → σ} (puts : ∀ given value,
      put (present value) (describe given) = describe (update given key (some value))) :
    Means describe (.optionalText key put) (key, .anyText) where
  key := rfl
  reads value := iff_of_true ⟨_, rfl⟩ trivial
  puts value change read given := by
    cases read
    exact puts given value

/-- A rule that looks the value up. -/
theorem of_lookup (lookup : String → Option α) {rule : OptionRule σ} {put : α → σ → σ}
    {form : OptionForm} (own : rule.key = key)
    (read : ∀ value change, rule.read value = .ok change ↔
      ∃ chosen, lookup value = some chosen ∧ change = put chosen)
    (fits : ∀ value, (∃ chosen, lookup value = some chosen) ↔ form.Fits value)
    (puts : ∀ given value chosen, lookup value = some chosen →
      put chosen (describe given) = describe (update given key (some value))) :
    Means describe rule (key, form) where
  key := own
  reads value := by
    rw [← fits value]
    constructor
    · rintro ⟨change, done⟩
      obtain ⟨chosen, found, _⟩ := (read value change).mp done
      exact ⟨chosen, found⟩
    · rintro ⟨chosen, found⟩
      exact ⟨put chosen, (read value _).mpr ⟨chosen, found, rfl⟩⟩
  puts value change done given := by
    obtain ⟨chosen, found, rfl⟩ := (read value change).mp done
    exact puts given value chosen found

theorem choice {choices : List (String × α)} {put : α → σ → σ}
    (puts : ∀ given value chosen, choices.lookup value = some chosen →
      put chosen (describe given) = describe (update given key (some value))) :
    Means describe (.choice key choices put) (key, .oneOf (choices.map Prod.fst)) := by
  refine of_lookup (fun value => choices.lookup value) rfl (fun value change => ?_)
    (fun value => ?_) puts
  · simp only [OptionRule.choice]
    split
    · next chosen found => simp [found, eq_comm]
    · next none => simp [none]
  · exact exists_lookup_iff

theorem flag {put : Bool → σ → σ} (puts : ∀ given value on, truth? value = some on →
      put on (describe given) = describe (update given key (some value))) :
    Means describe (.flag key put) (key, .truth) := by
  refine of_lookup truth? rfl (fun value change => ?_) (fun value => ?_) puts
  · simp only [OptionRule.flag, truth?]
    split
    · next chosen found => simp [found, eq_comm]
    · next none => simp [none]
  · exact exists_lookup_iff

theorem lift {within : (σ → σ) → τ → τ} {rule : OptionRule σ} {whole : Given → τ}
    (means : Means describe rule option)
    (puts : ∀ given value change,
      change (describe given) = describe (update given option.1 (some value)) →
      within change (whole given) = whole (update given option.1 (some value))) :
    Means whole (rule.lift within) option where
  key := means.key
  reads value := by
    rw [← means.reads value]
    simp only [OptionRule.lift]
    cases rule.read value with
    | error flaw => simp [Except.map]
    | ok change => simp [Except.map]
  puts value change read given := by
    simp only [OptionRule.lift] at read
    cases inside : rule.read value with
    | error flaw =>
        rw [inside] at read
        cases read
    | ok inner =>
        rw [inside] at read
        cases read
        exact puts given value inner (means.puts value inner inside given)

/-- Rules of settings that are part of other settings. -/
theorem lift_all {within : (σ → σ) → τ → τ} {whole : Given → τ} {rules : List (OptionRule σ)}
    {forms : List (String × OptionForm)} (means : List.Forall₂ (Means describe) rules forms)
    (puts : ∀ key ∈ forms.map Prod.fst, ∀ given value change,
      change (describe given) = describe (update given key (some value)) →
      within change (whole given) = whole (update given key (some value))) :
    List.Forall₂ (Means whole) (rules.map (.lift within)) forms := by
  induction means with
  | nil => exact .nil
  | cons first _ ih =>
      obtain ⟨own, others⟩ := List.forall_mem_cons.mp puts
      exact .cons (first.lift own) (ih others)

end Means

/-! ## All options -/

/-- The options without blanks around keys and values. -/
def trimmed (pairs : List (String × String)) : List (String × String) :=
  pairs.map fun pair => (Text.trim pair.1, Text.trim pair.2)

/-- The rule for the key reads the value. -/
def Accepts (rules : List (OptionRule σ)) (option : String × String) : Prop :=
  ∃ rule, rules.find? (·.key = option.1) = some rule ∧
    ∃ change, rule.read option.2 = .ok change

/-- What is given after further options. -/
def assign (given : Given) (options : List (String × String)) : Given :=
  options.foldl (fun given option => update given option.1 (some option.2)) given

theorem assign_cons (given : Given) (option : String × String) (options : List (String × String)) :
    assign given (option :: options) =
      assign (update given option.1 (some option.2)) options := rfl

section Rules

variable {rules : List (OptionRule σ)} {forms : List (String × OptionForm)} {given : Given}
  {key value : String}

theorem accepts_iff (means : List.Forall₂ (Means describe) rules forms) :
    Accepts rules (key, value) ↔ ∃ form, forms.lookup key = some form ∧ form.Fits value := by
  induction means with
  | nil => simp [Accepts]
  | @cons rule option rules forms first _ ih =>
      obtain ⟨name, form⟩ := option
      have named : rule.key = name := first.key
      by_cases here : key = name
      · have found : (rule :: rules).find? (·.key = key) = some rule :=
          List.find?_cons_of_pos (by simp [named, here])
        have own : ((name, form) :: forms).lookup key = some form := by
          simp only [List.lookup_cons, here, beq_self_eq_true]
        simp only [Accepts, found, own, Option.some.injEq, exists_eq_left']
        exact first.reads value
      · have found : (rule :: rules).find? (·.key = key) = rules.find? (·.key = key) :=
          List.find?_cons_of_neg (by simp [named, Ne.symm here])
        have own : ((name, form) :: forms).lookup key = forms.lookup key := by
          simp only [List.lookup_cons, beq_eq_false_iff_ne.mpr here]
        rw [own, ← ih, Accepts, Accepts, found]

/-- The rules have the keys of the forms. -/
theorem map_key_eq (means : List.Forall₂ (Means describe) rules forms) :
    rules.map (·.key) = forms.map Prod.fst := by
  induction means with
  | nil => rfl
  | cons first _ ih => rw [List.map_cons, List.map_cons, first.key, ih]

/-- A rule that is found changes described settings as it should. -/
theorem puts_of_find? (means : List.Forall₂ (Means describe) rules forms) {rule : OptionRule σ}
    {change : σ → σ} (known : rules.find? (·.key = key) = some rule)
    (read : rule.read value = .ok change) :
    change (describe given) = describe (update given key (some value)) := by
  obtain ⟨option, _, own⟩ := exists_of_forall₂ means.flip rule (List.mem_of_find?_eq_some known)
  have same : option.1 = key := by
    rw [← own.key]
    simpa using List.find?_some known
  rw [own.puts value change read given, same]

end Rules

theorem applyAll_cons_eq_ok_iff {language : Language} {rules : List (OptionRule σ)}
    {seen : List String} {settings result : σ} {pair : String × String}
    {pairs : List (String × String)} :
    applyAll language rules seen settings (pair :: pairs) = .ok result ↔
      Text.trim pair.1 ∉ seen ∧
        ∃ rule, rules.find? (·.key = Text.trim pair.1) = some rule ∧
          ∃ change, rule.read (Text.trim pair.2) = .ok change ∧
            applyAll language rules (Text.trim pair.1 :: seen) (change settings) pairs =
              .ok result := by
  rw [applyAll]
  by_cases old : Text.trim pair.1 ∈ seen
  · simp [old]
  · rw [if_neg old]
    cases known : rules.find? (·.key = Text.trim pair.1) with
    | none => simp
    | some rule =>
        cases read : rule.read (Text.trim pair.2) with
        | error flaw => simp [read]
        | ok change => simp [read, old]

/-- One option after the other is given its value, if all are accepted and none is there twice. -/
theorem applyAll_eq_ok_iff {language : Language} {rules : List (OptionRule σ)}
    {forms : List (String × OptionForm)} (means : List.Forall₂ (Means describe) rules forms)
    {seen : List String} {given : Given} {pairs : List (String × String)} {result : σ} :
    applyAll language rules seen (describe given) pairs = .ok result ↔
      (((trimmed pairs).map Prod.fst).Nodup ∧ ∀ option ∈ trimmed pairs, option.1 ∉ seen) ∧
        (∀ option ∈ trimmed pairs, Accepts rules option) ∧
        result = describe (assign given (trimmed pairs)) := by
  induction pairs generalizing seen given with
  | nil => simp [applyAll, trimmed, assign, eq_comm]
  | cons pair pairs ih =>
      have front : trimmed (pair :: pairs) =
        (Text.trim pair.1, Text.trim pair.2) :: trimmed pairs := rfl
      rw [front, ClassList.nodup_unseen_cons, List.forall_mem_cons, applyAll_cons_eq_ok_iff,
        assign_cons]
      constructor
      · rintro ⟨new, rule, known, change, read, done⟩
        -- the settings are described again, now with one value more, so the induction goes on
        rw [puts_of_find? means known read] at done
        obtain ⟨⟨distinct, unseen⟩, accepted, rfl⟩ := ih.mp done
        exact ⟨⟨new, distinct, unseen⟩, ⟨⟨rule, known, change, read⟩, accepted⟩, rfl⟩
      · rintro ⟨⟨new, distinct, unseen⟩, ⟨⟨rule, known, change, read⟩, accepted⟩, rfl⟩
        refine ⟨new, rule, known, change, read, ?_⟩
        rw [puts_of_find? means known read]
        exact ih.mpr ⟨⟨distinct, unseen⟩, accepted, rfl⟩

/-- Where no key is given twice, what is given for a key is found by looking it up. -/
theorem assign_eq {options : List (String × String)} (distinct : (options.map Prod.fst).Nodup)
    (given : Given) (key : String) :
    assign given options key = (options.lookup key).or (given key) := by
  induction options generalizing given with
  | nil => rfl
  | cons option options ih =>
      obtain ⟨name, value⟩ := option
      obtain ⟨new, distinct⟩ := List.nodup_cons.mp distinct
      have rest := ih distinct (update given name (some value))
      by_cases here : key = name
      · subst here
        have absent : options.lookup key = none := by
          rw [Option.eq_none_iff_forall_ne_some]
          exact fun value found => new (exists_lookup_iff.mp ⟨value, found⟩)
        rw [absent, Option.none_or, Function.update_self] at rest
        rw [List.lookup_cons_self, Option.some_or]
        exact rest
      · rw [Function.update_of_ne here] at rest
        simp only [List.lookup_cons, beq_eq_false_iff_ne.mpr here]
        exact rest

end OptionRule

open OptionRule (Means present trimmed)

/-! ## Settings of the languages -/

/-- The forms of the values that every language knows. -/
def generalForms : List (String × OptionForm) :=
  [("class_prefix", .anyText), ("file_layout", .oneOf ["per_class", "single_file"]),
    ("single_file_name", .anyText), ("dedup", .oneOf ["by_path", "by_shape"])]

namespace GeneralSettings

/-- What is given, and else the default. -/
def described (given : Given) : GeneralSettings where
  classPrefix := (given "class_prefix").getD ""
  fileLayout := (given.choice "file_layout" FileLayout.tags).getD .perClass
  singleFileName := (given "single_file_name").getD "Models"
  mergePolicy := (given.choice "dedup" MergePolicy.tags).getD .byPath

theorem means_rules : List.Forall₂ (Means described) rules generalForms :=
  .cons (.text fun given value => by simp [described, Given.choice]) <|
    .cons (.choice fun given value chosen found => by simp [described, Given.choice, found]) <|
      .cons (.text fun given value => by simp [described, Given.choice]) <|
        .cons (.choice fun given value chosen found => by simp [described, Given.choice, found])
          .nil

/-- What is to be shown for each key of these settings. -/
theorem forall_key_iff {P : String → Prop} :
    (∀ key ∈ generalForms.map Prod.fst, P key) ↔
      P "class_prefix" ∧ P "file_layout" ∧ P "single_file_name" ∧ P "dedup" := by
  simp [generalForms]

end GeneralSettings

namespace SwiftSettings

/-- The forms of the values that only Swift knows. -/
def forms : List (String × OptionForm) :=
  [("type_kind", .oneOf ["struct", "class", "final_class"]), ("base_class", .anyText),
    ("access_level", .oneOf ["internal", "public", "open"]), ("mutable_properties", .truth),
    ("equatable", .truth), ("codable", .truth)]

/-- What is given, and else the default. -/
def described (given : Given) : SwiftSettings where
  toGeneralSettings := .described given
  kind := (given.choice "type_kind" SwiftKind.tags).getD .struct
  baseClass := (given "base_class").bind present
  access := (given.choice "access_level" SwiftAccess.tags).getD .module
  mutable := (given.flag "mutable_properties").getD false
  equatable := (given.flag "equatable").getD true
  codable := (given.flag "codable").getD true

theorem means_rules : List.Forall₂ (Means described) rules (generalForms ++ forms) := by
  refine List.rel_append (Means.lift_all GeneralSettings.means_rules ?_) ?_
  · refine GeneralSettings.forall_key_iff.mpr ⟨?_, ?_, ?_, ?_⟩
    all_goals
      intro given value change eq
      simp [described, Given.choice, Given.flag, eq]
  · refine .cons (.choice fun given value chosen found => ?_) <|
      .cons (.optionalText fun given value => ?_) <|
      .cons (.choice fun given value chosen found => ?_) <|
      .cons (.flag fun given value chosen found => ?_) <|
      .cons (.flag fun given value chosen found => ?_) <|
      .cons (.flag fun given value chosen found => ?_) .nil
    all_goals simp [described, GeneralSettings.described, Given.choice, Given.flag, *]

end SwiftSettings

namespace ObjectiveCSettings

/-- The forms of the values that only Objective-C knows. -/
def forms : List (String × OptionForm) :=
  [("base_class", .anyText), ("use_arc", .truth), ("atomic", .truth)]

/-- What is given, and else the default. -/
def described (given : Given) : ObjectiveCSettings where
  toGeneralSettings := .described given
  baseClass := (given "base_class").getD "NSObject"
  countsReferences := (given.flag "use_arc").getD true
  atomic := (given.flag "atomic").getD false

theorem means_rules : List.Forall₂ (Means described) rules (generalForms ++ forms) := by
  refine List.rel_append (Means.lift_all GeneralSettings.means_rules ?_) ?_
  · refine GeneralSettings.forall_key_iff.mpr ⟨?_, ?_, ?_, ?_⟩
    all_goals
      intro given value change eq
      simp [described, Given.flag, eq]
  · refine .cons (.text fun given value => ?_) <|
      .cons (.flag fun given value on found => ?_) <|
      .cons (.flag fun given value on found => ?_) .nil
    all_goals simp [described, GeneralSettings.described, Given.choice, Given.flag, *]

end ObjectiveCSettings

namespace JavaSettings

/-- The forms of the values that only Java knows. -/
def forms : List (String × OptionForm) :=
  [("package", .anyText), ("base_class", .anyText), ("immutable", .truth),
    ("generate_setters", .truth)]

/-- What is given, and else the default.  Without a word about setters there are setters unless the
classes are immutable. -/
def described (given : Given) : JavaSettings where
  toGeneralSettings := .described given
  package := (given "package").bind present
  baseClass := (given "base_class").bind present
  immutable := (given.flag "immutable").getD false
  setters := ((given.flag "generate_setters").or ((given.flag "immutable").map (!·))).getD true

/-- The draft that what is given leads to. -/
def Draft.described (given : Given) : Draft where
  settings := .described given
  settersGiven := (given.flag "generate_setters").isSome

/-- Said of immutable classes, a word decides on setters only as long as none on them was given. -/
theorem Draft.setImmutable_described {given : Given} {value : String} {immutable : Bool}
    (found : truth? value = some immutable) :
    (Draft.described given).setImmutable immutable =
      Draft.described (update given "immutable" (some value)) := by
  cases said : (given "generate_setters").bind truth? <;>
    simp [setImmutable, modify, Draft.described, JavaSettings.described,
      GeneralSettings.described, Given.choice, Given.flag, said, found]

theorem means_rules : List.Forall₂ (Means Draft.described) rules (generalForms ++ forms) := by
  refine List.rel_append (Means.lift_all GeneralSettings.means_rules ?_) ?_
  · refine GeneralSettings.forall_key_iff.mpr ⟨?_, ?_, ?_, ?_⟩
    all_goals
      intro given value change eq
      simp [Draft.described, described, Draft.modify, Given.flag, eq]
  · refine .cons (.optionalText fun given value => ?_) <|
      .cons (.optionalText fun given value => ?_) <|
      .cons (.flag fun given value immutable found => Draft.setImmutable_described found) <|
      .cons (.flag fun given value setters found => ?_) .nil
    all_goals
      simp [Draft.described, Draft.modify, Draft.setSetters, described, GeneralSettings.described,
        Given.choice, Given.flag, *]

end JavaSettings

/-! ## Settings of any language -/

namespace Settings

/-- The keys of a language with the forms of their values. -/
def forms : Language → List (String × OptionForm)
  | .swift => generalForms ++ SwiftSettings.forms
  | .objectiveC => generalForms ++ ObjectiveCSettings.forms
  | .java => generalForms ++ JavaSettings.forms

/-- The settings in which everything that is given has its value and everything else its default. -/
def described (language : Language) (given : Given) : Settings :=
  match language with
  | .swift => .swift (.described given)
  | .objectiveC => .objectiveC (.described given)
  | .java => .java (.described given)

example (language : Language) : described language (fun _ => none) = initial language := by
  cases language <;> rfl

/-- The value is one that the key may be given. -/
def WellFormed (language : Language) (key value : String) : Prop :=
  ∀ form, (forms language).lookup key = some form → form.Fits value

/-- What is given for each key, blanks apart. -/
def givenBy (pairs : List (String × String)) : Given := fun key => (trimmed pairs).lookup key

/-- The table of keys lists the keys of the rules, in their order. -/
theorem keys_eq_map_rules (language : Language) :
    keys language =
      match language with
      | .swift => SwiftSettings.rules.map (·.key)
      | .objectiveC => ObjectiveCSettings.rules.map (·.key)
      | .java => JavaSettings.rules.map (·.key) := by
  cases language <;> rfl

theorem map_fst_forms (language : Language) : (forms language).map Prod.fst = keys language := by
  rw [keys_eq_map_rules]
  cases language with
  | swift => exact (OptionRule.map_key_eq SwiftSettings.means_rules).symm
  | objectiveC => exact (OptionRule.map_key_eq ObjectiveCSettings.means_rules).symm
  | java => exact (OptionRule.map_key_eq JavaSettings.means_rules).symm

theorem exists_form_iff {language : Language} {option : String × String} :
    (∃ form, (forms language).lookup option.1 = some form ∧ form.Fits option.2) ↔
      option.1 ∈ keys language ∧ WellFormed language option.1 option.2 := by
  rw [← map_fst_forms, ← exists_lookup_iff]
  constructor
  · rintro ⟨form, found, fits⟩
    refine ⟨⟨form, found⟩, fun other same => ?_⟩
    rw [found] at same
    cases same
    exact fits
  · rintro ⟨⟨form, found⟩, fits⟩
    exact ⟨form, found, fits form found⟩

theorem map_applyAll_eq_ok_iff {σ : Type} {describe : Given → σ} {rules : List (OptionRule σ)}
    {forms : List (String × OptionForm)} (means : List.Forall₂ (Means describe) rules forms)
    {language : Language} {wrap : σ → Settings} {pairs : List (String × String)}
    {settings : Settings} :
    (OptionRule.applyAll language rules [] (describe fun _ => none) pairs).map wrap =
        .ok settings ↔
      ((trimmed pairs).map Prod.fst).Nodup ∧
        (∀ option ∈ trimmed pairs, ∃ form, forms.lookup option.1 = some form ∧
          form.Fits option.2) ∧
        settings = wrap (describe (givenBy pairs)) := by
  have accepts : ∀ option, OptionRule.Accepts rules option ↔
      ∃ form, forms.lookup option.1 = some form ∧ form.Fits option.2 :=
    fun option => OptionRule.accepts_iff means
  -- what was assigned one after the other is found by looking it up
  have values : ((trimmed pairs).map Prod.fst).Nodup →
      OptionRule.assign (fun _ => none) (trimmed pairs) = givenBy pairs := by
    intro distinct
    funext key
    rw [OptionRule.assign_eq distinct, Option.or_none, givenBy]
  simp only [← accepts]
  constructor
  · intro done
    obtain ⟨result, applied, rfl⟩ := exists_of_map_ok done
    obtain ⟨⟨distinct, _⟩, accepted, rfl⟩ := (OptionRule.applyAll_eq_ok_iff means).mp applied
    rw [values distinct]
    exact ⟨distinct, accepted, rfl⟩
  · rintro ⟨distinct, accepted, rfl⟩
    have applied : OptionRule.applyAll language rules [] (describe fun _ => none) pairs =
        .ok (describe (givenBy pairs)) := by
      rw [← values distinct]
      exact (OptionRule.applyAll_eq_ok_iff means).mpr ⟨⟨distinct, by simp⟩, accepted, rfl⟩
    rw [applied]
    rfl

theorem applied_eq_ok_iff {language : Language} {pairs : List (String × String)}
    {settings : Settings} :
    applied language pairs = .ok settings ↔
      ((trimmed pairs).map Prod.fst).Nodup ∧
        (∀ option ∈ trimmed pairs,
          option.1 ∈ keys language ∧ WellFormed language option.1 option.2) ∧
        settings = described language (givenBy pairs) := by
  simp only [← exists_form_iff]
  cases language with
  | swift => exact map_applyAll_eq_ok_iff SwiftSettings.means_rules
  | objectiveC => exact map_applyAll_eq_ok_iff ObjectiveCSettings.means_rules
  | java => exact map_applyAll_eq_ok_iff JavaSettings.means_rules

/-- Java's loop decides on setters at either of two options.  What it ends with is what would come
out if the question were left open until all options are read, whichever of the two comes first. -/
theorem setters_of_applied {pairs : List (String × String)} {s : JavaSettings}
    (done : applied .java pairs = .ok (.java s)) :
    s.setters = ((givenBy pairs).flag "generate_setters").getD (!s.immutable) := by
  obtain ⟨_, _, same⟩ := applied_eq_ok_iff.mp done
  obtain rfl : s = .described (givenBy pairs) := Settings.java.inj same
  simp only [JavaSettings.described]
  cases (givenBy pairs).flag "generate_setters" <;>
    cases (givenBy pairs).flag "immutable" <;> rfl

theorem ofPairs_eq_ok_iff_applied {language : Language} {pairs : List (String × String)}
    {settings : Settings} :
    ofPairs language pairs = .ok settings ↔
      applied language pairs = .ok settings ∧ settings.fault? = none := by
  rw [ofPairs]
  cases applied language pairs with
  | error fault => simp
  | ok result =>
      simp only [checked, Except.ok.injEq]
      cases faulty : result.fault? with
      | some fault =>
          refine iff_of_false nofun ?_
          rintro ⟨rfl, faultless⟩
          rw [faulty] at faultless
          cases faultless
      | none =>
          refine ⟨?_, fun own => congrArg _ own.1⟩
          rintro ⟨⟩
          exact ⟨rfl, faulty⟩

/-- Options that differ only in their order, and in blanks around keys and values, lead to the same
settings, or none of them does. -/
theorem ofPairs_of_perm_trimmed {language : Language} {pairs others : List (String × String)}
    (same : (trimmed others).Perm (trimmed pairs)) (settings : Settings) :
    ofPairs language others = .ok settings ↔ ofPairs language pairs = .ok settings := by
  rw [ofPairs_eq_ok_iff_applied, ofPairs_eq_ok_iff_applied, applied_eq_ok_iff, applied_eq_ok_iff,
    (same.map Prod.fst).nodup_iff]
  refine and_congr_left fun _ => and_congr_right fun distinct => ?_
  -- what is given is looked up, and without a key given twice that is the same in any order
  have given : givenBy others = givenBy pairs :=
    funext fun key => (lookup_eq_of_perm same.symm distinct).symm
  rw [given]
  simp only [same.mem_iff]

/-- Options lead to settings exactly if no key is given twice, blanks apart, every key is one of the
language, every value is well formed, and the settings that they describe are without fault.  Then
those are the settings.  Their order does not count. -/
theorem ofPairs_eq_ok_iff (language : Language) (pairs : List (String × String)) :
    (∀ settings, ofPairs language pairs = .ok settings ↔
      ((trimmed pairs).map Prod.fst).Nodup ∧
        (∀ option ∈ trimmed pairs,
          option.1 ∈ keys language ∧ WellFormed language option.1 option.2) ∧
        (described language (givenBy pairs)).fault? = none ∧
        settings = described language (givenBy pairs)) ∧
    ∀ others, others.Perm pairs → ∀ settings,
      ofPairs language others = .ok settings ↔ ofPairs language pairs = .ok settings := by
  have spec : ∀ pairs settings, ofPairs language pairs = .ok settings ↔
      ((trimmed pairs).map Prod.fst).Nodup ∧
        (∀ option ∈ trimmed pairs,
          option.1 ∈ keys language ∧ WellFormed language option.1 option.2) ∧
        (described language (givenBy pairs)).fault? = none ∧
        settings = described language (givenBy pairs) := by
    intro pairs settings
    rw [ofPairs_eq_ok_iff_applied]
    constructor
    · rintro ⟨applied, faultless⟩
      obtain ⟨distinct, fitting, rfl⟩ := applied_eq_ok_iff.mp applied
      exact ⟨distinct, fitting, faultless, rfl⟩
    · rintro ⟨distinct, fitting, faultless, rfl⟩
      exact ⟨applied_eq_ok_iff.mpr ⟨distinct, fitting, rfl⟩, faultless⟩
  exact ⟨spec pairs, fun others perm => ofPairs_of_perm_trimmed (perm.map _)⟩

/-- Immutable classes have no setters, in whatever case and between whatever blanks it is said. -/
example : ofPairs .java [(" immutable ", "YES")] = .ok (.java .ofImmutable) := rfl

end Settings

end Classwright
