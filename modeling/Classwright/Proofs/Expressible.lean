/-
# Classwright.Proofs.Expressible — options for any settings without fault

Settings can be written down as options, a value for every key of their language.  Applying these
options gives the settings back if they are without fault.  Two things stand in the way, and the
checks rule out both: blanks around a value are lost, but no name and no package holds a blank; and
an empty text takes a base class or a package back, but neither of them can be empty.

So the settings that options lead to are exactly the settings without fault.
-/

import Mathlib
import Classwright.Proofs.Options
import Classwright.Proofs.Text.Lines

namespace Classwright

open OptionRule (present trimmed)

/-! ## Values that keep all their characters -/

namespace Text

/-- No character of the text is a blank. -/
def IsSolid (text : String) : Prop := ∀ c ∈ text.toList, isBlank c = false

theorem isBlank_of_isIdentifierPart {c : Char} (own : isIdentifierPart c) : isBlank c = false := by
  rw [isIdentifierPart, Bool.or_eq_true] at own
  rcases own with own | own
  · exact forall_alphanum (P := fun c => isBlank c = false) (by decide +kernel) own
  · rw [eq_of_beq own]
    decide

theorem IsSolid.of_isIdentifier {name : String} (own : isIdentifier name) : IsSolid name :=
  fun c among => isBlank_of_isIdentifierPart (isIdentifierPart_of_isIdentifier own c among)

theorem IsSolid.trim {text : String} (solid : IsSolid text) : trim text = text := by
  have keeps : ∀ cs : List Char, (∀ c ∈ cs, isBlank c = false) → cs.dropWhile isBlank = cs := by
    intro cs solid
    refine List.dropWhile_eq_self_iff.mpr fun nonempty => ?_
    rw [solid _ (List.getElem_mem nonempty)]
    exact Bool.false_ne_true
  have whole : trimChars text.toList = text.toList := by
    rw [trimChars, keeps _ solid, keeps _ fun c among => solid c (List.mem_reverse.mp among),
      List.reverse_reverse]
  rw [Text.trim, whole, String.ofList_toList]

end Text

open Text (IsSolid)

theorem Text.IsSolid.getD {name : Option String} (solid : ∀ text ∈ name, IsSolid text) :
    IsSolid (name.getD "") := by
  cases name with
  | none => simp [IsSolid]
  | some text => exact solid text rfl

/-- A package holds no blanks: it consists of identifiers and dots. -/
theorem JavaSettings.isSolid_of_isPackage {name : String} (valid : isPackage name) :
    IsSolid name := by
  intro c among
  obtain rfl | ⟨part, identifier, own⟩ := mem_of_isPackage valid among
  · decide
  · exact IsSolid.of_isIdentifier identifier c own

/-! ## Texts for single settings -/

/-- The tag under which a choice is listed. -/
def tagOf {α : Type} [DecidableEq α] (choices : List (String × α)) (chosen : α) : String :=
  ((choices.find? (·.2 = chosen)).map Prod.fst).getD ""

/-- The text of a truth value. -/
def flagText (on : Bool) : String := if on then "true" else "false"

theorem lookup_tagOf {α : Type} [DecidableEq α] {choices : List (String × α)} {chosen : α}
    (distinct : (choices.map Prod.fst).Nodup) (listed : chosen ∈ choices.map Prod.snd) :
    choices.lookup (tagOf choices chosen) = some chosen := by
  obtain ⟨entry, among, rfl⟩ := List.mem_map.mp listed
  cases found : choices.find? (·.2 = entry.2) with
  | none => simpa using List.find?_eq_none.mp found entry among
  | some other =>
      have same : other.2 = entry.2 := by simpa using List.find?_some found
      rw [tagOf, found, lookup_eq_some_iff_mem distinct, ← same]
      exact List.mem_of_find?_eq_some found

theorem FileLayout.lookup_tagOf (layout : FileLayout) :
    FileLayout.tags.lookup (tagOf FileLayout.tags layout) = some layout :=
  Classwright.lookup_tagOf (by decide) (by cases layout <;> decide)

theorem MergePolicy.lookup_tagOf (policy : MergePolicy) :
    MergePolicy.tags.lookup (tagOf MergePolicy.tags policy) = some policy :=
  Classwright.lookup_tagOf (by decide) (by cases policy <;> decide)

theorem SwiftKind.lookup_tagOf (kind : SwiftKind) :
    SwiftKind.tags.lookup (tagOf SwiftKind.tags kind) = some kind :=
  Classwright.lookup_tagOf (by decide) (by cases kind <;> decide)

theorem SwiftAccess.lookup_tagOf (access : SwiftAccess) :
    SwiftAccess.tags.lookup (tagOf SwiftAccess.tags access) = some access :=
  Classwright.lookup_tagOf (by decide) (by cases access <;> decide)

theorem truth?_flagText (on : Bool) : truth? (flagText on) = some on := by
  cases on <;> rfl

/-- A missing text is written as the empty one, and read back as missing; so a text that is there
must not be empty. -/
theorem present_getD {name : Option String} (filled : ∀ text ∈ name, text ≠ "") :
    present (name.getD "") = name := by
  cases name with
  | none => rfl
  | some text => exact if_neg (filled text rfl)

theorem Text.ne_empty_of_isIdentifier {name : String} (own : isIdentifier name) : name ≠ "" := by
  rintro rfl
  cases own

theorem JavaSettings.ne_empty_of_isPackage {name : String} (valid : isPackage name) :
    name ≠ "" := by
  rintro rfl
  cases valid

/-! ## Options for every key -/

/-- The value has the form, and trimming leaves it as it is. -/
def OptionForm.Holds (form : OptionForm) (value : String) : Prop := form.Fits value ∧ IsSolid value

/-- There is one option for each key, in the order of the keys, with a value that its form holds. -/
def Fills (options : List (String × String)) (forms : List (String × OptionForm)) : Prop :=
  List.Forall₂ (fun option form => option.1 = form.1 ∧ form.2.Holds option.2) options forms

namespace OptionForm.Holds

theorem text {value : String} (solid : IsSolid value) : anyText.Holds value := ⟨trivial, solid⟩

theorem tag {α : Type} [DecidableEq α] {choices : List (String × α)} {chosen : α}
    (listed : choices.lookup (tagOf choices chosen) = some chosen)
    (words : ∀ tag ∈ choices.map Prod.fst, Text.isIdentifier tag) :
    (oneOf (choices.map Prod.fst)).Holds (tagOf choices chosen) := by
  have among := exists_lookup_iff.mp ⟨chosen, listed⟩
  exact ⟨among, .of_isIdentifier (words _ among)⟩

theorem flag (on : Bool) : truth.Holds (flagText on) := by
  refine ⟨exists_lookup_iff.mp ⟨on, truth?_flagText on⟩, .of_isIdentifier ?_⟩
  cases on <;> decide +kernel

end OptionForm.Holds

theorem Fills.map_fst {options : List (String × String)} {forms : List (String × OptionForm)}
    (fills : Fills options forms) : options.map Prod.fst = forms.map Prod.fst := by
  induction fills with
  | nil => rfl
  | cons first _ ih => rw [List.map_cons, List.map_cons, first.1, ih]

theorem Settings.isIdentifier_of_mem_keys {language : Language} :
    ∀ key ∈ keys language, Text.isIdentifier key := by
  cases language <;> decide +kernel

theorem Settings.nodup_keys (language : Language) : (keys language).Nodup := by
  cases language <;> decide

/-- Options that fill the forms of a language lead to the settings that they describe. -/
theorem Settings.applied_of_fills {language : Language} {options : List (String × String)}
    (fills : Fills options (forms language)) :
    applied language options = .ok (described language fun key => options.lookup key) := by
  have distinct : ((forms language).map Prod.fst).Nodup := by
    rw [map_fst_forms]
    exact nodup_keys language
  -- an option keeps its key and its value, and the form of the key is the one it fills
  have each : ∀ option ∈ options, (Text.trim option.1, Text.trim option.2) = option ∧
      ∃ form, (forms language).lookup option.1 = some form ∧ form.Fits option.2 := by
    intro option among
    obtain ⟨form, listed, key, fits, solid⟩ := exists_of_forall₂ fills.flip option among
    have found : (option.1, form.2) ∈ forms language := by rwa [key]
    have known : option.1 ∈ keys language := by
      rw [← map_fst_forms]
      exact List.mem_map.mpr ⟨_, found, rfl⟩
    refine ⟨?_, form.2, (lookup_eq_some_iff_mem distinct).mpr found, fits⟩
    rw [(IsSolid.of_isIdentifier (isIdentifier_of_mem_keys _ known)).trim, solid.trim]
  have same : trimmed options = options :=
    (List.map_congr_left fun option among => (each option among).1).trans options.map_id
  have given : givenBy options = fun key => options.lookup key := by
    unfold givenBy
    rw [same]
  rw [applied_eq_ok_iff, same, fills.map_fst, given]
  exact ⟨distinct, fun option among => exists_form_iff.mp (each option among).2, rfl⟩

/-! ## Options for every setting -/

/-- The options for settings that every language has. -/
def GeneralSettings.options (s : GeneralSettings) : List (String × String) :=
  [("class_prefix", s.classPrefix), ("file_layout", tagOf FileLayout.tags s.fileLayout),
    ("single_file_name", s.singleFileName), ("dedup", tagOf MergePolicy.tags s.mergePolicy)]

theorem GeneralSettings.fills_options {language : Language} {keywords : List String}
    {s : GeneralSettings} (valid : s.fault? language keywords = none) :
    Fills s.options generalForms := by
  obtain ⟨classPrefix, singleFileName, _⟩ := GeneralSettings.fault?_eq_none_iff.mp valid
  have solid : IsSolid s.classPrefix := by
    rcases classPrefix with empty | own
    · simp [empty, IsSolid]
    · exact .of_isIdentifier own
  exact .cons ⟨rfl, .text solid⟩ <|
    .cons ⟨rfl, .tag s.fileLayout.lookup_tagOf (by decide +kernel)⟩ <|
    .cons ⟨rfl, .text (.of_isIdentifier singleFileName)⟩ <|
    .cons ⟨rfl, .tag s.mergePolicy.lookup_tagOf (by decide +kernel)⟩ .nil

namespace SwiftSettings

/-- The options for settings for Swift. -/
def options (s : SwiftSettings) : List (String × String) :=
  s.toGeneralSettings.options ++
    [("type_kind", tagOf SwiftKind.tags s.kind), ("base_class", s.baseClass.getD ""),
      ("access_level", tagOf SwiftAccess.tags s.access),
      ("mutable_properties", flagText s.mutable), ("equatable", flagText s.equatable),
      ("codable", flagText s.codable)]

theorem described_options {s : SwiftSettings} (filled : ∀ name ∈ s.baseClass, name ≠ "") :
    described (fun key => s.options.lookup key) = s := by
  simp [described, options, GeneralSettings.described, GeneralSettings.options, Given.choice,
    Given.flag, List.lookup, truth?_flagText, FileLayout.lookup_tagOf, MergePolicy.lookup_tagOf,
    SwiftKind.lookup_tagOf, SwiftAccess.lookup_tagOf, present_getD filled]

theorem fills_options {s : SwiftSettings} (valid : s.fault? = none) :
    Fills s.options (generalForms ++ forms) := by
  obtain ⟨general, base, _⟩ := fault?_eq_none_iff.mp valid
  have solid : IsSolid (s.baseClass.getD "") :=
    IsSolid.getD fun name is => .of_isIdentifier (base name is).1
  refine List.rel_append (GeneralSettings.fills_options general) ?_
  exact .cons ⟨rfl, .tag s.kind.lookup_tagOf (by decide +kernel)⟩ <|
    .cons ⟨rfl, .text solid⟩ <|
    .cons ⟨rfl, .tag s.access.lookup_tagOf (by decide +kernel)⟩ <|
    .cons ⟨rfl, .flag s.mutable⟩ <|
    .cons ⟨rfl, .flag s.equatable⟩ <|
    .cons ⟨rfl, .flag s.codable⟩ .nil

end SwiftSettings

namespace ObjectiveCSettings

/-- The options for settings for Objective-C. -/
def options (s : ObjectiveCSettings) : List (String × String) :=
  s.toGeneralSettings.options ++
    [("base_class", s.baseClass), ("use_arc", flagText s.countsReferences),
      ("atomic", flagText s.atomic)]

theorem described_options (s : ObjectiveCSettings) :
    described (fun key => s.options.lookup key) = s := by
  simp [described, options, GeneralSettings.described, GeneralSettings.options, Given.choice,
    Given.flag, List.lookup, truth?_flagText, FileLayout.lookup_tagOf, MergePolicy.lookup_tagOf]

theorem fills_options {s : ObjectiveCSettings} (valid : s.fault? = none) :
    Fills s.options (generalForms ++ forms) := by
  obtain ⟨general, base, _⟩ := fault?_eq_none_iff.mp valid
  refine List.rel_append (GeneralSettings.fills_options general) ?_
  exact .cons ⟨rfl, .text (.of_isIdentifier base)⟩ <|
    .cons ⟨rfl, .flag s.countsReferences⟩ <|
    .cons ⟨rfl, .flag s.atomic⟩ .nil

end ObjectiveCSettings

namespace JavaSettings

/-- The options for settings for Java.  Setters are given outright, so it does not count what
immutable classes would have without a word about them. -/
def options (s : JavaSettings) : List (String × String) :=
  s.toGeneralSettings.options ++
    [("package", s.package.getD ""), ("base_class", s.baseClass.getD ""),
      ("immutable", flagText s.immutable), ("generate_setters", flagText s.setters)]

theorem described_options {s : JavaSettings} (filledPackage : ∀ name ∈ s.package, name ≠ "")
    (filledBase : ∀ name ∈ s.baseClass, name ≠ "") :
    described (fun key => s.options.lookup key) = s := by
  simp [described, options, GeneralSettings.described, GeneralSettings.options, Given.choice,
    Given.flag, List.lookup, truth?_flagText, FileLayout.lookup_tagOf, MergePolicy.lookup_tagOf,
    present_getD filledPackage, present_getD filledBase]

theorem fills_options {s : JavaSettings} (valid : s.fault? = none) :
    Fills s.options (generalForms ++ forms) := by
  obtain ⟨general, _, package, base, _⟩ := fault?_eq_none_iff.mp valid
  have solidPackage : IsSolid (s.package.getD "") :=
    IsSolid.getD fun name is => isSolid_of_isPackage (package name is)
  have solidBase : IsSolid (s.baseClass.getD "") :=
    IsSolid.getD fun name is => .of_isIdentifier (base name is).1
  refine List.rel_append (GeneralSettings.fills_options general) ?_
  exact .cons ⟨rfl, .text solidPackage⟩ <|
    .cons ⟨rfl, .text solidBase⟩ <|
    .cons ⟨rfl, .flag s.immutable⟩ <|
    .cons ⟨rfl, .flag s.setters⟩ .nil

end JavaSettings

namespace Settings

/-- The options that give every setting the value it has here. -/
def options : Settings → List (String × String)
  | .swift s => s.options
  | .objectiveC s => s.options
  | .java s => s.options

theorem fills_options {settings : Settings} (valid : settings.fault? = none) :
    Fills settings.options (forms settings.language) := by
  cases settings with
  | swift s => exact s.fills_options valid
  | objectiveC s => exact s.fills_options valid
  | java s => exact s.fills_options valid

/-- There is one option for every key. -/
theorem map_fst_options {settings : Settings} (valid : settings.fault? = none) :
    settings.options.map Prod.fst = keys settings.language := by
  rw [(fills_options valid).map_fst, map_fst_forms]

theorem described_options {settings : Settings} (valid : settings.fault? = none) :
    described settings.language (fun key => settings.options.lookup key) = settings := by
  cases settings with
  | swift s =>
      obtain ⟨_, base, _⟩ := SwiftSettings.fault?_eq_none_iff.mp valid
      exact congrArg swift <|
        s.described_options fun name is => Text.ne_empty_of_isIdentifier (base name is).1
  | objectiveC s => exact congrArg objectiveC s.described_options
  | java s =>
      obtain ⟨_, _, package, base, _⟩ := JavaSettings.fault?_eq_none_iff.mp valid
      exact congrArg java <|
        s.described_options (fun name is => JavaSettings.ne_empty_of_isPackage (package name is))
          fun name is => Text.ne_empty_of_isIdentifier (base name is).1

/-- The options for settings without fault lead back to these settings. -/
theorem ofPairs_options {settings : Settings} (valid : settings.fault? = none) :
    ofPairs settings.language settings.options = .ok settings := by
  refine ofPairs_eq_ok_iff_applied.mpr ⟨?_, valid⟩
  rw [applied_of_fills (fills_options valid), described_options valid]

/-- Options of a language lead to settings for that language. -/
theorem language_of_ofPairs {language : Language} {pairs : List (String × String)}
    {settings : Settings} (made : ofPairs language pairs = .ok settings) :
    settings.language = language := by
  obtain ⟨_, _, rfl⟩ := applied_eq_ok_iff.mp (ofPairs_eq_ok_iff_applied.mp made).1
  cases language <;> rfl

end Settings

end Classwright
