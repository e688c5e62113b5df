/-
# Classwright.Settings.Basic — settings for each of the languages

Settings belong to a language.  They come from options, as pairs of texts, or are put together field
by field; the same check, `fault?`, applies to both.  Some settings every language has, and each
language adds its own.
-/

import Classwright.Schema.Merge
import Classwright.Settings.Rule

namespace Classwright

/-! ## Settings that every language has -/

/-- Which declarations share a file. -/
inductive FileLayout where
  /-- Every class has its own file or files. -/
  | perClass
  /-- All classes are in one file or one set of files. -/
  | singleFile
  deriving DecidableEq, Repr

/-- The layouts, each under its tag. -/
def FileLayout.tags : List (String × FileLayout) :=
  [("per_class", .perClass), ("single_file", .singleFile)]

/-- Settings that every language has. -/
structure GeneralSettings where
  /-- What every generated type name starts with. -/
  classPrefix : String := ""
  fileLayout : FileLayout := .perClass
  /-- The name, without extension, of the file that holds all classes. -/
  singleFileName : String := "Models"
  mergePolicy : MergePolicy := .byPath
  deriving DecidableEq, Repr

namespace GeneralSettings

/-- The keys of these settings. -/
def keys : List String :=
  ["class_prefix", "file_layout", "single_file_name", "dedup"]

/-- The options for these settings. -/
def rules : List (OptionRule GeneralSettings) :=
  [.text "class_prefix" fun text s => { s with classPrefix := text },
    .choice "file_layout" FileLayout.tags fun layout s => { s with fileLayout := layout },
    .text "single_file_name" fun text s => { s with singleFileName := text },
    .choice "dedup" MergePolicy.tags fun policy s => { s with mergePolicy := policy }]

/-- The first thing wrong with these settings, for a language with the given keywords. -/
def fault? (language : Language) (keywords : List String) (s : GeneralSettings) :
    Option SettingsFault :=
  if s.classPrefix ≠ "" ∧ ¬ Text.isIdentifier s.classPrefix then
    some (.invalidOption language "class_prefix" s.classPrefix .noPrefix)
  else if ¬ Text.isIdentifier s.singleFileName ∨ s.singleFileName ∈ keywords then
    some (.invalidOption language "single_file_name" s.singleFileName .noIdentifier)
  else none

end GeneralSettings

/-- The fault of a base class whose name cannot name a type. -/
def baseNameFault? (language : Language) (keywords : List String) (name : String) :
    Option SettingsFault :=
  if ¬ Text.isIdentifier name ∨ name ∈ keywords then
    some (.invalidOption language "base_class" name .noTypeName)
  else none

/-! ## Swift -/

/-- What a class is declared as. -/
inductive SwiftKind where
  | struct
  | openClass
  | finalClass
  deriving DecidableEq, Repr

/-- The kinds, each under its tag. -/
def SwiftKind.tags : List (String × SwiftKind) :=
  [("struct", .struct), ("class", .openClass), ("final_class", .finalClass)]

/-- From where declarations can be seen. -/
inductive SwiftAccess where
  | module
  | everywhere
  | inheritable
  deriving DecidableEq, Repr

namespace SwiftAccess

/-- The levels of access, each under its tag. -/
def tags : List (String × SwiftAccess) :=
  [("internal", .module), ("public", .everywhere), ("open", .inheritable)]

/-- What stands in front of a declaration, its blank included. -/
def modifier : SwiftAccess → String
  | .module => ""
  | .everywhere => "public "
  | .inheritable => "open "

/-- The access of the members of a declaration: stored properties cannot be inherited from. -/
def ofMembers : SwiftAccess → SwiftAccess
  | .inheritable => .everywhere
  | other => other

end SwiftAccess

/-- Settings for Swift. -/
structure SwiftSettings extends GeneralSettings where
  kind : SwiftKind := .struct
  baseClass : Option String := none
  access : SwiftAccess := .module
  /-- Can properties be assigned after they are set up? -/
  mutable : Bool := false
  equatable : Bool := true
  codable : Bool := true
  deriving DecidableEq, Repr

namespace SwiftSettings

/-- The keys of these settings, in addition to those of every language. -/
def keys : List String :=
  ["type_kind", "base_class", "access_level", "mutable_properties", "equatable", "codable"]

/-- The options for these settings. -/
def rules : List (OptionRule SwiftSettings) :=
  GeneralSettings.rules.map
      (.lift fun change s => { s with toGeneralSettings := change s.toGeneralSettings }) ++
    [.choice "type_kind" SwiftKind.tags fun kind s => { s with kind },
      .optionalText "base_class" fun baseClass s => { s with baseClass },
      .choice "access_level" SwiftAccess.tags fun access s => { s with access },
      .flag "mutable_properties" fun on s => { s with mutable := on },
      .flag "equatable" fun equatable s => { s with equatable },
      .flag "codable" fun codable s => { s with codable }]

/-- The fault of the base class, if there is a base class. -/
def baseFault? (s : SwiftSettings) : Option SettingsFault :=
  s.baseClass.bind fun name =>
    (baseNameFault? .swift Lexicon.Swift.keywords name).or <|
      if s.kind = .struct then some (.conflict .swift .baseOfStruct) else none

/-- The first thing wrong with the settings. -/
def fault? (s : SwiftSettings) : Option SettingsFault :=
  (s.toGeneralSettings.fault? .swift Lexicon.Swift.keywords).or <|
    s.baseFault?.or <|
      if s.access = .inheritable ∧ s.kind ≠ .openClass then
        some (.conflict .swift .openWithoutClass)
      else none

end SwiftSettings

/-! ## Objective-C -/

/-- The class that every other class descends from. -/
def objectiveCRoot : String := "NSObject"

/-- Settings for Objective-C. -/
structure ObjectiveCSettings extends GeneralSettings where
  baseClass : String := objectiveCRoot
  /-- Does the compiler count references? -/
  countsReferences : Bool := true
  atomic : Bool := false
  deriving DecidableEq, Repr

namespace ObjectiveCSettings

/-- The keys of these settings, in addition to those of every language. -/
def keys : List String :=
  ["base_class", "use_arc", "atomic"]

/-- The options for these settings. -/
def rules : List (OptionRule ObjectiveCSettings) :=
  GeneralSettings.rules.map
      (.lift fun change s => { s with toGeneralSettings := change s.toGeneralSettings }) ++
    [.text "base_class" fun baseClass s => { s with baseClass },
      .flag "use_arc" fun on s => { s with countsReferences := on },
      .flag "atomic" fun atomic s => { s with atomic }]

/-- The first thing wrong with the settings. -/
def fault? (s : ObjectiveCSettings) : Option SettingsFault :=
  (s.toGeneralSettings.fault? .objectiveC Lexicon.ObjectiveC.keywords).or <|
    baseNameFault? .objectiveC Lexicon.ObjectiveC.keywords s.baseClass

end ObjectiveCSettings

/-! ## Java

Classes have setters unless they are immutable.  Whether they have setters can also be said
outright, and then that counts, whichever of the two options comes first.  Options are therefore
applied to a draft, which remembers whether that was said.
-/

/-- Settings for Java. -/
structure JavaSettings extends GeneralSettings where
  /-- The package, a sequence of names with dots between them. -/
  package : Option String := none
  baseClass : Option String := none
  /-- Are fields set by the constructor only? -/
  immutable : Bool := false
  setters : Bool := true
  deriving DecidableEq, Repr

namespace JavaSettings

/-- Settings for classes whose objects never change. -/
def ofImmutable : JavaSettings := { immutable := true, setters := false }

/-- Settings to which options are being applied. -/
structure Draft where
  settings : JavaSettings := {}
  /-- Was it said outright whether there are setters? -/
  settersGiven : Bool := false
  deriving DecidableEq, Repr

namespace Draft

/-- The draft with a change of its settings. -/
def modify (change : JavaSettings → JavaSettings) (draft : Draft) : Draft :=
  { draft with settings := change draft.settings }

/-- Classes are immutable or not.  That decides on setters, unless a word on them came before. -/
def setImmutable (immutable : Bool) (draft : Draft) : Draft :=
  draft.modify fun s =>
    { s with immutable, setters := if draft.settersGiven then s.setters else !immutable }

/-- Classes have setters or not.  What is said of immutable classes later does not change that. -/
def setSetters (setters : Bool) (draft : Draft) : Draft where
  settings := { draft.settings with setters }
  settersGiven := true

end Draft

/-- The keys of these settings, in addition to those of every language. -/
def keys : List String :=
  ["package", "base_class", "immutable", "generate_setters"]

/-- The options for these settings. -/
def rules : List (OptionRule Draft) :=
  GeneralSettings.rules.map
      (.lift fun change =>
        Draft.modify fun s => { s with toGeneralSettings := change s.toGeneralSettings }) ++
    [.optionalText "package" fun package => Draft.modify fun s => { s with package },
      .optionalText "base_class" fun baseClass => Draft.modify fun s => { s with baseClass },
      .flag "immutable" Draft.setImmutable,
      .flag "generate_setters" Draft.setSetters]

/-- Can the text name a package? -/
def isPackage (name : String) : Bool :=
  (Text.parts '.' name).all fun part => Text.isIdentifier part && part ∉ Lexicon.Java.keywords

/-- The fault of the package, if there is a package. -/
def packageFault? (s : JavaSettings) : Option SettingsFault :=
  s.package.bind fun name =>
    if isPackage name then none else some (.invalidOption .java "package" name .noPackage)

/-- The first thing wrong with the settings. -/
def fault? (s : JavaSettings) : Option SettingsFault :=
  (s.toGeneralSettings.fault? .java Lexicon.Java.keywords).or <|
    if s.fileLayout = .singleFile then
      some (.invalidOption .java "file_layout" "single_file" .oneClassPerFile)
    else
      s.packageFault?.or <|
        (s.baseClass.bind (baseNameFault? .java Lexicon.Java.keywords)).or <|
          if s.immutable ∧ s.setters then some (.conflict .java .settersOfImmutable) else none

end JavaSettings

/-! ## Settings for one of the languages -/

/-- Settings for one of the languages. -/
inductive Settings where
  | swift (settings : SwiftSettings)
  | objectiveC (settings : ObjectiveCSettings)
  | java (settings : JavaSettings)
  deriving DecidableEq, Repr

namespace Settings

/-- The settings of a language before any option is applied. -/
def initial : Language → Settings
  | .swift => .swift {}
  | .objectiveC => .objectiveC {}
  | .java => .java {}

/-- The language that the settings are for. -/
def language : Settings → Language
  | .swift _ => .swift
  | .objectiveC _ => .objectiveC
  | .java _ => .java

/-- The part of the settings that every language has. -/
def general : Settings → GeneralSettings
  | .swift s => s.toGeneralSettings
  | .objectiveC s => s.toGeneralSettings
  | .java s => s.toGeneralSettings

/-- The first thing wrong with the settings. -/
def fault? : Settings → Option SettingsFault
  | .swift s => s.fault?
  | .objectiveC s => s.fault?
  | .java s => s.fault?

/-- The keys of the options of a language, those of every language first. -/
def keys (language : Language) : List String :=
  GeneralSettings.keys ++
    match language with
    | .swift => SwiftSettings.keys
    | .objectiveC => ObjectiveCSettings.keys
    | .java => JavaSettings.keys

/-- The settings that options lead to, not checked as a whole. -/
def applied (language : Language) (pairs : List (String × String)) :
    Except SettingsFault Settings :=
  match language with
  | .swift => (OptionRule.applyAll .swift SwiftSettings.rules [] {} pairs).map .swift
  | .objectiveC =>
    (OptionRule.applyAll .objectiveC ObjectiveCSettings.rules [] {} pairs).map .objectiveC
  | .java =>
    (OptionRule.applyAll .java JavaSettings.rules [] {} pairs).map fun draft =>
      .java draft.settings

/-- The settings themselves, if nothing is wrong with them. -/
def checked (settings : Settings) : Except SettingsFault Settings :=
  match settings.fault? with
  | some fault => .error fault
  | none => .ok settings

/-- The settings of a language with the given options. -/
def ofPairs (language : Language) (pairs : List (String × String)) :
    Except SettingsFault Settings :=
  match applied language pairs with
  | .error fault => .error fault
  | .ok settings => settings.checked

end Settings

end Classwright
