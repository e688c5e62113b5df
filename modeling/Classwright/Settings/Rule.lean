/-
# Classwright.Settings.Rule — options given as pairs of texts

Each option has a rule: its key, and how a text is read into a change of the settings.  Options are
applied one after the other, each to what the ones before it left.  Blanks around keys and values do
not count, and no option may be given twice.

A value may be wrong on its own, or two options may be at odds.  Either way the message names the
options by their keys, since that is how they were given.
-/

import Classwright.Language

namespace Classwright

/-! ## What can be wrong with settings -/

/-- What is wrong with the value of one option. -/
inductive OptionFlaw where
  /-- The option was given before. -/
  | repeated
  /-- The value is none of the known ones. -/
  | notAmong (known : List String)
  /-- The value cannot open an identifier. -/
  | noPrefix
  | noIdentifier
  | noTypeName
  | noPackage
  /-- The language wants a file for every class. -/
  | oneClassPerFile
  deriving DecidableEq, Repr

/-- The texts as alternatives. -/
def alternatives : List String → String
  | [] => ""
  | [last] => last
  | [one, last] => one ++ " or " ++ last
  | one :: others => one ++ ", " ++ alternatives others

/-- The flaw in words. -/
def OptionFlaw.message : OptionFlaw → String
  | .repeated => "option given more than once"
  | .notAmong known => "expected " ++ alternatives known
  | .noPrefix => "must be a valid identifier prefix"
  | .noIdentifier => "must be a valid identifier"
  | .noTypeName => "must be a valid type name"
  | .noPackage => "must be a dotted sequence of identifiers"
  | .oneClassPerFile => "Java requires one public class per file"

/-- How two options can be at odds. -/
inductive OptionConflict where
  /-- A struct is to have a base class. -/
  | baseOfStruct
  /-- Something that is no plain class is to be open. -/
  | openWithoutClass
  /-- Immutable classes are to have setters. -/
  | settersOfImmutable
  /-- The base class has the name of a generated class. -/
  | generatedBase (name : String)
  deriving DecidableEq, Repr

namespace OptionConflict

/-- The keys of the options that are at odds. -/
def keys : OptionConflict → String × String
  | .baseOfStruct => ("base_class", "type_kind")
  | .openWithoutClass => ("access_level", "type_kind")
  | .settersOfImmutable => ("immutable", "generate_setters")
  | .generatedBase _ => ("base_class", "class_prefix")

/-- Why the options are at odds. -/
def reason : OptionConflict → String
  | .baseOfStruct => "structs cannot inherit from a base class"
  | .openWithoutClass => "only non-final classes can be open"
  | .settersOfImmutable => "immutable classes cannot have setters"
  | .generatedBase name => s!"'{name}' is also the name of a generated class"

end OptionConflict

/-- What is wrong with settings for a language. -/
inductive SettingsFault where
  | unknownOption (language : Language) (key : String)
  | invalidOption (language : Language) (key value : String) (flaw : OptionFlaw)
  | conflict (language : Language) (between : OptionConflict)
  deriving DecidableEq, Repr

/-- The fault in words. -/
def SettingsFault.message : SettingsFault → String
  | .unknownOption language key => s!"Unknown {language.title} option '{key}'"
  | .invalidOption language key value flaw =>
    s!"Invalid value '{value}' for {language.title} option '{key}': {flaw.message}"
  | .conflict language between =>
    let (first, second) := between.keys
    s!"Conflicting {language.title} options '{first}' and '{second}': {between.reason}"

/-! ## Rules -/

/-- One option of the settings `σ`. -/
structure OptionRule (σ : Type) where
  key : String
  /-- The change that a value stands for. -/
  read : String → Except OptionFlaw (σ → σ)

namespace OptionRule

variable {σ τ α : Type}

/-- An option whose value is any text. -/
def text (key : String) (put : String → σ → σ) : OptionRule σ where
  key
  read value := .ok (put value)

/-- A text that is there unless it is empty. -/
def present (value : String) : Option String :=
  if value = "" then none else some value

/-- An option whose value is any text; an empty text takes the option back. -/
def optionalText (key : String) (put : Option String → σ → σ) : OptionRule σ where
  key
  read value := .ok (put (present value))

/-- An option whose value is one of a few tags. -/
def choice (key : String) (choices : List (String × α)) (put : α → σ → σ) : OptionRule σ where
  key
  read value :=
    match choices.lookup value with
    | some chosen => .ok (put chosen)
    | none => .error (.notAmong (choices.map (·.1)))

/-- The spellings of truth values, in lower case. -/
def truthValues : List (String × Bool) :=
  [("true", true), ("yes", true), ("1", true), ("false", false), ("no", false), ("0", false)]

/-- An option that is on or off. -/
def flag (key : String) (put : Bool → σ → σ) : OptionRule σ where
  key
  read value :=
    match truthValues.lookup (Text.lowerCase value) with
    | some on => .ok (put on)
    | none => .error (.notAmong ["true", "false"])

/-- An option of settings that are part of other settings. -/
def lift (within : (σ → σ) → τ → τ) (rule : OptionRule σ) : OptionRule τ where
  key := rule.key
  read value := (rule.read value).map within

/-- The settings after all options, in the order in which they are given.  `seen` holds the keys of
the options before them. -/
def applyAll (language : Language) (rules : List (OptionRule σ)) (seen : List String)
    (settings : σ) : List (String × String) → Except SettingsFault σ
  | [] => .ok settings
  | (key, value) :: rest =>
    let key := Text.trim key
    let value := Text.trim value
    if key ∈ seen then .error (.invalidOption language key value .repeated)
    else
      match rules.find? (·.key = key) with
      | none => .error (.unknownOption language key)
      | some rule =>
        match rule.read value with
        | .error flaw => .error (.invalidOption language key value flaw)
        | .ok change => applyAll language rules (key :: seen) (change settings) rest

end OptionRule

end Classwright
