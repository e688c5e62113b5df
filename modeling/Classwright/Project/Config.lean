/-
# Classwright.Project.Config — what a project wants rendered

A project names the document with its schema and any number of targets.  A target is a language with
options and a folder for its files.  Options are written as JSON values; each plain value counts as
the text that spells it, and `null` as the empty text.
-/

import Classwright.Json.Value
import Classwright.Language
import Classwright.Project.Disk

namespace Classwright

open Json (RecordRule FieldRule)

/-- One language to render in. -/
structure Target where
  /-- The name of the language, as it is written. -/
  language : String
  /-- The options in the order of their keys. -/
  options : List (String × Json.Value)
  /-- The folder for the files, if one is given. -/
  outFolder : Option String
  deriving Repr

/-- What a project wants rendered. -/
structure Config where
  /-- The path of the document with the schema. -/
  model : String
  targets : List Target
  deriving Repr

/-- Why a project cannot be rendered as it is configured. -/
inductive ConfigFault where
  | unreadable (error : Json.ReadError)
  | noTargets
  /-- An option is a list or an object. -/
  | structuredOption (key language : String) (value : Json.Value)
  deriving Repr

/-- The fault in words. -/
def ConfigFault.message : ConfigFault → String
  | .unreadable error => error.message
  | .noTargets => "No targets configured"
  | .structuredOption key language value =>
    s!"Option '{key}' of target '{language}' must be a string, boolean or number, " ++
      s!"got {value.compact}"

/-! ## Targets -/

namespace Target

/-- The text that a plain value counts as. -/
def optionText? : Json.Value → Option String
  | .null => some ""
  | .boolean value => some (if value then "true" else "false")
  | .number value => some value.text
  | .string text => some text
  | .list _ => none
  | .object _ => none

/-- An option as a pair of texts. -/
def pair (target : Target) (entry : String × Json.Value) : Except ConfigFault (String × String) :=
  match optionText? entry.2 with
  | some text => .ok (entry.1, text)
  | none => .error (.structuredOption entry.1 target.language entry.2)

/-- The options as pairs of texts, in the order of their keys. -/
def pairs (target : Target) : Except ConfigFault (List (String × String)) :=
  target.options.mapM target.pair

/-- The folder for the files of the target; unless one is given, every language has its own. -/
def folder (target : Target) (root : String) (language : Language) : String :=
  match target.outFolder with
  | some path => Path.join root path
  | none => Path.join (Path.join root "generated") language.key

/-- What is known of a target while it is being read. -/
structure Draft where
  language : Option String := none
  options : Option (List (String × Json.Value)) := none
  outFolder : Option (Option String) := none

/-- How a target is read. -/
def rule : RecordRule Draft Target where
  name := "TargetConfig"
  fields := [
    .slot "language" (fun _ => Json.readString) Draft.language
      (fun language draft => { draft with language := some language }) false,
    .slot "options" (Json.readTable · Json.readValue) Draft.options
      (fun options draft => { draft with options := some options }) true,
    .slot "outDir" (fun _ => Json.readNullable Json.readString) Draft.outFolder
      (fun outFolder draft => { draft with outFolder := some outFolder }) false]
  start := {}
  finish draft := (Json.required "language" draft.language).map fun language =>
    ⟨language, draft.options.getD [], draft.outFolder.getD none⟩

end Target

/-! ## Whole projects -/

namespace Config

/-- The name of the file that configures a project. -/
def fileName : String := "jsonmodeler.config.json"

/-- The path of the document with the schema, unless one is given. -/
def defaultModel : String := "model.json"

/-- What is known of a project while it is being read. -/
structure Draft where
  model : Option String := none
  targets : Option (List Target) := none

/-- How a project is read. -/
def rule : RecordRule Draft Config where
  name := "Config"
  fields := [
    .slot "model" (fun _ => Json.readString) Draft.model
      (fun model draft => { draft with model := some model }) true,
    .slot "targets" (Json.readList · Target.rule.read) Draft.targets
      (fun targets draft => { draft with targets := some targets }) true]
  start := {}
  finish draft := .ok ⟨draft.model.getD defaultModel, draft.targets.getD []⟩

/-- The project that a whole text describes.  It must have a target. -/
def ofText (text : String) : Except ConfigFault Config :=
  match Json.readText (rule.read Json.maxLevels) text with
  | .error error => .error (.unreadable error)
  | .ok config => if config.targets.isEmpty then .error .noTargets else .ok config

/-- The path of the document with the schema. -/
def modelPath (config : Config) (root : String) : String := Path.join root config.model

end Config

end Classwright
