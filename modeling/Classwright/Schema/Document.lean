/-
# Classwright.Schema.Document — schemas as JSON documents

A schema is handed over as an object with the list of its classes.  Types are spelled as tags: a
bare tag for a type without parts, an object with the tag as its only key for a type that has one.

Reading checks the classes once their list is complete, before anything behind the document is
looked at, so a document that was read always holds a schema.
-/

import Classwright.Json.Value
import Classwright.Schema.Merge

namespace Classwright

open Json (Reader ReadError RecordRule FieldRule)

/-! ## Types -/

namespace ValueType

/-- The types without parts, each under its tag. -/
def leafTags : List (String × ValueType) :=
  [("integer", .integer), ("float", .float), ("string", .string), ("boolean", .boolean),
    ("any", .any), ("null", .null)]

/-- Every tag of a type. -/
def tags : List String :=
  ["integer", "float", "string", "boolean", "array", "class", "optional", "any", "null"]

/-- The type as a JSON value. -/
def toJson : ValueType → Json.Value
  | .integer => .string "integer"
  | .float => .string "float"
  | .string => .string "string"
  | .boolean => .string "boolean"
  | .any => .string "any"
  | .null => .string "null"
  | .array item => .object [("array", item.toJson)]
  | .reference name => .object [("class", .string name)]
  | .optional inner => .object [("optional", inner.toJson)]

/-- The type of a bare tag.  The tag of a type that has a part is no type on its own. -/
def ofBareTag (tag : String) : Except ReadError ValueType :=
  match leafTags.lookup tag with
  | some leaf => .ok leaf
  | none =>
    if tag ∈ tags then .error (.wrongKind .bareTag "newtype variant")
    else .error (.unknownTag tag tags)

/-- How the value under a tag is read; `part` reads a type that is part of another. -/
def underTag (part : Reader ValueType) (tag : String) : Except ReadError (Reader ValueType) :=
  if tag = "array" then .ok fun ts => (part ts).map .array
  else if tag = "optional" then .ok fun ts => (part ts).map .optional
  else if tag = "class" then .ok fun ts => (Json.readString ts).map .reference
  else
    match leafTags.lookup tag with
    | some leaf => .ok fun ts => (Json.readNull ts).map fun _ => leaf
    | none => .error (.unknownTag tag tags)

/-- A type. -/
def read : Nat → Reader ValueType
  | 0 => Json.readTagged 0 ofBareTag (underTag fun _ => Json.malformed)
  | below + 1 => Json.readTagged (below + 1) ofBareTag (underTag (read below))

/-- The type that a whole text holds. -/
def ofText (text : String) : Except ReadError ValueType :=
  Json.readText (read Json.maxLevels) text

end ValueType

/-! ## Fields and classes -/

namespace Field

/-- The field as a JSON value. -/
def toJson (field : Field) : Json.Value :=
  .object [("name", .string field.key), ("type", field.type.toJson)]

/-- What is known of a field while it is being read. -/
structure Draft where
  key : Option String := none
  type : Option ValueType := none

/-- How a field is read. -/
def rule : RecordRule Draft Field where
  name := "Property"
  fields := [
    .slot "name" (fun _ => Json.readString) Draft.key
      (fun key draft => { draft with key := some key }) false,
    .slot "type" ValueType.read Draft.type
      (fun type draft => { draft with type := some type }) false]
  start := {}
  finish draft :=
    match Json.required "name" draft.key, Json.required "type" draft.type with
    | .ok key, .ok type => .ok ⟨key, type⟩
    | .error e, _ => .error e
    | _, .error e => .error e

end Field

namespace ClassDef

/-- The class as a JSON value. -/
def toJson (c : ClassDef) : Json.Value :=
  .object [("name", .string c.name), ("properties", .list (c.fields.map Field.toJson))]

/-- What is known of a class while it is being read. -/
structure Draft where
  name : Option String := none
  fields : Option (List Field) := none

/-- How a class is read.  A class without a list of fields has none. -/
def rule : RecordRule Draft ClassDef where
  name := "ClassModel"
  fields := [
    .slot "name" (fun _ => Json.readString) Draft.name
      (fun name draft => { draft with name := some name }) false,
    .slot "properties" (Json.readList · Field.rule.read) Draft.fields
      (fun fields draft => { draft with fields := some fields }) true]
  start := {}
  finish draft := (Json.required "name" draft.name).map fun name => ⟨name, draft.fields.getD []⟩

end ClassDef

/-! ## Whole schemas -/

/-- The document that lists the given classes, whether or not they make a schema. -/
def ClassList.toJson (classes : List ClassDef) : Json.Value :=
  .object [("classes", .list (classes.map ClassDef.toJson))]

namespace Schema

/-- The schema as a JSON value. -/
def toJson (s : Schema) : Json.Value := ClassList.toJson s.classes

/-- The schema as a text. -/
def text (s : Schema) : String := s.toJson.pretty

/-- How a schema is read.  A document without a list of classes has none. -/
def rule : RecordRule (Option (List ClassDef)) Schema where
  name := "RawClassGraph"
  fields :=
    [.slot "classes" (Json.readList · ClassDef.rule.read) id (fun classes _ => some classes) true]
  start := none
  finish draft :=
    match ofClasses (draft.getD []) with
    | .ok s => .ok s
    | .error fault => .error (.refused fault.message)

/-- The schema that a whole text holds. -/
def ofText (text : String) : Except ReadError Schema :=
  Json.readText (rule.read Json.maxLevels) text

end Schema

/-! ## Merge policies -/

namespace MergePolicy

/-- The policy that a value holds: a tag, bare or as the only key of an object with the value
`null`. -/
def ofJson : Json.Value → Except ReadError MergePolicy
  | .string tag => Json.choose tags tag
  | .object [(tag, .null)] => Json.choose tags tag
  | .object [(tag, other)] =>
    match Json.choose tags tag with
    | .ok _ => .error (.wrongKind other.found "unit")
    | .error e => .error e
  | .object _ => .error .notOneEntry
  | other => .error (.wrongKind other.found "string or map")

end MergePolicy

end Classwright
