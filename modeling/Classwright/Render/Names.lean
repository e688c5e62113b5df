/-
# Classwright.Render.Names — a type name for every class, a member name for every field

The name of a class is turned into words, and the words into a type name behind a prefix.  A name
that the language keeps for itself gets a suffix, and names that have come out alike get numbers, in
declaration order.

A key is turned into words, and the words into a member name.  Keywords get a suffix, a language may
adjust names further, and names that have come out alike get numbers, in the order of the fields.
Numbers come last, so they also keep clear of names that generated code needs for itself.
-/

import Classwright.Render.Budget
import Classwright.Schema.Basic
import Classwright.Text.Identifier
import Classwright.Text.NameSupply

namespace Classwright

/-! ## Type names -/

/-- The type names of the classes of a schema, in declaration order. -/
structure TypeNames where
  language : Language
  /-- Pairs of a class name and its type name. -/
  table : List (String × String)
  deriving Repr

namespace TypeNames

/-- What a type name falls back on, and the suffix of a name that is taken by the language. -/
def stand : String := "Model"

/-- The type name that a class asks for. -/
def wanted (classPrefix : String) (reserved : List String) (className : String) : String :=
  Text.escapeReserved reserved stand
    (classPrefix ++ Text.identifierOr stand (Text.pascalCase className))

/-- Type names for the classes of a schema. -/
def ofSchema (language : Language) (s : Schema) (classPrefix : String) (reserved : List String) :
    TypeNames where
  language
  table :=
    let classNames := ClassList.names s.classes
    let typeNames := Text.NameSupply.empty.issueAll (classNames.map (wanted classPrefix reserved))
    classNames.zip typeNames.1

/-- The type name of a class. -/
def get (names : TypeNames) (className : String) : Except RenderFault String :=
  match names.table.lookup className with
  | some typeName => .ok typeName
  | none => .error (.unnamedClass names.language className)

/-- Is this the type name of a class? -/
def isGenerated (names : TypeNames) (typeName : String) : Bool :=
  names.table.any (·.2 = typeName)

/-- The fault of a base class that has the name of a generated class, which would make that class
descend from itself. -/
def baseFault? (names : TypeNames) (baseClass : Option String) : Option SettingsFault :=
  baseClass.bind fun name =>
    if names.isGenerated name then some (.conflict names.language (.generatedBase name)) else none

end TypeNames

/-! ## Member names -/

/-- What a language asks of member names. -/
structure MemberRule where
  /-- Names that get a suffix. -/
  reserved : List String
  /-- Names that generated code uses itself. -/
  generated : List String := []
  /-- A last change of each name before names are told apart. -/
  adjust : String → String := id

namespace MemberRule

/-- What a member name falls back on. -/
def fallback : String := "value"

/-- The suffix of a member name that is a keyword. -/
def suffix : String := "Value"

/-- The member name that a field asks for. -/
def wanted (rule : MemberRule) (key : String) : String :=
  rule.adjust <| Text.escapeReserved rule.reserved suffix <|
    Text.identifierOr fallback (Text.camelCase key)

/-- The member names of the fields of a class, in their order. -/
def names (rule : MemberRule) (c : ClassDef) : List String :=
  ((Text.NameSupply.empty.reserve rule.generated).issueAll
    (c.fields.map fun field => rule.wanted field.key)).1

/-- The fields of a class with their member names. -/
def named (rule : MemberRule) (c : ClassDef) : List (Field × String) :=
  c.fields.zip (rule.names c)

end MemberRule

end Classwright
