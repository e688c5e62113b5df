/-
# Classwright.Backend.Swift — classes written in Swift

Brackets make an array and a question mark makes an optional.  Values that may be anything have no
type that can be decoded, so they have no spelling.

A class becomes a struct or a class with a stored property for each field.  Coding is left to the
compiler as far as it can do it: coding keys are written only where member names differ from the
JSON keys, and the coding methods only under a base class, whose share they have to pass on.

Types are known throughout a module, so classes are declared from the roots down and nothing has to
be imported from file to file.
-/

import Classwright.Render.Backend
import Classwright.Render.Names
import Classwright.Settings.Basic
import Classwright.Text.Literal

namespace Classwright.Swift

open Text (Edit indented braced onlyIf setApart)

/-! ## How types and members are spelled -/

/-- Member names in Swift. -/
def memberRule : MemberRule where
  reserved := Lexicon.Swift.keywords

/-- The spelling of a normal type, at a place that a fault names. -/
def spell (names : TypeNames) (place : FieldPlace) : ValueType → Except RenderFault String
  | .integer => .ok "Int"
  | .float => .ok "Double"
  | .string => .ok "String"
  | .boolean => .ok "Bool"
  | .array item => (spell names place item).map fun text => "[" ++ text ++ "]"
  | .optional inner => (spell names place inner).map fun text => text ++ "?"
  | .reference className => names.get className
  | .any => .error (.unsupportedType .swift place .any)
  | .null => .error (.unsupportedType .swift place .null)

/-! ## Classes with everything resolved -/

/-- A field as a stored property. -/
structure Member where
  name : String
  key : String
  /-- The type of the value, if there is a value. -/
  valueType : String
  /-- May the value be absent? -/
  optional : Bool
  deriving DecidableEq, Repr

/-- The type of the property. -/
def Member.type (m : Member) : String :=
  if m.optional then m.valueType ++ "?" else m.valueType

/-- A class with its type name and its properties. -/
structure Declaration where
  name : String
  members : List Member
  deriving DecidableEq, Repr

/-- The property for a field with its member name. -/
def Member.ofField (names : TypeNames) (className : String) (field : Field × String) :
    Except RenderFault Member :=
  let type := field.1.type.normalize
  (spell names ⟨className, field.1.key⟩ type.present).map fun valueType =>
    ⟨field.2, field.1.key, valueType, type.isOptional⟩

/-- The declaration of a class. -/
def Declaration.ofClass (names : TypeNames) (c : ClassDef) : Except RenderFault Declaration := do
  let name ← names.get c.name
  let members ← (memberRule.named c).mapM (Member.ofField names c.name)
  return ⟨name, members⟩

/-! ## Parts of a declaration -/

/-- The base class and the protocols, behind their colon. -/
def inheritance (s : SwiftSettings) : String :=
  let listed := s.baseClass.toList ++ (if s.codable then ["Codable"] else []) ++
    (if s.equatable then ["Equatable"] else [])
  if listed.isEmpty then "" else ": " ++ String.intercalate ", " listed

/-- The words that declare a type of this kind. -/
def kindWords : SwiftKind → String
  | .struct => "struct"
  | .openClass => "class"
  | .finalClass => "final class"

/-- The line that opens the declaration, without its brace. -/
def opening (s : SwiftSettings) (d : Declaration) : String :=
  s.access.modifier ++ kindWords s.kind ++ " " ++ d.name ++ inheritance s

/-- The stored properties. -/
def storedProperties (s : SwiftSettings) (modifier : String) (members : List Member) : List Edit :=
  let binding := if s.mutable then "var " else "let "
  members.map fun m => .line (modifier ++ binding ++ m.name ++ ": " ++ m.type)

/-- Are the coding methods written out? -/
def writesCoding (s : SwiftSettings) : Bool :=
  s.codable && s.baseClass.isSome

/-- Are the coding keys written out? -/
def writesKeys (s : SwiftSettings) (members : List Member) : Bool :=
  s.codable && (writesCoding s || members.any fun m => m.name ≠ m.key) && !members.isEmpty

/-- The coding key of a property. -/
def keyCase (m : Member) : Edit :=
  if m.name = m.key then .line ("case " ++ m.name)
  else .line ("case " ++ m.name ++ " = \"" ++ Text.literalBody .braced m.key ++ "\"")

/-- The coding keys. -/
def codingKeys (members : List Member) : List Edit :=
  braced "enum CodingKeys: String, CodingKey" (members.map keyCase)

/-- A parameter of the initializer; an absent value need not be given. -/
def parameter (m : Member) : String :=
  m.name ++ ": " ++ m.type ++ (if m.optional then " = nil" else "")

/-- The initializer that takes all values. -/
def initializer (s : SwiftSettings) (modifier : String) (members : List Member) : List Edit :=
  let derived := s.baseClass.isSome
  let override := if derived && members.isEmpty then "override " else ""
  let parameters := String.intercalate ", " (members.map parameter)
  braced (modifier ++ override ++ "init(" ++ parameters ++ ")") <|
    (members.map fun m => .line ("self." ++ m.name ++ " = " ++ m.name)) ++
      (if derived then [.line "super.init()"] else [])

/-- The line that decodes a property. -/
def decodeLine (m : Member) : Edit :=
  let method := if m.optional then "decodeIfPresent" else "decode"
  .line (m.name ++ " = try container." ++ method ++ "(" ++ m.valueType ++ ".self, forKey: ." ++
    m.name ++ ")")

/-- The line that encodes a property. -/
def encodeLine (m : Member) : Edit :=
  let method := if m.optional then "encodeIfPresent" else "encode"
  .line ("try container." ++ method ++ "(" ++ m.name ++ ", forKey: ." ++ m.name ++ ")")

/-- The line that gets the container, which nothing needs if there are no properties. -/
def containerLine (members : List Member) (line : String) : List Edit :=
  if members.isEmpty then [] else [.line line]

/-- The initializer that decodes. -/
def decoder (modifier : String) (members : List Member) : List Edit :=
  braced (modifier ++ "required init(from decoder: Decoder) throws") <|
    containerLine members "let container = try decoder.container(keyedBy: CodingKeys.self)" ++
      members.map decodeLine ++ [.line "try super.init(from: decoder)"]

/-- The method that encodes. -/
def encoder (modifier : String) (members : List Member) : List Edit :=
  braced (modifier ++ "override func encode(to encoder: Encoder) throws") <|
    containerLine members "var container = encoder.container(keyedBy: CodingKeys.self)" ++
      members.map encodeLine ++ [.line "try super.encode(to: encoder)"]

/-- The lines that return whether all comparisons hold. -/
def returnAll : List String → List String
  | [] => ["return true"]
  | first :: others => ("return " ++ first) :: others.map ("    && " ++ ·)

/-- The method that compares two objects. -/
def equality (modifier : String) (d : Declaration) : List Edit :=
  braced (modifier ++ "static func == (lhs: " ++ d.name ++ ", rhs: " ++ d.name ++ ") -> Bool") <|
    Text.lines (returnAll (d.members.map fun m => "lhs." ++ m.name ++ " == rhs." ++ m.name))

/-! ## Whole declarations -/

/-- What stands between the braces of a declaration. -/
def body (s : SwiftSettings) (d : Declaration) : List Edit :=
  let modifier := s.access.ofMembers.modifier
  let isClass := s.kind != .struct
  storedProperties s modifier d.members ++ setApart (
    onlyIf (writesKeys s d.members) (codingKeys d.members) ++
    onlyIf (isClass || s.access != .module) (initializer s modifier d.members) ++
    onlyIf (writesCoding s) (decoder modifier d.members) ++
    onlyIf (writesCoding s) (encoder modifier d.members) ++
    onlyIf (s.equatable && isClass) (equality modifier d))

/-- The edits of a declaration. -/
def Declaration.edits (s : SwiftSettings) (d : Declaration) : List Edit :=
  braced (opening s d) (body s d)

/-! ## Files -/

/-- A declaration that has been written. -/
structure Source where
  typeName : String
  text : String
  deriving DecidableEq, Repr

/-- The name of the file for a type. -/
def fileName (stem : String) : String := stem ++ ".swift"

/-- What every file starts with, below the comment at the top. -/
def imports : List Edit := [.line "import Foundation", .emptyLine]

/-- Declare a class. -/
def declare (s : SwiftSettings) (names : TypeNames) (c : ClassDef) : Except RenderFault Source :=
  (Declaration.ofClass names c).map fun d => ⟨d.name, SourceFile.typeset (d.edits s)⟩

/-- A file with some declarations. -/
def file (stem : String) (texts : List String) : SourceFile :=
  .headed (fileName stem) (imports ++ SourceFile.spaced texts)

/-- The files for all declarations. -/
def files (s : SwiftSettings) (sources : List Source) : List SourceFile :=
  match s.fileLayout with
  | .perClass => sources.map fun source => file source.typeName [source.text]
  | .singleFile =>
    if sources.isEmpty then [] else [file s.singleFileName (sources.map (·.text))]

/-- Rendering in Swift. -/
def backend : Backend SwiftSettings Unit Source where
  language := .swift
  order := .parentsFirst
  reserved := Lexicon.Swift.reservedTypeNames
  general := (·.toGeneralSettings)
  fault? := SwiftSettings.fault?
  baseClass := (·.baseClass)
  start := ()
  declare s names _ c := (declare s names c).map fun source => (source, ())
  bytes source := source.text.utf8ByteSize
  files := files

end Classwright.Swift
