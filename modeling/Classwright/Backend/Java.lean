/-
# Classwright.Backend.Java — classes written in Java

Numbers and truth values are primitive unless something has to refer to them: an optional value and
an element of a list are in a box.  A box may be empty, so optionals need no spelling of their own.

A class has a constant for each JSON key, a private field for each property, constructors,
accessors, and the two methods by which objects are compared.  Every class is public and so has a
file of its own, named like the class.
-/

import Classwright.Render.Backend
import Classwright.Render.Names
import Classwright.Settings.Basic
import Classwright.Text.Literal

namespace Classwright.Java

open Text (Edit indented braced onlyIf setApart NameSupply)

/-! ## How types and members are spelled -/

/-- Member names in Java. -/
def memberRule : MemberRule where
  reserved := Lexicon.Java.keywords

/-- The primitive types in use. -/
inductive Primitive where
  | long
  | double
  | boolean
  deriving DecidableEq, Repr

/-- Types of fields. -/
inductive FieldKind where
  | primitive (basic : Primitive)
  | named (className : String)
  | list (item : FieldKind)
  deriving DecidableEq, Repr

namespace Primitive

/-- The name of a primitive type. -/
def typeName : Primitive → String
  | .long => "long"
  | .double => "double"
  | .boolean => "boolean"

/-- The class of boxes for a primitive type. -/
def boxName : Primitive → String
  | .long => "Long"
  | .double => "Double"
  | .boolean => "Boolean"

end Primitive

namespace FieldKind

/-- The type itself, with primitive values in a box. -/
def boxed : FieldKind → FieldKind
  | .primitive basic => .named basic.boxName
  | other => other

/-- The type of a field for a normal type. -/
def ofType (names : TypeNames) : ValueType → Except RenderFault FieldKind
  | .integer => .ok (.primitive .long)
  | .float => .ok (.primitive .double)
  | .boolean => .ok (.primitive .boolean)
  | .string => .ok (.named "String")
  | .any | .null => .ok (.named "Object")
  | .reference className => (names.get className).map .named
  | .optional inner => (ofType names inner).map boxed
  | .array item => (ofType names item).map fun kind => .list kind.boxed

/-- The spelling of the type. -/
def spelling : FieldKind → String
  | .primitive basic => basic.typeName
  | .named className => className
  | .list item => "List<" ++ item.spelling ++ ">"

/-- Does the spelling use lists? -/
def usesList : FieldKind → Bool
  | .list _ => true
  | _ => false

end FieldKind

/-! ## Classes with everything resolved -/

/-- A field with its type, before it has a getter. -/
structure Variable where
  name : String
  key : String
  /-- The constant that holds the key. -/
  constant : String
  kind : FieldKind
  deriving DecidableEq, Repr

namespace Variable

/-- The name of the variable as part of a longer name. -/
def suffix (v : Variable) : String := Text.capitalizeFirst v.name

/-- Does the variable hold a truth value that is not in a box? -/
def isBoolean (v : Variable) : Bool := v.kind = .primitive .boolean

/-- The getter that a variable has unless there is a better one. -/
def plainGetter (v : Variable) : String :=
  (if v.isBoolean then "is" else "get") ++ v.suffix

/-- The name of a truth value that is a question already: `isActive`, and not `is` alone. -/
def question? (v : Variable) : Option String :=
  match Text.words v.name with
  | "is" :: _ :: _ => if v.isBoolean then some v.name else none
  | _ => none

end Variable

/-- A variable with its getter. -/
structure Member extends Variable where
  getter : String
  deriving DecidableEq, Repr

/-- The getter of the variable at a place among the plain getters of all of them: its question,
unless that is the plain getter of another one. -/
def chooseGetter (plain : List String) (v : Variable) (place : Nat) : String :=
  match v.question? with
  | some question => if question ∈ plain.eraseIdx place then v.plainGetter else question
  | none => v.plainGetter

/-- Every variable with its getter. -/
def withGetters (vs : List Variable) : List Member :=
  let plain := vs.map Variable.plainGetter
  vs.zipIdx.map fun (v, place) => ⟨v, chooseGetter plain v place⟩

/-- A class with its type name and its variables. -/
structure Declaration where
  name : String
  members : List Member
  deriving DecidableEq, Repr

/-- The constant that a field asks for. -/
def wantedConstant (memberName : String) : String :=
  "KEY_" ++ Text.screamingCase memberName

/-- The variables for fields with their member names. -/
def resolveVariables (names : TypeNames) (fields : List (Field × String)) :
    Except RenderFault (List Variable) := do
  let constants := (NameSupply.empty.issueAll (fields.map fun field => wantedConstant field.2)).1
  let kinds ← fields.mapM fun field => FieldKind.ofType names field.1.type.normalize
  return (fields.zip (constants.zip kinds)).map fun ((field, name), constant, kind) =>
    ⟨name, field.key, constant, kind⟩

/-- The declaration of a class. -/
def Declaration.ofClass (names : TypeNames) (c : ClassDef) : Except RenderFault Declaration := do
  let name ← names.get c.name
  let vs ← resolveVariables names (memberRule.named c)
  return ⟨name, withGetters vs⟩

/-! ## Parts of a declaration -/

/-- The line that opens the declaration, without its brace. -/
def opening (s : JavaSettings) (d : Declaration) : String :=
  "public class " ++ d.name ++ (s.baseClass.map (" extends " ++ ·)).getD ""

/-- The constant that holds a key. -/
def constantLine (m : Member) : Edit :=
  .line ("public static final String " ++ m.constant ++ " = \"" ++
    Text.literalBody .octal m.key ++ "\";")

/-- The declaration of a field. -/
def fieldLine (s : JavaSettings) (m : Member) : Edit :=
  let modifier := if s.immutable then "private final " else "private "
  .line (modifier ++ m.kind.spelling ++ " " ++ m.name ++ ";")

/-- The line that sets a field. -/
def assignLine (m : Member) : Edit :=
  .line ("this." ++ m.name ++ " = " ++ m.name ++ ";")

/-- A field as a parameter. -/
def parameter (m : Member) : String := m.kind.spelling ++ " " ++ m.name

/-- A constructor that takes values for the given fields and sets them. -/
def constructor (typeName : String) (members : List Member) : List Edit :=
  braced ("public " ++ typeName ++ "(" ++ String.intercalate ", " (members.map parameter) ++ ")")
    (members.map assignLine)

/-- The method that returns a field. -/
def getter (m : Member) : List Edit :=
  braced ("public " ++ m.kind.spelling ++ " " ++ m.getter ++ "()")
    [.line ("return " ++ m.name ++ ";")]

/-- The method that sets a field. -/
def setter (m : Member) : List Edit :=
  braced ("public void set" ++ m.suffix ++ "(" ++ parameter m ++ ")") [assignLine m]

/-- The methods by which a field can be reached. -/
def accessors (s : JavaSettings) (m : Member) : List (List Edit) :=
  getter m :: onlyIf (s.setters && !s.immutable) (setter m)

/-- Whether a field has the same value in two objects. -/
def comparison (m : Member) : String :=
  match m.kind with
  | .primitive .double => "Double.compare(this." ++ m.name ++ ", that." ++ m.name ++ ") == 0"
  | .primitive _ => "this." ++ m.name ++ " == that." ++ m.name
  | _ => "Objects.equals(this." ++ m.name ++ ", that." ++ m.name ++ ")"

/-- The texts with one more text behind the last of them. -/
def closeLast (ending : String) : List String → List String
  | [] => []
  | [last] => [last ++ ending]
  | one :: others => one :: closeLast ending others

/-- The lines that return whether all comparisons hold. -/
def returnAll : List String → List String
  | [] => ["return true;"]
  | first :: others => closeLast ";" (("return " ++ first) :: others.map ("        && " ++ ·))

/-- The line that takes the other object for one of this class; nothing needs it if there are no
fields. -/
def castLine (d : Declaration) : List Edit :=
  if d.members.isEmpty then [] else [.line (d.name ++ " that = (" ++ d.name ++ ") o;")]

/-- The method that compares two objects. -/
def equality (d : Declaration) : List Edit :=
  .line "@Override" ::
    braced "public boolean equals(Object o)" (
      braced "if (this == o)" [.line "return true;"] ++
        braced "if (o == null || getClass() != o.getClass())" [.line "return false;"] ++
        castLine d ++ Text.lines (returnAll (d.members.map comparison)))

/-- The value that the hash method returns. -/
def hashValue (members : List Member) : String :=
  if members.isEmpty then "0"
  else "Objects.hash(" ++ String.intercalate ", " (members.map (·.name)) ++ ")"

/-- The method that gives objects with equal fields equal numbers. -/
def hashing (members : List Member) : List Edit :=
  .line "@Override" ::
    braced "public int hashCode()" [.line ("return " ++ hashValue members ++ ";")]

/-! ## Whole declarations -/

/-- What stands between the braces of a declaration.  Fields that never change must be set by every
constructor, so only other classes have one without parameters. -/
def body (s : JavaSettings) (d : Declaration) : List Edit :=
  let hasFields := !d.members.isEmpty
  setApart (
    onlyIf hasFields (d.members.map constantLine) ++
    onlyIf hasFields (d.members.map (fieldLine s)) ++
    onlyIf (!s.immutable || !hasFields) (constructor d.name []) ++
    onlyIf hasFields (constructor d.name d.members) ++
    d.members.flatMap (accessors s) ++
    [equality d, hashing d.members])

/-- The edits of a declaration. -/
def Declaration.edits (s : JavaSettings) (d : Declaration) : List Edit :=
  braced (opening s d) (body s d)

/-- The classes that a declaration needs from other packages. -/
def Declaration.imports (d : Declaration) : List String :=
  (if d.members.any fun m => m.kind.usesList then ["java.util.List"] else []) ++
    (if d.members.isEmpty then [] else ["java.util.Objects"])

/-! ## Files -/

/-- The name of the file for a type. -/
def fileName (stem : String) : String := stem ++ ".java"

/-- The line that says which package the file belongs to. -/
def packageLines (s : JavaSettings) : List Edit :=
  match s.package with
  | some name => [.line ("package " ++ name ++ ";"), .emptyLine]
  | none => []

/-- The imports of a declaration. -/
def importLines (d : Declaration) : List Edit :=
  if d.imports.isEmpty then []
  else d.imports.map (fun name => .line ("import " ++ name ++ ";")) ++ [.emptyLine]

/-- The file of a declaration. -/
def file (s : JavaSettings) (d : Declaration) : SourceFile :=
  .headed (fileName d.name) (packageLines s ++ importLines d ++ d.edits s)

/-- Rendering in Java. -/
def backend : Backend JavaSettings Unit SourceFile where
  language := .java
  order := .parentsFirst
  reserved := Lexicon.Java.reservedTypeNames
  general := (·.toGeneralSettings)
  fault? := JavaSettings.fault?
  baseClass := (·.baseClass)
  start := ()
  declare s names _ c := (Declaration.ofClass names c).map fun d => (file s d, ())
  bytes := SourceFile.bytes
  files _ files := files

end Classwright.Java
