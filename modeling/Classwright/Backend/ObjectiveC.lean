/-
# Classwright.Backend.ObjectiveC — classes written in Objective-C

Numbers and truth values are scalars unless they may be absent; then they are boxed.  Dictionaries
become objects of generated classes, on their own and as elements of an array.  Arrays inside arrays
stay as they are, so no dictionary in them could become an object: a class at that depth has no
spelling.

A class becomes an interface with a property for each field and an implementation that converts
between objects and dictionaries.  The JSON keys are constants; since constants of all classes may
end up in one file, their names are told apart across classes.

Interfaces go into a header and implementations into a file beside it.  A type must be declared
before it is used: within one file classes come after the classes that they refer to, and between
files the header announces other classes and the implementation imports them.
-/

import Classwright.Render.Backend
import Classwright.Render.Names
import Classwright.Settings.Basic
import Classwright.Text.Literal

namespace Classwright.ObjectiveC

open Text (Edit indented braced onlyIf setApart NameSupply)

/-! ## Members -/

/-- Would the name of a getter promise a reference that the caller owns?  It does if it is one of
those words or goes on with a capital behind one of them. -/
def inMethodFamily (name : String) : Bool :=
  Lexicon.ObjectiveC.methodFamilies.any fun family =>
    match family.toList.isPrefixOf? name.toList with
    | some rest => rest.head?.all Char.isUpper
    | none => false

/-- The name itself, or one that promises nothing. -/
def avoidFamily (name : String) : String :=
  if inMethodFamily name then "the" ++ Text.capitalizeFirst name else name

/-- Member names in Objective-C. -/
def memberRule : MemberRule where
  reserved := Lexicon.ObjectiveC.keywords
  generated := Lexicon.ObjectiveC.generatedMembers
  adjust := avoidFamily

/-! ## Types -/

/-- Values that are no objects. -/
inductive Scalar where
  | integer
  | double
  | boolean
  deriving DecidableEq, Repr

/-- Elements of an array that are kept as they come. -/
inductive Element where
  | number
  | string
  | array
  | dynamic
  deriving DecidableEq, Repr

/-- Types of properties. -/
inductive PropertyKind where
  | scalar (value : Scalar)
  /-- A boxed scalar. -/
  | number
  | string
  /-- Any object. -/
  | dynamic
  /-- An array that is kept as it comes. -/
  | array (element : Element)
  /-- An object of a generated class. -/
  | object (typeName : String)
  /-- An array of objects of a generated class. -/
  | objects (typeName : String)
  deriving DecidableEq, Repr

/-- The element type of an array that is kept as it comes; none, if it holds classes. -/
def Element.ofType? : ValueType → Option Element
  | .integer | .float | .boolean => some .number
  | .string => some .string
  | .any | .null => some .dynamic
  | .optional inner => ofType? inner
  | .array item => if item.references.isEmpty then some .array else none
  | .reference _ => none

/-- The type of a property with elements of a normal type.  Elements that may be absent count as
elements that may not, since absent ones are left out. -/
def arrayOf (names : TypeNames) (place : FieldPlace) (item : ValueType) :
    Except RenderFault PropertyKind :=
  match item.present with
  | .reference className => (names.get className).map .objects
  | element =>
    match Element.ofType? element with
    | some element => .ok (.array element)
    | none => .error (.unsupportedType .objectiveC place (.array item))

/-- The type of a property for a value that is there. -/
def PropertyKind.ofPresent (names : TypeNames) (place : FieldPlace) :
    ValueType → Except RenderFault PropertyKind
  | .integer => .ok (.scalar .integer)
  | .float => .ok (.scalar .double)
  | .boolean => .ok (.scalar .boolean)
  | .string => .ok .string
  | .any | .null => .ok .dynamic
  | .reference className => (names.get className).map .object
  | .array item => arrayOf names place item
  | .optional inner => ofPresent names place inner

/-- The type itself, with scalars in a box. -/
def PropertyKind.boxed : PropertyKind → PropertyKind
  | .scalar _ => .number
  | other => other

/-- The type of a property for a normal type, at a place that a fault names. -/
def PropertyKind.ofType (names : TypeNames) (place : FieldPlace) (type : ValueType) :
    Except RenderFault PropertyKind :=
  let kind := ofPresent names place type.present
  if type.isOptional then kind.map boxed else kind

/-! ## Spellings -/

/-- The name of a scalar type. -/
def Scalar.typeName : Scalar → String
  | .integer => "NSInteger"
  | .double => "double"
  | .boolean => "BOOL"

/-- The method that takes the scalar out of its box. -/
def Scalar.getter : Scalar → String
  | .integer => "integerValue"
  | .double => "doubleValue"
  | .boolean => "boolValue"

/-- The method that puts the scalar into a box. -/
def Scalar.boxer : Scalar → String
  | .integer => "numberWithInteger"
  | .double => "numberWithDouble"
  | .boolean => "numberWithBool"

/-- The spelling of an element type. -/
def Element.spelling : Element → String
  | .number => "NSNumber *"
  | .string => "NSString *"
  | .array => "NSArray *"
  | .dynamic => "id"

/-- The spelling of an array type. -/
def arraySpelling (element : String) : String := "NSArray<" ++ element ++ "> *"

/-- A type in front of the name that it declares.  A star stands next to the name. -/
def PropertyKind.declarator (name : String) : PropertyKind → String
  | .scalar value => value.typeName ++ " " ++ name
  | .dynamic => "id " ++ name
  | .number => "NSNumber *" ++ name
  | .string => "NSString *" ++ name
  | .array element => arraySpelling element.spelling ++ name
  | .object typeName => typeName ++ " *" ++ name
  | .objects typeName => arraySpelling (typeName ++ " *") ++ name

/-- How a property holds its value. -/
inductive Storage where
  | assign
  | copy
  | retain
  deriving DecidableEq, Repr

/-- How a property of this type holds its value. -/
def PropertyKind.storage : PropertyKind → Storage
  | .scalar _ => .assign
  | .string => .copy
  | _ => .retain

/-! ## Classes with everything resolved -/

/-- A field as a property. -/
structure Member where
  name : String
  key : String
  /-- The constant that holds the key. -/
  constant : String
  kind : PropertyKind
  deriving DecidableEq, Repr

/-- A class with its type name, its properties, and the type names of the classes it refers to. -/
structure Declaration where
  name : String
  members : List Member
  nested : List String
  deriving DecidableEq, Repr

/-- The type of the property for a field. -/
def kindOf (names : TypeNames) (className : String) (field : Field) :
    Except RenderFault PropertyKind :=
  PropertyKind.ofType names ⟨className, field.key⟩ field.type.normalize

/-- The constant that a property asks for. -/
def wantedConstant (typeName memberName : String) : String :=
  "k" ++ typeName ++ Text.capitalizeFirst memberName

/-- The properties for fields with their member names; `constants` holds the names of constants that
are taken, and goes on to the next class. -/
def resolveMembers (names : TypeNames) (className typeName : String) (constants : NameSupply) :
    List (Field × String) → Except RenderFault (List Member × NameSupply)
  | [] => .ok ([], constants)
  | (field, name) :: rest =>
    match kindOf names className field with
    | .error fault => .error fault
    | .ok kind =>
      let (constant, constants) := constants.issue (wantedConstant typeName name)
      match resolveMembers names className typeName constants rest with
      | .error fault => .error fault
      | .ok (members, constants) => .ok (⟨name, field.key, constant, kind⟩ :: members, constants)

/-- The declaration of a class. -/
def Declaration.ofClass (names : TypeNames) (constants : NameSupply) (c : ClassDef) :
    Except RenderFault (Declaration × NameSupply) := do
  let name ← names.get c.name
  let (members, constants) ← resolveMembers names c.name name constants (memberRule.named c)
  let nested ← c.nested.mapM names.get
  return (⟨name, members, nested⟩, constants)

/-! ## Interfaces -/

/-- The attribute that says how a property holds its value. -/
def storageWord (s : ObjectiveCSettings) : Storage → String
  | .assign => "assign"
  | .copy => "copy"
  | .retain => if s.countsReferences then "strong" else "retain"

/-- The declaration of a property. -/
def propertyLine (s : ObjectiveCSettings) (m : Member) : Edit :=
  let atomicity := if s.atomic then "atomic" else "nonatomic"
  .line ("@property (" ++ atomicity ++ ", " ++ storageWord s m.kind.storage ++ ") " ++
    m.kind.declarator m.name ++ ";")

/-- Lines with an empty line behind them, if there are any. -/
def closedGroup (edits : List Edit) : List Edit :=
  if edits.isEmpty then [] else edits ++ [.emptyLine]

/-- The interface of a class. -/
def Declaration.interface (s : ObjectiveCSettings) (d : Declaration) : List Edit :=
  [.line ("@interface " ++ d.name ++ " : " ++ s.baseClass), .emptyLine] ++
    closedGroup (d.members.map (propertyLine s)) ++
    [.line "+ (instancetype)modelObjectWithDictionary:(NSDictionary *)dict;",
      .line "- (instancetype)initWithDictionary:(NSDictionary *)dict;",
      .line "- (NSDictionary *)dictionaryRepresentation;", .emptyLine, .line "@end"]

/-! ## From dictionaries to objects -/

/-- A method: its head on a line of its own, then the body in braces. -/
def method (head : String) (body : List Edit) : List Edit :=
  [.line head, .line "\x7b"] ++ indented body ++ [.line "\x7d"]

/-- The value under the key of a property. -/
def lookup (m : Member) : String :=
  "[self objectOrNilForKey:" ++ m.constant ++ " fromDictionary:dict]"

/-- An object made of a dictionary. -/
def objectOf (typeName dictionary : String) : String :=
  "[" ++ typeName ++ " modelObjectWithDictionary:" ++ dictionary ++ "]"

/-- Set a property to objects: one for each dictionary in an array, or one for a dictionary that is
not in an array. -/
def parseObjects (m : Member) (typeName : String) : List Edit :=
  let received := "received" ++ Text.capitalizeFirst m.name
  let parsed := "parsed" ++ Text.capitalizeFirst m.name
  let add (dictionary : String) : Edit :=
    .line ("[" ++ parsed ++ " addObject:" ++ objectOf typeName dictionary ++ "];")
  [.line ("NSObject *" ++ received ++ " = " ++ lookup m ++ ";"),
      .line ("NSMutableArray *" ++ parsed ++ " = [NSMutableArray array];"),
      .line ("if ([" ++ received ++ " isKindOfClass:[NSArray class]]) \x7b")] ++
    indented (
      braced ("for (NSDictionary *item in (NSArray *)" ++ received ++ ")")
        (braced "if ([item isKindOfClass:[NSDictionary class]])" [add "item"])) ++
    [.line ("\x7d else if ([" ++ received ++ " isKindOfClass:[NSDictionary class]]) \x7b")] ++
    indented [add ("(NSDictionary *)" ++ received)] ++
    [.line "\x7d", .line ("self." ++ m.name ++ " = [NSArray arrayWithArray:" ++ parsed ++ "];")]

/-- Set a property from the dictionary. -/
def parse (m : Member) : List Edit :=
  let target := "self." ++ m.name ++ " = "
  match m.kind with
  | .scalar scalar => [.line (target ++ "[" ++ lookup m ++ " " ++ scalar.getter ++ "];")]
  | .object typeName => [.line (target ++ objectOf typeName (lookup m) ++ ";")]
  | .objects typeName => parseObjects m typeName
  | _ => [.line (target ++ lookup m ++ ";")]

/-- The method that makes an object of a dictionary. -/
def factory (s : ObjectiveCSettings) : List Edit :=
  method "+ (instancetype)modelObjectWithDictionary:(NSDictionary *)dict" <|
    if s.countsReferences then [.line "return [[self alloc] initWithDictionary:dict];"]
    else [.line "return [[[self alloc] initWithDictionary:dict] autorelease];"]

/-- The method that sets all properties from a dictionary. -/
def initializer (members : List Member) : List Edit :=
  method "- (instancetype)initWithDictionary:(NSDictionary *)dict" <|
    .line "self = [super init];" ::
      (braced "if (self && [dict isKindOfClass:[NSDictionary class]])" (members.flatMap parse) ++
        [.line "return self;"])

/-! ## From objects to dictionaries -/

/-- Put a value under the key of a property. -/
def storeLine (m : Member) (value : String) : Edit :=
  .line ("[mutableDict setValue:" ++ value ++ " forKey:" ++ m.constant ++ "];")

/-- Put the dictionaries of objects under the key of a property. -/
def storeObjects (m : Member) : List Edit :=
  let collected := "tempArrayFor" ++ Text.capitalizeFirst m.name
  let represented := "[subArrayObject performSelector:@selector(dictionaryRepresentation)]"
  let add (object : String) : Edit := .line ("[" ++ collected ++ " addObject:" ++ object ++ "];")
  .line ("NSMutableArray *" ++ collected ++ " = [NSMutableArray array];") ::
    (braced ("for (NSObject *subArrayObject in self." ++ m.name ++ ")")
      ([.line
          "if ([subArrayObject respondsToSelector:@selector(dictionaryRepresentation)]) \x7b"] ++
        indented [add represented] ++ [.line "\x7d else \x7b"] ++
        indented [add "subArrayObject"] ++ [.line "\x7d"]) ++
      [storeLine m ("[NSArray arrayWithArray:" ++ collected ++ "]")])

/-- Put a property into the dictionary. -/
def store (m : Member) : List Edit :=
  let value := "self." ++ m.name
  match m.kind with
  | .scalar scalar => [storeLine m ("[NSNumber " ++ scalar.boxer ++ ":" ++ value ++ "]")]
  | .object _ => [storeLine m ("[" ++ value ++ " dictionaryRepresentation]")]
  | .objects _ => storeObjects m
  | _ => [storeLine m value]

/-- The method that makes a dictionary of an object. -/
def representation (members : List Member) : List Edit :=
  method "- (NSDictionary *)dictionaryRepresentation" <|
    .line "NSMutableDictionary *mutableDict = [NSMutableDictionary dictionary];" ::
      (members.flatMap store ++
        [.emptyLine, .line "return [NSDictionary dictionaryWithDictionary:mutableDict];"])

/-! ## Implementations -/

/-- The constant that holds a key. -/
def constantLine (m : Member) : Edit :=
  .line ("static NSString *const " ++ m.constant ++ " = @\"" ++ Text.literalBody .octal m.key ++
    "\";")

/-- The method that describes an object. -/
def description : List Edit :=
  method "- (NSString *)description"
    [.line "return [NSString stringWithFormat:@\"%@\", [self dictionaryRepresentation]];"]

/-- The method that looks up a value and takes a null object for an absent one. -/
def helper : List Edit :=
  [.line "#pragma mark - Helper Method", .emptyLine] ++
    method "- (id)objectOrNilForKey:(id)aKey fromDictionary:(NSDictionary *)dict"
      [.line "id object = [dict objectForKey:aKey];",
        .line "return [object isEqual:[NSNull null]] ? nil : object;"]

/-- The method that gives up the references of an object. -/
def release (members : List Member) : List Edit :=
  method "- (void)dealloc" <|
    ((members.filter fun m => m.kind.storage ≠ .assign).map fun m =>
      .line ("[_" ++ m.name ++ " release];")) ++ [.line "[super dealloc];"]

/-- The implementation of a class. -/
def Declaration.implementation (s : ObjectiveCSettings) (d : Declaration) : List Edit :=
  closedGroup (d.members.map constantLine) ++
    [.line ("@interface " ++ d.name ++ " ()"), .emptyLine,
      .line "- (id)objectOrNilForKey:(id)aKey fromDictionary:(NSDictionary *)dict;", .emptyLine,
      .line "@end", .emptyLine, .line ("@implementation " ++ d.name)] ++
    setApart (
      [factory s, initializer d.members, representation d.members, description, helper] ++
        onlyIf (!s.countsReferences) (release d.members) ++ [[.line "@end"]])

/-! ## Files -/

/-- A declaration that has been written. -/
structure Source where
  typeName : String
  /-- The type names of the classes that it refers to. -/
  nested : List String
  interface : String
  implementation : String
  deriving DecidableEq, Repr

/-- The name of a header. -/
def headerName (stem : String) : String := stem ++ ".h"

/-- The name of an implementation file. -/
def implementationName (stem : String) : String := stem ++ ".m"

/-- The import of a header of this project. -/
def importLine (stem : String) : Edit := .line ("#import \"" ++ headerName stem ++ "\"")

/-- Declare a class. -/
def declare (s : ObjectiveCSettings) (names : TypeNames) (constants : NameSupply) (c : ClassDef) :
    Except RenderFault (Source × NameSupply) :=
  (Declaration.ofClass names constants c).map fun (d, constants) =>
    (⟨d.name, d.nested, SourceFile.typeset (d.interface s),
      SourceFile.typeset (d.implementation s)⟩, constants)

/-- What every header imports. -/
def headerImports (s : ObjectiveCSettings) : List Edit :=
  .line "#import <Foundation/Foundation.h>" ::
    ((if s.baseClass = objectiveCRoot then [] else [importLine s.baseClass]) ++ [.emptyLine])

/-- The announcement of other classes. -/
def announcement (nested : List String) : List Edit :=
  closedGroup <|
    if nested.isEmpty then [] else [.line ("@class " ++ String.intercalate ", " nested ++ ";")]

/-- A header with some interfaces. -/
def header (s : ObjectiveCSettings) (stem : String) (nested interfaces : List String) :
    SourceFile :=
  .headed (headerName stem)
    (headerImports s ++ announcement nested ++ SourceFile.spaced interfaces)

/-- A file with some implementations, which imports its own header first. -/
def implementationFile (stem : String) (nested implementations : List String) : SourceFile :=
  .headed (implementationName stem)
    (importLine stem :: (nested.map importLine ++ .emptyLine :: SourceFile.spaced implementations))

/-- The files for all declarations. -/
def files (s : ObjectiveCSettings) (sources : List Source) : List SourceFile :=
  match s.fileLayout with
  | .perClass =>
    sources.flatMap fun source =>
      [header s source.typeName source.nested [source.interface],
        implementationFile source.typeName source.nested [source.implementation]]
  | .singleFile =>
    if sources.isEmpty then []
    else
      [header s s.singleFileName [] (sources.map (·.interface)),
        implementationFile s.singleFileName [] (sources.map (·.implementation))]

/-- Rendering in Objective-C. -/
def backend : Backend ObjectiveCSettings NameSupply Source where
  language := .objectiveC
  order := .leavesFirst
  reserved := Lexicon.ObjectiveC.reservedTypeNames
  general := (·.toGeneralSettings)
  fault? := ObjectiveCSettings.fault?
  baseClass s := some s.baseClass
  start := .empty
  declare := declare
  bytes source := source.interface.utf8ByteSize + source.implementation.utf8ByteSize
  files := files

end Classwright.ObjectiveC
