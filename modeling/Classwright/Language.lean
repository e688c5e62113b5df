/-
# Classwright.Language — the languages that classes are written in

A language has a key, by which commands and files name it, and a title, by which messages name it.
People may spell a language in more ways than files may: blanks around the name and the case of its
letters do not matter, and there are other spellings for one of the languages.

Each language keeps words for itself.  Keywords may name neither members nor types; names of classes
and types that generated code uses, or that the standard library brings, may not name types.  In
Objective-C there are also methods that every object inherits, and first words of method names that
say something about memory.
-/

import Classwright.Json.Reader
import Classwright.Text.Identifier

namespace Classwright

/-- A language that classes can be written in. -/
inductive Language where
  | swift
  | objectiveC
  | java
  deriving DecidableEq, Repr

namespace Language

/-- Every language, in the order in which they are listed. -/
def all : List Language := [.swift, .objectiveC, .java]

/-- The short name of the language. -/
def key : Language → String
  | .swift => "swift"
  | .objectiveC => "objc"
  | .java => "java"

/-- The name of the language as it reads in messages. -/
def title : Language → String
  | .swift => "Swift"
  | .objectiveC => "Objective-C"
  | .java => "Java"

/-- The spellings of languages that people may use, in lower case. -/
def spellings : List (String × Language) :=
  [("swift", .swift), ("objc", .objectiveC), ("objective-c", .objectiveC),
    ("objectivec", .objectiveC), ("java", .java)]

/-- The language of that name, however it is spelled. -/
def ofName? (name : String) : Option Language :=
  spellings.lookup (Text.lowerCase (Text.trim name))

/-- The tags of languages in JSON texts. -/
def tags : List (String × Language) :=
  [("swift", .swift), ("objc", .objectiveC), ("objective-c", .objectiveC), ("java", .java)]

/-- The language whose tag a whole text holds. -/
def ofText (text : String) : Except Json.ReadError Language :=
  Json.readText (Json.readChoice Json.maxLevels tags) text

end Language

end Classwright

/-! ## Words that Java keeps for itself -/

namespace Classwright.Lexicon.Java

/-- Keywords, literals, and words that are keywords in some positions only. -/
def keywords : List String :=
  ["abstract", "assert", "boolean", "break", "byte", "case", "catch", "char", "class", "const",
    "continue", "default", "do", "double", "else", "enum", "extends", "final", "finally",
    "float", "for", "goto", "if", "implements", "import", "instanceof", "int", "interface",
    "long", "native", "new", "package", "private", "protected", "public", "return", "short",
    "static", "strictfp", "super", "switch", "synchronized", "this", "throw", "throws",
    "transient", "try", "void", "volatile", "while", "true", "false", "null", "var", "record",
    "yield"]

/-- Classes in scope that a generated type must not hide. -/
def typeNames : List String :=
  ["Object", "String", "Long", "Double", "Boolean", "Integer", "Float", "Number", "Class",
    "System", "Math", "Override", "List", "Objects"]

/-- Names that no generated type may have. -/
def reservedTypeNames : List String := keywords ++ typeNames

end Classwright.Lexicon.Java

/-! ## Words that Objective-C keeps for itself -/

namespace Classwright.Lexicon.ObjectiveC

/-- Keywords of C and Objective-C, and the methods of the root class that a property would hide. -/
def keywords : List String :=
  ["auto", "break", "case", "char", "const", "continue", "default", "do", "double", "else",
    "enum", "extern", "float", "for", "goto", "if", "inline", "int", "long", "register",
    "restrict", "return", "short", "signed", "sizeof", "static", "struct", "switch", "typedef",
    "union", "unsigned", "void", "volatile", "while", "id", "nil", "Nil", "YES", "NO", "self",
    "super", "in", "out", "inout", "bycopy", "byref", "oneway", "atomic", "nonatomic", "retain",
    "assign", "strong", "weak", "readonly", "readwrite", "BOOL", "Class", "SEL", "IMP", "class",
    "description", "debugDescription", "hash", "superclass", "zone", "bool", "true", "false",
    "_Bool", "NULL", "instancetype"]

/-- Foundation types that a generated type must not hide. -/
def typeNames : List String :=
  ["NSObject", "NSString", "NSNumber", "NSArray", "NSDictionary", "NSMutableArray",
    "NSMutableDictionary", "NSNull", "NSInteger", "NSUInteger", "NSData", "NSDate", "NSURL"]

/-- Names that no generated type may have. -/
def reservedTypeNames : List String := keywords ++ typeNames

/-- First words of method names that promise a reference which the caller owns. -/
def methodFamilies : List String :=
  ["mutableCopy", "alloc", "copy", "init", "new"]

/-- Methods that every generated class defines. -/
def generatedMembers : List String :=
  ["modelObjectWithDictionary", "initWithDictionary", "dictionaryRepresentation",
    "objectOrNilForKey"]

end Classwright.Lexicon.ObjectiveC

/-! ## Words that Swift keeps for itself -/

namespace Classwright.Lexicon.Swift

/-- Keywords, also those that are keywords in some positions only. -/
def keywords : List String :=
  ["associatedtype", "class", "deinit", "enum", "extension", "fileprivate", "func", "import",
    "init", "inout", "internal", "let", "open", "operator", "private", "precedencegroup",
    "protocol", "public", "rethrows", "static", "struct", "subscript", "typealias", "var",
    "break", "case", "catch", "continue", "default", "defer", "do", "else", "fallthrough", "for",
    "guard", "if", "in", "repeat", "return", "throw", "switch", "where", "while", "Any", "as",
    "await", "false", "is", "nil", "self", "Self", "super", "throws", "true", "try", "Type",
    "Protocol"]

/-- Types and modules of the standard libraries that a generated type must not hide. -/
def typeNames : List String :=
  ["String", "Int", "Double", "Float", "Bool", "Array", "Dictionary", "Set", "Optional", "Data",
    "Date", "URL", "Decoder", "Encoder", "Codable", "Decodable", "Encodable", "Equatable",
    "Hashable", "Error", "CodingKey", "CodingKeys", "Foundation", "NSObject"]

/-- Names that no generated type may have. -/
def reservedTypeNames : List String := keywords ++ typeNames

end Classwright.Lexicon.Swift
