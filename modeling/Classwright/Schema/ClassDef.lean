/-
# Classwright.Schema.ClassDef — one class and its fields

A class is a name with fields in the order in which they were first seen.  It can be put together
field by field (`add`), or from observations (`observe`), which widen the type of a field that is
already there.  Neither step checks anything; `fault?` does, and `checked` lets only sound classes
through.

A fault of a list of classes names the place it was found at, so that its message can be understood
without the list.
-/

import Classwright.Schema.ValueType
import Classwright.Text.Words

namespace Classwright

/-! ## What can be wrong with classes -/

/-- A reason why a list of classes is no schema. -/
inductive SchemaFault where
  /-- A class name holds nothing but white space. -/
  | blankClassName
  /-- A property of the class has an empty key. -/
  | emptyKey (className : String)
  /-- Two classes have this name. -/
  | repeatedClass (name : String)
  /-- Two properties of the class have this key. -/
  | repeatedKey (className key : String)
  /-- A property refers to a class that is not in the list. -/
  | undeclaredReference (className key target : String)
  /-- Following references leads from the first class of the path back to it. -/
  | cycle (path : List String)
  deriving DecidableEq, Repr

/-- The fault in words. -/
def SchemaFault.message : SchemaFault → String
  | .blankClassName => "Class name must not be empty"
  | .emptyKey className => s!"Property name must not be empty in class '{className}'"
  | .repeatedClass name => s!"Class '{name}' is declared more than once"
  | .repeatedKey className key =>
    s!"Property '{key}' is declared more than once in class '{className}'"
  | .undeclaredReference className key target =>
    s!"Property '{key}' of class '{className}' references undefined class '{target}'"
  | .cycle path => "Cyclic class reference: " ++ String.intercalate " → " path

/-! ## Classes -/

/-- A JSON property with its type.  The key is kept exactly as the samples spell it. -/
structure Field where
  key : String
  type : ValueType
  deriving DecidableEq, Repr

/-- A named list of fields. -/
structure ClassDef where
  name : String
  fields : List Field
  deriving DecidableEq, Repr

namespace ClassDef

/-! ## Building -/

/-- A class without fields. -/
def named (name : String) : ClassDef := ⟨name, []⟩

/-- The class with one more field, whether or not its key is new. -/
def add (key : String) (type : ValueType) (c : ClassDef) : ClassDef :=
  { c with fields := c.fields ++ [⟨key, type⟩] }

/-- Widen the first field with the key, or append a new field if no field has it. -/
def observeField (key : String) (type : ValueType) : List Field → List Field
  | [] => [⟨key, type⟩]
  | field :: rest =>
    if field.key = key then { field with type := field.type.widen type } :: rest
    else field :: observeField key type rest

/-- The class after one more observation of a property. -/
def observe (key : String) (type : ValueType) (c : ClassDef) : ClassDef :=
  { c with fields := observeField key type c.fields }

/-! ## Questions -/

/-- The field with the given key. -/
def field? (c : ClassDef) (key : String) : Option Field :=
  c.fields.find? (·.key = key)

/-- Does the class have no fields? -/
def isEmpty (c : ClassDef) : Bool := c.fields.isEmpty

/-- The classes that the fields refer to, each once, in the order of the first reference. -/
def nested (c : ClassDef) : List String :=
  (c.fields.flatMap (·.type.references)).eraseDups

/-- Do two classes have the same fields in the same order?  Their names do not matter. -/
def sameShape (c d : ClassDef) : Bool := c.fields = d.fields

/-- The class with every reference replaced; its own name is kept. -/
def rename (newName : String → String) (c : ClassDef) : ClassDef :=
  { c with fields := c.fields.map fun field => { field with type := field.type.rename newName } }

/-! ## Soundness of one class -/

/-- The first key that is empty or was `seen` before. -/
def keyFault? (className : String) (seen : List String) : List Field → Option SchemaFault
  | [] => none
  | field :: rest =>
    if field.key = "" then some (.emptyKey className)
    else if field.key ∈ seen then some (.repeatedKey className field.key)
    else keyFault? className (field.key :: seen) rest

/-- The first fault that can be seen without looking at other classes. -/
def fault? (c : ClassDef) : Option SchemaFault :=
  if Text.isAllBlank c.name then some .blankClassName else keyFault? c.name [] c.fields

/-- The class itself, if nothing is wrong with it. -/
def checked (c : ClassDef) : Except SchemaFault ClassDef :=
  match c.fault? with
  | some fault => .error fault
  | none => .ok c

end ClassDef

end Classwright
