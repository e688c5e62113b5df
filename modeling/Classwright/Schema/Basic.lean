/-
# Classwright.Schema.Basic — a checked set of classes

A schema is a list of classes, in declaration order, that passed every check: each class is sound on
its own, names are unique, every reference leads to a class of the list, and no chain of references
leads back to its start.  The type carries the outcome of the check, so a schema never has to be
checked again; what the check means is a matter of theorems about `fault?`.

Faults are found in a fixed order.  First the classes one by one, each on its own and then against
the names before it; then the references, property by property; the search for cycles comes last,
when every reference is known to lead somewhere.
-/

import Classwright.Schema.ClassDef
import Classwright.Schema.Walk

namespace Classwright

/-! ## The checks on a list of classes -/

namespace ClassList

/-- The names of the classes. -/
def names (classes : List ClassDef) : List String :=
  classes.map (·.name)

/-- The places of the classes in the list, each under the name of its class.  Names are looked up in
it only after it is known that none stands twice. -/
def index (classes : List ClassDef) : List (String × Nat) :=
  (names classes).zipIdx

/-- The class of the given name. -/
def find? (classes : List ClassDef) (name : String) : Option ClassDef :=
  ((index classes).lookup name).bind fun place => classes[place]?

/-- The first class that is unsound on its own or has a name that was `seen` before. -/
def localFault? (seen : List String) : List ClassDef → Option SchemaFault
  | [] => none
  | c :: rest =>
    match c.fault? with
    | some fault => some fault
    | none =>
      if c.name ∈ seen then some (.repeatedClass c.name) else localFault? (c.name :: seen) rest

/-- The first reference, in the order of classes, fields and types, to a name outside `declared`. -/
def referenceFault? (declared : List String) (classes : List ClassDef) : Option SchemaFault :=
  classes.findSome? fun c => c.fields.findSome? fun field =>
    (field.type.references.find? (· ∉ declared)).map (.undeclaredReference c.name field.key)

/-- The classes with their references, as a graph on the class names. -/
def graph (classes : List ClassDef) : Digraph where
  nodes := names classes
  successors name := ((find? classes name).map (·.nested)).getD []

/-- The first fault of the list, if there is one. -/
def fault? (classes : List ClassDef) : Option SchemaFault :=
  (localFault? [] classes).or <|
    (referenceFault? (names classes) classes).or <|
      (graph classes).cycle?.map .cycle

end ClassList

/-! ## Schemas -/

/-- Classes in declaration order in which no fault was found. -/
structure Schema where
  classes : List ClassDef
  faultless : ClassList.fault? classes = none

namespace Schema

/-- The schema of the given classes, or their first fault. -/
def ofClasses (classes : List ClassDef) : Except SchemaFault Schema :=
  match h : ClassList.fault? classes with
  | some fault => .error fault
  | none => .ok ⟨classes, h⟩

/-- The places of the classes, each under the name of its class. -/
def index (s : Schema) : List (String × Nat) := ClassList.index s.classes

/-- The class of the given name. -/
def find? (s : Schema) (name : String) : Option ClassDef :=
  ClassList.find? s.classes name

/-- Is there a class of the given name? -/
def contains (s : Schema) (name : String) : Bool :=
  (s.index.lookup name).isSome

/-- How many classes there are. -/
def size (s : Schema) : Nat := s.classes.length

/-- Is there no class? -/
def isEmpty (s : Schema) : Bool := s.classes.isEmpty

/-- The references between the classes, as a graph on their names. -/
def graph (s : Schema) : Digraph := ClassList.graph s.classes

/-! ## Orders of the classes -/

/-- The classes that no class refers to, in declaration order. -/
def roots (s : Schema) : List ClassDef :=
  let referenced := s.classes.flatMap (·.nested)
  s.classes.filter (·.name ∉ referenced)

/-- The names of the roots. -/
def rootNames (s : Schema) : List String := s.roots.map (·.name)

/-- The classes of the given names. -/
def select (s : Schema) (names : List String) : List ClassDef :=
  names.filterMap s.find?

/-- From the roots down: a class, then each class it refers to with everything below that class. -/
def depthFirst (s : Schema) : List ClassDef :=
  s.select (s.graph.preorder s.rootNames)

/-- From the roots down, level by level. -/
def breadthFirst (s : Schema) : List ClassDef :=
  s.select (s.graph.levelOrder s.rootNames)

/-- Every class after all classes that it refers to. -/
def leavesFirst (s : Schema) : List ClassDef :=
  s.select (s.graph.postorder s.rootNames)

end Schema

end Classwright
