/-
# Classwright.Schema.ValueType — the types that JSON values were seen to have

A value type says what the samples of one JSON property had in common.  Two observations of the same
property are reconciled by `widen`, which finds one type for both; where no such type says anything,
the answer is `any`.

Wrappers may be written redundantly: an optional of an optional is an optional, and an optional
`null` is just `null`.  `normalize` collapses them.  `widen` compares its arguments as they are
written and normalizes only where it builds a new optional, so the same type may come out in more
than one spelling; up to `normalize` the spelling does not matter.
-/

namespace Classwright

/-- The type of a JSON value, as far as the samples determine it. -/
inductive ValueType where
  /-- Numbers without a fractional part. -/
  | integer
  /-- Numbers of which at least one has a fractional part. -/
  | float
  | string
  | boolean
  /-- Lists whose elements all have one type. -/
  | array (item : ValueType)
  /-- Objects described by the class of that name. -/
  | reference (name : String)
  /-- Values that may be `null` or missing. -/
  | optional (inner : ValueType)
  /-- Values whose samples have nothing in common. -/
  | any
  /-- Nothing but `null` was seen. -/
  | null
  deriving DecidableEq, Repr

namespace ValueType

/-! ## Redundant wrappers -/

/-- The optional of a normal type, without a wrapper that adds nothing. -/
def orAbsent : ValueType → ValueType
  | .optional inner => .optional inner
  | .null => .null
  | .any => .any
  | inner => .optional inner

/-- The type without redundant optionals, at every depth. -/
def normalize : ValueType → ValueType
  | .optional inner => inner.normalize.orAbsent
  | .array item => .array item.normalize
  | leaf => leaf

/-! ## Reconciling two observations -/

/-- How many wrappers and leaves the type is written with. -/
def size : ValueType → Nat
  | .array item => item.size + 1
  | .optional inner => inner.size + 1
  | _ => 1

/-- One type for the values of both types. -/
def widen (left right : ValueType) : ValueType :=
  if left = right then left
  else
    match left, right with
    | .any, _ => .any
    | _, .any => .any
    | .null, .optional inner => .optional inner
    | .optional inner, .null => .optional inner
    | .null, other => .optional other
    | other, .null => .optional other
    | .optional first, .optional second => (optional (widen first second)).normalize
    | .optional inner, other => (optional (widen inner other)).normalize
    | other, .optional inner => (optional (widen inner other)).normalize
    | .integer, .float => .float
    | .float, .integer => .float
    | .array first, .array second => .array (widen first second)
    | _, _ => .any
termination_by left.size + right.size
decreasing_by all_goals simp only [size]; omega

/-! ## Questions and traversals -/

/-- Is the type a number, a string or a boolean? -/
def isScalar : ValueType → Bool
  | .integer | .float | .string | .boolean => true
  | _ => false

/-- Is the outermost wrapper an optional? -/
def isOptional : ValueType → Bool
  | .optional _ => true
  | _ => false

/-- The type under one optional wrapper, if there is one, else the type itself. -/
def present : ValueType → ValueType
  | .optional inner => inner
  | other => other

/-- The names of the classes inside the type, from the outside in. -/
def references : ValueType → List String
  | .reference name => [name]
  | .array item => item.references
  | .optional inner => inner.references
  | _ => []

/-- The type with every class name replaced. -/
def rename (newName : String → String) : ValueType → ValueType
  | .reference name => .reference (newName name)
  | .array item => .array (item.rename newName)
  | .optional inner => .optional (inner.rename newName)
  | leaf => leaf

/-- The type as it reads in messages. -/
def display : ValueType → String
  | .integer => "integer"
  | .float => "float"
  | .string => "string"
  | .boolean => "boolean"
  | .array item => "array<" ++ item.display ++ ">"
  | .reference name => "class " ++ name
  | .optional inner => "optional<" ++ inner.display ++ ">"
  | .any => "any"
  | .null => "null"

end ValueType

end Classwright
