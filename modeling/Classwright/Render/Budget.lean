/-
# Classwright.Render.Budget — why rendering stops

Settings can be wrong, or be those of another language; a type can have no counterpart in a
language; a budget can run out.  The other two kinds of fault have their cause inside a schema that
was never checked or inside the renderer itself.

A budget limits the number of classes and the bytes of output.  It is looked at before each class,
after each class, and once more when files have been put together, because headers and imports count
too.  Rendering that hits a limit produces nothing.
-/

import Classwright.Schema.ClassDef
import Classwright.Settings.Rule

namespace Classwright

/-! ## Faults -/

/-- A limit that rendering ran into. -/
inductive Limit where
  | classes (most : Nat)
  | bytes (most : Nat)
  deriving DecidableEq, Repr

/-- The limit in words. -/
def Limit.message : Limit → String
  | .classes most => s!"class limit of {most} reached"
  | .bytes most => s!"output exceeds {most} bytes"

/-- A field of a class. -/
structure FieldPlace where
  className : String
  key : String
  deriving DecidableEq, Repr

/-- A reason why classes cannot be rendered. -/
inductive RenderFault where
  | settings (fault : SettingsFault)
  /-- The settings are for another language. -/
  | foreignSettings (language given : Language)
  /-- No language has that name, or none that is available. -/
  | unknownLanguage (name : String)
  /-- The language has no counterpart of a type. -/
  | unsupportedType (language : Language) (place : FieldPlace) (type : ValueType)
  /-- The classes are no schema. -/
  | schema (fault : SchemaFault)
  /-- A limit was hit when `rendered` of `total` classes had been rendered. -/
  | overBudget (rendered total : Nat) (limit : Limit)
  /-- A class has no name in the language. -/
  | unnamedClass (language : Language) (className : String)
  deriving DecidableEq, Repr

/-- The fault in words. -/
def RenderFault.message : RenderFault → String
  | .settings fault => fault.message
  | .foreignSettings language given =>
    s!"{language.title} writer cannot use options for {given.title}"
  | .unknownLanguage name => s!"Unknown output language '{name}'"
  | .unsupportedType language place type =>
    s!"{language.title} has no mapping for type {type.display} of property '{place.key}' " ++
      s!"in class '{place.className}'"
  | .schema fault => s!"Invalid class model: {fault.message}"
  | .overBudget rendered total limit =>
    s!"Render budget exceeded after {rendered} of {total} classes: {limit.message}"
  | .unnamedClass language className =>
    s!"Internal writer error: {language.title} writer has no type name for class '{className}'"

/-- Whom a fault concerns. -/
inductive FaultKind where
  /-- Whoever chose the settings. -/
  | configuration
  /-- Whoever made the schema. -/
  | unsupported
  /-- Whoever called the renderer. -/
  | internal
  deriving DecidableEq, Repr

/-- Whom the fault concerns. -/
def RenderFault.kind : RenderFault → FaultKind
  | .settings _ | .foreignSettings _ _ | .unknownLanguage _ => .configuration
  | .unsupportedType _ _ _ => .unsupported
  | .schema _ | .overBudget _ _ _ | .unnamedClass _ _ => .internal

/-! ## Budgets -/

/-- Limits on what one rendering may produce; where none is given, anything goes. -/
structure Budget where
  maxClasses : Option Nat := none
  maxBytes : Option Nat := none
  deriving DecidableEq, Repr

/-- What has been produced so far. -/
structure Tally where
  rendered : Nat := 0
  bytes : Nat := 0
  deriving DecidableEq, Repr

namespace Budget

/-- No limits at all. -/
def unlimited : Budget := {}

/-- The fault of so many bytes when `rendered` of `total` classes have been rendered. -/
def bytesFault? (budget : Budget) (rendered total bytes : Nat) : Option RenderFault :=
  budget.maxBytes.bind fun most =>
    if most < bytes then some (.overBudget rendered total (.bytes most)) else none

/-- The fault of one class more. -/
def classFault? (budget : Budget) (total : Nat) (tally : Tally) : Option RenderFault :=
  budget.maxClasses.bind fun most =>
    if most ≤ tally.rendered then some (.overBudget tally.rendered total (.classes most)) else none

/-- The fault that keeps the next class from being rendered. -/
def nextFault? (budget : Budget) (total : Nat) (tally : Tally) : Option RenderFault :=
  (budget.classFault? total tally).or (budget.bytesFault? tally.rendered total tally.bytes)

/-- The tally with one more class, unless its bytes are too many. -/
def record (budget : Budget) (total bytes : Nat) (tally : Tally) : Except RenderFault Tally :=
  match budget.bytesFault? tally.rendered total (tally.bytes + bytes) with
  | some fault => .error fault
  | none => .ok ⟨tally.rendered + 1, tally.bytes + bytes⟩

/-- Render items one after the other within the budget.  `step` renders one item and hands on what
the next ones must know; `bytes` says how much a rendered item counts. -/
def renderEach {σ α β : Type} (budget : Budget) (total : Nat)
    (step : σ → α → Except RenderFault (β × σ)) (bytes : β → Nat) (tally : Tally) (state : σ) :
    List α → Except RenderFault (List β × Tally)
  | [] => .ok ([], tally)
  | item :: items =>
    match budget.nextFault? total tally with
    | some fault => .error fault
    | none =>
      match step state item with
      | .error fault => .error fault
      | .ok (rendered, state) =>
        match budget.record total (bytes rendered) tally with
        | .error fault => .error fault
        | .ok tally =>
          match renderEach budget total step bytes tally state items with
          | .error fault => .error fault
          | .ok (others, tally) => .ok (rendered :: others, tally)

end Budget

end Classwright
