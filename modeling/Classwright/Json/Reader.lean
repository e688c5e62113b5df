/-
# Classwright.Json.Reader — reading values off the front of a token list

A reader takes a value off the front of the tokens and returns it with the tokens behind it, or
reports the first fault it meets.  It reads from left to right and never looks ahead, so of several
faults in a text the first one is reported.  What it returns is always shorter than what it was
given; that is what the loops over elements and entries end by.

Brackets nest to a limited depth when a value is read.  Readers of lists, records and tagged values
take the number of levels that may still be opened; opening one more is a fault of the text, found
where the bracket opens.  A value that is skipped has no such limit.

A text may fail to be JSON, or it may be JSON of the wrong shape.  Only the second kind of fault has
something to say; the first is told apart by its flaw alone.
-/

import Classwright.Json.Number
import Classwright.Text.Literal

namespace Classwright.Json

/-! ## Faults -/

/-- What stands where something else was wanted. -/
inductive Found where
  | null
  | boolean (value : Bool)
  | number (value : Number)
  | string (text : String)
  | list
  | object
  /-- A tag without the value that belongs to it. -/
  | bareTag
  deriving Repr

/-- What was found, in words. -/
def Found.text : Found → String
  | .null => "null"
  | .boolean value => s!"boolean `{value}`"
  | .number (.integer value) => s!"integer `{value}`"
  | .number (.float value) => s!"floating point `{floatText value}`"
  | .string text => "string " ++ Text.quoted text
  | .list => "sequence"
  | .object => "map"
  | .bareTag => "unit variant"

/-- Why a text cannot be read. -/
inductive ReadError where
  /-- The text is no JSON. -/
  | flaw (flaw : Flaw)
  /-- A value of one kind stands where another is wanted. -/
  | wrongKind (found : Found) (wanted : String)
  /-- A record written as a list ends before the field at this place. -/
  | tooShort (place : Nat) (record : String) (fields : Nat)
  /-- A record lacks a field that it must have. -/
  | missingField (key : String)
  /-- A record has a field twice. -/
  | repeatedField (key : String)
  /-- A tag is none of the known ones. -/
  | unknownTag (tag : String) (known : List String)
  /-- An object that stands for a tag has no entry, or more than one. -/
  | notOneEntry
  /-- The value has the right shape and is refused all the same. -/
  | refused (reason : String)
  deriving Repr

/-- A name between backquotes. -/
def backquoted (name : String) : String := s!"`{name}`"

/-- The names to choose from, in words. -/
def choiceText (names : List String) : String :=
  match names with
  | [one] => backquoted one
  | [one, two] => backquoted one ++ " or " ++ backquoted two
  | _ => "one of " ++ String.intercalate ", " (names.map backquoted)

/-- The error in words. -/
def ReadError.message : ReadError → String
  | .flaw .malformed => "not valid JSON"
  | .flaw .truncated => "unexpected end of JSON"
  | .wrongKind found wanted => s!"invalid type: {found.text}, expected {wanted}"
  | .tooShort place record fields =>
    let plural := if fields = 1 then "" else "s"
    s!"invalid length {place}, expected struct {record} with {fields} element{plural}"
  | .missingField key => s!"missing field `{key}`"
  | .repeatedField key => s!"duplicate field `{key}`"
  | .unknownTag tag known => s!"unknown variant `{tag}`, expected {choiceText known}"
  | .notOneEntry => "invalid value: map, expected map with a single key"
  | .refused reason => reason

/-! ## Readers -/

/-- A strictly shorter list of tokens. -/
abbrev Shorter (ts : List Token) := { rest : List Token // rest.length < ts.length }

/-- A value read off the front of the tokens, and the tokens behind it. -/
abbrev Read (α : Type) (ts : List Token) := Except ReadError (α × Shorter ts)

/-- A way to read a value. -/
abbrev Reader (α : Type) := (ts : List Token) → Read α ts

/-- How many levels of brackets may be open at once. -/
def maxLevels : Nat := 127

/-! ## Small parts -/

/-- The text is malformed at this place. -/
def malformed {α : Type} {ts : List Token} : Read α ts := .error (.flaw .malformed)

/-- The text ends at this place, and must not. -/
def truncated {α : Type} {ts : List Token} : Read α ts := .error (.flaw .truncated)

/-- A value read from the tokens behind a first token. -/
def Read.behind {α : Type} (t : Token) {ts : List Token} : Read α ts → Read α (t :: ts)
  | .error e => .error e
  | .ok (value, ⟨rest, h⟩) => .ok (value, ⟨rest, Nat.lt_succ_of_lt h⟩)

/-- Go on with the tokens behind a value. -/
def Read.andThen {α β : Type} {ts : List Token} (found : Read α ts)
    (next : α → Reader β) : Read β ts :=
  match found with
  | .error e => .error e
  | .ok (value, ⟨rest, h⟩) =>
    match next value rest with
    | .error e => .error e
    | .ok (result, ⟨last, h'⟩) => .ok (result, ⟨last, Nat.lt_trans h' h⟩)

/-- Change the value that was read. -/
def Read.map {α β : Type} {ts : List Token} (f : α → β) : Read α ts → Read β ts
  | .error e => .error e
  | .ok (value, rest) => .ok (f value, rest)

/-- Change the value that was read, or refuse it. -/
def Read.check {α β : Type} {ts : List Token} (f : α → Except ReadError β) : Read α ts → Read β ts
  | .error e => .error e
  | .ok (value, rest) =>
    match f value with
    | .error e => .error e
    | .ok result => .ok (result, rest)

/-- The error where a value of one kind is wanted and these tokens stand.  A scalar is looked at as
a whole before its kind counts; a bracket is not. -/
def wrongKind (wanted : String) : List Token → ReadError
  | [] => .flaw .truncated
  | .stray _ onRead _ :: _ => .flaw onRead
  | .null :: _ => .wrongKind .null wanted
  | .boolean value :: _ => .wrongKind (.boolean value) wanted
  | .number numeral :: _ =>
    match numeral.value? with
    | some value => .wrongKind (.number value) wanted
    | none => .flaw .malformed
  | .string (some text) :: _ => .wrongKind (.string text) wanted
  | .string none :: _ => .flaw .malformed
  | .opening .square :: _ => .wrongKind .list wanted
  | .opening .curly :: _ => .wrongKind .object wanted
  | .closing _ :: _ => .flaw .malformed
  | .comma :: _ => .flaw .malformed
  | .colon :: _ => .flaw .malformed

/-- A colon. -/
def readColon : Reader Unit
  | .colon :: rest => .ok ((), ⟨rest, Nat.lt_succ_self _⟩)
  | [] => truncated
  | _ :: _ => malformed

/-- The closing bracket of an object. -/
def readObjectEnd : Reader Unit
  | .closing .curly :: rest => .ok ((), ⟨rest, Nat.lt_succ_self _⟩)
  | [] => truncated
  | _ :: _ => malformed

/-! ## Scalars -/

/-- A string. -/
def readString : Reader String
  | .string (some text) :: rest => .ok (text, ⟨rest, Nat.lt_succ_self _⟩)
  | ts => .error (wrongKind "a string" ts)

/-- The value `null`. -/
def readNull : Reader Unit
  | .null :: rest => .ok ((), ⟨rest, Nat.lt_succ_self _⟩)
  | ts => .error (wrongKind "unit" ts)

/-- `null`, or a value. -/
def readNullable {α : Type} (item : Reader α) : Reader (Option α)
  | .null :: rest => .ok (none, ⟨rest, Nat.lt_succ_self _⟩)
  | ts => (item ts).map some

/-! ## Lists -/

/-- The elements of a list, one at least, up to its closing bracket. -/
def elements {α : Type} (item : Reader α) (ts : List Token) : Read (List α) ts :=
  match item ts with
  | .error e => .error e
  | .ok (first, ⟨.comma :: rest, h⟩) =>
    match elements item rest with
    | .error e => .error e
    | .ok (others, ⟨last, h'⟩) =>
      .ok (first :: others, ⟨last, Nat.lt_trans h' (Nat.lt_of_succ_lt h)⟩)
  | .ok (first, ⟨.closing .square :: rest, h⟩) => .ok ([first], ⟨rest, Nat.lt_of_succ_lt h⟩)
  | .ok (_, ⟨[], _⟩) => truncated
  | .ok _ => malformed
termination_by ts.length
decreasing_by exact Nat.lt_of_succ_lt h

/-- The elements of a list behind its opening bracket, none allowed, up to its closing bracket. -/
def listBody {α : Type} (item : Reader α) : Reader (List α)
  | .closing .square :: rest => .ok ([], ⟨rest, Nat.lt_succ_self _⟩)
  | ts => elements item ts

/-- A list whose elements are read with one level less. -/
def readList {α : Type} (levels : Nat) (item : Nat → Reader α) : Reader (List α)
  | .opening .square :: rest =>
    match levels with
    | 0 => malformed
    | levels + 1 => (listBody (item levels) rest).behind _
  | ts => .error (wrongKind "a sequence" ts)

/-! ## Skipping -/

/-- Where a value is skipped. -/
inductive Spot where
  /-- A value must follow. -/
  | value
  /-- A value or the end of the list must follow. -/
  | valueOrEnd
  /-- A key must follow. -/
  | key
  /-- A key or the end of the object must follow. -/
  | keyOrEnd
  /-- A value has just been completed. -/
  | done
  deriving DecidableEq, Repr

/-- Where one is just behind an opening bracket. -/
def Spot.opened : Bracket → Spot
  | .square => .valueOrEnd
  | .curly => .keyOrEnd

/-- Where one is just behind a comma. -/
def Spot.afterComma : Bracket → Spot
  | .square => .value
  | .curly => .key

/-- What stands where a key is wanted and none stands, if it is not read. -/
def skipKeyFlaw : List Token → Flaw
  | [] => .truncated
  | .stray '"' _ onSkip :: _ => onSkip
  | _ :: _ => .malformed

/-- What stands where a value is wanted and none stands, if it is not read. -/
def skipValueFlaw : List Token → Flaw
  | [] => .truncated
  | .stray _ _ onSkip :: _ => onSkip
  | _ :: _ => .malformed

/-- The tokens behind a value of which part has been skipped; `stack` holds its open brackets, the
innermost first. -/
def skipFrom (spot : Spot) (stack : List Bracket) (ts : List Token) : Except Flaw (List Token) :=
  match spot, stack, ts with
  | .done, [], ts => .ok ts
  | .done, b :: stack, .comma :: ts => skipFrom (.afterComma b) (b :: stack) ts
  | .done, b :: stack, .closing c :: ts =>
    if b = c then skipFrom .done stack ts else .error .malformed
  | .done, _ :: _, [] => .error .truncated
  | .done, _ :: _, _ => .error .malformed
  | .keyOrEnd, _ :: stack, .closing .curly :: ts => skipFrom .done stack ts
  | .key, stack, .string _ :: .colon :: ts => skipFrom .value stack ts
  | .keyOrEnd, stack, .string _ :: .colon :: ts => skipFrom .value stack ts
  | .key, _, [.string _] => .error .truncated
  | .keyOrEnd, _, [.string _] => .error .truncated
  | .key, _, ts => .error (skipKeyFlaw ts)
  | .keyOrEnd, _, ts => .error (skipKeyFlaw ts)
  | .valueOrEnd, _ :: stack, .closing .square :: ts => skipFrom .done stack ts
  | _, stack, .null :: ts => skipFrom .done stack ts
  | _, stack, .boolean _ :: ts => skipFrom .done stack ts
  | _, stack, .number _ :: ts => skipFrom .done stack ts
  | _, stack, .string _ :: ts => skipFrom .done stack ts
  | _, stack, .opening b :: ts => skipFrom (.opened b) (b :: stack) ts
  | _, _, ts => .error (skipValueFlaw ts)

/-- Skipping never goes back, and a value takes at least one token. -/
theorem length_of_skipFrom {spot : Spot} {stack : List Bracket} {ts rest : List Token}
    (h : skipFrom spot stack ts = .ok rest) :
    rest.length ≤ ts.length ∧ (spot ≠ .done → rest.length < ts.length) := by
  fun_induction skipFrom spot stack ts <;> simp_all <;> grind

/-- Skip a value. -/
def skipValue : Reader Unit := fun ts =>
  match h : skipFrom .value [] ts with
  | .ok rest => .ok ((), ⟨rest, (length_of_skipFrom h).2 (by decide)⟩)
  | .error flaw => .error (.flaw flaw)

/-! ## Objects -/

/-- The error where a key is wanted and none stands. -/
def keyError : List Token → ReadError
  | [] => .flaw .truncated
  | .stray '"' onRead _ :: _ => .flaw onRead
  | _ :: _ => .flaw .malformed

/-- The entries of an object, one at least, up to its closing bracket.  `step` looks at a key as
soon as it has been read, before anything else, and tells how to read the value. -/
def entries {σ : Type} (step : String → σ → Except ReadError (Reader σ)) (s : σ) (ts : List Token) :
    Read σ ts :=
  match ts with
  | .string (some key) :: more =>
    match step key s with
    | .error e => .error e
    | .ok value =>
      match (readColon more).andThen fun _ => value with
      | .error e => .error e
      | .ok (s', ⟨.comma :: rest, h⟩) =>
        match entries step s' rest with
        | .error e => .error e
        | .ok (result, ⟨last, h'⟩) =>
          .ok (result, ⟨last, by simp only [List.length_cons] at h ⊢; omega⟩)
      | .ok (s', ⟨.closing .curly :: rest, h⟩) =>
        .ok (s', ⟨rest, by simp only [List.length_cons] at h ⊢; omega⟩)
      | .ok (_, ⟨[], _⟩) => truncated
      | .ok _ => malformed
  | ts => .error (keyError ts)
termination_by ts.length
decreasing_by simp only [List.length_cons] at h ⊢; omega

/-- The entries of an object behind its opening bracket, none allowed, up to its closing bracket. -/
def objectBody {σ : Type} (step : String → σ → Except ReadError (Reader σ)) (s : σ) : Reader σ
  | .closing .curly :: rest => .ok (s, ⟨rest, Nat.lt_succ_self _⟩)
  | ts => entries step s ts

/-- The table with the value under the key: in the place of an older value, or where the order of
the keys puts it. -/
def insertEntry {α : Type} (key : String) (value : α) : List (String × α) → List (String × α)
  | [] => [(key, value)]
  | (k, v) :: rest =>
    if key = k then (key, value) :: rest
    else if key < k then (key, value) :: (k, v) :: rest
    else (k, v) :: insertEntry key value rest

/-- The entries of an object as a table in the order of the keys, behind the opening bracket.  Of
several values under one key the last is kept. -/
def tableBody {α : Type} (item : Reader α) : Reader (List (String × α)) :=
  objectBody (fun key table => .ok fun ts => (item ts).map fun value => insertEntry key value table)
    []

/-- An object as a table in the order of the keys. -/
def readTable {α : Type} (levels : Nat) (item : Nat → Reader α) : Reader (List (String × α))
  | .opening .curly :: rest =>
    match levels with
    | 0 => malformed
    | levels + 1 => (tableBody (item levels) rest).behind _
  | ts => .error (wrongKind "a map" ts)

/-! ## Records -/

/-- One field of a record that is being read. -/
structure FieldRule (σ : Type) where
  key : String
  /-- Has the field been read? -/
  given : σ → Bool
  /-- Read the field with so many levels left. -/
  read : Nat → σ → Reader σ
  /-- May a record that is written as a list end in front of this field? -/
  mayBeCut : Bool

/-- The field whose value is read by `item` and held in a slot of the record, empty at first. -/
def FieldRule.slot {σ α : Type} (key : String) (item : Nat → Reader α) (held : σ → Option α)
    (hold : α → σ → σ) (mayBeCut : Bool) : FieldRule σ where
  key
  given s := (held s).isSome
  read levels s ts := (item levels ts).map fun value => hold value s
  mayBeCut

/-- How a record is read.  It is written as an object, whose unknown fields are skipped, or as the
list of its fields in their order. -/
structure RecordRule (σ α : Type) where
  name : String
  fields : List (FieldRule σ)
  /-- What is known before any field has been read. -/
  start : σ
  /-- The record, once its last field has been read. -/
  finish : σ → Except ReadError α

namespace RecordRule

variable {σ α : Type}

/-- What to do with a key: read its field, refuse it the second time, or skip an unknown one. -/
def step (rule : RecordRule σ α) (levels : Nat) (key : String) (s : σ) :
    Except ReadError (Reader σ) :=
  match rule.fields.find? (·.key = key) with
  | some field => if field.given s then .error (.repeatedField key) else .ok (field.read levels s)
  | none => .ok fun ts => (skipValue ts).map fun _ => s

/-- The end of a record that is written as a list. -/
def listEnd (s : σ) : Reader σ
  | .closing .square :: rest => .ok (s, ⟨rest, Nat.lt_succ_self _⟩)
  | [] => truncated
  | _ :: _ => malformed

/-- The end of a list that is cut short: every field from `place` on must allow that. -/
def cut (rule : RecordRule σ α) (place : Nat) : List (FieldRule σ) → Except ReadError Unit
  | [] => .ok ()
  | field :: rest =>
    if field.mayBeCut then rule.cut (place + 1) rest
    else .error (.tooShort place rule.name rule.fields.length)

/-- The fields of a record that is written as a list, from `place` on. -/
def listFields (rule : RecordRule σ α) (levels : Nat) (place : Nat) (s : σ) :
    List (FieldRule σ) → Reader σ
  | [], ts => listEnd s ts
  | fields, .closing .square :: rest =>
    match rule.cut place fields with
    | .error e => .error e
    | .ok () => .ok (s, ⟨rest, Nat.lt_succ_self _⟩)
  | field :: fields, ts =>
    let found : Read σ ts :=
      if place = 0 then field.read levels s ts
      else
        match ts with
        | .comma :: rest => (field.read levels s rest).behind _
        | [] => truncated
        | _ :: _ => malformed
    found.andThen fun s' => rule.listFields levels (place + 1) s' fields

/-- Read a record. -/
def read (rule : RecordRule σ α) (levels : Nat) : Reader α
  | .opening .curly :: rest =>
    match levels with
    | 0 => malformed
    | levels + 1 => ((objectBody (rule.step levels) rule.start rest).check rule.finish).behind _
  | .opening .square :: rest =>
    match levels with
    | 0 => malformed
    | levels + 1 =>
      ((rule.listFields levels 0 rule.start rule.fields rest).check rule.finish).behind _
  | ts => .error (wrongKind ("struct " ++ rule.name) ts)

end RecordRule

/-- The value of a field that must be there. -/
def required {α : Type} (key : String) : Option α → Except ReadError α
  | some value => .ok value
  | none => .error (.missingField key)

/-! ## Tagged values -/

/-- A value that is written as a bare tag, or as an object whose only key is a tag.  `bare` gives
the value of a bare tag; `keyed` tells how the value under a tag is read. -/
def readTagged {α : Type} (levels : Nat) (bare : String → Except ReadError α)
    (keyed : String → Except ReadError (Reader α)) : Reader α
  | .string (some tag) :: rest =>
    match bare tag with
    | .error e => .error e
    | .ok value => .ok (value, ⟨rest, Nat.lt_succ_self _⟩)
  | .opening .curly :: .string (some tag) :: rest =>
    if levels = 0 then malformed
    else
      match keyed tag with
      | .error e => .error e
      | .ok value =>
        let found := (readColon rest).andThen fun _ ts =>
          (value ts).andThen fun a ts => (readObjectEnd ts).map fun _ => a
        (found.behind _).behind _
  | .opening .curly :: ts =>
    if levels = 0 then malformed else .error (keyError ts)
  | .stray '"' onRead _ :: _ => .error (.flaw onRead)
  | [] => truncated
  | _ :: _ => malformed

/-- The value of a tag in a table. -/
def choose {α : Type} (choices : List (String × α)) (tag : String) : Except ReadError α :=
  match choices.lookup tag with
  | some value => .ok value
  | none => .error (.unknownTag tag (choices.map (·.1)))

/-- A tag from a table, bare or as the only key of an object with the value `null`. -/
def readChoice {α : Type} (levels : Nat) (choices : List (String × α)) : Reader α :=
  readTagged levels (choose choices) fun tag => (choose choices tag).map fun value ts =>
    (readNull ts).map fun _ => value

/-! ## Whole texts -/

/-- The value that a whole text holds.  What follows the value is looked at last. -/
def readText {α : Type} (item : Reader α) (text : String) : Except ReadError α :=
  match item (tokens text) with
  | .error e => .error e
  | .ok (value, ⟨[], _⟩) => .ok value
  | .ok (_, ⟨_ :: _, _⟩) => .error (.flaw .malformed)

end Classwright.Json
