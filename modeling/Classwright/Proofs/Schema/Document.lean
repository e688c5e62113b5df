/-
# Classwright.Proofs.Schema.Document — a written document reads as the classes it lists

Writing and reading are related through the tokens of a document.  Each kind of part — type, field,
class, document — has its tokens, the pretty text scans to them, and the reader takes exactly them
for the part.

Reading gives up on brackets that nest too deep.  A document opens five brackets around a type
(document, list of classes, class, list of fields, field), which leaves 122 for the type; how many a
type needs is its `depth`.  The checks of a schema run inside the reader, on the classes as they
were listed, so a document of classes that make no schema is refused with the fault of these
classes.
-/

import Classwright.Proofs.Json.Reader
import Classwright.Proofs.Json.Scan
import Classwright.Proofs.Schema.Sound
import Classwright.Schema.Document

namespace Classwright

open Json (Token Scans Reads Yields RecordRule ReadError listTokens objectTokens)

/-! ## Types -/

namespace ValueType

/-- How deep the brackets nest in the written type. -/
def depth : ValueType → Nat
  | .array item => item.depth + 1
  | .optional inner => inner.depth + 1
  | .reference _ => 1
  | _ => 0

/-- The tokens of the written type. -/
def tokens : ValueType → List Token
  | .integer => [.string (some "integer")]
  | .float => [.string (some "float")]
  | .string => [.string (some "string")]
  | .boolean => [.string (some "boolean")]
  | .any => [.string (some "any")]
  | .null => [.string (some "null")]
  | .array item => objectTokens [("array", item.tokens)]
  | .reference name => objectTokens [("class", [.string (some name)])]
  | .optional inner => objectTokens [("optional", inner.tokens)]

theorem scans_toJson (type : ValueType) (level : Nat) :
    Scans (type.toJson.prettyChars level) type.tokens := by
  induction type generalizing level with
  | array item ih =>
      refine Scans.object [("array", item.toJson, item.tokens)] level fun m among => ?_
      rw [List.mem_singleton.mp among]
      exact ih (level + 1)
  | reference name =>
      refine Scans.object [("class", .string name, [.string (some name)])] level fun m among => ?_
      rw [List.mem_singleton.mp among]
      exact Scans.stringChars name
  | optional inner ih =>
      refine Scans.object [("optional", inner.toJson, inner.tokens)] level fun m among => ?_
      rw [List.mem_singleton.mp among]
      exact ih (level + 1)
  | _ => exact Scans.stringChars _

/-- A type that is not nested too deep reads as itself. -/
theorem reads_read {type : ValueType} {levels : Nat} (fits : type.depth ≤ levels) :
    Reads (read levels) type.tokens type := by
  induction type generalizing levels with
  | array item ih =>
      cases levels with
      | zero => exact absurd fits (Nat.not_succ_le_zero _)
      | succ below =>
          have inner := (ih (Nat.le_of_succ_le_succ fits)).map ValueType.array
          exact Json.reads_keyedTag below rfl inner
  | reference name =>
      cases levels with
      | zero => exact absurd fits (Nat.not_succ_le_zero _)
      | succ below =>
          exact Json.reads_keyedTag below rfl ((Json.reads_readString name).map ValueType.reference)
  | optional inner ih =>
      cases levels with
      | zero => exact absurd fits (Nat.not_succ_le_zero _)
      | succ below =>
          have inner := (ih (Nat.le_of_succ_le_succ fits)).map ValueType.optional
          exact Json.reads_keyedTag below rfl inner
  | _ => cases levels <;> exact Json.reads_bareTag _ rfl

theorem depth_of_lookup {tag : String} {leaf : ValueType} (found : leafTags.lookup tag = some leaf) :
    leaf.depth = 0 := by
  have leaves : ∀ entry ∈ leafTags, entry.2.depth = 0 := by decide
  obtain ⟨before, after, eq, _⟩ := List.lookup_eq_some_iff.mp found
  exact leaves (tag, leaf) (eq ▸ List.mem_append_right before List.mem_cons_self)

/-- Reading opens no more brackets than it may. -/
theorem yields_read (levels : Nat) : Yields (read levels) fun type => type.depth ≤ levels := by
  -- a bare tag opens no bracket; every other tag opens one
  have leaf : ∀ tag type, ofBareTag tag = .ok type → type.depth = 0 := by
    intro tag type eq
    unfold ofBareTag at eq
    split at eq
    · next found =>
      cases eq
      exact depth_of_lookup found
    · split at eq <;> cases eq
  induction levels with
  | zero =>
      refine Json.yields_readTagged (fun tag type eq => ?_) fun some => absurd rfl some
      exact Nat.le_of_eq (leaf tag type eq)
  | succ below ih =>
      refine Json.yields_readTagged (fun tag type eq => ?_) fun _ tag item eq => ?_
      · rw [leaf tag type eq]
        exact Nat.zero_le _
      · unfold underTag at eq
        split at eq
        · cases eq
          exact ih.map fun _ fits => Nat.succ_le_succ fits
        · split at eq
          · cases eq
            exact ih.map fun _ fits => Nat.succ_le_succ fits
          · split at eq
            · cases eq
              intro ts type rest found
              obtain ⟨name, _, rfl⟩ := Json.Read.map_eq_ok found
              exact Nat.succ_le_succ (Nat.zero_le below)
            · split at eq
              · next found =>
                cases eq
                intro ts type rest read
                obtain ⟨_, _, rfl⟩ := Json.Read.map_eq_ok read
                rw [depth_of_lookup found]
                exact Nat.zero_le _
              · cases eq

end ValueType

/-! ## Fields and classes -/

namespace Field

/-- The tokens of the written field. -/
def tokens (field : Field) : List Token :=
  objectTokens [("name", [.string (some field.key)]), ("type", field.type.tokens)]

theorem scans_toJson (field : Field) (level : Nat) :
    Scans (field.toJson.prettyChars level) field.tokens := by
  refine Scans.object [("name", .string field.key, [.string (some field.key)]),
    ("type", field.type.toJson, field.type.tokens)] level fun m among => ?_
  rcases List.mem_cons.mp among with rfl | among
  · exact Scans.stringChars field.key
  · rw [List.mem_singleton.mp among]
    exact field.type.scans_toJson (level + 1)

theorem reads_rule {field : Field} {levels : Nat} (fits : field.type.depth ≤ levels) :
    Reads (rule.read (levels + 1)) field.tokens field := by
  have name := (Json.reads_readString field.key).map fun key => { rule.start with key := some key }
  have type := (ValueType.reads_read fits).map fun type =>
    (⟨some field.key, some type⟩ : Draft)
  rw [tokens, Json.objectTokens_two]
  refine RecordRule.reads_object (s := ⟨some field.key, some field.type⟩) (Reads.objectBody ?_) rfl
  exact Json.entries_more (RecordRule.step_eq levels rfl rfl) name
    (Json.entries_last (RecordRule.step_eq levels rfl rfl) type)

theorem yields_rule (levels : Nat) :
    Yields (rule.read levels) fun field => field.type.depth + 1 ≤ levels := by
  refine RecordRule.yields_read (fun draft => ∀ type ∈ draft.type, type.depth + 1 ≤ levels)
    ?_ ?_ ?_
  · nofun
  · rintro below rfl field among draft kept
    rcases List.mem_cons.mp among with rfl | among
    · intro ts result rest found
      obtain ⟨key, _, rfl⟩ := Json.Read.map_eq_ok found
      exact kept
    · obtain rfl := List.mem_singleton.mp among
      refine (ValueType.yields_read below).map fun type fits other is => ?_
      cases is
      exact Nat.succ_le_succ fits
  · intro draft field kept complete
    unfold rule at complete
    cases key : draft.key with
    | none => simp [key, Json.required] at complete
    | some key' =>
        cases type : draft.type with
        | none => simp [key, type, Json.required] at complete
        | some type' =>
            simp only [key, type, Json.required] at complete
            cases complete
            exact kept type' type

end Field

namespace ClassDef

/-- The tokens of the written class. -/
def tokens (c : ClassDef) : List Token :=
  objectTokens [("name", [.string (some c.name)]),
    ("properties", listTokens (c.fields.map Field.tokens))]

theorem scans_toJson (c : ClassDef) (level : Nat) :
    Scans (c.toJson.prettyChars level) c.tokens := by
  refine Scans.object [("name", .string c.name, [.string (some c.name)]),
    ("properties", .list (c.fields.map Field.toJson), _)] level fun m among => ?_
  rcases List.mem_cons.mp among with rfl | among
  · exact Scans.stringChars c.name
  · rw [List.mem_singleton.mp among]
    exact Scans.list (level + 1) fun field _ => field.scans_toJson (level + 2)

theorem reads_rule {c : ClassDef} {levels : Nat}
    (fits : ∀ field ∈ c.fields, field.type.depth ≤ levels) :
    Reads (rule.read (levels + 3)) c.tokens c := by
  -- three brackets around a type: the class, the list of its fields, the field
  have list : Reads (Json.readList (levels + 2) Field.rule.read) _ c.fields :=
    Json.reads_readList (fun _ => ⟨_, rfl⟩) fun field has => Field.reads_rule (fits field has)
  have name := (Json.reads_readString c.name).map fun name => { rule.start with name := some name }
  have fields := list.map fun fields => (⟨some c.name, some fields⟩ : Draft)
  rw [tokens, Json.objectTokens_two]
  refine RecordRule.reads_object (s := ⟨some c.name, some c.fields⟩) (Reads.objectBody ?_) rfl
  exact Json.entries_more (RecordRule.step_eq _ rfl rfl) name
    (Json.entries_last (RecordRule.step_eq _ rfl rfl) fields)

theorem yields_rule (levels : Nat) :
    Yields (rule.read levels) fun c => ∀ field ∈ c.fields, field.type.depth + 3 ≤ levels := by
  refine RecordRule.yields_read
    (fun draft => ∀ fields ∈ draft.fields, ∀ field ∈ fields, field.type.depth + 3 ≤ levels)
    ?_ ?_ ?_
  · nofun
  · rintro below rfl field among draft kept
    rcases List.mem_cons.mp among with rfl | among
    · intro ts result rest found
      obtain ⟨name, _, rfl⟩ := Json.Read.map_eq_ok found
      exact kept
    · obtain rfl := List.mem_singleton.mp among
      have item : ∀ less, below = less + 1 → Yields (Field.rule.read less) fun field =>
          field.type.depth + 3 ≤ below + 1 := by
        rintro less rfl
        exact (Field.yields_rule less).mono fun field fits => by omega
      refine (Yields.readList item).map fun fields fits other is => ?_
      cases is
      exact fits
  · intro draft c kept complete
    unfold rule at complete
    cases name : draft.name with
    | none => simp [name, Json.required, Except.map] at complete
    | some name' =>
        simp only [name, Json.required, Except.map] at complete
        cases complete
        cases fields : draft.fields with
        | none => nofun
        | some fields' => exact kept fields' fields

end ClassDef

/-! ## Whole schemas -/

namespace ClassList

/-- The types of the fields are nested no deeper than a document has room for. -/
def Fits (classes : List ClassDef) : Prop :=
  ∀ c ∈ classes, ∀ field ∈ c.fields, field.type.depth ≤ 122

instance (classes : List ClassDef) : Decidable (Fits classes) :=
  inferInstanceAs (Decidable (∀ c ∈ classes, ∀ field ∈ c.fields, field.type.depth ≤ 122))

/-- The tokens of the document that lists the classes. -/
def tokens (classes : List ClassDef) : List Token :=
  objectTokens [("classes", listTokens (classes.map ClassDef.tokens))]

theorem tokens_pretty (classes : List ClassDef) :
    Json.tokens (toJson classes).pretty = tokens classes := by
  have scans : Scans ((toJson classes).prettyChars 0) (tokens classes) := by
    refine Scans.object [("classes", .list (classes.map ClassDef.toJson), _)] 0 fun m among => ?_
    rw [List.mem_singleton.mp among]
    exact Scans.list 1 fun c _ => c.scans_toJson 2
  have whole := scans []
  rw [List.append_nil, Json.scan, List.append_nil] at whole
  rw [Json.tokens, Json.Value.pretty, String.toList_ofList, whole]

end ClassList

namespace Schema

/-- A document of classes reads as what the end of a document makes of these classes. -/
theorem ofText_pretty {classes : List ClassDef} (fits : ClassList.Fits classes) :
    ofText (ClassList.toJson classes).pretty = rule.finish (some classes) := by
  -- of 127 levels two are open where a class is read, which leaves 122 + 3 for the class
  have list : Reads (Json.readList 126 ClassDef.rule.read) _ classes :=
    Json.reads_readList (fun _ => ⟨_, rfl⟩) fun c among => ClassDef.reads_rule (fits c among)
  have known : rule.step 126 "classes" none = .ok fun ts =>
      (Json.readList 126 ClassDef.rule.read ts).map some := by
    rw [RecordRule.step_eq 126 rfl rfl]
    rfl
  have body := (Json.entries_last known (list.map some)).objectBody
  refine Json.readText_eq ?_
  rw [ClassList.tokens_pretty, ClassList.tokens, Json.objectTokens_one]
  have whole := RecordRule.read_object body []
  rw [List.append_nil] at whole
  exact whole

/-- A schema that was read from any text is nested no deeper than a document has room for. -/
theorem fits_of_ofText {text : String} {s : Schema} (read : ofText text = .ok s) :
    ClassList.Fits s.classes := by
  suffices yields : Yields (rule.read Json.maxLevels) fun s => ClassList.Fits s.classes from
    yields.readText read
  refine RecordRule.yields_read (fun draft => ∀ classes ∈ draft, ClassList.Fits classes) ?_ ?_ ?_
  · nofun
  · rintro below room field among draft kept
    obtain rfl := List.mem_singleton.mp among
    have item : ∀ less, below = less + 1 → Yields (ClassDef.rule.read less) fun c =>
        ∀ field ∈ c.fields, field.type.depth ≤ 122 := by
      rintro less rfl
      refine (ClassDef.yields_rule less).mono fun c fits field has => ?_
      -- five levels are open where a type begins: document, classes, class, properties, property
      have fitsField := fits field has
      rw [Json.maxLevels] at room
      omega
    refine (Yields.readList item).map fun classes fits other is => ?_
    cases is
    exact fits
  · intro draft s kept complete
    have made : ofClasses (draft.getD []) = .ok s := by
      unfold rule at complete
      simp only at complete
      split at complete
      · cases complete
        assumption
      · cases complete
    rw [ofClasses_eq_ok_iff.mp made]
    cases draft with
    | none => nofun
    | some classes => exact kept classes rfl

/-- Reading undoes writing.  A document of classes that are nested no deeper than it has room for
reads as the schema of these classes, or is refused with the message of their fault if they make no
schema.  So every schema of that depth, and with it every schema that was read from a text, is read
back from its own text. -/
theorem document_reads_back :
    (∀ classes, ClassList.Fits classes →
      (∀ s, ofClasses classes = .ok s → ofText (ClassList.toJson classes).pretty = .ok s) ∧
      (∀ fault, ofClasses classes = .error fault →
        ofText (ClassList.toJson classes).pretty = .error (.refused fault.message) ∧
          (ReadError.refused fault.message).message = fault.message)) ∧
    (∀ s : Schema, ClassList.Fits s.classes → ofText s.text = .ok s) ∧
    (∀ text s, ofText text = .ok s → ClassList.Fits s.classes ∧ ofText s.text = .ok s) := by
  have back : ∀ s : Schema, ClassList.Fits s.classes → ofText s.text = .ok s := by
    intro s fits
    rw [text, toJson, ofText_pretty fits]
    exact finish_eq_ok_iff.mpr (ofClasses_eq_ok_iff.mpr rfl)
  refine ⟨fun classes fits => ⟨fun s made => ?_, fun fault made => ?_⟩, back, fun text s read => ?_⟩
  · rw [ofText_pretty fits]
    exact finish_eq_ok_iff.mpr made
  · rw [ofText_pretty fits]
    exact ⟨finish_of_fault made, rfl⟩
  · have fits := fits_of_ofText read
    exact ⟨fits, back s fits⟩

/-- Two classes under one name that takes escapes in JSON and in the message. -/
def twins : List ClassDef := [⟨"A \"quoted\" \\ name\n", []⟩, ⟨"A \"quoted\" \\ name\n", []⟩]

/-- Orders come back from their text; twins are refused by name. -/
theorem document_of_orders_and_twins :
    ClassList.Fits orders.classes ∧ ClassList.Fits twins ∧ ofText orders.text = .ok orders ∧
      ofText (ClassList.toJson twins).pretty =
        .error (.refused (SchemaFault.repeatedClass "A \"quoted\" \\ name\n").message) := by
  have fitsOrders : ClassList.Fits orders.classes := by decide
  have fitsTwins : ClassList.Fits twins := by decide
  have fault : ofClasses twins = .error (.repeatedClass "A \"quoted\" \\ name\n") :=
    ofClasses_eq_error_iff.mpr rfl
  obtain ⟨listed, own, _⟩ := document_reads_back
  exact ⟨fitsOrders, fitsTwins, own orders fitsOrders, ((listed twins fitsTwins).2 _ fault).1⟩

end Schema

end Classwright
