/-
# Classwright.Proofs.Schema.Sound — what it means that no fault was found

`Sound` says what makes a list of classes a schema without mentioning how that is checked: names say
something and are told apart, references lead somewhere, and no chain of references comes back to
its start.  A list passes the checks exactly if it is sound.

The checks run in an order, and the later ones rely on the earlier: only where names are unique and
declared are the edges of the graph that is searched for cycles the references themselves.
-/

import Mathlib
import Classwright.Proofs.Schema.Occurrence
import Classwright.Proofs.Schema.Walk
import Classwright.Schema.Document

namespace Classwright

open Relation (TransGen)

/-! ## Sound lists of classes -/

namespace ClassList

/-- A class of the first name has a field whose type refers to the second name. -/
def RefersTo (classes : List ClassDef) (name target : String) : Prop :=
  ∃ c ∈ classes, c.name = name ∧ ∃ field ∈ c.fields, field.type.Mentions target

/-- The classes make a schema. -/
structure Sound (classes : List ClassDef) : Prop where
  /-- Every name has a character that is no white space. -/
  named : ∀ c ∈ classes, ∃ char ∈ c.name.toList, Text.isBlank char = false
  keyed : ∀ c ∈ classes, ∀ field ∈ c.fields, field.key ≠ ""
  distinctKeys : ∀ c ∈ classes, (c.fields.map (·.key)).Nodup
  distinctNames : (names classes).Nodup
  declared : ∀ c ∈ classes, ∀ field ∈ c.fields, ∀ target, field.type.Mentions target →
    ∃ d ∈ classes, d.name = target
  acyclic : ∀ name, ¬ TransGen (RefersTo classes) name name

theorem mem_names {classes : List ClassDef} {name : String} :
    name ∈ names classes ↔ ∃ c ∈ classes, c.name = name :=
  List.mem_map

theorem lookup_zipIdx_names (classes : List ClassDef) (name : String) (start : Nat) :
    ((names classes).zipIdx start).lookup name =
      (classes.findIdx? (·.name = name)).map (· + start) := by
  induction classes generalizing start with
  | nil => rfl
  | cons c classes ih =>
      have rest := ih (start + 1)
      rw [names] at rest
      rw [names, List.map_cons, List.zipIdx_cons, List.lookup_cons, List.findIdx?_cons]
      by_cases here : c.name = name
      · simp [here]
      · have other : (name == c.name) = false := beq_eq_false_iff_ne.mpr (Ne.symm here)
        simp [other, here, rest, Function.comp_def, Nat.add_assoc, Nat.add_comm 1]

/-- In the index stands the place of the first class of each name. -/
theorem lookup_index (classes : List ClassDef) (name : String) :
    (index classes).lookup name = classes.findIdx? (·.name = name) := by
  rw [index, lookup_zipIdx_names]
  exact congrFun Option.map_id _

/-- The index leads where a search of the list leads. -/
theorem find?_eq (classes : List ClassDef) (name : String) :
    find? classes name = classes.find? (·.name = name) := by
  rw [find?, lookup_index, List.find?_eq_bind_findIdx?_getElem?]

/-- Where names are unique, looking one up finds every class. -/
theorem find?_eq_some_iff {classes : List ClassDef} (distinct : (names classes).Nodup)
    {name : String} {c : ClassDef} : find? classes name = some c ↔ c ∈ classes ∧ c.name = name := by
  rw [find?_eq]
  constructor
  · intro found
    exact ⟨List.mem_of_find?_eq_some found, by simpa using List.find?_some found⟩
  · rintro ⟨among, rfl⟩
    have some : (classes.find? (·.name = c.name)).isSome :=
      List.find?_isSome.mpr ⟨c, among, by simp⟩
    obtain ⟨d, found⟩ := Option.isSome_iff_exists.mp some
    have same : d.name = c.name := by simpa using List.find?_some found
    -- the class that is found has the same name, so it is the same class
    rw [found, List.inj_on_of_nodup_map distinct (List.mem_of_find?_eq_some found) among same]

/-- One more name is told apart from the others and from the seen ones if it is new and the others
are told apart from it, too. -/
theorem nodup_unseen_cons {α : Type} {f : α → String} {first : α} {others : List α}
    {seen : List String} :
    ((first :: others).map f).Nodup ∧ (∀ x ∈ first :: others, f x ∉ seen) ↔
      f first ∉ seen ∧ (others.map f).Nodup ∧ ∀ x ∈ others, f x ∉ f first :: seen := by
  rw [List.map_cons, List.nodup_cons, List.forall_mem_cons]
  simp only [List.mem_map, List.mem_cons, not_or, not_exists, not_and]
  constructor
  · rintro ⟨⟨apart, distinct⟩, new, unseen⟩
    exact ⟨new, distinct, fun x among => ⟨apart x among, unseen x among⟩⟩
  · rintro ⟨new, distinct, apart⟩
    exact ⟨⟨fun x among => (apart x among).1, distinct⟩, new, fun x among => (apart x among).2⟩

theorem nodup_eraseDups {α : Type} [DecidableEq α] (l : List α) : l.eraseDups.Nodup := by
  match l with
  | [] => exact .nil
  | a :: rest =>
    rw [List.eraseDups_cons]
    refine List.nodup_cons.mpr ⟨?_, nodup_eraseDups _⟩
    simp
termination_by l.length
decreasing_by exact Nat.lt_succ_of_le (List.length_filter_le _ rest)

end ClassList

/-! ## One class -/

namespace ClassDef

theorem keyFault?_eq_none_iff {className : String} {seen : List String} {fields : List Field} :
    keyFault? className seen fields = none ↔
      (∀ field ∈ fields, field.key ≠ "") ∧ (fields.map (·.key)).Nodup ∧
        ∀ field ∈ fields, field.key ∉ seen := by
  induction fields generalizing seen with
  | nil => simp [keyFault?]
  | cons field fields ih =>
      rw [keyFault?, ClassList.nodup_unseen_cons, List.forall_mem_cons]
      split
      · next empty => simp [empty]
      · next filled =>
        split
        · next old => simp [old]
        · next new => simp [ih, filled, new]

/-- A class is without fault on its own exactly if its name says something and its keys are there
and told apart. -/
theorem fault?_eq_none_iff {c : ClassDef} :
    c.fault? = none ↔ (∃ char ∈ c.name.toList, Text.isBlank char = false) ∧
      (∀ field ∈ c.fields, field.key ≠ "") ∧ (c.fields.map (·.key)).Nodup := by
  have blank : Text.isAllBlank c.name = false ↔
      ∃ char ∈ c.name.toList, Text.isBlank char = false := by
    simp [Text.isAllBlank]
  rw [fault?, ← blank]
  cases Text.isAllBlank c.name with
  | true => simp
  | false => simp [keyFault?_eq_none_iff]

theorem mem_nested_iff {c : ClassDef} {target : String} :
    target ∈ c.nested ↔ ∃ field ∈ c.fields, field.type.Mentions target := by
  simp [nested, ValueType.mem_references_iff]

end ClassDef

/-! ## All classes -/

namespace ClassList

theorem localFault?_eq_none_iff {seen : List String} {classes : List ClassDef} :
    localFault? seen classes = none ↔
      (∀ c ∈ classes, c.fault? = none) ∧ (names classes).Nodup ∧ ∀ c ∈ classes, c.name ∉ seen := by
  induction classes generalizing seen with
  | nil => simp [localFault?, names]
  | cons c classes ih =>
      rw [localFault?, names, nodup_unseen_cons, List.forall_mem_cons]
      cases flaw : c.fault? with
      | some fault => simp
      | none =>
          dsimp only
          split
          · next old => simp [old]
          · next new => simp [ih, new, names]

theorem referenceFault?_eq_none_iff {declared : List String} {classes : List ClassDef} :
    referenceFault? declared classes = none ↔
      ∀ c ∈ classes, ∀ field ∈ c.fields, ∀ target, field.type.Mentions target →
        target ∈ declared := by
  simp [referenceFault?, List.findSome?_eq_none_iff, ValueType.mem_references_iff]

/-- Among unique and declared names the edges of the graph are the references. -/
theorem edge_graph_iff {classes : List ClassDef} (distinct : (names classes).Nodup)
    (declared : ∀ c ∈ classes, ∀ field ∈ c.fields, ∀ target, field.type.Mentions target →
      target ∈ names classes) {name target : String} :
    (graph classes).Edge name target ↔ RefersTo classes name target := by
  have found : ∀ c ∈ classes, (graph classes).successors c.name = c.nested := by
    intro c among
    simp [graph, (find?_eq_some_iff distinct).mpr ⟨among, rfl⟩]
  constructor
  · rintro ⟨known, _, follows⟩
    obtain ⟨c, among, rfl⟩ := mem_names.mp known
    rw [found c among] at follows
    exact ⟨c, among, rfl, ClassDef.mem_nested_iff.mp follows⟩
  · rintro ⟨c, among, rfl, field, has, mentions⟩
    refine ⟨mem_names.mpr ⟨c, among, rfl⟩, declared c among field has target mentions, ?_⟩
    rw [found c among]
    exact ClassDef.mem_nested_iff.mpr ⟨field, has, mentions⟩

theorem fault?_eq_none {classes : List ClassDef} :
    fault? classes = none ↔ localFault? [] classes = none ∧
      referenceFault? (names classes) classes = none ∧ (graph classes).cycle? = none := by
  simp [fault?, Option.or_eq_none_iff]

/-- A list of classes passes the checks exactly if it is sound. -/
theorem fault?_eq_none_iff {classes : List ClassDef} : fault? classes = none ↔ Sound classes := by
  rw [fault?_eq_none, localFault?_eq_none_iff, referenceFault?_eq_none_iff,
    Digraph.cycle?_eq_none_iff]
  constructor
  · rintro ⟨⟨alone, distinct, _⟩, declared, acyclic⟩
    have edges : (graph classes).Edge = RefersTo classes := by
      funext name target
      exact propext (edge_graph_iff distinct declared)
    rw [edges] at acyclic
    exact {
      named := fun c among => (ClassDef.fault?_eq_none_iff.mp (alone c among)).1
      keyed := fun c among => (ClassDef.fault?_eq_none_iff.mp (alone c among)).2.1
      distinctKeys := fun c among => (ClassDef.fault?_eq_none_iff.mp (alone c among)).2.2
      distinctNames := distinct
      declared := fun c among field has target mentions =>
        mem_names.mp (declared c among field has target mentions)
      acyclic }
  · intro sound
    have declared : ∀ c ∈ classes, ∀ field ∈ c.fields, ∀ target, field.type.Mentions target →
        target ∈ names classes := fun c among field has target mentions =>
      mem_names.mpr (sound.declared c among field has target mentions)
    have edges : (graph classes).Edge = RefersTo classes := by
      funext name target
      exact propext (edge_graph_iff sound.distinctNames declared)
    refine ⟨⟨?_, sound.distinctNames, by simp⟩, declared, edges ▸ sound.acyclic⟩
    intro c among
    exact ClassDef.fault?_eq_none_iff.mpr
      ⟨sound.named c among, sound.keyed c among, sound.distinctKeys c among⟩

end ClassList

/-! ## Schemas -/

namespace Schema

theorem sound (s : Schema) : ClassList.Sound s.classes :=
  ClassList.fault?_eq_none_iff.mp s.faultless

/-- The edges of the graph of a schema are the references. -/
theorem edge_graph_iff {s : Schema} {name target : String} :
    s.graph.Edge name target ↔ ClassList.RefersTo s.classes name target := by
  refine ClassList.edge_graph_iff s.sound.distinctNames ?_
  intro c among field has target mentions
  exact ClassList.mem_names.mpr (s.sound.declared c among field has target mentions)

/-- Following references ends, wherever it starts. -/
theorem wellFounded_refersTo (s : Schema) :
    WellFounded fun target name => ClassList.RefersTo s.classes name target := by
  have acyclic := (ClassList.fault?_eq_none.mp s.faultless).2.2
  refine Subrelation.wf ?_ (Digraph.wellFounded_of_cycle? acyclic)
  intro target name refers
  exact edge_graph_iff.mpr refers

theorem find?_eq_some_iff {s : Schema} {name : String} {c : ClassDef} :
    s.find? name = some c ↔ c ∈ s.classes ∧ c.name = name :=
  ClassList.find?_eq_some_iff s.sound.distinctNames

/-- A class of a schema is found under its name. -/
theorem find?_name {s : Schema} {c : ClassDef} (among : c ∈ s.classes) :
    s.find? c.name = some c :=
  find?_eq_some_iff.mpr ⟨among, rfl⟩

theorem contains_iff {s : Schema} {name : String} :
    s.contains name = true ↔ ∃ c ∈ s.classes, c.name = name := by
  rw [contains, index, ClassList.lookup_index, List.findIdx?_isSome]
  simp

theorem ofClasses_eq_ok_iff {classes : List ClassDef} {s : Schema} :
    ofClasses classes = .ok s ↔ s.classes = classes := by
  rw [ofClasses]
  split
  · next fault found =>
    refine ⟨fun made => (nomatch made), ?_⟩
    rintro rfl
    rw [s.faultless] at found
    cases found
  · next found =>
    rw [Except.ok.injEq]
    constructor
    · rintro rfl
      rfl
    · rintro rfl
      rfl

theorem ofClasses_eq_error_iff {classes : List ClassDef} {fault : SchemaFault} :
    ofClasses classes = .error fault ↔ ClassList.fault? classes = some fault := by
  rw [ofClasses]
  split
  · next found => rw [found, Except.error.injEq, Option.some.injEq]
  · next none =>
    refine ⟨fun made => (nomatch made), fun found => ?_⟩
    rw [none] at found
    cases found

theorem exists_ofClasses_iff {classes : List ClassDef} :
    (∃ s, ofClasses classes = .ok s) ↔ ClassList.Sound classes := by
  constructor
  · rintro ⟨s, made⟩
    exact ofClasses_eq_ok_iff.mp made ▸ s.sound
  · intro sound
    exact ⟨⟨classes, ClassList.fault?_eq_none_iff.mpr sound⟩, ofClasses_eq_ok_iff.mpr rfl⟩

/-- The end of a document accepts the classes that make a schema. -/
theorem finish_eq_ok_iff {classes : List ClassDef} {s : Schema} :
    rule.finish (some classes) = .ok s ↔ ofClasses classes = .ok s := by
  simp only [rule, Option.getD_some]
  cases ofClasses classes with
  | ok _ => simp
  | error _ => simp

/-- The end of a document refuses all other classes, for their fault. -/
theorem finish_of_fault {classes : List ClassDef} {fault : SchemaFault}
    (made : ofClasses classes = .error fault) :
    rule.finish (some classes) = .error (.refused fault.message) := by
  simp only [rule, Option.getD_some, made]

/-- Classes make a schema exactly if they are sound, whether they are put together directly or read
from a document; the schema has them in the given order, and finds each under its own name. -/
theorem isSchema_iff_sound (classes : List ClassDef) :
    ((∃ s, ofClasses classes = .ok s) ↔ ClassList.Sound classes) ∧
      ((∃ s, rule.finish (some classes) = .ok s) ↔ ClassList.Sound classes) ∧
      ∀ s, ofClasses classes = .ok s ∨ rule.finish (some classes) = .ok s →
        s.classes = classes ∧
          ∀ name, (s.contains name = true ↔ ∃ c ∈ classes, c.name = name) ∧
            ∀ c, s.find? name = some c ↔ c ∈ classes ∧ c.name = name := by
  refine ⟨exists_ofClasses_iff, ?_, ?_⟩
  · simp only [finish_eq_ok_iff]
    exact exists_ofClasses_iff
  · intro s made
    rw [finish_eq_ok_iff, or_self] at made
    obtain rfl := ofClasses_eq_ok_iff.mp made
    exact ⟨rfl, fun name => ⟨contains_iff, fun c => find?_eq_some_iff⟩⟩

/-- Orders with their customers and items; an item is mentioned under two wrappers. -/
def orders : Schema where
  classes := [
    ⟨"Order", [⟨"customer", .reference "Customer"⟩,
      ⟨"items", .array (.optional (.reference "Item"))⟩]⟩,
    ⟨"Customer", [⟨"name", .string⟩]⟩,
    ⟨"Item", [⟨"name", .string⟩]⟩]
  faultless := ClassList.fault?_eq_none.mpr ⟨by decide, by decide, by cbv⟩

theorem isSchema_orders : orders.find? "Item" = some ⟨"Item", [⟨"name", .string⟩]⟩ :=
  (((isSchema_iff_sound orders.classes).2.2 orders (.inl (ofClasses_eq_ok_iff.mpr rfl))).2
    "Item").2 _ |>.mpr (by decide)

end Schema

end Classwright
