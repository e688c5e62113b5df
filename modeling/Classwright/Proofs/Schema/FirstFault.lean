/-
# Classwright.Proofs.Schema.FirstFault — the fault that is reported is the first one

A list of classes that makes no schema is refused for one fault.  `FirstFault` says of each kind of
fault what it promises about the list: which place it points to, and that everything which is looked
at earlier is in order.  It mentions no check, so it can be read without knowing how faults are
searched for.

For a cycle the promise is a path through the list that can be followed.  The path is what remains
of the open nodes of a walk from a node that is found again.  Open nodes are told apart, and each
has an edge to the next one (`Trail`), so together with the edge that leads back they close a cycle.
-/

import Classwright.Proofs.Schema.Sound

namespace Classwright

/-! ## Cycles -/

/-- The path leads from its first node along the relation back to it, and comes to no other node
twice. -/
def IsCycle (r : String → String → Prop) (path : List String) : Prop :=
  ∃ node others, path = node :: (others ++ [node]) ∧ (node :: others).Nodup ∧ path.IsChain r

namespace Digraph

variable {g : Digraph} {seen starts after path cycle : List String} {events rest : List Event}
  {node : String}

/-- The open nodes of a walk: each has an edge to the next one, and no two are the same. -/
structure Trail (g : Digraph) (path : List String) : Prop where
  chain : path.IsChain g.Edge
  distinct : path.Nodup

/-- A new node behind the last one is the next open node. -/
theorem Trail.concat (trail : g.Trail path) (new : node ∉ path)
    (edge : ∀ last ∈ path.getLast?, g.Edge last node) : g.Trail (path ++ [node]) where
  chain := trail.chain.append (.singleton node) fun last ends first starts => by
    obtain rfl : node = first := by simpa using starts
    exact edge last ends
  distinct := List.nodup_append'.mpr
    ⟨trail.distinct, List.nodup_singleton node, List.disjoint_singleton.mpr new⟩

/-- An edge from the last node back to an open one closes a cycle. -/
theorem Trail.isCycle (trail : g.Trail path) (opened : node ∈ path)
    (edge : ∀ last ∈ path.getLast?, g.Edge last node) :
    IsCycle g.Edge (path.dropWhile (· ≠ node) ++ [node]) := by
  obtain ⟨front, back, rfl, new⟩ := List.eq_append_cons_of_mem opened
  have cut : (front ++ node :: back).dropWhile (· ≠ node) = node :: back := by
    rw [List.dropWhile_append_of_pos fun other among => ?_, List.dropWhile_cons_of_neg (by simp)]
    exact decide_eq_true fun same => new (same ▸ among)
  rw [cut]
  refine ⟨node, back, rfl, (List.nodup_append'.mp trail.distinct).2.1, ?_⟩
  refine (List.isChain_append.mp trail.chain).2.1.append (.singleton node) ?_
  intro last ends first starts
  obtain rfl : node = first := by simpa using starts
  refine edge last ?_
  rwa [List.getLast?_append_of_ne_nil front (List.cons_ne_nil node back)]

/-- A return to an open node shows a cycle: the one that the walk from the last open node meets,
or one that is found behind that walk. -/
theorem Walks.isCycle_of_firstReturn (h : Walks g seen starts events after) :
    ∀ {path rest}, g.Trail path → (∀ node ∈ path, node ∈ seen) → (∀ node ∈ path, node ∈ g.nodes) →
      (∀ last ∈ path.getLast?, ∀ start ∈ starts, start ∈ g.nodes → g.Edge last start) →
      firstReturn path (events ++ rest) = some cycle →
      IsCycle g.Edge cycle ∨ firstReturn path rest = some cycle := by
  induction h with
  | done seen => exact fun _ _ _ _ found => .inr found
  | @again seen starts after events node _ _ ih =>
      intro path rest trail old known edges found
      rw [List.cons_append, firstReturn] at found
      split at found
      · next opened =>
        obtain rfl := Option.some.inj found
        refine .inl (trail.isCycle opened fun last ends => ?_)
        exact edges last ends node List.mem_cons_self (known node opened)
      · refine ih trail old known (fun last ends start among => ?_) found
        exact edges last ends start (List.mem_cons_of_mem node among)
  | @outside seen starts after events node _ _ _ ih =>
      intro path rest trail old known edges found
      exact ih trail old known
        (fun last ends start among => edges last ends start (List.mem_cons_of_mem node among)) found
  | @enter seen starts between after below events node new inside walksBelow _ ihBelow ihRest =>
      intro path rest trail old known edges found
      rw [List.cons_append, List.append_assoc, firstReturn] at found
      have longer : g.Trail (path ++ [node]) := by
        refine trail.concat (fun among => new (old node among)) fun last ends => ?_
        exact edges last ends node List.mem_cons_self inside
      have oldBelow : ∀ other ∈ path ++ [node], other ∈ node :: seen := by
        intro other among
        rcases List.mem_append.mp among with among | among
        · exact List.mem_cons_of_mem node (old other among)
        · exact List.mem_singleton.mp among ▸ List.mem_cons_self
      have knownBelow : ∀ other ∈ path ++ [node], other ∈ g.nodes := by
        intro other among
        rcases List.mem_append.mp among with among | among
        · exact known other among
        · exact List.mem_singleton.mp among ▸ inside
      have edgesBelow : ∀ last ∈ (path ++ [node]).getLast?, ∀ next ∈ g.successors node,
          next ∈ g.nodes → g.Edge last next := by
        intro last ends next follows declared
        obtain rfl : node = last := by simpa using ends
        exact ⟨inside, declared, follows⟩
      rcases ihBelow longer oldBelow knownBelow edgesBelow found with closed | found
      · exact .inl closed
      · -- behind its successors the node is closed again
        rw [List.cons_append, firstReturn, List.dropLast_concat] at found
        refine ihRest trail ?_ known ?_ found
        · obtain ⟨fresh, rfl⟩ := walksBelow.after_eq
          exact fun other among =>
            List.mem_append_right fresh (List.mem_cons_of_mem node (old other among))
        · exact fun last ends start among =>
            edges last ends start (List.mem_cons_of_mem node among)

/-- What the search for a cycle finds is one. -/
theorem isCycle_of_cycle? (found : g.cycle? = some cycle) : IsCycle g.Edge cycle := by
  obtain ⟨after, walks⟩ := g.walks_events g.nodes
  rw [cycle?, ← List.append_nil (g.events g.nodes)] at found
  have closed := walks.isCycle_of_firstReturn ⟨.nil, .nil⟩ (by simp) (by simp) (by simp) found
  exact closed.resolve_right nofun

end Digraph

/-! ## One class -/

namespace ClassDef

/-- The keys of the fields are there and told apart. -/
def AreKeyed (fields : List Field) : Prop :=
  (∀ field ∈ fields, field.key ≠ "") ∧ (fields.map (·.key)).Nodup

/-- Nothing is wrong with the class on its own. -/
def IsFine (c : ClassDef) : Prop :=
  (∃ char ∈ c.name.toList, Text.isBlank char = false) ∧ AreKeyed c.fields

/-- What is wrong with the class on its own, at the first place where something is. -/
inductive IsAtFault (c : ClassDef) : SchemaFault → Prop
  | blankName (blank : ∀ char ∈ c.name.toList, Text.isBlank char = true) :
      IsAtFault c .blankClassName
  | emptyKey {before later : List Field} {field : Field}
      (named : ∃ char ∈ c.name.toList, Text.isBlank char = false)
      (place : c.fields = before ++ field :: later) (keyed : AreKeyed before)
      (empty : field.key = "") : IsAtFault c (.emptyKey c.name)
  | repeatedKey {before later : List Field} {field : Field}
      (named : ∃ char ∈ c.name.toList, Text.isBlank char = false)
      (place : c.fields = before ++ field :: later) (keyed : AreKeyed before)
      (again : field.key ∈ before.map (·.key)) : IsAtFault c (.repeatedKey c.name field.key)

theorem isFine_iff {c : ClassDef} : c.fault? = none ↔ c.IsFine := fault?_eq_none_iff

/-- The fault of the keys stands at the first field where something is wrong. -/
theorem exists_of_keyFault? {className : String} {seen : List String} {fields : List Field}
    {fault : SchemaFault} (found : keyFault? className seen fields = some fault) :
    ∃ before field later, fields = before ++ field :: later ∧
      keyFault? className seen before = none ∧
      (field.key = "" ∧ fault = .emptyKey className ∨
        field.key ≠ "" ∧ (field.key ∈ seen ∨ field.key ∈ before.map (·.key)) ∧
          fault = .repeatedKey className field.key) := by
  induction fields generalizing seen with
  | nil => cases found
  | cons field fields ih =>
      rw [keyFault?] at found
      split at found
      · next empty =>
        exact ⟨[], field, fields, rfl, rfl, .inl ⟨empty, (Option.some.inj found).symm⟩⟩
      · next filled =>
        split at found
        · next old =>
          exact ⟨[], field, fields, rfl, rfl,
            .inr ⟨filled, .inl old, (Option.some.inj found).symm⟩⟩
        · next new =>
          obtain ⟨before, other, later, rfl, fine, wrong⟩ := ih found
          refine ⟨field :: before, other, later, rfl, ?_, ?_⟩
          · rw [keyFault?, if_neg filled, if_neg new, fine]
          · refine wrong.imp_right (And.imp_right (And.imp_left fun again => ?_))
            simp only [List.map_cons, List.mem_cons] at again ⊢
            tauto

theorem isAtFault_of_fault? {c : ClassDef} {fault : SchemaFault} (found : c.fault? = some fault) :
    c.IsAtFault fault := by
  rw [fault?] at found
  split at found
  · next blank =>
    obtain rfl := Option.some.inj found
    exact .blankName (by simpa [Text.isAllBlank] using blank)
  · next filled =>
    have named : ∃ char ∈ c.name.toList, Text.isBlank char = false := by
      simpa [Text.isAllBlank] using filled
    obtain ⟨before, field, later, place, fine, wrong⟩ := exists_of_keyFault? found
    obtain ⟨filled, distinct, _⟩ := keyFault?_eq_none_iff.mp fine
    rcases wrong with ⟨empty, rfl⟩ | ⟨_, again, rfl⟩
    · exact .emptyKey named place ⟨filled, distinct⟩ empty
    · exact .repeatedKey named place ⟨filled, distinct⟩ (again.resolve_left List.not_mem_nil)

end ClassDef

/-! ## All classes -/

namespace ClassList

variable {classes : List ClassDef} {fault : SchemaFault}

/-- Nothing is wrong with the classes as long as references are left aside. -/
structure LocallySound (classes : List ClassDef) : Prop where
  fine : ∀ c ∈ classes, c.IsFine
  distinctNames : (names classes).Nodup

/-- A reference to `target` in the field with the key of a class. -/
structure Reference where
  className : String
  key : String
  target : String

/-- All references, class by class, field by field, and as they stand in the types. -/
def references (classes : List ClassDef) : List Reference :=
  classes.flatMap fun c => c.fields.flatMap fun field =>
    field.type.references.map fun target => ⟨c.name, field.key, target⟩

/-- What a fault says about the classes: it is there, and all that comes before it is in order. -/
inductive FirstFault (classes : List ClassDef) : SchemaFault → Prop
  | ofClass {before later : List ClassDef} {c : ClassDef} {fault : SchemaFault}
      (place : classes = before ++ c :: later) (sound : LocallySound before)
      (wrong : c.IsAtFault fault) : FirstFault classes fault
  | repeatedClass {before later : List ClassDef} {c : ClassDef}
      (place : classes = before ++ c :: later) (sound : LocallySound before) (fine : c.IsFine)
      (again : c.name ∈ names before) : FirstFault classes (.repeatedClass c.name)
  | undeclaredReference {before later : List Reference} {reference : Reference}
      (sound : LocallySound classes) (place : references classes = before ++ reference :: later)
      (declared : ∀ other ∈ before, other.target ∈ names classes)
      (unknown : reference.target ∉ names classes) :
      FirstFault classes
        (.undeclaredReference reference.className reference.key reference.target)
  | cycle {path : List String} (sound : LocallySound classes)
      (declared : ∀ reference ∈ references classes, reference.target ∈ names classes)
      (closed : IsCycle (RefersTo classes) path) : FirstFault classes (.cycle path)

theorem locallySound_iff : localFault? [] classes = none ↔ LocallySound classes := by
  rw [localFault?_eq_none_iff]
  constructor
  · rintro ⟨fine, distinct, _⟩
    exact ⟨fun c among => ClassDef.isFine_iff.mp (fine c among), distinct⟩
  · intro sound
    refine ⟨fun c among => ?_, sound.distinctNames, by simp⟩
    exact ClassDef.isFine_iff.mpr (sound.fine c among)

/-- A local fault stands at the first class where something is wrong. -/
theorem exists_of_localFault? {seen : List String} (found : localFault? seen classes = some fault) :
    ∃ before c later, classes = before ++ c :: later ∧ localFault? seen before = none ∧
      (c.fault? = some fault ∨ c.fault? = none ∧ (c.name ∈ seen ∨ c.name ∈ names before) ∧
        fault = .repeatedClass c.name) := by
  induction classes generalizing seen with
  | nil => cases found
  | cons c classes ih =>
      rw [localFault?] at found
      split at found
      · next own =>
        obtain rfl := Option.some.inj found
        exact ⟨[], c, classes, rfl, rfl, .inl own⟩
      · next fine =>
        split at found
        · next old =>
          exact ⟨[], c, classes, rfl, rfl, .inr ⟨fine, .inl old, (Option.some.inj found).symm⟩⟩
        · next new =>
          obtain ⟨before, other, later, rfl, sound, wrong⟩ := ih found
          refine ⟨c :: before, other, later, rfl, ?_, ?_⟩
          · rw [localFault?, fine]
            simp only [if_neg new, sound]
          · refine wrong.imp_right (And.imp_right (And.imp_left fun again => ?_))
            simp only [names, List.map_cons, List.mem_cons] at again ⊢
            tauto

/-- The search for an undeclared reference goes through all references in turn. -/
theorem referenceFault?_eq (declared : List String) (classes : List ClassDef) :
    referenceFault? declared classes =
      ((references classes).find? (·.target ∉ declared)).map fun reference =>
        .undeclaredReference reference.className reference.key reference.target := by
  simp only [referenceFault?, references, List.find?_flatMap, List.map_findSome?, List.find?_map,
    Option.map_map, Function.comp_def]

theorem mem_references {target : String} :
    (∃ reference ∈ references classes, reference.target = target) ↔
      ∃ c ∈ classes, ∃ field ∈ c.fields, field.type.Mentions target := by
  simp [references, ValueType.mem_references_iff]

/-- Classes that make no schema are refused for a fault that is there, and all that is looked at
before it is in order. -/
theorem firstFault_of_refused (refused : Schema.ofClasses classes = .error fault) :
    FirstFault classes fault := by
  have found : fault? classes = some fault := Schema.ofClasses_eq_error_iff.mp refused
  cases alone : localFault? [] classes with
  | some own =>
      obtain rfl : own = fault := by simpa [fault?, alone] using found
      obtain ⟨before, c, later, place, sound, wrong⟩ := exists_of_localFault? alone
      rcases wrong with wrong | ⟨fine, again, rfl⟩
      · exact .ofClass place (locallySound_iff.mp sound) (ClassDef.isAtFault_of_fault? wrong)
      · exact .repeatedClass place (locallySound_iff.mp sound) (ClassDef.isFine_iff.mp fine)
          (again.resolve_left List.not_mem_nil)
  | none =>
      have sound : LocallySound classes := locallySound_iff.mp alone
      cases wrong : (references classes).find? (·.target ∉ names classes) with
      | some reference =>
          obtain ⟨unknown, before, later, place, declared⟩ :=
            List.find?_eq_some_iff_append.mp wrong
          rw [fault?, alone, referenceFault?_eq, wrong] at found
          obtain rfl := Option.some.inj found
          exact .undeclaredReference sound place (by simpa using declared) (by simpa using unknown)
      | none =>
          have declared : ∀ reference ∈ references classes, reference.target ∈ names classes := by
            simpa using wrong
          rw [fault?, alone, referenceFault?_eq, wrong] at found
          obtain ⟨path, closed, rfl⟩ := Option.map_eq_some_iff.mp found
          -- every reference leads somewhere, so the edges that were searched are the references
          have edges : (graph classes).Edge = RefersTo classes := by
            funext name target
            refine propext (edge_graph_iff sound.distinctNames ?_)
            intro c among field has target mentions
            obtain ⟨reference, within, rfl⟩ :=
              mem_references.mpr ⟨c, among, field, has, mentions⟩
            exact declared reference within
          exact .cycle sound declared (edges ▸ Digraph.isCycle_of_cycle? closed)

/-- Behind an entrance that is no part of it, a cycle of two classes. -/
def lasso : List ClassDef :=
  [⟨"Entrance", [⟨"first", .array (.reference "Hall")⟩]⟩,
    ⟨"Hall", [⟨"name", .string⟩, ⟨"door", .reference "Stairs"⟩]⟩,
    ⟨"Stairs", [⟨"up", .optional (.reference "Hall")⟩]⟩]

theorem firstFault_of_refused_lasso :
    Schema.ofClasses lasso = .error (.cycle ["Hall", "Stairs", "Hall"]) ∧
      FirstFault lasso (.cycle ["Hall", "Stairs", "Hall"]) := by
  have alone : localFault? [] lasso = none := by decide
  have declared : referenceFault? (names lasso) lasso = none := by decide
  have closed : (graph lasso).cycle? = some ["Hall", "Stairs", "Hall"] := by cbv
  have refused : Schema.ofClasses lasso = .error (.cycle ["Hall", "Stairs", "Hall"]) := by
    rw [Schema.ofClasses_eq_error_iff, fault?, alone, declared, closed]
    rfl
  exact ⟨refused, firstFault_of_refused refused⟩

end ClassList

end Classwright
