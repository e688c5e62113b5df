/-
# Classwright.Schema.Merge — one class for classes of one shape

The same kind of object may turn up at several places of a sample and then gets a class for each.
Merging by shape keeps the first declared class of each shape and redirects references to it.  Once
two classes have become one, the classes that refer to them may have become equal too, so rounds of
merging are repeated until a round finds nothing.
-/

import Classwright.Schema.Basic

namespace Classwright

/-- How classes found at different places are brought together. -/
inductive MergePolicy where
  /-- Each place keeps its class. -/
  | byPath
  /-- Classes of the same shape become the one declared first. -/
  | byShape
  deriving DecidableEq, Repr

/-- The policies, each under its tag. -/
def MergePolicy.tags : List (String × MergePolicy) :=
  [("by_path", .byPath), ("by_shape", .byShape)]

namespace ClassList

/-- The classes kept by one round, in order, and for each class that is not kept the pair of its
name and the name of the class that stands in for it.  `kept` holds the classes kept so far. -/
def mergeRound (kept : List ClassDef) : List ClassDef → List ClassDef × List (String × String)
  | [] => (kept, [])
  | c :: rest =>
    match kept.find? (·.sameShape c) with
    | some standIn =>
      let later := mergeRound kept rest
      (later.1, (c.name, standIn.name) :: later.2)
    | none => mergeRound (kept ++ [c]) rest

/-- Every class is either kept or has a stand-in. -/
theorem length_mergeRound (kept classes : List ClassDef) :
    (mergeRound kept classes).1.length + (mergeRound kept classes).2.length
      = kept.length + classes.length := by
  induction classes generalizing kept with
  | nil => simp [mergeRound]
  | cons c rest ih =>
    unfold mergeRound
    split
    · have := ih kept
      simp only [List.length_cons]
      omega
    · have := ih (kept ++ [c])
      simp only [List.length_append, List.length_cons, List.length_nil] at this ⊢
      omega

/-- The name that a reference has after a round: one step through the table, and no further. -/
def standInName (table : List (String × String)) (name : String) : String :=
  (table.lookup name).getD name

/-- Rounds of merging, until one of them keeps every class. -/
def mergeByShape (classes : List ClassDef) : List ClassDef :=
  match _ : mergeRound [] classes with
  | (_, []) => classes
  | (kept, entry :: table) =>
    mergeByShape (kept.map (·.rename (standInName (entry :: table))))
termination_by classes.length
decreasing_by
  rename_i h
  have total := length_mergeRound [] classes
  rw [h] at total
  simp only [List.length_map, List.length_cons, List.length_nil] at total ⊢
  omega

end ClassList

/-- The schema after the classes have been brought together. -/
def Schema.merged (s : Schema) : MergePolicy → Except SchemaFault Schema
  | .byPath => .ok s
  | .byShape => ofClasses (ClassList.mergeByShape s.classes)

end Classwright
