/-
# Classwright.Proofs.Render.Names — every class has a type name, every field a member name

Names are handed out for as many classes as there are, so the table of a schema has an entry for
each class, and because class names differ the entry is found.  The same count gives every field of
a class its member name.

A repaired name carries a suffix, a number or, in Objective-C, an article.  No language has a
reserved word that looks like that, so a repair never trades one reserved word for another.
-/

import Classwright.Proofs.Render.Outcome
import Classwright.Proofs.Schema.Sound
import Classwright.Proofs.Text.Identifier
import Classwright.Render.Names

/-! ## Reserved words -/

namespace Classwright.Lexicon

open Text (standsClear)

/-- The reserved words of a language have nothing in common with repaired names. -/
def StandClear (words : List String) : Prop :=
  ∀ word ∈ words, standsClear TypeNames.stand word ∧ standsClear MemberRule.suffix word

theorem Swift.standClear : StandClear Swift.reservedTypeNames := by
  unfold StandClear
  decide +kernel

theorem ObjectiveC.standClear : StandClear ObjectiveC.reservedTypeNames := by
  unfold StandClear
  decide +kernel

theorem Java.standClear : StandClear Java.reservedTypeNames := by
  unfold StandClear
  decide +kernel

/-- No keyword looks like a name with the article in front. -/
theorem ObjectiveC.noArticle : ∀ word ∈ ObjectiveC.keywords, ¬ "the".toList <+: word.toList := by
  decide +kernel

theorem StandClear.ofTypes {words : List String} (clear : StandClear words) :
    ∀ word ∈ words, standsClear TypeNames.stand word :=
  fun word among => (clear word among).1

/-- Keywords are among the names that no type may have. -/
theorem StandClear.ofMembers {keywords others : List String}
    (clear : StandClear (keywords ++ others)) :
    ∀ word ∈ keywords, standsClear MemberRule.suffix word :=
  fun word among => (clear word (List.mem_append_left others among)).2

end Classwright.Lexicon

namespace Classwright

/-! ## Names of classes and fields -/

/-- Every field has a member name. -/
theorem MemberRule.map_fst_named (rule : MemberRule) (c : ClassDef) :
    (rule.named c).map Prod.fst = c.fields := by
  refine List.map_fst_zip (Nat.le_of_eq ?_)
  rw [names, Text.NameSupply.length_issueAll, List.length_map]

theorem MemberRule.field_mem {rule : MemberRule} {c : ClassDef} {member : Field × String}
    (among : member ∈ rule.named c) : member.1 ∈ c.fields := by
  rw [← rule.map_fst_named c]
  exact List.mem_map_of_mem among

namespace TypeNames

variable {language : Language} {s : Schema} {classPrefix : String} {reserved : List String}

theorem map_fst_table :
    (ofSchema language s classPrefix reserved).table.map Prod.fst = ClassList.names s.classes := by
  refine List.map_fst_zip (Nat.le_of_eq ?_)
  rw [Text.NameSupply.length_issueAll, List.length_map]

/-- The entries of the table are what it is asked for. -/
theorem get_eq_ok_iff {className typeName : String} :
    (ofSchema language s classPrefix reserved).get className = .ok typeName ↔
      (className, typeName) ∈ (ofSchema language s classPrefix reserved).table := by
  have distinct : ((ofSchema language s classPrefix reserved).table.map Prod.fst).Nodup := by
    rw [map_fst_table]
    exact s.sound.distinctNames
  rw [get, ← lookup_eq_some_iff_mem distinct]
  split
  · next name known => rw [known, Except.ok.injEq, Option.some.injEq]
  · next none => simp [none]

/-- No class of a schema lacks a type name. -/
theorem exists_get {c : ClassDef} (among : c ∈ s.classes) :
    ∃ typeName, (ofSchema language s classPrefix reserved).get c.name = .ok typeName := by
  have declared : c.name ∈ (ofSchema language s classPrefix reserved).table.map Prod.fst := by
    rw [map_fst_table]
    exact List.mem_map_of_mem among
  obtain ⟨⟨className, typeName⟩, entry, same⟩ := List.mem_map.mp declared
  obtain rfl : className = c.name := same
  exact ⟨typeName, get_eq_ok_iff.mpr entry⟩

/-- Only classes of the schema have type names. -/
theorem exists_of_get {className typeName : String}
    (found : (ofSchema language s classPrefix reserved).get className = .ok typeName) :
    ∃ c ∈ s.classes, c.name = className := by
  have declared := List.mem_map_of_mem (f := Prod.fst) (get_eq_ok_iff.mp found)
  rw [map_fst_table] at declared
  exact ClassList.mem_names.mp declared

/-- A type name is generated exactly if a class has it. -/
theorem isGenerated_iff {typeName : String} :
    (ofSchema language s classPrefix reserved).isGenerated typeName = true ↔
      ∃ c ∈ s.classes, (ofSchema language s classPrefix reserved).get c.name = .ok typeName := by
  simp only [isGenerated, List.any_eq_true, decide_eq_true_eq]
  constructor
  · rintro ⟨⟨className, _⟩, entry, rfl⟩
    have found := get_eq_ok_iff.mpr entry
    obtain ⟨c, among, rfl⟩ := exists_of_get found
    exact ⟨c, among, found⟩
  · rintro ⟨c, among, found⟩
    exact ⟨_, get_eq_ok_iff.mp found, rfl⟩

end TypeNames

end Classwright
