/-
# Classwright.Proofs.Schema.Merge — merging by shape is merging by unfolding

A round of merging compares fields as they are written, so it sees only classes that refer to the
same names.  Repeated until nothing changes, the rounds find exactly the classes that are the same
when written out in full: each round leaves unfoldings as they are, and where a round finds nothing
no two classes unfold alike.

The classes that remain are described at once, without rounds, by `Schema.quotient`: the first of
each group of classes with one unfolding, its references redirected to the first of their groups.
The quotient does not change from round to round, and the last round has nothing left to merge, so
the rounds end in the quotient of the schema that they started from.
-/

import Classwright.Proofs.Schema.Unfolding
import Classwright.Schema.Merge
import Mathlib.Data.List.Find
import Mathlib.Data.List.Nodup
import Mathlib.Data.List.Pairwise

namespace Classwright

/-! ## One round -/

namespace ClassList

variable {kept classes : List ClassDef}

theorem sameShape_iff {c d : ClassDef} : c.sameShape d = true ↔ c.fields = d.fields :=
  decide_eq_true_iff

/-- The classes that a round keeps are some of the classes, in their order. -/
theorem sublist_mergeRound (kept classes : List ClassDef) :
    (mergeRound kept classes).1.Sublist (kept ++ classes) := by
  induction classes generalizing kept with
  | nil => simp [mergeRound]
  | cons c rest ih =>
      rw [mergeRound]
      split
      · exact (ih kept).trans (List.Sublist.append_left (List.sublist_cons_self c rest) kept)
      · simpa using ih (kept ++ [c])

/-- A round keeps one class of each shape. -/
theorem pairwise_mergeRound (apart : kept.Pairwise fun c d => ¬ c.sameShape d) :
    (mergeRound kept classes).1.Pairwise fun c d => ¬ c.sameShape d := by
  induction classes generalizing kept with
  | nil => exact apart
  | cons c rest ih =>
      rw [mergeRound]
      split
      · exact ih apart
      · next none =>
        refine ih (List.pairwise_append.mpr ⟨apart, List.pairwise_singleton _ _, ?_⟩)
        intro k among d here
        rw [List.mem_singleton.mp here]
        exact List.find?_eq_none.mp none k among

/-- A search that does not prefer a class to an earlier one of its shape finds the same class before
and after a round. -/
theorem find?_mergeRound {wanted : ClassDef → Bool}
    (earlier : (kept ++ classes).Pairwise fun k c => k.sameShape c → wanted c → wanted k) :
    (mergeRound kept classes).1.find? wanted = (kept ++ classes).find? wanted := by
  induction classes generalizing kept with
  | nil => rw [mergeRound, List.append_nil]
  | cons c rest ih =>
      rw [mergeRound]
      split
      · next standIn found =>
        -- the round drops `c`, so the search must not have been about to find it
        have among := List.mem_of_find?_eq_some found
        have same := List.find?_some found
        have fewer := List.Sublist.append_left (List.sublist_cons_self c rest) kept
        refine (ih (earlier.sublist fewer)).trans ?_
        rw [List.find?_append, List.find?_append, List.find?_cons]
        cases first : kept.find? wanted with
        | some k => rfl
        | none =>
            have unwanted : wanted c = false := by
              have later := (List.pairwise_append.mp earlier).2.2 standIn among c
                List.mem_cons_self same
              have missed := List.find?_eq_none.mp first standIn among
              simpa using fun hit => missed (later hit)
            rw [unwanted]
      · rw [ih (by simpa using earlier)]
        simp

/-- A selection that takes no class with an earlier one of its shape takes the same classes before
and after a round. -/
theorem filter_mergeRound {taken : ClassDef → Bool}
    (later : (kept ++ classes).Pairwise fun k c => k.sameShape c → taken c = false) :
    (mergeRound kept classes).1.filter taken = (kept ++ classes).filter taken := by
  induction classes generalizing kept with
  | nil => rw [mergeRound, List.append_nil]
  | cons c rest ih =>
      rw [mergeRound]
      split
      · next standIn found =>
        have fewer := List.Sublist.append_left (List.sublist_cons_self c rest) kept
        have same := List.find?_some found
        have dropped : taken c = false :=
          (List.pairwise_append.mp later).2.2 standIn (List.mem_of_find?_eq_some found) c
            List.mem_cons_self same
        rw [ih (later.sublist fewer), List.filter_append, List.filter_append, List.filter_cons,
          dropped]
        rfl
      · rw [ih (by simpa using later)]
        simp

/-- A name that no class has stays as it is. -/
theorem standInName_of_not_mem (kept : List ClassDef) {name : String} (absent : name ∉ names classes) :
    standInName (mergeRound kept classes).2 name = name := by
  induction classes generalizing kept with
  | nil => rfl
  | cons c rest ih =>
      simp only [names, List.map_cons, List.mem_cons, not_or] at absent
      rw [mergeRound]
      split
      · have other : (name == c.name) = false := by simpa using absent.1
        simpa [standInName, List.lookup_cons, other] using ih kept absent.2
      · exact ih _ absent.2

/-- Every class is replaced by the first one of its shape. -/
theorem standInName_eq (kept : List ClassDef) (distinct : (names classes).Nodup) {c : ClassDef}
    (among : c ∈ classes) :
    ∃ k, (kept ++ classes).find? (·.sameShape c) = some k ∧
      standInName (mergeRound kept classes).2 c.name = k.name := by
  induction classes generalizing kept with
  | nil => cases among
  | cons d rest ih =>
      simp only [names, List.map_cons, List.nodup_cons] at distinct
      rw [mergeRound]
      split
      · next standIn found =>
        rcases List.mem_cons.mp among with rfl | among
        · refine ⟨standIn, by rw [List.find?_append, found]; rfl, ?_⟩
          simp [standInName]
        · obtain ⟨k, first, renamed⟩ := ih kept distinct.2 among
          have other : (c.name == d.name) = false := by
            rw [beq_eq_false_iff_ne]
            rintro same
            exact distinct.1 (same ▸ List.mem_map_of_mem among)
          refine ⟨k, ?_, by simpa [standInName, List.lookup_cons, other] using renamed⟩
          rw [List.find?_append] at first ⊢
          cases hit : kept.find? (·.sameShape c) with
          | some _ => rwa [hit] at first
          | none =>
              -- `d` is dropped for a kept class of its shape, which is not the shape of `c`
              have differs : d.sameShape c = false := by
                have missed := List.find?_eq_none.mp hit standIn (List.mem_of_find?_eq_some found)
                have same := List.find?_some found
                rw [sameShape_iff] at missed same
                simpa [ClassDef.sameShape, same] using missed
              rw [hit] at first
              rw [List.find?_cons, differs]
              exact first
      · next none =>
        rcases List.mem_cons.mp among with rfl | among
        · refine ⟨c, ?_, standInName_of_not_mem _ distinct.1⟩
          rw [List.find?_append, none, List.find?_cons_of_pos (by simp [ClassDef.sameShape])]
          rfl
        · simpa using ih (kept ++ [d]) distinct.2 among

end ClassList

/-! ## Renaming -/

namespace ValueType

theorem rename_congr {first second : String → String} {type : ValueType}
    (same : ∀ name, type.Mentions name → first name = second name) :
    type.rename first = type.rename second := by
  induction type with
  | reference name => exact congrArg reference (same name ⟨0, .here⟩)
  | array item ih => exact congrArg array (ih fun name within => same name (mentions_array.mpr within))
  | optional inner ih =>
      exact congrArg optional (ih fun name within => same name (mentions_optional.mpr within))
  | _ => rfl

theorem rename_id (type : ValueType) : type.rename id = type := by
  induction type with
  | array item ih => exact congrArg array ih
  | optional inner ih => exact congrArg optional ih
  | _ => rfl

theorem rename_rename (first second : String → String) (type : ValueType) :
    (type.rename first).rename second = type.rename (second ∘ first) := by
  induction type with
  | array item ih => exact congrArg array ih
  | optional inner ih => exact congrArg optional ih
  | _ => rfl

theorem mentions_rename {newName : String → String} {type : ValueType} {target : String}
    (mentions : (type.rename newName).Mentions target) :
    ∃ name, type.Mentions name ∧ newName name = target := by
  rw [← mem_references_iff, references_rename] at mentions
  obtain ⟨name, among, rfl⟩ := List.mem_map.mp mentions
  exact ⟨name, mem_references_iff.mp among, rfl⟩

end ValueType

namespace ClassDef

theorem rename_congr {first second : String → String} {c : ClassDef}
    (same : ∀ field ∈ c.fields, ∀ name, field.type.Mentions name → first name = second name) :
    c.rename first = c.rename second := by
  rw [rename, rename, List.map_congr_left fun field has => ?_]
  rw [ValueType.rename_congr (same field has)]

theorem rename_id (c : ClassDef) : c.rename id = c := by
  simp [rename, ValueType.rename_id]

theorem rename_rename (first second : String → String) (c : ClassDef) :
    (c.rename first).rename second = c.rename (second ∘ first) := by
  simp [rename, ValueType.rename_rename]

end ClassDef

/-! ## The schema after a round -/

namespace Schema

open ClassList (RefersTo Sound names sameShape_iff)

variable {s : Schema}

/-- The classes that a round keeps, as they were declared. -/
def kept (s : Schema) : List ClassDef := (ClassList.mergeRound [] s.classes).1

/-- What a round makes of the names of classes. -/
def standIn (s : Schema) : String → String :=
  ClassList.standInName (ClassList.mergeRound [] s.classes).2

theorem kept_sublist (s : Schema) : s.kept.Sublist s.classes :=
  ClassList.sublist_mergeRound [] s.classes

theorem pairwise_kept (s : Schema) : s.kept.Pairwise fun c d => ¬ c.sameShape d :=
  ClassList.pairwise_mergeRound .nil

/-- Among the kept classes there is one of each shape. -/
theorem eq_of_sameShape {c d : ClassDef} (hc : c ∈ s.kept) (hd : d ∈ s.kept)
    (same : c.sameShape d) : c = d := by
  by_contra differ
  have : Std.Symm fun c d : ClassDef => ¬ c.sameShape d := by
    refine ⟨fun a b apart => ?_⟩
    rw [sameShape_iff] at apart ⊢
    exact Ne.symm apart
  exact s.pairwise_kept.forall hc hd differ same

/-- A class is replaced by a kept one with its fields. -/
theorem exists_standIn {c : ClassDef} (among : c ∈ s.classes) :
    ∃ k ∈ s.kept, k.name = s.standIn c.name ∧ k.fields = c.fields := by
  obtain ⟨k, first, renamed⟩ := ClassList.standInName_eq [] s.sound.distinctNames among
  have found : s.kept.find? (·.sameShape c) = some k := by
    refine (ClassList.find?_mergeRound ?_).trans first
    refine List.pairwise_of_forall fun a b same eq => ?_
    rw [sameShape_iff] at same eq ⊢
    exact same.trans eq
  have same := List.find?_some found
  exact ⟨k, List.mem_of_find?_eq_some found, renamed.symm, sameShape_iff.mp same⟩

/-- A kept class keeps its name. -/
theorem standIn_kept {k : ClassDef} (among : k ∈ s.kept) : s.standIn k.name = k.name := by
  obtain ⟨other, hOther, named, fields⟩ := exists_standIn (s.kept_sublist.subset among)
  rw [← named, eq_of_sameShape hOther among (sameShape_iff.mpr fields)]

/-- The classes after a round, with their references redirected. -/
def contracted (s : Schema) : List ClassDef := s.kept.map (·.rename s.standIn)

theorem names_contracted (s : Schema) : names s.contracted = names s.kept := by
  simp [names, contracted, ClassDef.rename]

/-- A reference after a round goes back to one of a class whose fields are the same. -/
theorem refersTo_contracted {c : ClassDef} (among : c ∈ s.classes) {target : String}
    (refers : RefersTo s.contracted (s.standIn c.name) target) :
    ∃ name, RefersTo s.classes c.name name ∧ s.standIn name = target := by
  obtain ⟨_, renamed, named, field, has, mentions⟩ := refers
  obtain ⟨k, hk, rfl⟩ := List.mem_map.mp renamed
  obtain ⟨other, hOther, otherNamed, fields⟩ := exists_standIn among
  -- both have the name of the stand-in, and names are unique
  have same : k = other := by
    have found := find?_name (s.kept_sublist.subset hk)
    rw [show k.name = other.name from named.trans otherNamed.symm,
      find?_name (s.kept_sublist.subset hOther)] at found
    exact (Option.some.inj found).symm
  subst same
  obtain ⟨original, hasOriginal, rfl⟩ := List.mem_map.mp has
  obtain ⟨name, inOriginal, eq⟩ := ValueType.mentions_rename mentions
  exact ⟨name, ⟨c, among, rfl, original, fields ▸ hasOriginal, inOriginal⟩, eq⟩

/-- A target of a reference is a declared class. -/
theorem exists_of_refersTo {name target : String} (refers : RefersTo s.classes name target) :
    ∃ c ∈ s.classes, c.name = target := by
  obtain ⟨c, among, _, field, has, mentions⟩ := refers
  exact s.sound.declared c among field has target mentions

/-- Redirecting references closes no cycle: what a redirected chain passes through are stand-ins for
what a chain of the schema passes through. -/
theorem acc_contracted (name : String) :
    ∀ c ∈ s.classes, c.name = name →
      Acc (fun target name => RefersTo s.contracted name target) (s.standIn name) := by
  induction name using s.wellFounded_refersTo.induction with
  | _ name ih =>
    rintro c among rfl
    refine Acc.intro _ fun target refers => ?_
    obtain ⟨original, before, rfl⟩ := refersTo_contracted among refers
    obtain ⟨d, hd, rfl⟩ := exists_of_refersTo before
    exact ih d.name before d hd rfl

theorem wellFounded_contracted (s : Schema) :
    WellFounded fun target name => RefersTo s.contracted name target := by
  -- a name that is no stand-in refers to nothing, so one step leads to `acc_contracted`
  refine ⟨fun name => Acc.intro name fun target refers => ?_⟩
  obtain ⟨c, among, rfl, _⟩ := id refers
  obtain ⟨k, hk, rfl⟩ := List.mem_map.mp among
  have fromStandIn : RefersTo s.contracted (s.standIn k.name) target := by
    rw [standIn_kept hk]
    exact refers
  obtain ⟨original, before, rfl⟩ := refersTo_contracted (s.kept_sublist.subset hk) fromStandIn
  obtain ⟨d, hd, rfl⟩ := exists_of_refersTo before
  exact acc_contracted d.name d hd rfl

/-- What a round leaves is a schema again. -/
theorem sound_contracted (s : Schema) : Sound s.contracted := by
  have back : ∀ c ∈ s.contracted, ∃ k ∈ s.kept, k.rename s.standIn = c := fun c among =>
    List.mem_map.mp among
  have keys : ∀ c : ClassDef, (c.rename s.standIn).fields.map (·.key) = c.fields.map (·.key) := by
    simp [ClassDef.rename]
  refine ⟨?_, ?_, ?_, ?_, ?_, ?_⟩
  · intro c among
    obtain ⟨k, hk, rfl⟩ := back c among
    exact s.sound.named k (s.kept_sublist.subset hk)
  · intro c among field has
    obtain ⟨k, hk, rfl⟩ := back c among
    obtain ⟨original, hasOriginal, rfl⟩ := List.mem_map.mp has
    exact s.sound.keyed k (s.kept_sublist.subset hk) original hasOriginal
  · intro c among
    obtain ⟨k, hk, rfl⟩ := back c among
    rw [keys]
    exact s.sound.distinctKeys k (s.kept_sublist.subset hk)
  · rw [names_contracted]
    exact s.sound.distinctNames.sublist (s.kept_sublist.map _)
  · intro c among field has target mentions
    obtain ⟨k, hk, rfl⟩ := back c among
    -- a reference of a kept class led to a class before, and that class has a stand-in
    have refers : RefersTo s.contracted (s.standIn k.name) target :=
      ⟨_, among, (standIn_kept hk).symm, field, has, mentions⟩
    obtain ⟨name, before, rfl⟩ := refersTo_contracted (s.kept_sublist.subset hk) refers
    obtain ⟨d, hd, rfl⟩ := exists_of_refersTo before
    obtain ⟨other, hOther, named, _⟩ := exists_standIn hd
    exact ⟨_, List.mem_map_of_mem hOther, named⟩
  · exact Digraph.not_transGen_self s.wellFounded_contracted

/-- The schema after one round of merging. -/
def round (s : Schema) : Schema where
  classes := s.contracted
  faultless := ClassList.fault?_eq_none_iff.mpr s.sound_contracted

/-- A round changes the names in a class and not what it unfolds into. -/
theorem unfolding_round (name : String) :
    ∀ c ∈ s.classes, c.name = name → s.round.unfolding (s.standIn name) = s.unfolding name := by
  induction name using s.wellFounded_refersTo.induction with
  | _ name ih =>
    rintro c among rfl
    obtain ⟨k, hk, named, fields⟩ := exists_standIn among
    have kept : k.rename s.standIn ∈ s.round.classes := List.mem_map_of_mem hk
    calc s.round.unfolding (s.standIn c.name)
        = s.round.unfolding (k.rename s.standIn).name := by rw [← named]; rfl
      _ = .ofFields s.round.unfolding (k.rename s.standIn).fields := unfolding_name kept
      _ = .ofFields (s.round.unfolding ∘ s.standIn) c.fields := by
          rw [UnfoldedFields.ofFields_rename, fields]
      _ = .ofFields s.unfolding c.fields := by
          refine UnfoldedFields.ofFields_congr fun field has target mentions => ?_
          obtain ⟨d, hd, rfl⟩ := s.sound.declared c among field has target mentions
          exact ih d.name ⟨c, among, rfl, field, has, mentions⟩ d hd rfl
      _ = s.unfolding c.name := (unfolding_name among).symm

/-- A kept class unfolds after the round as it did before. -/
theorem unfolding_kept {k : ClassDef} (among : k ∈ s.kept) :
    s.round.unfolding k.name = s.unfolding k.name := by
  have same := unfolding_round k.name k (s.kept_sublist.subset among) rfl
  rwa [standIn_kept among] at same

/-! ## The quotient -/

/-- The first declared class that unfolds like the class of that name. -/
def first? (s : Schema) (name : String) : Option ClassDef :=
  s.classes.find? fun c => s.unfolding c.name = s.unfolding name

/-- The name of the first declared class that unfolds like the class of that name. -/
def representative (s : Schema) (name : String) : String :=
  ((s.first? name).map (·.name)).getD name

/-- The first classes of all groups of classes that unfold alike, in the order of declaration, with
references to the first classes of their groups. -/
def quotient (s : Schema) : List ClassDef :=
  (s.classes.filter fun c => s.representative c.name = c.name).map (·.rename s.representative)

/-- The representative of a class comes before all other classes that unfold like it. -/
theorem exists_first {c : ClassDef} (among : c ∈ s.classes) :
    ∃ before first after, s.classes = before ++ first :: after ∧
      first.name = s.representative c.name ∧ s.unfolding first.name = s.unfolding c.name ∧
      ∀ d ∈ before, s.unfolding d.name ≠ s.unfolding c.name := by
  cases found : s.first? c.name with
  | none => simpa using List.find?_eq_none.mp found c among
  | some first =>
      obtain ⟨same, before, after, eq, earlier⟩ := List.find?_eq_some_iff_append.mp found
      refine ⟨before, first, after, eq, ?_, of_decide_eq_true same, ?_⟩
      · rw [representative, found]
        rfl
      · intro d hd
        simpa using earlier d hd

/-- Classes have one representative exactly if they unfold alike. -/
theorem representative_eq_iff {c d : ClassDef} (hc : c ∈ s.classes) (hd : d ∈ s.classes) :
    s.representative c.name = s.representative d.name ↔
      s.unfolding c.name = s.unfolding d.name := by
  constructor
  · intro eq
    obtain ⟨_, first, _, _, firstNamed, firstSame, _⟩ := exists_first hc
    obtain ⟨_, second, _, _, secondNamed, secondSame, _⟩ := exists_first hd
    rw [← firstSame, ← secondSame, firstNamed, secondNamed, eq]
  · intro eq
    obtain ⟨_, first, _, _, firstNamed, _, _⟩ := exists_first hc
    have found : s.first? c.name = s.first? d.name := by rw [first?, first?, eq]
    cases one : s.first? d.name with
    | none => simpa using List.find?_eq_none.mp one d hd
    | some k => rw [representative, representative, found, one, Option.map_some, Option.getD_some,
        Option.getD_some]

/-- A search by unfolding finds the same class before and after a round. -/
theorem find?_kept (s : Schema) (fields : UnfoldedFields) :
    s.kept.find? (fun k => s.unfolding k.name = fields) =
      s.classes.find? fun c => s.unfolding c.name = fields := by
  refine ClassList.find?_mergeRound (List.pairwise_iff_forall_sublist.mpr ?_)
  intro k c order same wanted
  have hk : k ∈ s.classes := order.subset List.mem_cons_self
  have hc : c ∈ s.classes := order.subset (List.mem_cons_of_mem _ List.mem_cons_self)
  rw [decide_eq_true_eq] at wanted ⊢
  exact (unfolding_eq_of_sameShape hk hc same).trans wanted

theorem representative_round {c : ClassDef} (among : c ∈ s.classes) :
    s.round.representative (s.standIn c.name) = s.representative c.name := by
  have found : s.round.first? (s.standIn c.name) =
      (s.first? c.name).map (·.rename s.standIn) := by
    rw [first?, first?, ← s.find?_kept, unfolding_round c.name c among rfl]
    show (s.kept.map _).find? _ = _
    rw [List.find?_map, List.find?_congr fun k hk => ?_]
    show decide (s.round.unfolding k.name = _) = _
    rw [unfolding_kept hk]
  rw [representative, representative, found]
  cases one : s.first? c.name with
  | none => simpa using List.find?_eq_none.mp one c among
  | some k => rfl

/-- Of two classes of one shape the later one represents no group. -/
theorem pairwise_represented (s : Schema) :
    s.classes.Pairwise fun k c => k.sameShape c →
      decide (s.representative c.name = c.name) = false := by
  refine List.pairwise_iff_forall_sublist.mpr fun {k c} order same => ?_
  rw [decide_eq_false_iff_not]
  intro own
  have hk : k ∈ s.classes := order.subset List.mem_cons_self
  have hc : c ∈ s.classes := order.subset (List.mem_cons_of_mem _ List.mem_cons_self)
  obtain ⟨before, first, after, eq, named, _, earlier⟩ := exists_first hc
  obtain rfl : first = c := by
    have found := find?_name hc
    rw [← own, ← named, find?_name (eq ▸ by simp)] at found
    exact Option.some.inj found
  -- `c` is the first of its group, yet `k`, which unfolds like `c`, comes before it
  obtain ⟨inBefore, inAfter, split, orderBefore, orderAfter⟩ :=
    List.sublist_append_iff.mp (eq ▸ order)
  cases inBefore with
  | nil =>
      obtain rfl : [k, first] = inAfter := split
      have twice : first ∈ after := List.singleton_sublist.mp orderAfter.tail
      have distinct := s.sound.distinctNames
      rw [eq, names, List.map_append, List.map_cons] at distinct
      exact (List.nodup_cons.mp (List.Nodup.of_append_right distinct)).1 (List.mem_map_of_mem twice)
  | cons d inBefore =>
      obtain rfl : k = d := (List.cons.inj split).1
      exact earlier k (orderBefore.subset List.mem_cons_self) (unfolding_eq_of_sameShape hk hc same)

/-- A round of merging does not change the quotient. -/
theorem quotient_round (s : Schema) : s.round.quotient = s.quotient := by
  have represented : ∀ k ∈ s.kept, s.round.representative k.name = s.representative k.name := by
    intro k hk
    have same := representative_round (s.kept_sublist.subset hk)
    rwa [standIn_kept hk] at same
  -- the same classes are taken, and two renamings in a row are the one that the quotient makes
  calc s.round.quotient
      = (s.kept.filter fun k => s.round.representative k.name = k.name).map fun k =>
          (k.rename s.standIn).rename s.round.representative := by
        rw [quotient]
        show ((s.kept.map _).filter _).map _ = _
        rw [List.filter_map, List.map_map]
        rfl
    _ = (s.kept.filter fun k => s.representative k.name = k.name).map fun k =>
          (k.rename s.standIn).rename s.round.representative := by
        rw [List.filter_congr fun k hk => ?_]
        rw [represented k hk]
    _ = (s.classes.filter fun k => s.representative k.name = k.name).map fun k =>
          (k.rename s.standIn).rename s.round.representative := by
        rw [kept, ClassList.filter_mergeRound s.pairwise_represented, List.nil_append]
    _ = s.quotient := by
        refine List.map_congr_left fun k hk => ?_
        rw [ClassDef.rename_rename]
        refine ClassDef.rename_congr fun field has name mentions => ?_
        have among : k ∈ s.classes := (List.mem_filter.mp hk).1
        obtain ⟨d, hd, rfl⟩ := s.sound.declared k among field has name mentions
        exact representative_round hd

/-! ## All rounds -/

/-- A round that finds nothing keeps every class. -/
theorem kept_of_settled (settled : (ClassList.mergeRound [] s.classes).2 = []) :
    s.kept = s.classes := by
  refine s.kept_sublist.eq_of_length ?_
  have total := ClassList.length_mergeRound [] s.classes
  rw [settled] at total
  simpa [kept] using total

/-- Where nothing is left to merge, no two classes have the same shape. -/
theorem eq_of_sameShape_of_settled (settled : (ClassList.mergeRound [] s.classes).2 = [])
    {c d : ClassDef} (hc : c ∈ s.classes) (hd : d ∈ s.classes) (same : c.sameShape d) : c = d := by
  have all := kept_of_settled settled
  exact eq_of_sameShape (all ▸ hc) (all ▸ hd) same

/-- Where nothing is left to merge, every class represents itself. -/
theorem representative_of_settled (settled : (ClassList.mergeRound [] s.classes).2 = [])
    {c : ClassDef} (among : c ∈ s.classes) : s.representative c.name = c.name := by
  obtain ⟨before, first, after, eq, named, same, _⟩ := exists_first among
  rw [← named]
  refine eq_of_unfolding_eq (fun c hc d hd => eq_of_sameShape_of_settled settled hc hd) first.name
    c.name ⟨first, eq ▸ by simp, rfl⟩ ⟨c, among, rfl⟩ same

theorem quotient_of_settled (settled : (ClassList.mergeRound [] s.classes).2 = []) :
    s.quotient = s.classes := by
  have all : (s.classes.filter fun c => s.representative c.name = c.name) = s.classes :=
    List.filter_eq_self.mpr fun c among =>
      decide_eq_true (representative_of_settled settled among)
  rw [quotient, all]
  refine (List.map_congr_left fun c among => ?_).trans (List.map_id _)
  refine (ClassDef.rename_congr fun field has name mentions => ?_).trans c.rename_id
  obtain ⟨d, hd, rfl⟩ := s.sound.declared c among field has name mentions
  exact representative_of_settled settled hd

/-- Where nothing is left to merge, no further round is made. -/
theorem mergeByShape_of_settled (settled : (ClassList.mergeRound [] s.classes).2 = []) :
    ClassList.mergeByShape s.classes = s.classes := by
  rw [ClassList.mergeByShape]
  split
  · rfl
  · next found => rw [found] at settled; cases settled

/-- Otherwise merging goes on with what the round has left. -/
theorem mergeByShape_round (unsettled : (ClassList.mergeRound [] s.classes).2 ≠ []) :
    ClassList.mergeByShape s.classes = ClassList.mergeByShape s.round.classes := by
  rw [ClassList.mergeByShape]
  split
  · next found => rw [found] at unsettled; exact absurd rfl unsettled
  · next kept entry rest found =>
    show _ = ClassList.mergeByShape s.contracted
    rw [contracted, Schema.kept, standIn, found]

/-- A round that finds something leaves fewer classes. -/
theorem length_round_lt (unsettled : (ClassList.mergeRound [] s.classes).2 ≠ []) :
    s.round.classes.length < s.classes.length := by
  have total := ClassList.length_mergeRound [] s.classes
  have some := List.length_pos_iff.mpr unsettled
  show (s.kept.map _).length < _
  simp only [List.length_map, List.length_nil, kept] at total ⊢
  omega

/-- The rounds end in a schema that has nothing to merge.  Its classes are the quotient of the
schema that they started from, unfold as they did there, and have the fields that they had there up
to the names of classes. -/
theorem exists_settled (s : Schema) :
    ∃ r : Schema, ClassList.mergeByShape s.classes = r.classes ∧ r.classes = s.quotient ∧
      (ClassList.mergeRound [] r.classes).2 = [] ∧
      (∀ c ∈ s.classes, r.unfolding (s.representative c.name) = s.unfolding c.name) ∧
      ∀ c ∈ s.classes, ∃ d ∈ r.classes, ∃ newName, d.fields = (c.rename newName).fields := by
  by_cases settled : (ClassList.mergeRound [] s.classes).2 = []
  · refine ⟨s, mergeByShape_of_settled settled, (quotient_of_settled settled).symm, settled, ?_, ?_⟩
    · intro c among
      rw [representative_of_settled settled among]
    · intro c among
      exact ⟨c, among, id, by rw [c.rename_id]⟩
  · have fewer := length_round_lt settled
    obtain ⟨r, eq, quotient, settledAfter, unfolds, keeps⟩ := exists_settled s.round
    refine ⟨r, (mergeByShape_round settled).trans eq, quotient.trans s.quotient_round, settledAfter,
      ?_, ?_⟩
    -- a class stands in the round as its stand-in, which has its fields and its unfolding
    · intro c among
      obtain ⟨k, hk, named, _⟩ := exists_standIn among
      have same := unfolds (k.rename s.standIn) (List.mem_map_of_mem hk)
      rw [show (k.rename s.standIn).name = s.standIn c.name from named,
        representative_round among, unfolding_round c.name c among rfl] at same
      exact same
    · intro c among
      obtain ⟨k, hk, _, fields⟩ := exists_standIn among
      obtain ⟨d, hd, newName, same⟩ := keeps (k.rename s.standIn) (List.mem_map_of_mem hk)
      refine ⟨d, hd, newName ∘ s.standIn, ?_⟩
      rw [same, ClassDef.rename_rename]
      exact congrArg (List.map _) fields
termination_by s.classes.length

theorem merged_byShape_of_eq {r : Schema} (eq : ClassList.mergeByShape s.classes = r.classes) :
    s.merged .byShape = .ok r := by
  rw [merged, eq]
  exact ofClasses_eq_ok_iff.mpr rfl

/-- Merging does not fail, and up to the names of classes it neither loses the fields of a class nor
makes up new ones. -/
theorem exists_merged (s : Schema) (policy : MergePolicy) :
    ∃ m, s.merged policy = .ok m ∧
      (∀ c ∈ s.classes, ∃ d ∈ m.classes, ∃ newName, d.fields = (c.rename newName).fields) ∧
      ∀ d ∈ m.classes, ∃ c ∈ s.classes, ∃ newName, d = c.rename newName := by
  cases policy with
  | byPath =>
      refine ⟨s, rfl, fun c among => ⟨c, among, id, ?_⟩, fun d among => ⟨d, among, id, ?_⟩⟩
      · rw [c.rename_id]
      · rw [d.rename_id]
  | byShape =>
      obtain ⟨r, eq, quotient, _, _, keeps⟩ := s.exists_settled
      refine ⟨r, merged_byShape_of_eq eq, keeps, fun d among => ?_⟩
      rw [quotient] at among
      obtain ⟨c, hc, rfl⟩ := List.mem_map.mp among
      exact ⟨c, (List.mem_filter.mp hc).1, s.representative, rfl⟩

/-- Merging by shape does not fail.  It leaves the first declared class of each group of classes
that unfold alike, in the order of declaration, with the references redirected to the first classes
of their groups; what the classes unfold into stays.  No two classes of the result have the same
shape, and merging it again changes nothing. -/
theorem merged_byShape_is_quotient (s : Schema) :
    ∃ r, s.merged .byShape = .ok r ∧ r.classes = s.quotient ∧
      (∀ c ∈ s.classes, ∃ before first after, s.classes = before ++ first :: after ∧
        first.name = s.representative c.name ∧ s.unfolding first.name = s.unfolding c.name ∧
        ∀ d ∈ before, s.unfolding d.name ≠ s.unfolding c.name) ∧
      (∀ c ∈ s.classes, r.unfolding (s.representative c.name) = s.unfolding c.name) ∧
      (∀ c ∈ s.classes, ∀ d ∈ s.classes,
        s.representative c.name = s.representative d.name ↔
          s.unfolding c.name = s.unfolding d.name) ∧
      (r.classes.Pairwise fun c d => ¬ c.sameShape d) ∧
      r.merged .byShape = .ok r := by
  obtain ⟨r, eq, quotient, settled, unfolds, _⟩ := s.exists_settled
  have apart : r.classes.Pairwise fun c d => ¬ c.sameShape d := by
    rw [← kept_of_settled settled]
    exact r.pairwise_kept
  refine ⟨r, merged_byShape_of_eq eq, quotient, fun c among => exists_first among, unfolds, ?_,
    apart, merged_byShape_of_eq (mergeByShape_of_settled settled)⟩
  intro c hc d hd
  exact representative_eq_iff hc hd

/-- Two wrappers of two equal classes, under one root that refers to both wrappers. -/
def wrappers : Schema where
  classes := [⟨"Root", [⟨"left", .reference "Left"⟩, ⟨"right", .reference "Right"⟩]⟩,
    ⟨"Left", [⟨"inner", .array (.reference "LeftInner")⟩]⟩,
    ⟨"Right", [⟨"inner", .array (.reference "RightInner")⟩]⟩,
    ⟨"LeftInner", [⟨"id", .integer⟩]⟩, ⟨"RightInner", [⟨"id", .integer⟩]⟩]
  faultless := ClassList.fault?_eq_none.mpr ⟨by decide, by decide, by cbv⟩

/-- The two wrappers merge although their own fields name different classes. -/
theorem merged_wrappers :
    (∃ c ∈ wrappers.classes, c.name = "Right") ∧
      ∃ r, wrappers.merged .byShape = .ok r ∧ r.unfolding "Left" = wrappers.unfolding "Right" := by
  have among : (⟨"Right", [⟨"inner", .array (.reference "RightInner")⟩]⟩ : ClassDef) ∈
      wrappers.classes := by decide
  have first : wrappers.representative "Right" = "Left" := by cbv
  obtain ⟨r, ok, _, _, unfolds, _⟩ := merged_byShape_is_quotient wrappers
  refine ⟨⟨_, among, rfl⟩, r, ok, ?_⟩
  rw [← first]
  exact unfolds _ among

end Schema

end Classwright
