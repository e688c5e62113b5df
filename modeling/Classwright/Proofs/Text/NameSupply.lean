/-
# Classwright.Proofs.Text.NameSupply — names that are handed out differ

A name that is handed out is the one that was asked for or has a number behind it (`IsVariant`), and
it was free until then.  Names handed out in a row are therefore all different, and requests that
come later leave the earlier names alone.
-/

import Mathlib.Data.List.Basic
import Mathlib.Data.List.Forall2
import Mathlib.Data.List.Nodup
import Classwright.Text.NameSupply

namespace Classwright.Text

/-! ## Numbers behind names -/

/-- The name is the base, or the base with a number from 2 on behind it. -/
def IsVariant (base name : String) : Prop :=
  name = base ∨ ∃ number, 2 ≤ number ∧ name = base ++ Nat.repr number

theorem numbered_inj {base : String} {m n : Nat} :
    base ++ Nat.repr m = base ++ Nat.repr n ↔ m = n := by
  rw [← String.toList_inj, String.toList_append, String.toList_append, List.append_cancel_left_eq,
    Nat.toList_repr, Nat.toList_repr]
  refine ⟨fun same => ?_, congrArg _⟩
  simpa using congrArg (fun digits => Nat.ofDigitChars 10 digits 0) same

namespace IsVariant

variable {base name : String}

/-- Only digits come behind the base. -/
theorem exists_digits (variant : IsVariant base name) :
    ∃ digits : List Char, name.toList = base.toList ++ digits ∧ ∀ c ∈ digits, c.isDigit := by
  obtain rfl | ⟨number, _, rfl⟩ := variant
  · exact ⟨[], by simp, by simp⟩
  · refine ⟨(Nat.repr number).toList, String.toList_append, fun c among => ?_⟩
    rw [Nat.toList_repr] at among
    exact Nat.isDigit_of_mem_toDigits (by decide) (by decide) among

/-- Either nothing comes behind the base or the name ends in a digit. -/
theorem eq_or_isDigit_getLast (variant : IsVariant base name) :
    name = base ∨ ∃ c ∈ name.toList.getLast?, c.isDigit := by
  obtain ⟨digits, eq, all⟩ := variant.exists_digits
  rcases List.eq_nil_or_concat digits with rfl | ⟨front, last, rfl⟩
  · exact .inl (String.toList_inj.mp (by simpa using eq))
  · refine .inr ⟨last, ?_, all last (by simp)⟩
    rw [eq, List.concat_eq_append, ← List.append_assoc, List.getLast?_concat]
    rfl

end IsVariant

namespace NameSupply

variable {base : String} {taken : List String} {supply : NameSupply}

/-! ## One name -/

/-- The number that is found is the least that makes the name free. -/
theorem firstFree_spec (base : String) (taken : List String) (start : Nat) :
    ∃ number, start ≤ number ∧ firstFree base taken start = base ++ Nat.repr number ∧
      base ++ Nat.repr number ∉ taken ∧
      ∀ lower, start ≤ lower → lower < number → base ++ Nat.repr lower ∈ taken := by
  rw [firstFree]
  split
  · next used =>
    obtain ⟨number, from', eq, free, below⟩ :=
      firstFree_spec base (taken.erase (base ++ Nat.repr start)) (start + 1)
    -- the name that was dropped from the copy has another number than all those that follow
    refine ⟨number, by omega, eq, fun among => free ?_, fun lower least less => ?_⟩
    · exact (List.mem_erase_of_ne fun same => by have := numbered_inj.mp same; omega).mpr among
    · rcases Nat.eq_or_lt_of_le least with rfl | beyond
      · exact used
      · exact List.mem_of_mem_erase (below lower beyond less)
  · next free => exact ⟨start, Nat.le_refl _, rfl, free, fun lower least less => by omega⟩
termination_by taken.length
decreasing_by
  rw [List.length_erase_of_mem (by assumption)]
  exact Nat.sub_lt (List.length_pos_of_mem (by assumption)) (by decide)

/-- A name is free until it is handed out. -/
theorem pick_notMem (base : String) (supply : NameSupply) : supply.pick base ∉ supply.taken := by
  unfold pick
  split
  · obtain ⟨number, _, eq, free, _⟩ := firstFree_spec base supply.taken 2
    rw [eq]
    exact free
  · assumption

theorem isVariant_pick (base : String) (supply : NameSupply) :
    IsVariant base (supply.pick base) := by
  unfold pick
  split
  · obtain ⟨number, least, eq, _⟩ := firstFree_spec base supply.taken 2
    exact .inr ⟨number, least, eq⟩
  · exact .inl rfl

/-! ## Names in a row -/

theorem issueAll_append (bases others : List String) (supply : NameSupply) :
    supply.issueAll (bases ++ others) =
      ((supply.issueAll bases).1 ++ ((supply.issueAll bases).2.issueAll others).1,
        ((supply.issueAll bases).2.issueAll others).2) := by
  induction bases generalizing supply with
  | nil => rfl
  | cons base bases ih =>
      rw [List.cons_append, issueAll, ih]
      rfl

/-- Every request gets a name of its own. -/
theorem forall₂_issueAll (bases : List String) (supply : NameSupply) :
    List.Forall₂ IsVariant bases (supply.issueAll bases).1 := by
  induction bases generalizing supply with
  | nil => exact .nil
  | cons base bases ih => exact .cons (isVariant_pick base supply) (ih _)

/-- As many names are handed out as are asked for. -/
theorem length_issueAll (bases : List String) (supply : NameSupply) :
    (supply.issueAll bases).1.length = bases.length :=
  (forall₂_issueAll bases supply).length_eq.symm

/-- No name is handed out that was taken. -/
theorem notMem_taken_of_mem_issueAll {bases : List String} {supply : NameSupply} {name : String}
    (issued : name ∈ (supply.issueAll bases).1) : name ∉ supply.taken := by
  induction bases generalizing supply with
  | nil => cases issued
  | cons base bases ih =>
      rcases List.mem_cons.mp issued with rfl | later
      · exact pick_notMem base supply
      · exact fun before => ih later (List.mem_cons_of_mem _ before)

/-- No name is handed out twice. -/
theorem nodup_issueAll (bases : List String) (supply : NameSupply) :
    (supply.issueAll bases).1.Nodup := by
  induction bases generalizing supply with
  | nil => exact List.nodup_nil
  | cons base bases ih =>
      refine List.nodup_cons.mpr ⟨fun again => ?_, ih _⟩
      exact notMem_taken_of_mem_issueAll again List.mem_cons_self

/-- A name that is free is handed out if it is asked for. -/
theorem mem_issueAll {bases : List String} {supply : NameSupply} {name : String}
    (asked : name ∈ bases) (free : name ∉ supply.taken) : name ∈ (supply.issueAll bases).1 := by
  induction bases generalizing supply with
  | nil => cases asked
  | cons base bases ih =>
      rw [issueAll, List.mem_cons]
      by_cases first : name = supply.pick base
      · exact .inl first
      · rcases List.mem_cons.mp asked with rfl | later
        · exact absurd (if_neg free).symm first
        · refine .inr (ih later fun taken => ?_)
          exact (List.mem_cons.mp taken).elim first free

end NameSupply

end Classwright.Text
