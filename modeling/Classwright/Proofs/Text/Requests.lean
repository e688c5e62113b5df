/-
# Classwright.Proofs.Text.Requests — what a supply answers, whatever it was asked before

Names may be reserved and asked for in any order, and a name with a number behind it may be asked for
itself later.  What a supply answers is told from the calls and answers before alone: every name in
them is spent, and a request gets the first name for it that is not (`IsFirstFree`).  Nothing is
said there of what the supply remembers; that it remembers exactly the spent names is what each call
preserves (`mem_taken_run_iff`).

The number is found by trying one after the other.  The spent names that are tried in vain are all
different, so there are no more tries than spent names, and the search ends (`IsFirstFree.search_eq`).
-/

import Mathlib
import Classwright.Proofs.Text.NameSupply

namespace Classwright.Text.NameSupply

/-! ## Runs -/

/-- What a supply may be called for. -/
inductive Call where
  /-- Take names without handing them out. -/
  | reserve (names : List String)
  /-- Ask for a name. -/
  | issue (base : String)
  deriving DecidableEq, Repr

/-- The names that a call reserves. -/
def Call.reserved : Call → List String
  | .reserve names => names
  | .issue _ => []

/-- The answer to a call, and the supply after it.  Only requests are answered by a name. -/
def answer (supply : NameSupply) : Call → Option String × NameSupply
  | .reserve names => (none, supply.reserve names)
  | .issue base => ((supply.issue base).1, (supply.issue base).2)

/-- The answers to calls in turn, and the supply after them. -/
def run (supply : NameSupply) : List Call → List (Option String) × NameSupply
  | [] => ([], supply)
  | call :: calls =>
    let first := supply.answer call
    let others := run first.2 calls
    (first.1 :: others.1, others.2)

/-- The answers of a new supply. -/
def answers (calls : List Call) : List (Option String) := (empty.run calls).1

/-- The names that were reserved by the calls or handed out in answer to them. -/
def spent (calls : List Call) : List String :=
  calls.flatMap Call.reserved ++ (answers calls).reduceOption

/-! ## The first free name -/

/-- The name is the base if that is not known, and else the base with the least number from 2 on
behind it that makes a name that is not. -/
inductive IsFirstFree (known : List String) (base : String) : String → Prop
  | asked (free : base ∉ known) : IsFirstFree known base base
  | numbered {number : Nat} (used : base ∈ known) (least : 2 ≤ number)
      (free : base ++ Nat.repr number ∉ known)
      (below : ∀ lower, 2 ≤ lower → lower < number → base ++ Nat.repr lower ∈ known) :
      IsFirstFree known base (base ++ Nat.repr number)

/-- Try one number after the other, and give up after so many of them. -/
def tryNumbers (known : List String) (base : String) : Nat → Nat → Option String
  | 0, _ => none
  | tries + 1, number =>
    if base ++ Nat.repr number ∈ known then tryNumbers known base tries (number + 1)
    else some (base ++ Nat.repr number)

/-- Try the base itself and then so many numbers from 2 on. -/
def search (known : List String) (base : String) (tries : Nat) : Option String :=
  if base ∈ known then tryNumbers known base tries 2 else some base

variable {known others : List String} {base name : String} {number : Nat}

theorem tryNumbers_eq (free : base ++ Nat.repr number ∉ known) {start tries : Nat}
    (below : ∀ lower, start ≤ lower → lower < number → base ++ Nat.repr lower ∈ known)
    (least : start ≤ number) (enough : number < start + tries) :
    tryNumbers known base tries start = some (base ++ Nat.repr number) := by
  induction tries generalizing start with
  | zero => omega
  | succ tries ih =>
      rw [tryNumbers]
      rcases Nat.eq_or_lt_of_le least with rfl | further
      · exact if_neg free
      · rw [if_pos (below start (Nat.le_refl _) further)]
        exact ih (fun lower from_ => below lower (by omega)) further (by omega)

/-- A number makes another name of the base. -/
theorem numbered_ne (base : String) (number : Nat) : base ++ Nat.repr number ≠ base := by
  intro same
  have lengths := congrArg String.length same
  have some : 0 < (Nat.repr number).length := by
    rw [← String.length_toList, Nat.toList_repr]
    exact Nat.length_toDigits_pos
  rw [String.length_append] at lengths
  omega

/-- The base and the names that are tried in vain are different names, all of them known. -/
theorem number_le_length_add_one (used : base ∈ known)
    (below : ∀ lower, 2 ≤ lower → lower < number → base ++ Nat.repr lower ∈ known) :
    number ≤ known.length + 1 := by
  have different : (base :: (List.range' 2 (number - 2)).map (base ++ Nat.repr ·)).Nodup := by
    refine List.nodup_cons.mpr ⟨fun again => ?_, ?_⟩
    · obtain ⟨lower, _, same⟩ := List.mem_map.mp again
      exact numbered_ne base lower same
    · exact List.Nodup.map (fun _ _ => numbered_inj.mp) List.nodup_range'
  have inside : base :: (List.range' 2 (number - 2)).map (base ++ Nat.repr ·) ⊆ known := by
    refine List.cons_subset.mpr ⟨used, fun other among => ?_⟩
    obtain ⟨lower, range, rfl⟩ := List.mem_map.mp among
    rw [List.mem_range'_1] at range
    exact below lower range.1 (by omega)
  have fewer := (different.subperm inside).length_le
  rw [List.length_cons, List.length_map, List.length_range'] at fewer
  omega

namespace IsFirstFree

/-- It does not matter how the known names are listed. -/
theorem congr (first : IsFirstFree known base name) (same : ∀ other, other ∈ known ↔ other ∈ others) :
    IsFirstFree others base name := by
  cases first with
  | asked free => exact .asked ((same _).not.mp free)
  | numbered used least free below =>
      exact .numbered ((same _).mp used) least ((same _).not.mp free)
        fun lower from_ less => (same _).mp (below lower from_ less)

/-- As many tries as there are known names are enough. -/
theorem search_eq (first : IsFirstFree known base name) {tries : Nat}
    (enough : known.length ≤ tries) : search known base tries = some name := by
  cases first with
  | asked free => exact if_neg free
  | numbered used least free below =>
      have bound := number_le_length_add_one used below
      rw [search, if_pos used]
      exact tryNumbers_eq free below least (by omega)

end IsFirstFree

/-! ## What a call preserves -/

theorem isFirstFree_pick (base : String) (supply : NameSupply) :
    IsFirstFree supply.taken base (supply.pick base) := by
  unfold pick
  split
  · next used =>
    obtain ⟨number, least, eq, free, below⟩ := firstFree_spec base supply.taken 2
    rw [eq]
    exact .numbered used least free below
  · next free => exact .asked free

/-- The number behind a name is at most one more than the number of names that are taken.  A counter
of 31 bits is therefore enough as long as those are fewer than `2 ^ 31 - 1`. -/
theorem pick_eq_or_numbered (base : String) (supply : NameSupply) :
    supply.pick base = base ∨
      ∃ number, 2 ≤ number ∧ number ≤ supply.taken.length + 1 ∧
        supply.pick base = base ++ Nat.repr number := by
  have first := isFirstFree_pick base supply
  generalize supply.pick base = name at first ⊢
  cases first with
  | asked free => exact .inl rfl
  | numbered used least free below =>
      exact .inr ⟨_, least, number_le_length_add_one used below, rfl⟩

variable {supply : NameSupply} {call : Call} {calls : List Call}

/-- A call takes what it reserves and what it is answered, and gives nothing back. -/
theorem mem_taken_answer_iff :
    name ∈ (supply.answer call).2.taken ↔
      name ∈ call.reserved ∨ (supply.answer call).1 = some name ∨ name ∈ supply.taken := by
  cases call with
  | reserve names => simp [answer, reserve, Call.reserved]
  | issue base => simp [answer, issue, Call.reserved, eq_comm]

/-- No call is answered by a name that was taken. -/
theorem notMem_taken_of_answer (answered : (supply.answer call).1 = some name) :
    name ∉ supply.taken := by
  cases call with
  | reserve names => cases answered
  | issue base =>
      cases answered
      exact pick_notMem base supply

/-! ## Whole runs -/

theorem run_append (supply : NameSupply) (calls others : List Call) :
    supply.run (calls ++ others) =
      ((supply.run calls).1 ++ ((supply.run calls).2.run others).1,
        ((supply.run calls).2.run others).2) := by
  induction calls generalizing supply with
  | nil => rfl
  | cons call calls ih =>
      rw [List.cons_append, run, ih]
      rfl

theorem length_run (supply : NameSupply) (calls : List Call) :
    (supply.run calls).1.length = calls.length := by
  induction calls generalizing supply with
  | nil => rfl
  | cons call calls ih => exact congrArg (· + 1) (ih _)

/-- After a run those names are taken that were before, that were reserved and that were handed
out. -/
theorem mem_taken_run_iff :
    name ∈ (supply.run calls).2.taken ↔
      name ∈ calls.flatMap Call.reserved ∨ some name ∈ (supply.run calls).1 ∨
        name ∈ supply.taken := by
  induction calls generalizing supply with
  | nil => simp [run]
  | cons call calls ih =>
      rw [run, ih, mem_taken_answer_iff, List.flatMap_cons, List.mem_append, List.mem_cons]
      tauto

/-- No name is handed out that was taken before the run. -/
theorem notMem_taken_of_mem_run (answered : some name ∈ (supply.run calls).1) :
    name ∉ supply.taken := by
  induction calls generalizing supply with
  | nil => cases answered
  | cons call calls ih =>
      rcases List.mem_cons.mp answered with first | later
      · exact notMem_taken_of_answer first.symm
      · exact fun before => ih later (mem_taken_answer_iff.mpr (.inr (.inr before)))

/-- No name is handed out twice in a run. -/
theorem nodup_reduceOption_run : (supply.run calls).1.reduceOption.Nodup := by
  induction calls generalizing supply with
  | nil => exact List.nodup_nil
  | cons call calls ih =>
      rw [run]
      cases first : (supply.answer call).1 with
      | none => exact ih
      | some name =>
          refine List.nodup_cons.mpr ⟨fun again => ?_, ih⟩
          -- the name is taken when the other calls begin
          have again := List.reduceOption_mem_iff.mp again
          exact notMem_taken_of_mem_run again (mem_taken_answer_iff.mpr (.inr (.inl first)))

theorem mem_spent_iff : name ∈ spent calls ↔ name ∈ (empty.run calls).2.taken := by
  rw [mem_taken_run_iff, spent, List.mem_append, List.reduceOption_mem_iff, answers]
  simp [empty]

/-- Calls that come later leave the earlier answers alone. -/
theorem answers_append (before after : List Call) :
    answers (before ++ after) = answers before ++ ((empty.run before).2.run after).1 := by
  rw [answers, run_append]
  rfl

/-- Whatever a new supply is called for, every call is answered, and a request by the first name for
it that was neither reserved nor handed out before.  The search for that name ends after as many
tries as there are names that were, if not earlier.  So no name is handed out twice, nor after it was
reserved. -/
theorem requests_get_first_free (calls : List Call) :
    (answers calls).length = calls.length ∧
    (∀ before base after, calls = before ++ .issue base :: after →
      ∃ name later, answers calls = answers before ++ some name :: later ∧
        IsFirstFree (spent before) base name ∧
        ∀ tries, (spent before).length ≤ tries → search (spent before) base tries = some name) ∧
    (answers calls).reduceOption.Nodup ∧
    ∀ before after, calls = before ++ after → ∃ later, answers calls = answers before ++ later ∧
      ∀ name ∈ before.flatMap Call.reserved, some name ∉ later := by
  refine ⟨length_run _ _, ?_, nodup_reduceOption_run, ?_⟩
  · rintro before base after rfl
    have first : IsFirstFree (spent before) base ((empty.run before).2.pick base) :=
      (isFirstFree_pick base (empty.run before).2).congr fun _ => mem_spent_iff.symm
    exact ⟨_, (((empty.run before).2.answer (.issue base)).2.run after).1,
      answers_append before (.issue base :: after), first, fun _ => first.search_eq⟩
  · rintro before after rfl
    refine ⟨_, answers_append before after, fun name reserved answered => ?_⟩
    exact notMem_taken_of_mem_run answered (mem_taken_run_iff.mpr (.inl reserved))

/-- A name with a number behind it may be spent by the time that it is asked for itself. -/
example : answers [.reserve ["b"], .issue "a", .issue "a", .issue "a2", .issue "b", .reserve ["a3"],
    .issue "a"] = [none, some "a", some "a2", some "a22", some "b2", none, some "a4"] := by
  cbv

end Classwright.Text.NameSupply
