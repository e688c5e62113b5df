/-
# Classwright.Proofs.Render.Outcome — when something fails, and with which fault

Rendering goes through classes and through their fields, and gives up at the first thing that it
cannot do.  `FailsIff bad reports outcome` says both halves at once: there is an outcome unless
things are `bad`, and if they are, the fault is one that `reports` admits.  Said of the single
things, it follows for a list of them, with the first bad one (`FirstIn`) reported.
-/

import Mathlib.Data.List.Basic
import Mathlib.Data.List.Forall2
import Mathlib.Data.List.Nodup

namespace Classwright

variable {ε α β : Type}

/-! ## The first of its kind -/

/-- The first item of the list that is `bad`. -/
def FirstIn (bad : α → Prop) (items : List α) (item : α) : Prop :=
  ∃ before after, items = before ++ item :: after ∧ bad item ∧ ∀ other ∈ before, ¬ bad other

namespace FirstIn

variable {bad : α → Prop} {items : List α} {item : α}

theorem head (holds : bad item) : FirstIn bad (item :: items) item :=
  ⟨[], items, rfl, holds, by simp⟩

theorem tail {other : α} (fine : ¬ bad other) (first : FirstIn bad items item) :
    FirstIn bad (other :: items) item := by
  obtain ⟨before, after, rfl, holds, earlier⟩ := first
  exact ⟨other :: before, after, rfl, holds, List.forall_mem_cons.mpr ⟨fine, earlier⟩⟩

theorem map {f : β → α} {sources : List β} {source : β}
    (first : FirstIn (fun source => bad (f source)) sources source) :
    FirstIn bad (sources.map f) (f source) := by
  obtain ⟨before, after, rfl, holds, earlier⟩ := first
  refine ⟨before.map f, after.map f, by rw [List.map_append, List.map_cons], holds, ?_⟩
  intro other among
  obtain ⟨original, hOriginal, rfl⟩ := List.mem_map.mp among
  exact earlier original hOriginal

end FirstIn

/-! ## Outcomes -/

/-- There is a value unless things are `bad`, and if they are, a fault that `reports` admits. -/
structure FailsIff (bad : Prop) (reports : ε → Prop) (outcome : Except ε α) : Prop where
  value : ¬ bad → ∃ value, outcome = .ok value
  fault : bad → ∃ fault, outcome = .error fault ∧ reports fault

namespace FailsIff

variable {bad worse : Prop} {reports admits : ε → Prop} {outcome : Except ε α}

theorem ok (value : α) (fine : ¬ bad) : FailsIff bad reports (.ok value : Except ε α) :=
  ⟨fun _ => ⟨value, rfl⟩, fun holds => absurd holds fine⟩

theorem error {fault : ε} (holds : bad) (reported : reports fault) :
    FailsIff bad reports (.error fault : Except ε α) :=
  ⟨fun fine => absurd holds fine, fun _ => ⟨fault, rfl, reported⟩⟩

theorem congr (tells : FailsIff bad reports outcome) (same : bad ↔ worse)
    (implies : ∀ fault, reports fault → admits fault) : FailsIff worse admits outcome where
  value fine := tells.value fun holds => fine (same.mp holds)
  fault holds := by
    obtain ⟨fault, eq, reported⟩ := tells.fault (same.mpr holds)
    exact ⟨fault, eq, implies fault reported⟩

/-- What is done with a value does not fail. -/
theorem through {whole : Except ε β} (tells : FailsIff bad reports outcome)
    (stops : ∀ fault, outcome = .error fault → whole = .error fault)
    (goes : ∀ value, outcome = .ok value → ∃ result, whole = .ok result) :
    FailsIff bad reports whole where
  value fine := by
    obtain ⟨value, done⟩ := tells.value fine
    exact goes value done
  fault holds := by
    obtain ⟨fault, failed, reported⟩ := tells.fault holds
    exact ⟨fault, stops fault failed, reported⟩

theorem map (tells : FailsIff bad reports outcome) (f : α → β) :
    FailsIff bad reports (outcome.map f) := by
  refine tells.through (fun fault failed => ?_) fun value done => ⟨f value, ?_⟩
  · rw [failed]
    rfl
  · rw [done]
    rfl

theorem exists_ok_iff (tells : FailsIff bad reports outcome) :
    (∃ value, outcome = .ok value) ↔ ¬ bad := by
  refine ⟨?_, tells.value⟩
  rintro ⟨value, rfl⟩ holds
  obtain ⟨fault, eq, _⟩ := tells.fault holds
  cases eq

theorem reports_of_error (tells : FailsIff bad reports outcome) {fault : ε}
    (failed : outcome = .error fault) : bad ∧ reports fault := by
  subst failed
  by_cases holds : bad
  · obtain ⟨_, eq, reported⟩ := tells.fault holds
    cases eq
    exact ⟨holds, reported⟩
  · obtain ⟨value, eq⟩ := tells.value holds
    cases eq

/-- A list of things: the first bad one is reported.  `step` is what is done with the head of the
list, and `rest` what is done behind it. -/
theorem cons {bad : α → Prop} {reports : α → ε → Prop} {item : α} {items : List α} {γ : Type}
    {step : Except ε β} {whole : Except ε γ} (tells : FailsIff (bad item) (reports item) step)
    (stops : ∀ fault, step = .error fault → whole = .error fault)
    (goes : ∀ value, step = .ok value → FailsIff (∃ item ∈ items, bad item)
      (fun fault => ∃ item, FirstIn bad items item ∧ reports item fault) whole) :
    FailsIff (∃ other ∈ item :: items, bad other)
      (fun fault => ∃ other, FirstIn bad (item :: items) other ∧ reports other fault) whole := by
  by_cases holds : bad item
  · obtain ⟨fault, failed, reported⟩ := tells.fault holds
    rw [stops fault failed]
    exact error ⟨item, List.mem_cons_self, holds⟩ ⟨item, .head holds, reported⟩
  · obtain ⟨value, done⟩ := tells.value holds
    refine (goes value done).congr ?_ ?_
    · simp [holds]
    · rintro fault ⟨other, first, reported⟩
      exact ⟨other, first.tail holds, reported⟩

theorem mapM {bad : α → Prop} {reports : α → ε → Prop} {f : α → Except ε β} {items : List α}
    (tells : ∀ item ∈ items, FailsIff (bad item) (reports item) (f item)) :
    FailsIff (∃ item ∈ items, bad item)
      (fun fault => ∃ item, FirstIn bad items item ∧ reports item fault) (items.mapM f) := by
  induction items with
  | nil => exact ok [] (by simp)
  | cons item items ih =>
      rw [List.mapM_cons]
      refine cons (tells item List.mem_cons_self) (fun fault failed => ?_) fun value done => ?_
      · rw [failed]
        rfl
      · rw [done]
        have others := ih fun other among => tells other (List.mem_cons_of_mem item among)
        refine others.through (fun fault failed => ?_) fun values done => ⟨value :: values, ?_⟩
        · rw [failed]
          rfl
        · rw [done]
          rfl

end FailsIff

/-! ## Values -/

theorem exists_of_map_ok {outcome : Except ε α} {f : α → β} {result : β}
    (done : outcome.map f = .ok result) : ∃ value, outcome = .ok value ∧ result = f value := by
  cases outcome with
  | error fault => cases done
  | ok value =>
      cases done
      exact ⟨value, rfl, rfl⟩

theorem exists_of_bind_ok {outcome : Except ε α} {f : α → Except ε β} {result : β}
    (done : outcome >>= f = .ok result) : ∃ value, outcome = .ok value ∧ f value = .ok result := by
  cases outcome with
  | error fault => cases done
  | ok value => exact ⟨value, rfl, done⟩

/-- Where a list of things has values, each thing has its own. -/
theorem forall₂_of_mapM_ok {f : α → Except ε β} {items : List α} {values : List β}
    (done : items.mapM f = .ok values) :
    List.Forall₂ (fun item value => f item = .ok value) items values := by
  induction items generalizing values with
  | nil =>
      cases done
      exact .nil
  | cons item items ih =>
      rw [List.mapM_cons] at done
      obtain ⟨value, first, done⟩ := exists_of_bind_ok done
      obtain ⟨others, rest, done⟩ := exists_of_bind_ok done
      cases done
      exact .cons first (ih rest)

theorem exists_mapM_ok {f : α → Except ε β} {items : List α}
    (each : ∀ item ∈ items, ∃ value, f item = .ok value) : ∃ values, items.mapM f = .ok values := by
  induction items with
  | nil => exact ⟨[], rfl⟩
  | cons item items ih =>
      obtain ⟨value, first⟩ := each item List.mem_cons_self
      obtain ⟨values, others⟩ := ih fun other among => each other (List.mem_cons_of_mem item among)
      refine ⟨value :: values, ?_⟩
      rw [List.mapM_cons, first, others]
      rfl

theorem mapM_eq_ok_of_forall₂ {f : α → Except ε β} {items : List α} {values : List β}
    (each : List.Forall₂ (fun item value => f item = .ok value) items values) :
    items.mapM f = .ok values := by
  induction each with
  | nil => rfl
  | cons first _ ih =>
      rw [List.mapM_cons, first, ih]
      rfl

/-! ## Lists that go together -/

variable {γ : Type} {R : α → β → Prop} {S : α → γ → Prop} {as : List α} {bs : List β} {cs : List γ}

theorem exists_of_forall₂ (each : List.Forall₂ R as bs) : ∀ b ∈ bs, ∃ a ∈ as, R a b := by
  induction each with
  | nil => simp
  | cons first _ ih =>
      rw [List.forall_mem_cons]
      refine ⟨⟨_, List.mem_cons_self, first⟩, fun b among => ?_⟩
      obtain ⟨a, other, own⟩ := ih b among
      exact ⟨a, List.mem_cons_of_mem _ other, own⟩

theorem map_eq_of_forall₂ {f : α → γ} {g : β → γ} (each : List.Forall₂ R as bs)
    (same : ∀ a b, R a b → f a = g b) : as.map f = bs.map g := by
  rw [← List.forall₂_eq_eq_eq, List.forall₂_map_left_iff, List.forall₂_map_right_iff]
  exact each.imp same

/-- A list whose members are all made from something is made from a list. -/
theorem exists_map_of_forall₂ {f : γ → β}
    (each : List.Forall₂ (fun a b => ∃ c, b = f c ∧ S a c) as bs) :
    ∃ cs : List γ, bs = cs.map f ∧ List.Forall₂ S as cs := by
  induction each with
  | nil => exact ⟨[], rfl, .nil⟩
  | cons first _ ih =>
      obtain ⟨c, rfl, own⟩ := first
      obtain ⟨cs, rfl, others⟩ := ih
      exact ⟨c :: cs, rfl, .cons own others⟩

/-- Two lists that go with a third one go with it side by side. -/
theorem forall₂_zip_zip (front : List.Forall₂ R as bs) (back : List.Forall₂ S as cs) :
    List.Forall₂ (fun a found => found.1 = a ∧ R a found.2.1 ∧ S a found.2.2) as
      (as.zip (bs.zip cs)) := by
  induction front generalizing cs with
  | nil => exact .nil
  | cons first _ ih =>
      cases back with
      | cons second others => exact .cons ⟨rfl, first, second⟩ (ih others)

/-! ## Tables in which keys are looked up -/

section Lookup

variable {entries others : List (String × β)} {key : String} {value : β}

theorem exists_lookup_iff :
    (∃ value, entries.lookup key = some value) ↔ key ∈ entries.map Prod.fst := by
  rw [← Option.isSome_iff_exists]
  induction entries with
  | nil => simp
  | cons entry entries ih =>
      rw [List.lookup_cons, List.map_cons, List.mem_cons, ← ih]
      by_cases here : key = entry.1
      · simp only [here, beq_self_eq_true, Option.isSome_some, true_or]
      · simp only [beq_eq_false_iff_ne.mpr here, here, false_or]

/-- Where no key stands twice, looking up finds every entry. -/
theorem lookup_eq_some_iff_mem (distinct : (entries.map Prod.fst).Nodup) :
    entries.lookup key = some value ↔ (key, value) ∈ entries := by
  induction entries with
  | nil => simp
  | cons entry entries ih =>
      obtain ⟨new, distinct⟩ := List.nodup_cons.mp distinct
      rw [List.lookup_cons, List.mem_cons]
      by_cases here : key = entry.1
      · subst here
        have absent : (entry.1, value) ∉ entries :=
          fun among => new (List.mem_map.mpr ⟨_, among, rfl⟩)
        simp only [beq_self_eq_true, Option.some.injEq, Prod.ext_iff, true_and, absent, or_false,
          eq_comm]
      · have other : (key, value) ≠ entry := fun same => here (congrArg Prod.fst same)
        simp only [beq_eq_false_iff_ne.mpr here, other, false_or]
        exact ih distinct

theorem lookup_eq_of_perm (perm : entries.Perm others) (distinct : (entries.map Prod.fst).Nodup) :
    entries.lookup key = others.lookup key := by
  have distinctOthers : (others.map Prod.fst).Nodup := (perm.map Prod.fst).nodup distinct
  refine Option.ext fun value => ?_
  rw [lookup_eq_some_iff_mem distinct, lookup_eq_some_iff_mem distinctOthers]
  exact perm.mem_iff

end Lookup

end Classwright
