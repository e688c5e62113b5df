/-
# Classwright.Proofs.Render.Budget — what a rendering within a budget can fail with

A rendering of many items fails with a fault of the budget or with a fault of one of the items.  An
unlimited budget has no faults, so there the first item that fails is the one that is reported.

A budget stops a rendering and does nothing else to it.  What is rendered is what the steps give one
after the other (`Runs`), and a budget lets all of it through exactly if it admits the final tally:
the tally only grows, so no check on the way is stricter than that.
-/

import Mathlib
import Classwright.Proofs.Render.Outcome
import Classwright.Render.Budget

namespace Classwright

/-- The tally after items of these sizes. -/
def Tally.after (tally : Tally) (sizes : List Nat) : Tally :=
  ⟨tally.rendered + sizes.length, tally.bytes + sizes.sum⟩

theorem Tally.after_cons (tally : Tally) (size : Nat) (sizes : List Nat) :
    tally.after (size :: sizes) = Tally.after ⟨tally.rendered + 1, tally.bytes + size⟩ sizes := by
  simp [Tally.after, Nat.add_assoc, Nat.add_comm 1]

namespace Budget

variable {σ α β : Type} {budget : Budget} {total : Nat} {bytes : β → Nat}
  {step : σ → α → Except RenderFault (β × σ)} {tally : Tally} {state : σ} {items : List α}

/-! ## Faults -/

/-- The fault says that a limit was hit on the way through `total` items. -/
def IsOverrun (total : Nat) (fault : RenderFault) : Prop :=
  ∃ rendered limit, rendered ≤ total ∧ fault = .overBudget rendered total limit

theorem eq_of_bytesFault? {rendered most : Nat} {fault : RenderFault}
    (found : budget.bytesFault? rendered total most = some fault) :
    ∃ limit, fault = .overBudget rendered total limit := by
  obtain ⟨limit, _, eq⟩ := Option.bind_eq_some_iff.mp found
  split at eq
  · cases eq
    exact ⟨_, rfl⟩
  · cases eq

theorem eq_of_nextFault? {fault : RenderFault}
    (found : budget.nextFault? total tally = some fault) :
    ∃ limit, fault = .overBudget tally.rendered total limit := by
  rcases Option.or_eq_some_iff.mp found with found | ⟨_, found⟩
  · obtain ⟨limit, _, eq⟩ := Option.bind_eq_some_iff.mp found
    split at eq
    · cases eq
      exact ⟨_, rfl⟩
    · cases eq
  · exact eq_of_bytesFault? found

theorem eq_of_record {most : Nat} {fault : RenderFault}
    (failed : budget.record total most tally = .error fault) :
    ∃ limit, fault = .overBudget tally.rendered total limit := by
  unfold record at failed
  split at failed
  · next found =>
    cases failed
    exact eq_of_bytesFault? found
  · cases failed

theorem eq_of_record_ok {most : Nat} {next : Tally}
    (done : budget.record total most tally = .ok next) :
    next = ⟨tally.rendered + 1, tally.bytes + most⟩ := by
  unfold record at done
  split at done
  · cases done
  · cases done
    rfl

/-- A rendering fails for its budget or for one of its items. -/
theorem fault_of_renderEach {fault : RenderFault} (room : tally.rendered + items.length ≤ total)
    (failed : budget.renderEach total step bytes tally state items = .error fault) :
    IsOverrun total fault ∨ ∃ state, ∃ item ∈ items, step state item = .error fault := by
  induction items generalizing tally state with
  | nil => cases failed
  | cons item items ih =>
      rw [List.length_cons] at room
      rw [renderEach] at failed
      split at failed
      · next found =>
        cases failed
        obtain ⟨limit, eq⟩ := eq_of_nextFault? found
        exact .inl ⟨_, limit, by omega, eq⟩
      · split at failed
        · next stopped =>
          cases failed
          exact .inr ⟨state, item, List.mem_cons_self, stopped⟩
        · split at failed
          · next full =>
            cases failed
            obtain ⟨limit, eq⟩ := eq_of_record full
            exact .inl ⟨_, limit, by omega, eq⟩
          · next recorded =>
            split at failed
            · next behind =>
              cases failed
              rw [eq_of_record_ok recorded] at behind
              refine (ih (by simp only; omega) behind).imp_right ?_
              rintro ⟨state, other, among, stopped⟩
              exact ⟨state, other, List.mem_cons_of_mem item among, stopped⟩
            · cases failed

/-- Without limits a rendering fails exactly if one of its items does, and the first such item is
reported. -/
theorem failsIff_renderEach {bad : α → Prop} {reports : α → RenderFault → Prop}
    (tells : ∀ item ∈ items, ∀ state, FailsIff (bad item) (reports item) (step state item))
    (tally : Tally) (state : σ) :
    FailsIff (∃ item ∈ items, bad item)
      (fun fault => ∃ item, FirstIn bad items item ∧ reports item fault)
      (unlimited.renderEach total step bytes tally state items) := by
  induction items generalizing tally state with
  | nil => exact .ok _ (by simp)
  | cons item items ih =>
      have next : unlimited.nextFault? total tally = none := rfl
      have record : ∀ most, unlimited.record total most tally =
          .ok ⟨tally.rendered + 1, tally.bytes + most⟩ := fun _ => rfl
      rw [renderEach, next]
      refine .cons (tells item List.mem_cons_self state) ?_ ?_
      · rintro fault failed
        rw [failed]
      · rintro ⟨rendered, later⟩ done
        rw [done]
        simp only [record]
        have others := ih (fun other among => tells other (List.mem_cons_of_mem item among))
          ⟨tally.rendered + 1, tally.bytes + bytes rendered⟩ later
        refine others.through (fun fault failed => ?_) fun found done =>
          ⟨(rendered :: found.1, found.2), ?_⟩
        · rw [failed]
        · rw [done]

/-- What a budget does not stop is the same as without limits. -/
theorem renderEach_eq_or_isOverrun (room : tally.rendered + items.length ≤ total) :
    budget.renderEach total step bytes tally state items =
        unlimited.renderEach total step bytes tally state items ∨
      ∃ fault, budget.renderEach total step bytes tally state items = .error fault ∧
        IsOverrun total fault := by
  induction items generalizing tally state with
  | nil => exact .inl rfl
  | cons item items ih =>
      rw [List.length_cons] at room
      -- without limits no check fails, so the two runs part only where the budget has a fault
      have free : unlimited.nextFault? total tally = none := rfl
      have freely : ∀ most, unlimited.record total most tally =
          .ok ⟨tally.rendered + 1, tally.bytes + most⟩ := fun _ => rfl
      rw [renderEach, renderEach, free]
      cases before : budget.nextFault? total tally with
      | some fault =>
          obtain ⟨limit, eq⟩ := eq_of_nextFault? before
          exact .inr ⟨fault, rfl, _, limit, by omega, eq⟩
      | none =>
          cases step state item with
          | error fault => exact .inl rfl
          | ok found =>
              obtain ⟨result, next⟩ := found
              simp only [freely]
              cases recorded : budget.record total (bytes result) tally with
              | error fault =>
                  obtain ⟨limit, eq⟩ := eq_of_record recorded
                  exact .inr ⟨fault, rfl, _, limit, by omega, eq⟩
              | ok counted =>
                  rw [eq_of_record_ok recorded]
                  have others := @ih ⟨tally.rendered + 1, tally.bytes + bytes result⟩ next
                    (by simp only; omega)
                  rcases others with same | ⟨fault, failed, overrun⟩
                  · exact .inl (by simp only [same])
                  · exact .inr ⟨fault, by simp only [failed], overrun⟩

/-! ## Within the limits -/

/-- So many classes and bytes are within the limits. -/
def Admits (budget : Budget) (classes bytes : Nat) : Prop :=
  (∀ most ∈ budget.maxClasses, classes ≤ most) ∧ ∀ most ∈ budget.maxBytes, bytes ≤ most

theorem admits_unlimited (classes bytes : Nat) : unlimited.Admits classes bytes :=
  ⟨nofun, nofun⟩

theorem Admits.mono {classes fewer bytes less : Nat} (admits : budget.Admits classes bytes)
    (lower : fewer ≤ classes) (shorter : less ≤ bytes) : budget.Admits fewer less :=
  ⟨fun most is => Nat.le_trans lower (admits.1 most is),
    fun most is => Nat.le_trans shorter (admits.2 most is)⟩

theorem bytesFault?_eq_none_iff {rendered most : Nat} :
    budget.bytesFault? rendered total most = none ↔ ∀ limit ∈ budget.maxBytes, most ≤ limit := by
  simp [bytesFault?, Option.bind_eq_none_iff]

theorem nextFault?_eq_none_iff :
    budget.nextFault? total tally = none ↔ budget.Admits (tally.rendered + 1) tally.bytes := by
  rw [nextFault?, Option.or_eq_none_iff, bytesFault?_eq_none_iff]
  refine and_congr_left fun _ => ?_
  rw [classFault?, Option.bind_eq_none_iff]
  refine forall₂_congr fun most _ => ?_
  rw [ite_eq_right_iff]
  exact ⟨fun refuted => Nat.lt_of_not_le fun full => (nomatch refuted full),
    fun room full => absurd room (Nat.not_lt_of_le full)⟩

theorem record_eq_ok_iff {most : Nat} {next : Tally} :
    budget.record total most tally = .ok next ↔
      next = ⟨tally.rendered + 1, tally.bytes + most⟩ ∧
        ∀ limit ∈ budget.maxBytes, next.bytes ≤ limit := by
  constructor
  · intro done
    obtain rfl := eq_of_record_ok done
    refine ⟨rfl, ?_⟩
    unfold record at done
    split at done
    · cases done
    · next free => exact bytesFault?_eq_none_iff.mp free
  · rintro ⟨rfl, short⟩
    rw [record, bytesFault?_eq_none_iff.mpr short]

/-- The steps give the results one after the other, each handing its state on to the next. -/
inductive Runs (step : σ → α → Except RenderFault (β × σ)) : σ → List α → List β → Prop
  | nil {state : σ} : Runs step state [] []
  | cons {state next : σ} {item : α} {result : β} {items : List α} {results : List β}
      (first : step state item = .ok (result, next)) (others : Runs step next items results) :
      Runs step state (item :: items) (result :: results)

/-- One item more: it must leave room for the items behind it. -/
theorem renderEach_cons_eq_ok_iff {item : α} {whole : List β} {final : Tally} :
    budget.renderEach total step bytes tally state (item :: items) = .ok (whole, final) ↔
      budget.Admits (tally.rendered + 1) tally.bytes ∧
        ∃ result next results, step state item = .ok (result, next) ∧
          budget.Admits (tally.rendered + 1) (tally.bytes + bytes result) ∧
          budget.renderEach total step bytes ⟨tally.rendered + 1, tally.bytes + bytes result⟩ next
            items = .ok (results, final) ∧ whole = result :: results := by
  constructor
  · intro done
    rw [renderEach] at done
    split at done
    · cases done
    · next before =>
      have before := nextFault?_eq_none_iff.mp before
      split at done
      · cases done
      · next result next found =>
        split at done
        · cases done
        · next recorded =>
          obtain ⟨rfl, short⟩ := record_eq_ok_iff.mp recorded
          split at done
          · cases done
          · next results counted others =>
            cases done
            exact ⟨before, result, next, results, found, ⟨before.1, short⟩, others, rfl⟩
  · rintro ⟨before, result, next, results, found, after, others, rfl⟩
    have recorded : budget.record total (bytes result) tally =
        .ok ⟨tally.rendered + 1, tally.bytes + bytes result⟩ :=
      record_eq_ok_iff.mpr ⟨rfl, after.2⟩
    rw [renderEach, nextFault?_eq_none_iff.mpr before, found]
    simp only [recorded, others]

/-- A budget lets a rendering through exactly if it admits the final tally. -/
theorem renderEach_eq_ok_iff {results : List β} {final : Tally}
    (within : budget.Admits tally.rendered tally.bytes) :
    budget.renderEach total step bytes tally state items = .ok (results, final) ↔
      Runs step state items results ∧ final = tally.after (results.map bytes) ∧
        budget.Admits final.rendered final.bytes := by
  induction items generalizing tally state results final with
  | nil =>
      rw [renderEach]
      constructor
      · rintro ⟨⟩
        exact ⟨.nil, rfl, within⟩
      · rintro ⟨⟨⟩, rfl, _⟩
        rfl
  | cons item items ih =>
      rw [renderEach_cons_eq_ok_iff]
      constructor
      · rintro ⟨_, result, next, others, found, after, done, rfl⟩
        obtain ⟨runs, rfl, admits⟩ := (ih after).mp done
        rw [List.map_cons, Tally.after_cons]
        exact ⟨.cons found runs, rfl, admits⟩
      · rintro ⟨runs, rfl, admits⟩
        cases runs with
        | @cons _ next _ result _ others found runs =>
            rw [List.map_cons, Tally.after_cons] at admits ⊢
            -- the final tally is not below the one after this item
            have after : budget.Admits (tally.rendered + 1) (tally.bytes + bytes result) :=
              admits.mono (Nat.le_add_right _ _) (Nat.le_add_right _ _)
            have before := after.mono (Nat.le_refl _) (Nat.le_add_right _ (bytes result))
            exact ⟨before, result, next, others, found, after,
              (ih after).mpr ⟨runs, rfl, admits⟩, rfl⟩

theorem Runs.length_eq {results : List β} (runs : Runs step state items results) :
    results.length = items.length := by
  induction runs with
  | nil => rfl
  | cons _ _ ih => exact congrArg Nat.succ ih

/-- Every item has its result, whatever was handed on to it. -/
theorem Runs.forall₂ {results : List β} (runs : Runs step state items results) :
    List.Forall₂ (fun item result => ∃ state next, step state item = .ok (result, next)) items
      results := by
  induction runs with
  | nil => exact .nil
  | cons first _ ih => exact .cons ⟨_, _, first⟩ ih

/-- With a limit on classes alone, as many classes are rendered as the limit says. -/
theorem renderEach_classLimit {results : List β} {most : Nat}
    (runs : Runs step state items results) (reached : tally.rendered ≤ most)
    (beyond : most < tally.rendered + items.length) :
    Budget.renderEach { maxClasses := some most } total step bytes tally state items =
      .error (.overBudget most total (.classes most)) := by
  induction runs generalizing tally with
  | nil =>
      rw [List.length_nil] at beyond
      omega
  | @cons state next item result items results found _ ih =>
      rw [List.length_cons] at beyond
      rw [renderEach]
      by_cases last : tally.rendered = most
      · subst last
        simp [nextFault?, classFault?]
      · have free : nextFault? { maxClasses := some most } total tally = none :=
          nextFault?_eq_none_iff.mpr ⟨fun limit is => by cases is; omega, nofun⟩
        have recorded : record { maxClasses := some most } total (bytes result) tally =
            .ok ⟨tally.rendered + 1, tally.bytes + bytes result⟩ := rfl
        rw [free, found]
        simp only [recorded]
        rw [ih (by simp only; omega) (by simp only; omega)]

end Budget

end Classwright
