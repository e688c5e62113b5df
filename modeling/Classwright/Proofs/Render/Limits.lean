/-
# Classwright.Proofs.Render.Limits — a budget stops a rendering and does nothing else

Limits are looked at before each class, after each class and once more for the files, and what is
counted on the way differs from language to language.  None of that shows: a rendering succeeds
within a budget exactly if it does without limits and the budget admits the number of classes and
the bytes of all files.  The reason is that what is counted class by class goes into the files as it
is (`CountsOutput`), so the checks on the way never refuse what the last one would accept.
-/

import Classwright.Backend.Basic
import Classwright.Proofs.Render.Faults
import Classwright.Proofs.Text.Sheet

namespace Classwright

/-! ## Renderings under every budget -/

namespace Budget

/-- Every limit of the wider budget is one of this budget that was kept or raised. -/
def IsWithin (budget wider : Budget) : Prop :=
  (∀ most ∈ wider.maxClasses, ∃ least ∈ budget.maxClasses, least ≤ most) ∧
    ∀ most ∈ wider.maxBytes, ∃ least ∈ budget.maxBytes, least ≤ most

theorem admits_zero (budget : Budget) : budget.Admits 0 0 :=
  ⟨fun most _ => most.zero_le, fun most _ => most.zero_le⟩

theorem Admits.widen {budget wider : Budget} {classes bytes : Nat}
    (admits : budget.Admits classes bytes) (within : budget.IsWithin wider) :
    wider.Admits classes bytes := by
  constructor
  · intro most is
    obtain ⟨least, is, le⟩ := within.1 most is
    exact Nat.le_trans (admits.1 least is) le
  · intro most is
    obtain ⟨least, is, le⟩ := within.2 most is
    exact Nat.le_trans (admits.2 least is) le

/-- All that budgets do to a rendering of `total` classes. -/
structure Governs (total : Nat) (render : Budget → Except RenderFault (List SourceFile)) : Prop where
  /-- Within the limits, the files are those of the rendering without limits. -/
  ok_iff : ∀ budget files, render budget = .ok files ↔
    render unlimited = .ok files ∧ budget.Admits total (SourceFile.totalBytes files)
  /-- The budget stops the rendering or leaves it alone. -/
  eq_or_isOverrun : ∀ budget, render budget = render unlimited ∨
    ∃ fault, render budget = .error fault ∧ IsOverrun total fault
  /-- A limit on classes alone is used up before it stops anything. -/
  classLimit : ∀ most files, render unlimited = .ok files → most < total →
    render { maxClasses := some most } = .error (.overBudget most total (.classes most))

theorem Governs.of_error {total : Nat} {fault : RenderFault} :
    Governs total fun _ => .error fault where
  ok_iff _ _ := ⟨nofun, fun both => nomatch both.1⟩
  eq_or_isOverrun _ := .inl rfl
  classLimit _ _ := nofun

end Budget

/-! ## Any backend -/

namespace Backend

variable {σ τ α : Type} {backend : Backend σ τ α} {settings : σ} {budget : Budget} {s m : Schema}
  {files : List SourceFile}

/-- What is counted class by class is in the files. -/
def CountsOutput (backend : Backend σ τ α) : Prop :=
  ∀ settings declarations, (declarations.map backend.bytes).sum ≤
    SourceFile.totalBytes (backend.files settings declarations)

/-- Every class is declared, one after the other in the order of the language. -/
def Declares (backend : Backend σ τ α) (settings : σ) (m : Schema) (declarations : List α) : Prop :=
  Budget.Runs (backend.declare settings (backend.typeNames settings m)) backend.start
    (m.inOrder backend.order) declarations

/-- The files that are rendered are put together from declarations of all classes. -/
theorem renderMerged_eq_ok_iff (counts : backend.CountsOutput) :
    backend.renderMerged settings budget m = .ok files ↔
      (backend.typeNames settings m).baseFault? (backend.baseClass settings) = none ∧
        ∃ declarations, backend.Declares settings m declarations ∧
          files = backend.files settings declarations ∧
          budget.Admits m.size (SourceFile.totalBytes files) := by
  have size : (m.inOrder backend.order).length = m.size := (m.perm_inOrder _).length_eq
  have within := budget.admits_zero
  have tally {declarations : List α} (runs : backend.Declares settings m declarations) :
      Tally.after {} (declarations.map backend.bytes) =
        ⟨m.size, (declarations.map backend.bytes).sum⟩ := by
    rw [Tally.after, List.length_map, runs.length_eq, size, Nat.zero_add, Nat.zero_add]
  rw [renderMerged]
  constructor
  · intro done
    simp only at done
    split at done
    · cases done
    · next apart =>
      split at done
      · cases done
      · next declarations final found =>
        obtain ⟨runs, rfl, admits⟩ := (Budget.renderEach_eq_ok_iff within).mp found
        split at done
        · cases done
        · next short =>
          cases done
          rw [tally runs] at admits
          exact ⟨apart, declarations, runs, rfl, admits.1, Budget.bytesFault?_eq_none_iff.mp short⟩
  · rintro ⟨apart, declarations, runs, rfl, admits⟩
    have final := tally runs
    -- the bytes that are counted on the way are in the files, so a check on the way passes as well
    have counted := admits.mono (Nat.le_refl _) (counts settings declarations)
    have found : budget.renderEach m.size (backend.declare settings (backend.typeNames settings m))
        backend.bytes {} backend.start (m.inOrder backend.order) =
          .ok (declarations, Tally.after {} (declarations.map backend.bytes)) :=
      (Budget.renderEach_eq_ok_iff within).mpr ⟨runs, rfl, by rwa [final]⟩
    simp only [apart, size, found, Budget.bytesFault?_eq_none_iff.mpr admits.2]

theorem render_of_merged (valid : backend.fault? settings = none)
    (merged : s.merged (backend.general settings).mergePolicy = .ok m) :
    backend.render settings budget s = backend.renderMerged settings budget m := by
  rw [render, valid]
  simp only [merged]

/-- What is rendered comes from settings without a fault and from declarations of all classes that
are left after merging. -/
theorem exists_declares_of_render (counts : backend.CountsOutput)
    (done : backend.render settings budget s = .ok files) :
    backend.fault? settings = none ∧
      ∃ m, s.merged (backend.general settings).mergePolicy = .ok m ∧
        ∃ declarations, backend.Declares settings m declarations ∧
          files = backend.files settings declarations := by
  cases valid : backend.fault? settings with
  | some fault =>
      rw [render, valid] at done
      cases done
  | none =>
      obtain ⟨m, merged, _⟩ := s.exists_merged (backend.general settings).mergePolicy
      rw [render_of_merged valid merged, renderMerged_eq_ok_iff counts] at done
      obtain ⟨_, declarations, declares, eq, _⟩ := done
      exact ⟨rfl, m, merged, declarations, declares, eq⟩

theorem renderMerged_eq_or_isOverrun :
    backend.renderMerged settings budget m = backend.renderMerged settings .unlimited m ∨
      ∃ fault, backend.renderMerged settings budget m = .error fault ∧
        Budget.IsOverrun m.size fault := by
  have size : (m.inOrder backend.order).length = m.size := (m.perm_inOrder _).length_eq
  have each := @Budget.renderEach_eq_or_isOverrun _ _ _ budget m.size backend.bytes
    (backend.declare settings (backend.typeNames settings m)) {} backend.start
    (m.inOrder backend.order) (by rw [size]; exact (Nat.zero_add _).le)
  simp only [renderMerged, size]
  split
  · exact .inl rfl
  · rcases each with same | ⟨fault, stopped, overrun⟩
    · rw [same]
      split
      · exact .inl rfl
      · next declarations final found =>
        -- every class is through, so only the bytes of the files are left to check
        obtain ⟨runs, rfl, _⟩ :=
          (Budget.renderEach_eq_ok_iff (Budget.admits_zero .unlimited)).mp found
        split
        · next fault full =>
          obtain ⟨limit, eq⟩ := Budget.eq_of_bytesFault? full
          refine .inr ⟨fault, rfl, _, limit, ?_, eq⟩
          rw [Tally.after, List.length_map, runs.length_eq, size]
          exact (Nat.zero_add _).le
        · exact .inl rfl
    · rw [stopped]
      exact .inr ⟨fault, rfl, overrun⟩

theorem renderMerged_classLimit (counts : backend.CountsOutput) {most : Nat}
    (done : backend.renderMerged settings .unlimited m = .ok files) (beyond : most < m.size) :
    backend.renderMerged settings { maxClasses := some most } m =
      .error (.overBudget most m.size (.classes most)) := by
  have size : (m.inOrder backend.order).length = m.size := (m.perm_inOrder _).length_eq
  obtain ⟨apart, declarations, runs, _⟩ := (renderMerged_eq_ok_iff counts).mp done
  have stopped : Budget.renderEach { maxClasses := some most } m.size
      (backend.declare settings (backend.typeNames settings m)) backend.bytes {} backend.start
      (m.inOrder backend.order) = .error (.overBudget most m.size (.classes most)) :=
    Budget.renderEach_classLimit runs most.zero_le (by rwa [size, Nat.zero_add])
  simp only [renderMerged, size, apart, stopped]

/-- What budgets do to the rendering of a schema, counted by the classes that are left after
merging. -/
theorem governs_render (counts : backend.CountsOutput)
    (merged : s.merged (backend.general settings).mergePolicy = .ok m) :
    Budget.Governs m.size fun budget => backend.render settings budget s := by
  cases valid : backend.fault? settings with
  | some fault =>
      have stopped : ∀ budget, backend.render settings budget s = .error (.settings fault) := by
        intro budget
        rw [render, valid]
      simp only [stopped]
      exact .of_error
  | none =>
      simp only [render_of_merged valid merged]
      refine ⟨fun budget files => ?_, fun budget => renderMerged_eq_or_isOverrun,
        fun most files => renderMerged_classLimit counts⟩
      rw [renderMerged_eq_ok_iff counts, renderMerged_eq_ok_iff counts]
      constructor
      · rintro ⟨apart, declarations, runs, eq, admits⟩
        exact ⟨⟨apart, declarations, runs, eq, Budget.admits_unlimited _ _⟩, admits⟩
      · rintro ⟨⟨apart, declarations, runs, eq, _⟩, admits⟩
        exact ⟨apart, declarations, runs, eq, admits⟩

end Backend

/-! ## The languages -/

theorem SourceFile.totalBytes_eq_sum (files : List SourceFile) :
    totalBytes files = (files.map bytes).sum := by
  induction files with
  | nil => rfl
  | cons file files ih => rw [totalBytes, ih, List.map_cons, List.sum_cons]

namespace Swift

theorem bytes_le_bytes_file (stem : String) (texts : List String) :
    (texts.map String.utf8ByteSize).sum ≤ (file stem texts).bytes := by
  have within := SourceFile.takenBytes_le_bytes_headed (fileName stem)
    (imports ++ SourceFile.spaced texts)
  rw [Text.takenBytes_append, SourceFile.takenBytes_spaced] at within
  exact Nat.le_trans (Nat.le_add_left _ _) within

theorem countsOutput_backend : backend.CountsOutput := by
  intro settings sources
  show (sources.map fun source => source.text.utf8ByteSize).sum ≤
    SourceFile.totalBytes (files settings sources)
  unfold files
  cases settings.fileLayout with
  | perClass =>
      induction sources with
      | nil => exact Nat.zero_le _
      | cons source sources ih =>
          have first := bytes_le_bytes_file source.typeName [source.text]
          simp only [List.map_cons, List.sum_cons, SourceFile.totalBytes, List.map_nil,
            List.sum_nil] at first ih ⊢
          omega
  | singleFile =>
      cases sources with
      | nil => exact Nat.zero_le _
      | cons source sources =>
          have all := bytes_le_bytes_file settings.singleFileName
            ((source :: sources).map (·.text))
          rw [List.map_map] at all
          exact all

end Swift

namespace ObjectiveC

theorem bytes_le_bytes_header (settings : ObjectiveCSettings) (stem : String)
    (nested interfaces : List String) :
    (interfaces.map String.utf8ByteSize).sum ≤ (header settings stem nested interfaces).bytes := by
  have within := SourceFile.takenBytes_le_bytes_headed (headerName stem)
    (headerImports settings ++ announcement nested ++ SourceFile.spaced interfaces)
  rw [Text.takenBytes_append, SourceFile.takenBytes_spaced] at within
  exact Nat.le_trans (Nat.le_add_left _ _) within

theorem bytes_le_bytes_implementationFile (stem : String) (nested implementations : List String) :
    (implementations.map String.utf8ByteSize).sum ≤
      (implementationFile stem nested implementations).bytes := by
  have within := SourceFile.takenBytes_le_bytes_headed (implementationName stem)
    (importLine stem :: (nested.map importLine ++
      .emptyLine :: SourceFile.spaced implementations))
  rw [Text.takenBytes_cons, Text.takenBytes_append, Text.takenBytes_cons,
    SourceFile.takenBytes_spaced] at within
  refine Nat.le_trans ?_ within
  omega

theorem countsOutput_backend : backend.CountsOutput := by
  intro settings sources
  show (sources.map fun source =>
      source.interface.utf8ByteSize + source.implementation.utf8ByteSize).sum ≤
    SourceFile.totalBytes (files settings sources)
  unfold files
  cases settings.fileLayout with
  | perClass =>
      induction sources with
      | nil => exact Nat.zero_le _
      | cons source sources ih =>
          have interface := bytes_le_bytes_header settings source.typeName
            source.nested [source.interface]
          have implementation := bytes_le_bytes_implementationFile source.typeName source.nested
            [source.implementation]
          simp only [List.map_cons, List.sum_cons, List.map_nil, List.sum_nil, List.flatMap_cons,
            List.cons_append, List.nil_append, SourceFile.totalBytes]
            at interface implementation ih ⊢
          omega
  | singleFile =>
      cases sources with
      | nil => exact Nat.zero_le _
      | cons source sources =>
          have interfaces := bytes_le_bytes_header settings settings.singleFileName []
            ((source :: sources).map (·.interface))
          have implementations := bytes_le_bytes_implementationFile settings.singleFileName []
            ((source :: sources).map (·.implementation))
          rw [List.map_map] at interfaces implementations
          rw [List.sum_map_add]
          exact Nat.add_le_add interfaces implementations

end ObjectiveC

theorem Java.countsOutput_backend : Java.backend.CountsOutput := by
  intro settings files
  exact (SourceFile.totalBytes_eq_sum files).ge

theorem Language.governs_render (language : Language) {settings : Settings} {s m : Schema}
    (merged : s.merged settings.general.mergePolicy = .ok m) :
    Budget.Governs m.size fun budget => language.render settings budget s := by
  cases settings with
  | swift settings =>
      cases language with
      | swift => exact Backend.governs_render Swift.countsOutput_backend merged
      | _ => exact .of_error
  | objectiveC settings =>
      cases language with
      | objectiveC => exact Backend.governs_render ObjectiveC.countsOutput_backend merged
      | _ => exact .of_error
  | java settings =>
      cases language with
      | java => exact Backend.governs_render Java.countsOutput_backend merged
      | _ => exact .of_error

/-- A rendering within a budget gives the very files of the rendering without limits exactly if the
budget admits the number of classes, as merging leaves them, and the bytes of all files.  If not, it
fails for the budget, and with a limit on classes alone it does so when as many are rendered.  What
cannot be rendered without limits cannot be rendered within any.  So no limit is exceeded, and
raising limits does not make a rendering fail. -/
theorem render_within_limits (language : Language) (settings : Settings) (s : Schema) :
    ∃ m, s.merged settings.general.mergePolicy = .ok m ∧ ∀ budget : Budget,
      (∀ files, language.render settings .unlimited s = .ok files →
        (language.render settings budget s = .ok files ↔
          budget.Admits m.size (SourceFile.totalBytes files)) ∧
        (¬ budget.Admits m.size (SourceFile.totalBytes files) →
          ∃ rendered limit, rendered ≤ m.size ∧
            language.render settings budget s = .error (.overBudget rendered m.size limit)) ∧
        ∀ most < m.size, budget = { maxClasses := some most } →
          language.render settings budget s =
            .error (.overBudget most m.size (.classes most))) ∧
      (∀ fault, language.render settings .unlimited s = .error fault →
        language.render settings budget s = .error fault ∨
          ∃ rendered limit, rendered ≤ m.size ∧
            language.render settings budget s = .error (.overBudget rendered m.size limit)) ∧
      ∀ files, language.render settings budget s = .ok files →
        budget.Admits m.size (SourceFile.totalBytes files) ∧
          ∀ wider, budget.IsWithin wider → language.render settings wider s = .ok files := by
  obtain ⟨m, merged, _⟩ := s.exists_merged settings.general.mergePolicy
  have governs := language.governs_render merged
  refine ⟨m, merged, fun budget => ⟨fun files free => ⟨?_, fun refused => ?_, ?_⟩,
    fun fault stuck => ?_, fun files done => ?_⟩⟩
  · rw [governs.ok_iff]
    exact and_iff_right free
  · rcases governs.eq_or_isOverrun budget with same | ⟨_, failed, rendered, limit, few, rfl⟩
    · exact absurd ((governs.ok_iff budget files).mp (same.trans free)).2 refused
    · exact ⟨rendered, limit, few, failed⟩
  · rintro most beyond rfl
    exact governs.classLimit most files free beyond
  · rcases governs.eq_or_isOverrun budget with same | ⟨_, failed, rendered, limit, few, rfl⟩
    · exact .inl (same.trans stuck)
    · exact .inr ⟨rendered, limit, few, failed⟩
  · obtain ⟨free, admits⟩ := (governs.ok_iff budget files).mp done
    exact ⟨admits, fun wider within => (governs.ok_iff wider files).mpr ⟨free, admits.widen within⟩⟩

/-- A grid of cells has two classes, so a limit of one class stops it. -/
theorem render_grid_one_class :
    (∃ files, Language.java.render (.java {}) .unlimited .grid = .ok files) ∧
      Language.java.render (.java {}) { maxClasses := some 1 } .grid =
        .error (.overBudget 1 2 (.classes 1)) := by
  have renders : ∃ files, Language.java.render (.java {}) .unlimited .grid = .ok files := by
    have valid : (Settings.java {}).fault? = none := by decide
    have merged : Schema.grid.merged (Settings.java {}).general.mergePolicy = .ok .grid := rfl
    refine (Settings.failsIff_render valid merged fun _ _ _ _ => nofun).value ?_
    rintro ⟨c, _, rejected⟩
    exact Language.not_rejects_java c rejected
  obtain ⟨files, free⟩ := renders
  obtain ⟨m, merged, within⟩ := render_within_limits .java (.java {}) .grid
  cases merged
  exact ⟨⟨files, free⟩, ((within _).1 files free).2.2 1 (by decide) rfl⟩

end Classwright
