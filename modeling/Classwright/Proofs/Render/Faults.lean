/-
# Classwright.Proofs.Render.Faults — what keeps a schema from being rendered

With settings that pass their check and no limits, only the types of the schema decide.  The
condition is said of the fields as they were declared: merging may replace a class by another one,
but each class keeps a counterpart with its fields, up to the names of classes, and names do not
decide what a language can express.  Every class is declared, since the order of a language lists
all of them, so a field that the language cannot express is always found.

Whatever the settings and the budget are, two kinds of fault do not occur: merging cannot break a
schema, and no class lacks a type name.
-/

import Classwright.Backend.Basic
import Classwright.Proofs.Render.Budget
import Classwright.Proofs.Render.Support
import Classwright.Proofs.Schema.Merge
import Classwright.Proofs.Schema.Orders

namespace Classwright

/-! ## Any backend -/

theorem TypeNames.baseFault?_eq_none {names : TypeNames} {baseClass : Option String}
    (apart : ∀ name ∈ baseClass, names.isGenerated name = false) :
    names.baseFault? baseClass = none := by
  refine Option.bind_eq_none_iff.mpr fun name is => ?_
  rw [apart name is]
  rfl

namespace Language

variable {language : Language}

theorem rejects_of_fields {c d : ClassDef} (same : c.fields = d.fields) :
    language.Rejects c ↔ language.Rejects d := by
  rw [Rejects, Rejects, same]

/-- Merging keeps the types that a language cannot express and adds none. -/
theorem exists_rejects_iff {s m : Schema}
    (keeps : ∀ c ∈ s.classes, ∃ d ∈ m.classes, ∃ newName, d.fields = (c.rename newName).fields)
    (stems : ∀ d ∈ m.classes, ∃ c ∈ s.classes, ∃ newName, d = c.rename newName) :
    (∃ d ∈ m.classes, language.Rejects d) ↔ ∃ c ∈ s.classes, language.Rejects c := by
  constructor
  · rintro ⟨d, hd, rejects⟩
    obtain ⟨c, hc, newName, rfl⟩ := stems d hd
    exact ⟨c, hc, (rejects_rename newName).mp rejects⟩
  · rintro ⟨c, hc, rejects⟩
    obtain ⟨d, hd, newName, same⟩ := keeps c hc
    exact ⟨d, hd, (rejects_of_fields same).mpr ((rejects_rename newName).mpr rejects)⟩

end Language

namespace Backend

variable {σ τ α : Type} {backend : Backend σ τ α} {settings : σ} {s m : Schema}

/-- The backend declares what its language can express, and reports the first field it cannot. -/
def IsFaithful (backend : Backend σ τ α) : Prop :=
  ∀ settings names state c, TypeNames.Covers names c →
    FailsIff (backend.language.Rejects c) (backend.language.Reports c)
      (backend.declare settings names state c)

/-- Every class that is declared, and what it refers to, has a type name. -/
theorem covers_typeNames (settings : σ) {c : ClassDef} (among : c ∈ m.inOrder backend.order) :
    (backend.typeNames settings m).Covers c :=
  TypeNames.covers_ofSchema ((m.perm_inOrder backend.order).mem_iff.mp among)

/-- Without limits, and with a base class that is not generated, only unsupported types keep the
classes from being rendered. -/
theorem failsIff_renderMerged (faithful : backend.IsFaithful)
    (apart : (backend.typeNames settings m).baseFault? (backend.baseClass settings) = none) :
    FailsIff (∃ c ∈ m.classes, backend.language.Rejects c)
      (fun fault => ∃ c, FirstIn backend.language.Rejects (m.inOrder backend.order) c ∧
        backend.language.Reports c fault)
      (backend.renderMerged settings .unlimited m) := by
  have each : FailsIff _ _ (Budget.unlimited.renderEach (m.inOrder backend.order).length
      (backend.declare settings (backend.typeNames settings m)) backend.bytes {} backend.start
      (m.inOrder backend.order)) :=
    Budget.failsIff_renderEach
      (fun c among state => faithful settings _ state c (covers_typeNames settings among)) {}
      backend.start
  simp only [(m.perm_inOrder backend.order).mem_iff] at each
  unfold renderMerged
  simp only [apart]
  refine each.through (fun fault failed => ?_) fun found done =>
    ⟨backend.files settings found.1, ?_⟩
  · rw [failed]
  · rw [done]
    rfl

theorem failsIff_render (faithful : backend.IsFaithful) (valid : backend.fault? settings = none)
    (merged : s.merged (backend.general settings).mergePolicy = .ok m)
    (apart : (backend.typeNames settings m).baseFault? (backend.baseClass settings) = none) :
    FailsIff (∃ c ∈ m.classes, backend.language.Rejects c)
      (fun fault => ∃ c, FirstIn backend.language.Rejects (m.inOrder backend.order) c ∧
        backend.language.Reports c fault)
      (backend.render settings .unlimited s) := by
  rw [render, valid]
  simp only [merged]
  exact failsIff_renderMerged faithful apart

/-- Whatever the settings and the budget are, the fault is neither one of a schema nor a missing
type name. -/
theorem fault_of_render (faithful : backend.IsFaithful) {budget : Budget} {fault : RenderFault}
    (failed : backend.render settings budget s = .error fault) :
    (∀ f, fault ≠ .schema f) ∧ ∀ language name, fault ≠ .unnamedClass language name := by
  obtain ⟨m, merged, _⟩ := s.exists_merged (backend.general settings).mergePolicy
  -- one case for each way to fail: settings, base class, a class on the way, the bytes of the files
  unfold render at failed
  split at failed
  · cases failed
    exact ⟨nofun, nofun⟩
  · simp only [merged, renderMerged] at failed
    split at failed
    · cases failed
      exact ⟨nofun, nofun⟩
    · split at failed
      · next stopped =>
        cases failed
        rcases Budget.fault_of_renderEach (Nat.zero_add _).le stopped with
          ⟨_, _, _, rfl⟩ | ⟨state, c, among, stopped⟩
        · exact ⟨nofun, nofun⟩
        · have tells := faithful settings _ state c (covers_typeNames settings among)
          obtain ⟨_, _, _, type, rfl⟩ := tells.reports_of_error stopped
          exact ⟨nofun, nofun⟩
      · split at failed
        · next full =>
          cases failed
          obtain ⟨_, rfl⟩ := Budget.eq_of_bytesFault? full
          exact ⟨nofun, nofun⟩
        · cases failed

end Backend

theorem Swift.isFaithful_backend : Swift.backend.IsFaithful :=
  fun settings _ state _ covers => Swift.failsIff_declare settings state covers

theorem ObjectiveC.isFaithful_backend : ObjectiveC.backend.IsFaithful :=
  fun settings _ state _ covers => ObjectiveC.failsIff_declare settings state covers

theorem Java.isFaithful_backend : Java.backend.IsFaithful :=
  fun settings _ state _ covers => Java.failsIff_declare settings state covers

/-! ## Any language -/

namespace Settings

/-- The base class of all classes, if they have one. -/
def baseClass : Settings → Option String
  | .swift s => s.baseClass
  | .objectiveC s => some s.baseClass
  | .java s => s.baseClass

/-- The type names that classes get when they are rendered with these settings. -/
def typeNames : Settings → Schema → TypeNames
  | .swift s => Swift.backend.typeNames s
  | .objectiveC s => ObjectiveC.backend.typeNames s
  | .java s => Java.backend.typeNames s

theorem baseFault?_eq_none {settings : Settings} {m : Schema}
    (apart : ∀ c ∈ m.classes, ∀ typeName, (settings.typeNames m).get c.name = .ok typeName →
      settings.baseClass ≠ some typeName) :
    (settings.typeNames m).baseFault? settings.baseClass = none := by
  refine TypeNames.baseFault?_eq_none fun name is => ?_
  rw [Bool.eq_false_iff]
  intro generated
  cases settings <;>
    · obtain ⟨c, among, found⟩ := TypeNames.isGenerated_iff.mp generated
      exact apart c among name found is

theorem failsIff_render {settings : Settings} {s m : Schema} (valid : settings.fault? = none)
    (merged : s.merged settings.general.mergePolicy = .ok m)
    (apart : ∀ c ∈ m.classes, ∀ typeName, (settings.typeNames m).get c.name = .ok typeName →
      settings.baseClass ≠ some typeName) :
    FailsIff (∃ c ∈ m.classes, settings.language.Rejects c)
      (fun fault => ∃ c, FirstIn settings.language.Rejects (m.inOrder settings.language.order) c ∧
        settings.language.Reports c fault)
      (settings.language.render settings .unlimited s) := by
  have apart := baseFault?_eq_none apart
  cases settings with
  | swift settings => exact Backend.failsIff_render Swift.isFaithful_backend valid merged apart
  | objectiveC settings =>
      exact Backend.failsIff_render ObjectiveC.isFaithful_backend valid merged apart
  | java settings => exact Backend.failsIff_render Java.isFaithful_backend valid merged apart

end Settings

theorem Language.fault_of_render {language : Language} {settings : Settings} {budget : Budget}
    {s : Schema} {fault : RenderFault}
    (failed : language.render settings budget s = .error fault) :
    (∀ f, fault ≠ .schema f) ∧ ∀ language name, fault ≠ .unnamedClass language name := by
  unfold Language.render at failed
  split at failed
  · exact Backend.fault_of_render Swift.isFaithful_backend failed
  · exact Backend.fault_of_render ObjectiveC.isFaithful_backend failed
  · exact Backend.fault_of_render Java.isFaithful_backend failed
  · cases failed
    exact ⟨nofun, nofun⟩

/-- With settings that pass their check and whose base class is not generated, and without limits,
a schema is rendered exactly if the language has a counterpart of every type of a field.  If not,
the fault names the first class with an unsupported type, in the order of declaration after merging,
and the first field with such a type in that class.  No rendering at all fails for a fault of the
schema or for a class without a type name. -/
theorem render_fails_iff_unsupported (settings : Settings) (s : Schema) :
    (∃ m, s.merged settings.general.mergePolicy = .ok m ∧
      (settings.fault? = none →
        (∀ c ∈ m.classes, ∀ typeName, (settings.typeNames m).get c.name = .ok typeName →
          settings.baseClass ≠ some typeName) →
        ((∃ files, settings.language.render settings .unlimited s = .ok files) ↔
          ∀ c ∈ s.classes, ∀ field ∈ c.fields,
            ¬ settings.language.Unsupported field.type) ∧
        ∀ fault, settings.language.render settings .unlimited s = .error fault →
          ∃ c field type,
            FirstIn settings.language.Rejects (m.inOrder settings.language.order) c ∧
            FirstIn (fun field => settings.language.Unsupported field.type) c.fields field ∧
            fault = .unsupportedType settings.language ⟨c.name, field.key⟩ type)) ∧
    ∀ (language : Language) budget fault, language.render settings budget s = .error fault →
      (∀ f, fault ≠ .schema f) ∧ ∀ language name, fault ≠ .unnamedClass language name := by
  obtain ⟨m, merged, keeps, stems⟩ := s.exists_merged settings.general.mergePolicy
  refine ⟨⟨m, merged, fun valid apart => ⟨?_, fun fault failed => ?_⟩⟩, ?_⟩
  · rw [(Settings.failsIff_render valid merged apart).exists_ok_iff,
      Language.exists_rejects_iff keeps stems]
    simp [Language.Rejects]
  · obtain ⟨_, c, first, field, firstField, type, eq⟩ :=
      (Settings.failsIff_render valid merged apart).reports_of_error failed
    exact ⟨c, field, type, first, firstField, eq⟩
  · intro language budget fault failed
    exact Language.fault_of_render failed

/-- A grid of cells: classes inside an array of arrays, with an optional between the arrays. -/
def Schema.grid : Schema where
  classes := [⟨"Grid", [⟨"rows", .array (.optional (.array (.reference "Cell")))⟩]⟩,
    ⟨"Cell", [⟨"value", .optional .integer⟩]⟩]
  faultless := ClassList.fault?_eq_none.mpr ⟨by decide, by decide, by cbv⟩

/-- The grid is not rendered in Objective-C, although all else is in order. -/
theorem render_grid :
    (Settings.objectiveC {}).fault? = none ∧
      (∀ c ∈ Schema.grid.classes, ∀ typeName,
        ((Settings.objectiveC {}).typeNames .grid).get c.name = .ok typeName →
          (Settings.objectiveC {}).baseClass ≠ some typeName) ∧
      ¬ ∃ files, Language.objectiveC.render (.objectiveC {}) .unlimited .grid = .ok files := by
  have valid : (Settings.objectiveC {}).fault? = none := by decide
  have apart : ∀ c ∈ Schema.grid.classes, ∀ typeName,
      ((Settings.objectiveC {}).typeNames .grid).get c.name = .ok typeName →
        (Settings.objectiveC {}).baseClass ≠ some typeName := by
    have free : ((Settings.objectiveC {}).typeNames .grid).isGenerated "NSObject" = false := by cbv
    intro c among typeName found is
    cases is
    have generated := TypeNames.isGenerated_iff.mpr ⟨c, among, found⟩
    exact Bool.false_ne_true (free.symm.trans generated)
  refine ⟨valid, apart, ?_⟩
  obtain ⟨⟨m, merged, renders⟩, _⟩ := render_fails_iff_unsupported (.objectiveC {}) .grid
  cases merged
  refine mt (renders valid apart).1.mp fun supported => ?_
  refine supported _ List.mem_cons_self _ List.mem_cons_self ⟨"Cell", 2, Nat.le_refl 2, ?_⟩
  exact .array (.optional (.array .here))

end Classwright
