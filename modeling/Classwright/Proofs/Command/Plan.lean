/-
# Classwright.Proofs.Command.Plan — what a project asks for

A project can be built unless there is a reason not to (`Unbuildable`): its configuration or its
document is no such thing, or one of its targets cannot be settled (`Target.Unfit`).  If there is no
reason, there is a job for every target, and a schema for all of them (`Planned`).
-/

import Mathlib
import Classwright.Proofs.Command.Options

namespace Classwright

/-! ## What is asked for -/

/-- Is the value a list or an object? -/
def Json.Value.IsStructured : Json.Value → Prop
  | .list _ | .object _ => True
  | _ => False

theorem Target.optionText?_eq_none_iff {value : Json.Value} :
    optionText? value = none ↔ value.IsStructured := by
  cases value <;> simp [optionText?, Json.Value.IsStructured]

/-- Why a target cannot be settled: its language is unknown, one of its options is a list or an
object, or its options are no options of the language. -/
inductive Target.Unfit (target : Target) : Prop
  | unknownLanguage (unknown : Language.ofName? target.language = none)
  | structuredOption {entry : String × Json.Value} (among : entry ∈ target.options)
    (structured : entry.2.IsStructured)
  | invalidOptions {language : Language} {pairs : List (String × String)} {fault : SettingsFault}
    (known : Language.ofName? target.language = some language) (plain : target.pairs = .ok pairs)
    (invalid : Settings.ofPairs language pairs = .error fault)

/-- The folder is configured like this. -/
def Disk.Configures (disk : Disk) (root : String) (config : Config) : Prop :=
  ∃ text, disk.read (Path.join root Config.fileName) = .ok text ∧
    Json.readText (Config.rule.read Json.maxLevels) text = .ok config

/-- Why the project in a folder cannot be built at all. -/
inductive Disk.Unbuildable (disk : Disk) (root : String) : Prop
  | noConfig {fault : DiskFault}
    (unread : disk.read (Path.join root Config.fileName) = .error fault)
  | invalidConfig {text : String} {error : Json.ReadError}
    (read : disk.read (Path.join root Config.fileName) = .ok text)
    (invalid : Json.readText (Config.rule.read Json.maxLevels) text = .error error)
  | noTargets {config : Config} (configured : disk.Configures root config)
    (none : config.targets = [])
  | target {config : Config} {target : Target} (configured : disk.Configures root config)
    (among : target ∈ config.targets) (unfit : target.Unfit)
  | noModel {config : Config} {fault : DiskFault} (configured : disk.Configures root config)
    (unread : disk.read (Path.join root config.model) = .error fault)
  | invalidModel {config : Config} {text : String} {error : Json.ReadError}
    (configured : disk.Configures root config)
    (read : disk.read (Path.join root config.model) = .ok text)
    (invalid : Schema.ofText text = .error error)

namespace Command

/-- The job is what the target of the project in the folder `root` asks for. -/
structure Job.Settles (job : Job) (root : String) (target : Target) : Prop where
  language : Language.ofName? target.language = some job.language
  settings : ∃ pairs, target.pairs = .ok pairs ∧
    Settings.ofPairs job.language pairs = .ok job.settings
  folder : job.folder = match target.outFolder with
    | some path => Path.join root path
    | none => Path.join (Path.join root "generated") job.language.key

/-- All jobs of the project in the folder `root`, in the order of the targets, and its schema. -/
def Planned (disk : Disk) (root : String) (jobs : List Job) (s : Schema) : Prop :=
  ∃ config, disk.Configures root config ∧ config.targets ≠ [] ∧
    List.Forall₂ (fun target (job : Job) => job.Settles root target) config.targets jobs ∧
    ∃ text, disk.read (Path.join root config.model) = .ok text ∧ Schema.ofText text = .ok s

section Plans

variable {disk : Disk} {root : String} {target : Target} {job : Job} {config : Config}
  {jobs : List Job} {s : Schema}

theorem find_full_eq_ok_iff {name : String} {language : Language} :
    Catalogue.full.find name = .ok language ↔ Language.ofName? name = some language := by
  unfold Catalogue.find
  cases Language.ofName? name with
  | none => simp
  | some other =>
      have listed : other ∈ Catalogue.full.languages := by cases other <;> decide
      simp [listed]

theorem ofText_eq_ok_iff {text : String} :
    Config.ofText text = .ok config ↔
      Json.readText (Config.rule.read Json.maxLevels) text = .ok config ∧ config.targets ≠ [] := by
  rw [Config.ofText]
  cases Json.readText (Config.rule.read Json.maxLevels) text with
  | error error => simp
  | ok other =>
      have some : (if other.targets.isEmpty then .error ConfigFault.noTargets else .ok other) =
          Except.ok config ↔ other = config ∧ other.targets ≠ [] := by
        cases other.targets <;> simp
      refine some.trans ⟨?_, ?_⟩
      · rintro ⟨rfl, filled⟩
        exact ⟨rfl, filled⟩
      · rintro ⟨is, filled⟩
        cases is
        exact ⟨rfl, filled⟩

/-- The options of a target are texts exactly if none of them is a list or an object. -/
theorem exists_pairs_eq_ok_iff :
    (∃ pairs, target.pairs = .ok pairs) ↔ ∀ entry ∈ target.options, ¬ entry.2.IsStructured := by
  have plain : ∀ entry, (∃ pair, target.pair entry = .ok pair) ↔ ¬ entry.2.IsStructured := by
    intro entry
    rw [← Target.optionText?_eq_none_iff, Target.pair]
    cases Target.optionText? entry.2 <;> simp
  constructor
  · rintro ⟨pairs, spelled⟩ entry among
    have each := forall₂_of_mapM_ok spelled
    obtain ⟨pair, _, own⟩ := exists_of_forall₂ each.flip entry among
    exact (plain entry).mp ⟨pair, own⟩
  · intro simple
    exact exists_mapM_ok fun entry among => (plain entry).mpr (simple entry among)

theorem ofTarget_eq_ok_iff : Job.ofTarget root target = .ok job ↔ job.Settles root target := by
  constructor
  · intro made
    unfold Job.ofTarget at made
    split at made
    · cases made
    · next language known =>
      split at made
      · cases made
      · next pairs plain =>
        split at made
        · cases made
        · next settings valid =>
          cases made
          exact ⟨find_full_eq_ok_iff.mp known, ⟨pairs, plain, valid⟩, rfl⟩
  · intro settles
    have known := find_full_eq_ok_iff.mpr settles.language
    obtain ⟨language, settings, folder⟩ := job
    obtain rfl : folder = target.folder root language := settles.folder
    exact (jobOfTarget_eq_ok_iff known).mpr settles.settings

theorem exists_settles_iff : (∃ job : Job, job.Settles root target) ↔ ¬ target.Unfit := by
  constructor
  · rintro ⟨job, known, ⟨pairs, plain, valid⟩, _⟩ unfit
    cases unfit with
    | unknownLanguage unknown => cases known.symm.trans unknown
    | structuredOption among structured =>
        exact exists_pairs_eq_ok_iff.mp ⟨pairs, plain⟩ _ among structured
    | invalidOptions again spelled invalid =>
        cases known.symm.trans again
        cases plain.symm.trans spelled
        cases valid.symm.trans invalid
  · intro fit
    cases known : Language.ofName? target.language with
    | none => exact absurd (.unknownLanguage known) fit
    | some language =>
        obtain ⟨pairs, plain⟩ := exists_pairs_eq_ok_iff.mpr fun entry among structured =>
          fit (.structuredOption among structured)
        cases valid : Settings.ofPairs language pairs with
        | error fault => exact absurd (.invalidOptions known plain valid) fit
        | ok settings =>
            refine ⟨⟨language, settings, target.folder root language⟩, known, ?_, rfl⟩
            exact ⟨pairs, plain, valid⟩

theorem configures_inj {other : Config} (one : disk.Configures root config)
    (two : disk.Configures root other) : config = other := by
  obtain ⟨text, read, parsed⟩ := one
  obtain ⟨_, again, parsedAgain⟩ := two
  cases read.symm.trans again
  exact Except.ok.inj (parsed.symm.trans parsedAgain)

theorem not_unbuildable_of_planned (planned : Planned disk root jobs s) :
    ¬ disk.Unbuildable root := by
  obtain ⟨config, configured, some, settled, text, read, parsed⟩ := planned
  intro reason
  -- a disk gives one answer to each question, and every reason asks what the plan has asked
  cases reason with
  | noConfig unread =>
      obtain ⟨_, found, _⟩ := configured
      cases found.symm.trans unread
  | invalidConfig found invalid =>
      obtain ⟨_, again, parsed⟩ := configured
      cases found.symm.trans again
      cases parsed.symm.trans invalid
  | noTargets again none =>
      cases configures_inj configured again
      exact some none
  | target again among unfit =>
      cases configures_inj configured again
      obtain ⟨job, _, settles⟩ := exists_of_forall₂ settled.flip _ among
      exact exists_settles_iff.mp ⟨job, settles⟩ unfit
  | noModel again unread =>
      cases configures_inj configured again
      cases read.symm.trans unread
  | invalidModel again found invalid =>
      cases configures_inj configured again
      cases read.symm.trans found
      cases parsed.symm.trans invalid

theorem exists_configures (fine : ¬ disk.Unbuildable root) :
    ∃ config, disk.Configures root config := by
  cases read : disk.read (Path.join root Config.fileName) with
  | error fault => exact absurd (.noConfig read) fine
  | ok text =>
      cases parsed : Json.readText (Config.rule.read Json.maxLevels) text with
      | error error => exact absurd (.invalidConfig read parsed) fine
      | ok config => exact ⟨config, text, read, parsed⟩

theorem exists_jobs (fine : ¬ disk.Unbuildable root) (configured : disk.Configures root config) :
    ∃ jobs, List.Forall₂ (fun target (job : Job) => job.Settles root target) config.targets
      jobs := by
  have each : ∀ target ∈ config.targets, ∃ job, Job.ofTarget root target = .ok job := by
    intro target among
    simp only [ofTarget_eq_ok_iff]
    exact exists_settles_iff.mpr fun unfit => fine (.target configured among unfit)
  obtain ⟨jobs, made⟩ := exists_mapM_ok each
  exact ⟨jobs, (forall₂_of_mapM_ok made).imp fun _ _ own => ofTarget_eq_ok_iff.mp own⟩

theorem exists_schema (fine : ¬ disk.Unbuildable root) (configured : disk.Configures root config) :
    ∃ s text, disk.read (Path.join root config.model) = .ok text ∧ Schema.ofText text = .ok s := by
  cases read : disk.read (Path.join root config.model) with
  | error fault => exact absurd (.noModel configured read) fine
  | ok text =>
      cases parsed : Schema.ofText text with
      | error error => exact absurd (.invalidModel configured read parsed) fine
      | ok s => exact ⟨s, text, rfl, parsed⟩

/-- A project can be built unless there is a reason not to. -/
theorem exists_planned_iff : (∃ jobs s, Planned disk root jobs s) ↔ ¬ disk.Unbuildable root := by
  refine ⟨fun ⟨_, _, planned⟩ => not_unbuildable_of_planned planned, fun fine => ?_⟩
  obtain ⟨config, configured⟩ := exists_configures fine
  obtain ⟨jobs, settled⟩ := exists_jobs fine configured
  obtain ⟨s, model⟩ := exists_schema fine configured
  exact ⟨jobs, s, config, configured, fun none => fine (.noTargets configured none), settled, model⟩

end Plans

end Command

end Classwright
