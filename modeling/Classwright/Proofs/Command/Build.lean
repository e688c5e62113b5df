/-
# Classwright.Proofs.Command.Build — every target that can be rendered, or none at all

Nothing is written before all targets are settled and the document is read, so what stands in the
way until then (`Unbuildable`) leaves the disk as it was.  After that the targets stand on their
own.  A job that cannot be rendered is counted and touches no file, and what the others leave on the
disk is what their batches leave there (`Disk.Receives`).

Jobs run inside the build, which is a command that may give up itself.  None of them makes it give
up (`report_eq_lift`), so they are looked at as if they ran alone.
-/

import Mathlib
import Classwright.Proofs.Command.Files
import Classwright.Proofs.Command.Plan
import Classwright.Proofs.Schema.Document

namespace Classwright.Command

/-! ## Steps inside a command -/

section Inside

variable {ε α β : Type} {m : Type → Type} [Monad m]

/-- The steps do inside a command that may give up what they do alone, and the command goes on. -/
def GoesOn (inside : ExceptT Failure (ExceptT ε m) α) (alone : ExceptT Failure m α) : Prop :=
  inside.run = ExceptT.lift alone.run

variable [LawfulMonad m]

theorem goesOn_pure (value : α) :
    GoesOn (pure value : ExceptT Failure (ExceptT ε m) α) (pure value) := by
  apply ExceptT.ext
  simp

theorem goesOn_failingAt {δ : Type} (headline : String) (message : δ → String)
    (outcome : Except δ α) :
    GoesOn (failingAt headline message outcome : ExceptT Failure (ExceptT ε m) α)
      (failingAt headline message outcome) := by
  apply ExceptT.ext
  cases outcome with
  | error fault => simp [failingAt]
  | ok value => simp [failingAt]

theorem goesOn_failing {δ : Type} (message : δ → String) (outcome : Except δ α) :
    GoesOn (failing message outcome : ExceptT Failure (ExceptT ε m) α)
      (failing message outcome) := by
  apply ExceptT.ext
  cases outcome with
  | error fault => simp [failing]
  | ok value => simp [failing]

theorem goesOn_lift (step : m α) :
    GoesOn (ExceptT.lift (ExceptT.lift step) : ExceptT Failure (ExceptT ε m) α)
      (ExceptT.lift step) := by
  apply ExceptT.ext
  simp only [ExceptT.run_lift, ExceptT.run_map, Functor.map_map]
  rfl

theorem GoesOn.bind {inside : ExceptT Failure (ExceptT ε m) α} {alone : ExceptT Failure m α}
    {after : α → ExceptT Failure (ExceptT ε m) β} {next : α → ExceptT Failure m β}
    (first : GoesOn inside alone) (second : ∀ value, GoesOn (after value) (next value)) :
    GoesOn (inside >>= after) (alone >>= next) := by
  apply ExceptT.ext
  rw [ExceptT.run_bind, first]
  simp only [ExceptT.run_bind, ExceptT.run_lift, bind_map_left, map_bind]
  congr 1
  funext outcome
  cases outcome with
  | error failure => simp
  | ok value => exact congrArg ExceptT.run (second value)

variable [Host m]

theorem goesOn_writeAll (folder : String) (files : List SourceFile) :
    GoesOn (writeAll folder files : ExceptT Failure (ExceptT ε m) (List String))
      (writeAll folder files) := by
  induction files with
  | nil => exact goesOn_pure []
  | cons file files ih =>
      refine (goesOn_lift _).bind fun outcome => (goesOn_failingAt _ _ outcome).bind fun _ => ?_
      exact ih.bind fun paths => goesOn_pure _

theorem goesOn_writeFiles (folder : String) (files : List SourceFile) :
    GoesOn (writeFiles folder files : ExceptT Failure (ExceptT ε m) (List String))
      (writeFiles folder files) :=
  (goesOn_lift _).bind fun outcome =>
    (goesOn_failingAt _ _ outcome).bind fun _ => goesOn_writeAll folder files

theorem goesOn_run (job : Job) (s : Schema) :
    GoesOn (job.run s : ExceptT Failure (ExceptT ε m) (List String)) (job.run s) :=
  (goesOn_failing _ _).bind fun files => goesOn_writeFiles job.folder files

/-- However a job goes, the build goes on. -/
theorem report_eq_lift (root : String) (s : Schema) (job : Job) :
    (job.report root s : ExceptT ε m Bool) = ExceptT.lift (job.report root s : m Bool) := by
  apply ExceptT.ext
  rw [Job.report, goesOn_run, Job.report]
  simp only [ExceptT.run_bind, ExceptT.run_lift, bind_map_left, map_bind]
  congr 1
  funext outcome
  cases outcome with
  | error failure =>
      simp only [Host.complain, ExceptT.run_bind, ExceptT.run_lift, bind_map_left, ExceptT.run_pure,
        map_bind, map_pure]
  | ok paths =>
      simp only [Host.say, ExceptT.run_bind, ExceptT.run_lift, bind_map_left, ExceptT.run_pure,
        map_bind, map_pure]

theorem mapM_report_eq_lift (root : String) (s : Schema) (jobs : List Job) :
    (jobs.mapM fun job => (job.report root s : ExceptT ε m Bool)) =
      ExceptT.lift (jobs.mapM fun job => (job.report root s : m Bool)) := by
  induction jobs with
  | nil =>
      apply ExceptT.ext
      simp
  | cons job jobs ih =>
      rw [List.mapM_cons, List.mapM_cons, report_eq_lift, ih]
      apply ExceptT.ext
      simp only [ExceptT.run_bind, ExceptT.run_lift, ExceptT.run_pure, bind_map_left, map_bind]
      simp

end Inside

/-! ## Phases -/

section Phases

variable {ε α β : Type} {value : α} {failure : Failure} {session after : Session}
  {step : ExceptT Failure (StateM Session) α} {rest : α → ExceptT Failure (StateM Session) β}

theorem run_bind_of_ok (done : step.run.run session = (.ok value, after)) :
    (step >>= rest).run.run session = (rest value).run.run after := by
  rw [ExceptT.run_bind, StateT.run_bind, done]
  rfl

theorem run_bind_of_error (failed : step.run.run session = (.error failure, after)) :
    (step >>= rest).run.run session = (.error failure, after) := by
  rw [ExceptT.run_bind, StateT.run_bind, failed]
  rfl

theorem run_lift_of_run {action : StateM Session α} (run : action.run session = (value, after)) :
    (ExceptT.lift action : ExceptT Failure (StateM Session) α).run.run session =
      (.ok value, after) := by
  rw [ExceptT.run_lift, StateT.run_map, run]
  rfl

theorem run_say (text : String) (session : Session) :
    (Host.say text : ExceptT Failure (StateM Session) Unit).run.run session =
      (.ok (), { session with output := session.output ++ text }) :=
  rfl

theorem run_failingAt {headline : String} {message : ε → String} (outcome : Except ε α) :
    (failingAt headline message outcome : ExceptT Failure (StateM Session) α).run.run session =
      (outcome.mapError fun fault => { headline, cause := some (message fault) }, session) := by
  cases outcome with
  | error fault => rfl
  | ok value => rfl

/-- A file is read and its text is taken apart, and nothing else happens. -/
theorem exists_run_load (path headline trouble : String) (message : ε → String)
    (parse : String → Except ε α) (session : Session) :
    ∃ outcome : Except Failure α,
      (do
        let text ← failingAt headline DiskFault.message (← Host.read path)
        failingAt trouble message (parse text) : ExceptT Failure (StateM Session) α).run.run
          session = (outcome, session) ∧
      ∀ value, outcome = .ok value ↔
        ∃ text, session.disk.read path = .ok text ∧ parse text = .ok value := by
  have step : (Host.read path : ExceptT Failure (StateM Session) _).run.run session =
      (.ok (session.disk.read path), session) := rfl
  rw [run_bind_of_ok step]
  cases session.disk.read path with
  | error fault => exact ⟨_, run_bind_of_error (run_failingAt _), by simp⟩
  | ok text =>
      refine ⟨_, (run_bind_of_ok (run_failingAt _)).trans (run_failingAt _), fun value => ?_⟩
      cases parsed : parse text <;> simp [Except.mapError, parsed]

theorem exists_run_loadConfig (root : String) (session : Session) :
    ∃ outcome : Except Failure Config,
      (loadConfig root : ExceptT Failure (StateM Session) Config).run.run session =
        (outcome, session) ∧
      ∀ config, outcome = .ok config ↔
        session.disk.Configures root config ∧ config.targets ≠ [] := by
  obtain ⟨outcome, run, loads⟩ := exists_run_load (Path.join root Config.fileName) _
    ("Invalid " ++ Path.join root Config.fileName) ConfigFault.message Config.ofText session
  refine ⟨outcome, run, fun config => ?_⟩
  simp only [loads, ofText_eq_ok_iff, Disk.Configures, exists_and_right, ← and_assoc]

theorem exists_run_jobs (root : String) (targets : List Target) (session : Session) :
    ∃ outcome : Except Failure (List Job),
      (MonadExcept.ofExcept (targets.mapM (Job.ofTarget root)) :
        ExceptT Failure (StateM Session) (List Job)).run.run session = (outcome, session) ∧
      ∀ jobs, outcome = .ok jobs ↔
        List.Forall₂ (fun target (job : Job) => job.Settles root target) targets jobs := by
  refine ⟨targets.mapM (Job.ofTarget root), ?_, fun jobs => ?_⟩
  · cases targets.mapM (Job.ofTarget root) with
    | error failure => rfl
    | ok jobs => rfl
  · simp only [← ofTarget_eq_ok_iff]
    exact ⟨forall₂_of_mapM_ok, mapM_eq_ok_of_forall₂⟩

end Phases

/-! ## Jobs -/

/-- The folder and the files of each job that can be rendered. -/
def rendered (s : Schema) (jobs : List Job) : List (String × List SourceFile) :=
  jobs.filterMap fun job => (job.files s).toOption.map (Prod.mk job.folder)

/-- The files of all jobs that can be rendered by their paths, in the order in which they are
written. -/
def written (s : Schema) (jobs : List Job) : List (String × String) :=
  (rendered s jobs).flatMap fun batch => Disk.addressed batch.1 batch.2

/-- How many of the jobs cannot be rendered. -/
def failures (s : Schema) (jobs : List Job) : Nat :=
  jobs.countP fun job => !(job.files s).isOk

section Jobs

variable {session : Session} {folder : String} {files : List SourceFile} {later after : Disk}
  {root : String} {s : Schema} {job : Job} {jobs : List Job}

/-- A job that cannot be rendered touches no file. -/
theorem exists_run_report_of_error {fault : RenderFault} (root : String)
    (failed : job.files s = .error fault) :
    ∃ complaints, (job.report root s : StateM Session Bool).run session =
      (false, { session with complaints }) := by
  rw [Job.report, Job.run, failed]
  exact ⟨_, rfl⟩

theorem exists_run_report_of_ok {opened : Disk} (root : String)
    (done : job.files s = .ok files)
    (created : session.disk.createFolders job.folder = (none, opened))
    (takes : opened.Takes (Disk.addressed job.folder files) later) :
    ∃ output, (job.report root s : StateM Session Bool).run session =
      (true, { session with disk := later, output }) := by
  have run : (job.run s : ExceptT Failure (StateM Session) (List String)).run.run session =
      (.ok (files.map fun file => Path.join job.folder file.name),
        { session with disk := later }) := by
    have step : (failing RenderFault.message (job.files s) :
        ExceptT Failure (StateM Session) _).run.run session = (.ok files, session) := by
      rw [done]
      rfl
    exact (run_bind_of_ok step).trans (run_writeFiles_of_takes created takes)
  rw [Job.report, StateT.run_bind, run]
  exact ⟨_, rfl⟩

theorem rendered_cons_of_error {fault : RenderFault} (failed : job.files s = .error fault) :
    rendered s (job :: jobs) = rendered s jobs :=
  List.filterMap_cons_none (by rw [failed]; rfl)

theorem rendered_cons_of_ok (done : job.files s = .ok files) :
    rendered s (job :: jobs) = (job.folder, files) :: rendered s jobs :=
  List.filterMap_cons_some (by rw [done]; rfl)

theorem run_mapM_cons {γ δ : Type} {f : γ → StateM Session δ} {item : γ} {items : List γ}
    {value : δ} {values : List δ} {between last : Session}
    (first : (f item).run session = (value, between))
    (others : (items.mapM f).run between = (values, last)) :
    ((item :: items).mapM f).run session = (value :: values, last) := by
  rw [List.mapM_cons, StateT.run_bind, first]
  show StateT.run (items.mapM f >>= fun values => pure (value :: values)) between = _
  rw [StateT.run_bind, others]
  rfl

theorem count_false_eq_failures :
    (jobs.map fun job => (job.files s).isOk).count false = failures s jobs := by
  rw [List.count, List.countP_map, failures]
  exact List.countP_congr fun job _ => by simp

/-- The jobs that can be rendered leave on the disk what their batches leave there. -/
theorem exists_run_reports (receives : session.disk.Receives (rendered s jobs) after) :
    ∃ later, (jobs.mapM fun job => (job.report root s : StateM Session Bool)).run session =
      (jobs.map fun job => (job.files s).isOk, later) ∧ later.disk = after := by
  induction jobs generalizing session with
  | nil =>
      cases receives
      exact ⟨session, rfl, rfl⟩
  | cons job jobs ih =>
      rw [List.map_cons]
      cases done : job.files s with
      | error fault =>
          rw [rendered_cons_of_error done] at receives
          obtain ⟨complaints, first⟩ := exists_run_report_of_error root done
          obtain ⟨later, others, same⟩ := @ih { session with complaints } receives
          exact ⟨later, run_mapM_cons first others, same⟩
      | ok files =>
          rw [rendered_cons_of_ok done] at receives
          obtain _ | ⟨created, taken, rest⟩ := receives
          obtain ⟨output, first⟩ := exists_run_report_of_ok root done created taken
          obtain ⟨later, others, same⟩ := @ih { session with disk := _, output } rest
          exact ⟨later, run_mapM_cons first others, same⟩

end Jobs

/-! ## The build -/

section Build

variable {session : Session} {cwd folder root : String} {jobs : List Job} {s : Schema}

theorem exists_run_loadSchema (path : String) (session : Session) :
    ∃ outcome : Except Failure Schema,
      (loadSchema path : ExceptT Failure (StateM Session) Schema).run.run session =
        (outcome, session) ∧
      ∀ s, outcome = .ok s ↔
        ∃ text, session.disk.read path = .ok text ∧ Schema.ofText text = .ok s :=
  exists_run_load path _ ("Invalid model " ++ path) Json.ReadError.message Schema.ofText session

/-- A build that cannot be planned ends before anything is written or said. -/
theorem exists_run_build_of_not_planned
    (none : ∀ jobs s, ¬ Planned session.disk (Path.join cwd folder) jobs s) :
    ∃ failure, (build cwd folder : ExceptT Failure (StateM Session) Unit).run.run session =
      (.error failure, session) := by
  rw [build]
  -- each of the three phases leaves the session alone, and if all went well there would be a plan
  obtain ⟨config?, readConfig, isConfig⟩ := exists_run_loadConfig (Path.join cwd folder) session
  cases config? with
  | error failure => exact ⟨failure, run_bind_of_error readConfig⟩
  | ok config =>
    rw [run_bind_of_ok readConfig]
    obtain ⟨jobs?, settleJobs, areJobs⟩ :=
      exists_run_jobs (Path.join cwd folder) config.targets session
    cases jobs? with
    | error failure => exact ⟨failure, run_bind_of_error settleJobs⟩
    | ok jobs =>
      rw [run_bind_of_ok settleJobs]
      obtain ⟨s?, readSchema, isSchema⟩ :=
        exists_run_loadSchema (config.modelPath (Path.join cwd folder)) session
      cases s? with
      | error failure => exact ⟨failure, run_bind_of_error readSchema⟩
      | ok s =>
        obtain ⟨configured, some⟩ := (isConfig config).mp rfl
        exact absurd ⟨config, configured, some, (areJobs jobs).mp rfl, (isSchema s).mp rfl⟩
          (none jobs s)

/-- A build as planned counts the jobs that cannot be rendered. -/
theorem exists_run_build (planned : Planned session.disk (Path.join cwd folder) jobs s)
    {after : Disk} (receives : session.disk.Receives (rendered s jobs) after) :
    ∃ later, (build cwd folder : ExceptT Failure (StateM Session) Unit).run.run session =
      (if failures s jobs = 0 then .ok ()
        else .error { headline := s!"{failures s jobs} of {jobs.length} targets failed" },
        later) ∧ later.disk = after := by
  obtain ⟨config, configured, some, settled, model⟩ := planned
  obtain ⟨config?, readConfig, isConfig⟩ := exists_run_loadConfig (Path.join cwd folder) session
  obtain ⟨jobs?, settleJobs, areJobs⟩ :=
    exists_run_jobs (Path.join cwd folder) config.targets session
  obtain ⟨s?, readSchema, isSchema⟩ :=
    exists_run_loadSchema (config.modelPath (Path.join cwd folder)) session
  obtain rfl := (isConfig config).mpr ⟨configured, some⟩
  obtain rfl := (areJobs jobs).mpr settled
  obtain rfl := (isSchema s).mpr model
  rw [build, run_bind_of_ok readConfig, run_bind_of_ok settleJobs, run_bind_of_ok readSchema]
  obtain ⟨later, reports, same⟩ := @exists_run_reports
    { session with output := session.output ++ s!"🔨 Rendering {jobs.length} targets...\n" }
    after (Path.join cwd folder) s jobs receives
  -- the jobs run inside the build here, and `reports` tells how they run alone
  rw [run_bind_of_ok (run_say _ session), mapM_report_eq_lift,
    run_bind_of_ok (run_lift_of_run reports), run_bind_of_ok (run_say _ later),
    count_false_eq_failures]
  by_cases none : failures s jobs = 0
  · simp only [if_pos none]
    exact ⟨_, rfl, same⟩
  · simp only [if_neg none]
    exact ⟨_, rfl, same⟩

theorem failures_eq_zero_iff :
    failures s jobs = 0 ↔ ∀ job ∈ jobs, ∃ files, job.files s = .ok files := by
  rw [failures, List.countP_eq_zero]
  refine forall₂_congr fun job _ => ?_
  cases job.files s <;> simp [Except.isOk, Except.toBool]

/-- If the configuration cannot be read, names no target or names one that cannot be settled, or if
there is no schema in the document, then the build fails and nothing has happened.  Otherwise there
is a job for every target.  If the disk takes the files of those jobs that can be rendered, then in
the end every place that was written to holds what was written there last, and no other file has
changed.  The build succeeds then unless a job cannot be rendered, and else says how many cannot. -/
theorem build_delivers_what_renders (session : Session) (cwd folder : String) :
    (session.disk.Unbuildable (Path.join cwd folder) →
      ∃ failure, (build cwd folder : ExceptT Failure (StateM Session) Unit).run.run session =
        (.error failure, session)) ∧
    (¬ session.disk.Unbuildable (Path.join cwd folder) →
      ∃ jobs s, Planned session.disk (Path.join cwd folder) jobs s) ∧
    ∀ jobs s, Planned session.disk (Path.join cwd folder) jobs s →
      ∀ after, session.disk.Receives (rendered s jobs) after →
        ∃ result later,
          (build cwd folder : ExceptT Failure (StateM Session) Unit).run.run session =
            (result, later) ∧
          later.disk = after ∧
          (result = .ok () ↔ ∀ job ∈ jobs, ∃ files, job.files s = .ok files) ∧
          (∀ failure, result = .error failure →
            failure = { headline := s!"{failures s jobs} of {jobs.length} targets failed" }) ∧
          (∀ write ∈ written s jobs, ∃ place, after.placeOf write.1 = .ok place) ∧
          ∀ place, after.file? place =
            (after.lastWritten (written s jobs) place).or (session.disk.file? place) := by
  refine ⟨fun reason => ?_, exists_planned_iff.mpr, fun jobs s planned after receives => ?_⟩
  · refine exists_run_build_of_not_planned fun jobs s planned => ?_
    exact exists_planned_iff.mp ⟨jobs, s, planned⟩ reason
  · obtain ⟨later, run, same⟩ := exists_run_build planned receives
    have holds := receives.holds
    refine ⟨_, later, run, same, ?_, ?_, holds.arrives, holds.file?⟩
    · rw [← failures_eq_zero_iff]
      split <;> simp_all
    · intro failure failed
      split at failed
      · cases failed
      · cases failed
        rfl

/-- Events, whose data may be anything. -/
def events : Schema where
  classes := [⟨"Event", [⟨"data", .any⟩]⟩]
  faultless := ClassList.fault?_eq_none.mpr ⟨by decide, by decide, by cbv⟩

/-- Two targets: in Swift there is no type for the data. -/
def eventsConfig : String :=
  "\x7b\"targets\":[\x7b\"language\":\"swift\"\x7d," ++
    "\x7b\"language\":\"objc\",\"outDir\":\"/out\"\x7d]\x7d"

/-- A target in a language that there is not. -/
def oddConfig : String := "\x7b\"targets\":[\x7b\"language\":\"ada\"\x7d]\x7d"

/-- Two projects next to each other. -/
def projects : Disk where
  nodes := [(["events"], .folder), (["events", "jsonmodeler.config.json"], .file eventsConfig),
    (["events", "model.json"], .file events.text),
    (["odd"], .folder), (["odd", "jsonmodeler.config.json"], .file oddConfig)]

theorem configures_odd : projects.Configures "/odd" ⟨"model.json", [⟨"ada", [], none⟩]⟩ := by
  have tokens : Json.tokens oddConfig =
      [.opening .curly, .string "targets", .colon, .opening .square, .opening .curly,
        .string "language", .colon, .string "ada", .closing .curly, .closing .square,
        .closing .curly] := by
    decide +kernel
  refine ⟨oddConfig, rfl, Json.readText_eq ?_⟩
  rw [tokens]
  exact ⟨by decide, by cbv⟩

theorem configures_events : projects.Configures "/events"
    ⟨"model.json", [⟨"swift", [], none⟩, ⟨"objc", [], some "/out"⟩]⟩ := by
  have tokens : Json.tokens eventsConfig =
      [.opening .curly, .string "targets", .colon, .opening .square,
        .opening .curly, .string "language", .colon, .string "swift", .closing .curly, .comma,
        .opening .curly, .string "language", .colon, .string "objc", .comma,
        .string "outDir", .colon, .string "/out", .closing .curly, .closing .square,
        .closing .curly] := by
    decide +kernel
  refine ⟨eventsConfig, rfl, Json.readText_eq ?_⟩
  rw [tokens]
  exact ⟨by decide, by cbv⟩

/-- The job that cannot be rendered. -/
def swiftEvents : Job := ⟨.swift, .swift {}, "/events/generated/swift"⟩

/-- The job that can be rendered. -/
def objectiveCEvents : Job := ⟨.objectiveC, .objectiveC {}, "/out"⟩

theorem planned_events : Planned projects "/events" [swiftEvents, objectiveCEvents] events := by
  have model : Schema.ofText events.text = .ok events := by
    rw [Schema.text, Schema.toJson, Schema.ofText_pretty (by decide)]
    exact Schema.finish_eq_ok_iff.mpr (Schema.ofClasses_eq_ok_iff.mpr rfl)
  refine ⟨_, configures_events, by simp, .cons ?_ (.cons ?_ .nil), _, rfl, model⟩
  · exact ⟨rfl, ⟨_, rfl, rfl⟩, rfl⟩
  · exact ⟨rfl, ⟨_, rfl, rfl⟩, rfl⟩

theorem exists_files_swiftEvents : ∃ fault, swiftEvents.files events = .error fault := by
  have outcome : FailsIff _ _ (Swift.backend.render {} .unlimited events) :=
    Backend.failsIff_render Swift.isFaithful_backend (by decide) rfl rfl
  obtain ⟨fault, failed, _⟩ := outcome.fault
    ⟨_, List.mem_cons_self, _, List.mem_cons_self, 0, .inl .here⟩
  exact ⟨fault, failed⟩

theorem exists_files_objectiveCEvents :
    ∃ header source, objectiveCEvents.files events =
      .ok [⟨"Event.h", header⟩, ⟨"Event.m", source⟩] := by
  have outcome : FailsIff _ _ (ObjectiveC.backend.render {} .unlimited events) :=
    Backend.failsIff_render ObjectiveC.isFaithful_backend (by decide) rfl (by cbv)
  have supported : ¬ ∃ c ∈ events.classes, Language.objectiveC.Rejects c := by decide
  obtain ⟨files, done⟩ := outcome.value supported
  have order : events.inOrder ObjectiveC.backend.order = [⟨"Event", [⟨"data", .any⟩]⟩] := by cbv
  have name : (ObjectiveC.backend.typeNames {} events).get "Event" = .ok "Event" := by cbv
  have names : files.map (·.name) = ["Event.h", "Event.m"] :=
    ObjectiveC.map_name_of_render order name done
  obtain ⟨⟨_, header⟩, others, rfl, rfl, more⟩ := List.map_eq_cons_iff.mp names
  obtain ⟨⟨_, source⟩, none, rfl, rfl, nil⟩ := List.map_eq_cons_iff.mp more
  obtain rfl := List.map_eq_nil_iff.mp nil
  exact ⟨header, source, done⟩

/-- The projects and what is built of them. -/
def delivered (header source : String) : Disk :=
  ((projects.put ["out"] .folder).put ["out", "Event.h"] (.file header)).put ["out", "Event.m"]
    (.file source)

theorem receives_events (header source : String) :
    projects.Receives [("/out", [⟨"Event.h", header⟩, ⟨"Event.m", source⟩])]
      (delivered header source) := by
  have created : projects.createFolders "/out" = (none, projects.put ["out"] .folder) := rfl
  have first : (projects.put ["out"] .folder).write (Path.join "/out" "Event.h") header =
      .ok ((projects.put ["out"] .folder).put ["out", "Event.h"] (.file header)) :=
    Disk.write_eq_ok_iff.mpr ⟨["out", "Event.h"], rfl, nofun, rfl⟩
  have second : ((projects.put ["out"] .folder).put ["out", "Event.h"] (.file header)).write
      (Path.join "/out" "Event.m") source = .ok (delivered header source) :=
    Disk.write_eq_ok_iff.mpr ⟨["out", "Event.m"], rfl, nofun, rfl⟩
  exact .cons created (.cons first (.cons second (.nil _))) (.nil _)

/-- A target in an unknown language keeps its project from being built.  A target that cannot be
rendered is counted, and the other target of its project is on the disk. -/
theorem build_delivers_what_renders_events :
    projects.Unbuildable "/odd" ∧ ¬ projects.Unbuildable "/events" ∧
    (∃ failure, (build "/" "odd" : ExceptT Failure (StateM Session) Unit).run.run
      { disk := projects } = (.error failure, { disk := projects })) ∧
    ∃ header source later,
      Language.objectiveC.render (.objectiveC {}) .unlimited events =
        .ok [⟨"Event.h", header⟩, ⟨"Event.m", source⟩] ∧
      (build "/" "events" : ExceptT Failure (StateM Session) Unit).run.run { disk := projects } =
        (.error { headline := "1 of 2 targets failed" }, later) ∧
      ∀ place, later.disk.file? place =
        if place = ["out", "Event.m"] then some source
        else if place = ["out", "Event.h"] then some header
        else projects.file? place := by
  have odd : projects.Unbuildable "/odd" :=
    .target configures_odd List.mem_cons_self (.unknownLanguage rfl)
  obtain ⟨untouched, _⟩ := build_delivers_what_renders { disk := projects } "/" "odd"
  obtain ⟨_, _, delivers⟩ := build_delivers_what_renders { disk := projects } "/" "events"
  refine ⟨odd, exists_planned_iff.mp ⟨_, _, planned_events⟩, untouched odd, ?_⟩
  obtain ⟨header, source, done⟩ := exists_files_objectiveCEvents
  obtain ⟨fault, failed⟩ := exists_files_swiftEvents
  have batches : rendered events [swiftEvents, objectiveCEvents] =
      [("/out", [⟨"Event.h", header⟩, ⟨"Event.m", source⟩])] :=
    (rendered_cons_of_error failed).trans (rendered_cons_of_ok done)
  have counted : failures events [swiftEvents, objectiveCEvents] = 1 := by
    simp [failures, failed, done, Except.isOk, Except.toBool]
  obtain ⟨result, later, run, same, isOk, isError, _, files⟩ :=
    delivers _ events planned_events (delivered header source)
      (batches ▸ receives_events header source)
  refine ⟨header, source, later, done, ?_, fun place => ?_⟩
  · cases result with
    | ok value =>
        obtain ⟨files, none⟩ := isOk.mp rfl swiftEvents List.mem_cons_self
        cases failed.symm.trans none
    | error failure =>
        rw [run, isError failure rfl, counted]
        rfl
  · have header? : (delivered header source).placeOf (Path.join "/out" "Event.h") =
        .ok ["out", "Event.h"] := rfl
    have source? : (delivered header source).placeOf (Path.join "/out" "Event.m") =
        .ok ["out", "Event.m"] := rfl
    rw [same, files, written, batches, List.flatMap_singleton, Disk.addressed, List.map_cons,
      List.map_singleton, Disk.lastWritten_cons, Disk.lastWritten_cons, header?, source?]
    by_cases isSource : place = ["out", "Event.m"]
    · subst isSource
      simp [Disk.lastWritten]
    · by_cases isHeader : place = ["out", "Event.h"]
      · subst isHeader
        simp [Disk.lastWritten]
      · simp [Disk.lastWritten, isSource, isHeader, Ne.symm isSource, Ne.symm isHeader]

end Build

end Classwright.Command
