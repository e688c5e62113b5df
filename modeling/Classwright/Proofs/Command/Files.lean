/-
# Classwright.Proofs.Command.Files — every file that is rendered is on the disk

The files of a rendering have names of their own, and no name leads out of the folder that the files
are written to.  So if the folder takes each of the files, it holds all of them in the end, each with
its own contents, and nothing else on the disk has changed.
-/

import Mathlib
import Classwright.Command.Host
import Classwright.Proofs.Project.Delivery
import Classwright.Proofs.Render.FileNames

namespace Classwright.Command

variable {folder path contents : String} {place : List String} {file : SourceFile}
  {files : List SourceFile} {session after : Session}

/-! ## Steps that succeed -/

theorem run_write {later : Disk} (written : session.disk.write path contents = .ok later) :
    (Host.write path contents : StateM Session (Except DiskFault Unit)).run session =
      (.ok (), { session with disk := later }) := by
  simp only [Host.write, StateT.run_bind, StateT.run_get, pure_bind, written]
  rfl

theorem run_createFolders {later : Disk}
    (created : session.disk.createFolders path = (none, later)) :
    (Host.createFolders path : StateM Session (Except DiskFault Unit)).run session =
      (.ok (), { session with disk := later }) := by
  simp only [Host.createFolders, StateT.run_bind, StateT.run_get, pure_bind, created]
  rfl

/-- Behind a step that succeeds a command goes on from where the step ended. -/
theorem run_failingAt_bind {α : Type} {headline : String} {message : DiskFault → String}
    {step : StateM Session (Except DiskFault Unit)}
    {rest : Unit → ExceptT Failure (StateM Session) α}
    (done : step.run session = (.ok (), after)) :
    (ExceptT.lift step >>= fun outcome => failingAt headline message outcome >>= rest).run.run
        session = (rest ()).run.run after := by
  simp only [ExceptT.run_bind, ExceptT.run_lift, StateT.run_bind, StateT.run_map, done]
  rfl

/-! ## Writing files -/

/-- The places of the files in the folder, with their contents. -/
def placed (place : List String) (files : List SourceFile) : List (List String × String) :=
  files.map fun file => (place ++ [file.name], file.contents)

/-- A disk that takes the files one after the other holds what it has become by then. -/
theorem run_writeAll {later : Disk}
    (takes : session.disk.Takes (Disk.addressed folder files) later) :
    (writeAll folder files : ExceptT Failure (StateM Session) (List String)).run.run session =
      (.ok (files.map fun file => Path.join folder file.name),
        { session with disk := later }) := by
  induction files generalizing session with
  | nil =>
      cases takes
      rfl
  | cons file files ih =>
      obtain _ | ⟨written, rest⟩ := takes
      rw [writeAll]
      refine (run_failingAt_bind (run_write written)).trans ?_
      rw [ExceptT.run_bind, StateT.run_bind, @ih { session with disk := _ } rest]
      rfl

theorem run_writeFiles_of_takes {opened later : Disk}
    (created : session.disk.createFolders folder = (none, opened))
    (takes : opened.Takes (Disk.addressed folder files) later) :
    (writeFiles folder files : ExceptT Failure (StateM Session) (List String)).run.run session =
      (.ok (files.map fun file => Path.join folder file.name),
        { session with disk := later }) :=
  (run_failingAt_bind (run_createFolders created)).trans
    (@run_writeAll folder files { session with disk := opened } later takes)

/-- One file after the other is put at its place. -/
theorem takes_placed {disk : Disk} (accepts : ∀ file ∈ files, disk.Accepts folder place file.name) :
    disk.Takes (Disk.addressed folder files) (disk.stored (placed place files)) := by
  induction files generalizing disk with
  | nil => exact .nil disk
  | cons file files ih =>
      rw [List.forall_mem_cons] at accepts
      obtain ⟨first, accepts⟩ := accepts
      have others : ∀ other ∈ files, (disk.put (place ++ [file.name])
          (.file file.contents)).Accepts folder place other.name :=
        fun other among => (accepts other among).put first.free
      exact .cons (first.write file.contents) (ih others)

theorem run_writeFiles {disk : Disk} (created : session.disk.createFolders folder = (none, disk))
    (accepts : ∀ file ∈ files, disk.Accepts folder place file.name) :
    (writeFiles folder files : ExceptT Failure (StateM Session) (List String)).run.run session =
      (.ok (files.map fun file => Path.join folder file.name),
        { session with disk := disk.stored (placed place files) }) :=
  run_writeFiles_of_takes created (takes_placed accepts)

section Placed

variable {disk : Disk}

theorem map_fst_placed (place : List String) (files : List SourceFile) :
    (placed place files).map Prod.fst = files.map fun file => place ++ [file.name] :=
  List.map_map

/-- Files with different names have different places in a folder. -/
theorem nodup_places (apart : (files.map (·.name)).Nodup) (place : List String) :
    (files.map fun file => place ++ [file.name]).Nodup := by
  have own : (files.map fun file => place ++ [file.name]) =
      (files.map (·.name)).map fun name => place ++ [name] := by
    rw [List.map_map]
    rfl
  rw [own]
  exact apart.map fun name other same => by simpa using same

/-- After all files have been put at their places, each is found there. -/
theorem read_stored_placed (apart : (files.map (·.name)).Nodup)
    (accepts : ∀ file ∈ files, disk.Accepts folder place file.name) :
    ∀ file ∈ files,
      (disk.stored (placed place files)).placeOf (Path.join folder file.name) =
          .ok (place ++ [file.name]) ∧
        (disk.stored (placed place files)).read (Path.join folder file.name) =
          .ok file.contents := by
  have free : ∀ entry ∈ placed place files, disk.node? entry.1 ≠ some .folder := by
    rw [placed, List.forall_mem_map]
    exact fun file among => (accepts file among).free
  have below : ∀ entry ∈ placed place files, entry.1 ≠ [] := by
    rw [placed, List.forall_mem_map]
    simp
  have distinct : ((placed place files).map Prod.fst).Nodup := by
    rw [map_fst_placed]
    exact nodup_places apart place
  intro file among
  have leads := ((accepts file among).stored free).leads
  have found : (disk.stored (placed place files)).node? (place ++ [file.name]) =
      some (.file file.contents) :=
    Disk.node?_stored below distinct (place ++ [file.name], file.contents)
      (List.mem_map_of_mem among)
  refine ⟨leads, ?_⟩
  rw [Disk.read, leads]
  simp only [found]

end Placed

/-! ## All files of a rendering -/

theorem proper_of_isFileName {language : Language} {name : String}
    (own : language.IsFileName name) :
    '/' ∉ name.toList ∧ '\\' ∉ name.toList ∧ name ∉ ["", ".", ".."] := by
  have other {c : Char} (none : Text.isIdentifierPart c = false) (apart : c ≠ '.') :
      c ∉ name.toList := by
    intro among
    rcases own.isIdentifierPart_or_dot c among with part | dot
    · exact Bool.false_ne_true (none.symm.trans part)
    · exact apart dot
  obtain ⟨first, rest, eq, part⟩ := own.exists_toList_eq
  refine ⟨other rfl (by decide), other rfl (by decide), ?_⟩
  simp only [List.mem_cons, List.not_mem_nil, or_false, not_or]
  refine ⟨?_, ?_, ?_⟩
  · rintro rfl
    cases eq
  all_goals
    rintro rfl
    cases eq
    exact absurd part (by decide)

/-- The folder leads to one place, where it takes all of the files. -/
theorem exists_accepts {language : Language} {disk : Disk}
    (names : ∀ file ∈ files, language.IsFileName file.name)
    (writable : ∀ file ∈ files, ∃ later,
      disk.write (Path.join folder file.name) file.contents = .ok later) :
    ∃ place, (files ≠ [] → disk.placeOf folder = .ok place ∧ disk.node? place = some .folder) ∧
      ∀ file ∈ files, disk.Accepts folder place file.name := by
  have each : ∀ file ∈ files, ∃ place, disk.placeOf folder = .ok place ∧
      disk.node? place = some .folder ∧ disk.Accepts folder place file.name := by
    intro file among
    obtain ⟨plain, _, proper⟩ := proper_of_isFileName (names file among)
    obtain ⟨later, written⟩ := writable file among
    exact Disk.exists_accepts_of_write plain proper written
  cases files with
  | nil => exact ⟨[], fun some => absurd rfl some, List.forall_mem_nil _⟩
  | cons file files =>
      obtain ⟨place, leads, there, _⟩ := each file List.mem_cons_self
      refine ⟨place, fun _ => ⟨leads, there⟩, fun other among => ?_⟩
      -- the folder leads to one place only, so it is the same for all files
      obtain ⟨again, leadsAgain, _, accepts⟩ := each other among
      rw [leads] at leadsAgain
      cases leadsAgain
      exact accepts

/-- The files of a rendering have names of their own, each an identifier with an extension of the
language, so none leads out of the folder that it is written to.  If that folder is there or can be
created, and each of the files could be written there, then all of them are: each is at a place of
its own right inside the folder and holds its contents, and no other place has changed. -/
theorem written_apart_of_render {language : Language} {settings : Settings} {budget : Budget}
    {s : Schema} (done : language.render settings budget s = .ok files) :
    (files.map (·.name)).Nodup ∧
    (∀ file ∈ files, language.IsFileName file.name ∧
      '/' ∉ file.name.toList ∧ '\\' ∉ file.name.toList ∧ file.name ∉ ["", ".", ".."]) ∧
    ∀ session folder disk, session.disk.createFolders folder = (none, disk) →
      (∀ file ∈ files, ∃ later,
        disk.write (Path.join folder file.name) file.contents = .ok later) →
      ∃ place after,
        (writeFiles folder files : ExceptT Failure (StateM Session) (List String)).run.run session =
          (.ok (files.map fun file => Path.join folder file.name), { session with disk := after }) ∧
        (files ≠ [] → disk.placeOf folder = .ok place ∧ disk.node? place = some .folder) ∧
        (files.map fun file => place ++ [file.name]).Nodup ∧
        (∀ file ∈ files,
          after.placeOf (Path.join folder file.name) = .ok (place ++ [file.name]) ∧
            after.read (Path.join folder file.name) = .ok file.contents) ∧
        ∀ other ∉ files.map fun file => place ++ [file.name],
          after.node? other = disk.node? other := by
  obtain ⟨stems, distinct, identifiers, eq⟩ := exists_stems_of_render done
  have apart : (files.map (·.name)).Nodup := by
    rw [eq]
    exact Language.nodup_fileNames distinct fun stem among =>
      Text.isIdentifierPart_of_isIdentifier (identifiers stem among)
  have names : ∀ file ∈ files, language.IsFileName file.name := by
    intro file among
    refine Language.isFileName_of_mem identifiers ?_
    rw [← eq]
    exact List.mem_map_of_mem among
  refine ⟨apart, fun file among => ⟨names file among, proper_of_isFileName (names file among)⟩,
    fun session folder disk created writable => ?_⟩
  obtain ⟨place, there, accepts⟩ := exists_accepts names writable
  refine ⟨place, disk.stored (placed place files), run_writeFiles created accepts, there,
    nodup_places apart place, read_stored_placed apart accepts, fun other elsewhere => ?_⟩
  rw [← map_fst_placed] at elsewhere
  exact Disk.node?_stored_of_notMem elsewhere

/-- Both files for marks in Objective-C are on an empty disk afterwards. -/
theorem written_apart_of_render_marks :
    ∃ files after,
      Language.objectiveC.render (.initial .objectiveC) .unlimited .marks = .ok files ∧
      (writeFiles "/out" files : ExceptT Failure (StateM Session) (List String)).run.run
          { disk := .empty } = (.ok ["/out/Mark.h", "/out/Mark.m"], { disk := after }) ∧
      ∀ file ∈ files, after.read (Path.join "/out" file.name) = .ok file.contents := by
  obtain ⟨files, done⟩ := exists_render_marks .objectiveC
  have names := ObjectiveC.map_name_of_render_marks done
  have created : Disk.empty.createFolders "/out" = (none, ⟨[(["out"], .folder)]⟩) := rfl
  have writable : ∀ file ∈ files, ∃ later, Disk.write ⟨[(["out"], .folder)]⟩
      (Path.join "/out" file.name) file.contents = .ok later := by
    intro file among
    have leads : ∀ name ∈ ["Mark.h", "Mark.m"], Disk.placeOf ⟨[(["out"], .folder)]⟩
        (Path.join "/out" name) = .ok ["out", name] :=
      List.forall_mem_cons.mpr ⟨rfl, List.forall_mem_singleton.mpr rfl⟩
    have listed : file.name ∈ ["Mark.h", "Mark.m"] := names ▸ List.mem_map_of_mem among
    have free : Disk.node? ⟨[(["out"], .folder)]⟩ ["out", file.name] ≠ some .folder := by
      have apart : (["out", file.name] == ["out"]) = false := by simp
      simp [Disk.node?, List.lookup_cons, apart]
    rw [Disk.write, leads _ listed]
    exact ⟨_, if_neg free⟩
  obtain ⟨_, _, onDisk⟩ := written_apart_of_render done
  obtain ⟨place, after, run, _, _, read, _⟩ := onDisk { disk := .empty } "/out" _ created writable
  refine ⟨files, after, done, ?_, fun file among => (read file among).2⟩
  have paths : (files.map fun file => Path.join "/out" file.name) =
      (files.map (·.name)).map (Path.join "/out") := by
    rw [List.map_map]
    rfl
  rw [run, paths, names]
  rfl

end Classwright.Command
