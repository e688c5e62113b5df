/-
# Classwright.Proofs.Project.Delivery — batches of files on a disk

Batches of files are delivered one after the other, each into a folder that is created for it.  A
folder comes where there was nothing (`createFolder_eq_ok_iff`), and a file where there is no folder
(`write_eq_ok_iff`), so a path that once leads to a place does so from then on (`LeadsOn`).  Hence
what a file holds in the end can be told from the disk as it is then: it holds what the last write
that leads there brought, or else what it held before (`Receives.file?`).
-/

import Classwright.Proofs.Project.Disk
import Classwright.Render.Backend

namespace Classwright.Disk

variable {disk later after : Disk} {place : List String} {path folder contents : String}
  {writes more : List (String × String)}

/-! ## Single steps -/

/-- The contents of the file at a place, if there is one. -/
def file? (disk : Disk) (place : List String) : Option String :=
  match disk.node? place with
  | some (.file contents) => some contents
  | _ => none

/-- Paths that lead somewhere still lead there. -/
def LeadsOn (disk later : Disk) : Prop :=
  ∀ path place, disk.placeOf path = .ok place → later.placeOf path = .ok place

theorem LeadsOn.refl (disk : Disk) : disk.LeadsOn disk := fun _ _ leads => leads

theorem LeadsOn.trans (first : disk.LeadsOn later) (second : later.LeadsOn after) :
    disk.LeadsOn after :=
  fun path place leads => second path place (first path place leads)

theorem createFolder_eq_ok_iff :
    disk.createFolder path = .ok later ↔ ∃ place, disk.placeOf (withoutSlashes path) = .ok place ∧
      disk.node? place = none ∧ disk.put place .folder = later := by
  unfold createFolder
  cases disk.placeOf (withoutSlashes path) with
  | error fault => simp
  | ok place => cases there : disk.node? place <;> simp [there]

theorem write_eq_ok_iff :
    disk.write path contents = .ok later ↔ ∃ place, disk.placeOf path = .ok place ∧
      disk.node? place ≠ some .folder ∧ disk.put place (.file contents) = later := by
  unfold write
  cases disk.placeOf path with
  | error fault => simp
  | ok place => by_cases there : disk.node? place = some .folder <;> simp [there]

theorem leadsOn_put {node : DiskNode} (free : disk.node? place ≠ some .folder) :
    disk.LeadsOn (disk.put place node) :=
  fun _ _ leads => placeOf_put free leads

/-- The root is a folder. -/
theorem ne_root_of_free (free : disk.node? place ≠ some .folder) : place ≠ [] := by
  rintro rfl
  exact free rfl

/-! ## Folders -/

/-- Creating a folder leads no path elsewhere, and no file changes. -/
structure OnlyFolders (disk later : Disk) : Prop where
  leads : disk.LeadsOn later
  files : ∀ place, later.file? place = disk.file? place

namespace OnlyFolders

theorem refl (disk : Disk) : disk.OnlyFolders disk := ⟨.refl disk, fun _ => rfl⟩

theorem trans (first : disk.OnlyFolders later) (second : later.OnlyFolders after) :
    disk.OnlyFolders after where
  leads := first.leads.trans second.leads
  files place := (second.files place).trans (first.files place)

theorem createFolder (created : disk.createFolder path = .ok later) :
    disk.OnlyFolders later := by
  obtain ⟨target, _, empty, rfl⟩ := createFolder_eq_ok_iff.mp created
  have free : disk.node? target ≠ some .folder := by
    rw [empty]
    nofun
  refine ⟨leadsOn_put free, fun place => ?_⟩
  by_cases own : place = target
  · subst own
    rw [file?, file?, node?_put (ne_root_of_free free), empty]
  · rw [file?, file?, node?_put_of_ne own]

/-- What was created before a fault remains, but that is folders too. -/
theorem createUpward (paths : List String) (disk : Disk) :
    disk.OnlyFolders (Disk.createUpward paths disk).2 := by
  fun_induction Disk.createUpward paths disk with
  | case1 disk => exact refl disk
  | case2 path above disk later created => exact createFolder created
  | case3 path above disk missing fault later failed ih =>
      rw [failed] at ih
      exact ih
  | case4 path above disk missing between done later created ih =>
      rw [done] at ih
      exact ih.trans (createFolder created)
  | case5 path above disk missing between done fault failed ih =>
      rw [done] at ih
      exact ih
  | case6 path above disk fault failed present => exact refl disk

theorem createFolders (created : disk.createFolders path = (none, later)) :
    disk.OnlyFolders later := by
  have folders := createUpward (Path.upward path) disk
  rw [← Disk.createFolders, created] at folders
  exact folders

end OnlyFolders

/-! ## Files one after the other -/

/-- What the last of the writes that lead to the place brings there. -/
def lastWritten (disk : Disk) (writes : List (String × String)) (place : List String) :
    Option String :=
  (writes.reverse.find? fun write => disk.placeOf write.1 = .ok place).map Prod.snd

theorem lastWritten_append :
    disk.lastWritten (writes ++ more) place =
      (disk.lastWritten more place).or (disk.lastWritten writes place) := by
  rw [lastWritten, List.reverse_append, List.find?_append, Option.map_or]
  rfl

theorem lastWritten_cons :
    disk.lastWritten ((path, contents) :: writes) place =
      (disk.lastWritten writes place).or
        (if disk.placeOf path = .ok place then some contents else none) := by
  rw [← List.singleton_append, lastWritten_append]
  congr 1
  by_cases leads : disk.placeOf path = .ok place <;> simp [lastWritten, leads]

/-- The disk takes the writes one after the other. -/
inductive Takes : Disk → List (String × String) → Disk → Prop
  | nil (disk : Disk) : Takes disk [] disk
  | cons {disk later after : Disk} {path contents : String} {writes : List (String × String)}
    (written : disk.write path contents = .ok later) (rest : Takes later writes after) :
    Takes disk ((path, contents) :: writes) after

/-- What writes leave behind: every path still leads where it led, every written path leads
somewhere, and each file holds what was written there last, or else what it held before. -/
structure Holds (disk : Disk) (writes : List (String × String)) (after : Disk) : Prop where
  leads : disk.LeadsOn after
  arrives : ∀ write ∈ writes, ∃ place, after.placeOf write.1 = .ok place
  file? : ∀ place, after.file? place = (after.lastWritten writes place).or (disk.file? place)

namespace Holds

theorem of_onlyFolders (folders : disk.OnlyFolders after) : disk.Holds [] after :=
  ⟨folders.leads, List.forall_mem_nil _, folders.files⟩

/-- A path that led somewhere does not lead elsewhere later, so the last write of all is the last of
the later ones, or else the last of the earlier ones. -/
theorem append (first : disk.Holds writes later) (second : later.Holds more after) :
    disk.Holds (writes ++ more) after where
  leads := first.leads.trans second.leads
  arrives := by
    rw [List.forall_mem_append]
    refine ⟨fun write among => ?_, second.arrives⟩
    obtain ⟨place, leads⟩ := first.arrives write among
    exact ⟨place, second.leads _ _ leads⟩
  file? place := by
    have same : ∀ write ∈ writes,
        (after.placeOf write.1 = .ok place ↔ later.placeOf write.1 = .ok place) := by
      intro write among
      obtain ⟨target, leads⟩ := first.arrives write among
      rw [leads, second.leads _ _ leads]
    have earlier : after.lastWritten writes place = later.lastWritten writes place := by
      rw [lastWritten, lastWritten, List.find?_congr]
      intro write among
      exact decide_eq_decide.mpr (same write (List.mem_reverse.mp among))
    rw [second.file?, first.file?, lastWritten_append, Option.or_assoc, earlier]

theorem write (written : disk.write path contents = .ok after) :
    disk.Holds [(path, contents)] after := by
  obtain ⟨target, leads, free, rfl⟩ := write_eq_ok_iff.mp written
  have leadsOn : disk.LeadsOn (disk.put target (.file contents)) := leadsOn_put free
  have arrives := leadsOn _ _ leads
  refine ⟨leadsOn, List.forall_mem_singleton.mpr ⟨target, arrives⟩, fun place => ?_⟩
  rw [lastWritten_cons, arrives]
  by_cases own : place = target
  · subst own
    rw [Disk.file?, node?_put (ne_root_of_free free), if_pos rfl]
    rfl
  · have elsewhere : (Except.ok target : Except DiskFault (List String)) ≠ .ok place :=
      fun same => own (Except.ok.inj same).symm
    rw [Disk.file?, node?_put_of_ne own, if_neg elsewhere]
    rfl

end Holds

theorem Takes.holds (takes : disk.Takes writes after) : disk.Holds writes after := by
  induction takes with
  | nil disk => exact .of_onlyFolders (.refl disk)
  | cons written rest ih => exact (Holds.write written).append ih

/-! ## Batches -/

/-- The files of a batch by their paths. -/
def addressed (folder : String) (files : List SourceFile) : List (String × String) :=
  files.map fun file => (Path.join folder file.name, file.contents)

/-- The disk takes batches of files one after the other, each in a folder that is created for it. -/
inductive Receives : Disk → List (String × List SourceFile) → Disk → Prop
  | nil (disk : Disk) : Receives disk [] disk
  | cons {disk opened later after : Disk} {folder : String} {files : List SourceFile}
    {batches : List (String × List SourceFile)}
    (created : disk.createFolders folder = (none, opened))
    (taken : opened.Takes (addressed folder files) later) (rest : Receives later batches after) :
    Receives disk ((folder, files) :: batches) after

/-- Every file holds what the last of all writes brought to its place, or what it held before. -/
theorem Receives.holds {batches : List (String × List SourceFile)}
    (receives : disk.Receives batches after) :
    disk.Holds (batches.flatMap fun batch => addressed batch.1 batch.2) after := by
  induction receives with
  | nil disk => exact .of_onlyFolders (.refl disk)
  | cons created taken rest ih =>
      have opened := Holds.of_onlyFolders (.createFolders created)
      exact (opened.append taken.holds).append ih

end Classwright.Disk
