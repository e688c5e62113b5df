/-
# Classwright.Proofs.Project.Disk — what is written stays where it is written

A file is put at one place, and every other place keeps what it had.  Paths are followed through
folders only, so a file that is put where there is no folder does not lead any path elsewhere.  Hence
files that each could be written alone (`Accepts`) can be written one after the other, and if their
places differ, none of them is lost (`stored`).
-/

import Mathlib
import Classwright.Project.Disk
import Classwright.Proofs.Text.Lines

namespace Classwright

/-! ## Parts of a path -/

namespace Path

variable {folder name : String}

/-- A name that is put behind a folder goes on like that. -/
theorem exists_join_eq (plain : '/' ∉ name.toList) : ∃ rest, join folder name = folder ++ rest := by
  have relative : isAbsolute name = false :=
    decide_eq_false fun first => plain (List.mem_of_mem_head? first)
  unfold join
  rw [relative, Bool.false_or]
  split
  · next root =>
    rw [of_decide_eq_true root]
    exact ⟨name, String.empty_append.symm⟩
  · split
    · exact ⟨name, rfl⟩
    · exact ⟨"/" ++ name, String.append_assoc⟩

/-- The name is the last part of its path, and the others are those of the folder, up to an empty
one. -/
theorem exists_parts_join (plain : '/' ∉ name.toList) :
    ∃ above, parts (join folder name) = above ++ [name] ∧
      (folder = "" ∧ above = [] ∨ parts folder = above ∨ parts folder = above ++ [""]) := by
  have relative : isAbsolute name = false :=
    decide_eq_false fun first => plain (List.mem_of_mem_head? first)
  have alone : parts name = [name] := by
    rw [parts, Text.parts, Text.splitChars_of_notMem plain, List.map_singleton,
      String.ofList_toList]
  have behind {path : String} {front back : List Char} (eq : path.toList = front ++ '/' :: back) :
      parts path = parts (String.ofList front) ++ parts (String.ofList back) := by
    simp only [parts, Text.parts, eq, Text.splitChars_append, List.map_append, String.toList_ofList]
  unfold join
  rw [relative, Bool.false_or]
  split
  · next root => exact ⟨[], alone, .inl ⟨of_decide_eq_true root, rfl⟩⟩
  · split
    · next open_ =>
      obtain ⟨front, eq⟩ := List.getLast?_eq_some_iff.mp (of_decide_eq_true open_)
      refine ⟨parts (String.ofList front), ?_, .inr (.inr (behind eq))⟩
      have whole : (folder ++ name).toList = front ++ '/' :: name.toList := by
        rw [String.toList_append, eq, List.append_assoc, List.singleton_append]
      rw [behind whole, String.ofList_toList, alone]
    · refine ⟨parts folder, ?_, .inr (.inl rfl)⟩
      have whole : (folder ++ "/" ++ name).toList = folder.toList ++ '/' :: name.toList := by
        simp
      rw [behind whole, String.ofList_toList, String.ofList_toList, alone]

end Path

namespace Disk

variable {disk : Disk} {place target other last : List String} {node : DiskNode}
  {folder name path contents : String}

/-! ## What is put at a place -/

theorem node?_put (below : target ≠ []) : (disk.put target node).node? target = some node := by
  rw [node?, if_neg (by simpa using below), put]
  exact List.lookup_cons_self

theorem node?_put_of_ne (apart : other ≠ target) :
    (disk.put target node).node? other = disk.node? other := by
  have others (nodes : List (List String × DiskNode)) :
      (nodes.filter fun entry => decide (entry.1 ≠ target)).lookup other = nodes.lookup other := by
    induction nodes with
    | nil => rfl
    | cons entry nodes ih =>
        by_cases own : entry.1 = target
        · have missed : (other == entry.1) = false := beq_eq_false_iff_ne.mpr (own ▸ apart)
          rw [List.filter_cons_of_neg (by simpa using own), ih, List.lookup_cons, missed]
        · rw [List.filter_cons_of_pos (by simpa using own), List.lookup_cons, List.lookup_cons, ih]
  have missed : (other == target) = false := beq_eq_false_iff_ne.mpr apart
  unfold node? put
  rw [List.lookup_cons, missed, others]

/-- A place with a file is no folder, and the others keep what they have. -/
theorem node?_put_file_ne_folder (free : disk.node? other ≠ some .folder) :
    (disk.put target (.file contents)).node? other ≠ some .folder := by
  by_cases own : other = target
  · subst own
    have below : other ≠ [] := by
      rintro rfl
      exact free rfl
    rw [node?_put below]
    nofun
  · rwa [node?_put_of_ne own]

/-! ## Following paths -/

/-- Each part leads on from a folder. -/
theorem follow_cons_eq_ok_iff {part : String} {parts : List String} :
    disk.follow place (part :: parts) = .ok last ↔ disk.node? place = some .folder ∧
      if Path.isIdle part then disk.follow place parts = .ok last
      else if part = ".." then disk.follow place.dropLast parts = .ok last
      else part.utf8ByteSize ≤ maxNameBytes ∧ disk.follow (place ++ [part]) parts = .ok last := by
  rw [follow]
  cases disk.node? place with
  | none => simp
  | some node =>
      cases node with
      | file contents => simp
      | folder =>
          simp only [true_and]
          split
          · rfl
          · split
            · rfl
            · split
              · next long => exact iff_of_false nofun fun short => absurd short.1 (by omega)
              · next short => simp only [Nat.not_lt.mp short, true_and]

theorem follow_append_eq_ok_iff {parts others : List String} :
    disk.follow place (parts ++ others) = .ok last ↔
      ∃ between, disk.follow place parts = .ok between ∧ disk.follow between others = .ok last := by
  induction parts generalizing place with
  | nil => simp [follow]
  | cons part parts ih =>
      rw [List.cons_append, follow_cons_eq_ok_iff]
      simp only [follow_cons_eq_ok_iff]
      split
      · simp [ih, and_assoc]
      · split
        · simp [ih, and_assoc]
        · simp [ih, and_assoc]

/-- Where there is no folder no path leads through, so something else may be put there. -/
theorem follow_put (free : disk.node? target ≠ some .folder) {parts : List String}
    (leads : disk.follow place parts = .ok last) :
    (disk.put target node).follow place parts = .ok last := by
  induction parts generalizing place with
  | nil => exact leads
  | cons part parts ih =>
      rw [follow_cons_eq_ok_iff] at leads ⊢
      obtain ⟨folder, leads⟩ := leads
      -- a way leads through folders only, so not through the target
      have apart : place ≠ target := by
        rintro rfl
        exact free folder
      refine ⟨by rwa [node?_put_of_ne apart], ?_⟩
      split at leads
      · next idle =>
        rw [if_pos idle]
        exact ih leads
      · next busy =>
        rw [if_neg busy]
        split at leads
        · next up =>
          rw [if_pos up]
          exact ih leads
        · next down =>
          rw [if_neg down]
          exact ⟨leads.1, ih leads.2⟩

theorem placeOf_eq_ok_iff :
    disk.placeOf path = .ok place ↔ '\x00' ∉ path.toList ∧ path.utf8ByteSize ≤ maxPathBytes ∧
      disk.follow [] (Path.parts path) = .ok place := by
  unfold placeOf
  split
  · next nul => simp [nul]
  · next sound =>
    split
    · next long => exact iff_of_false nofun fun short => absurd short.2.1 (by omega)
    · next short => simp only [sound, not_false_eq_true, Nat.not_lt.mp short, true_and]

theorem placeOf_put (free : disk.node? target ≠ some .folder)
    (leads : disk.placeOf path = .ok place) :
    (disk.put target node).placeOf path = .ok place := by
  rw [placeOf_eq_ok_iff] at leads ⊢
  exact ⟨leads.1, leads.2.1, follow_put free leads.2.2⟩

/-! ## Files in a folder -/

/-- The path of the name below the folder leads to the place of the folder and on to the name, and
no folder is there. -/
structure Accepts (disk : Disk) (folder : String) (place : List String) (name : String) : Prop where
  leads : disk.placeOf (Path.join folder name) = .ok (place ++ [name])
  free : disk.node? (place ++ [name]) ≠ some .folder

theorem Accepts.write (accepts : disk.Accepts folder place name) (contents : String) :
    disk.write (Path.join folder name) contents =
      .ok (disk.put (place ++ [name]) (.file contents)) := by
  rw [Disk.write, accepts.leads]
  exact if_neg accepts.free

/-- Another file is not in the way. -/
theorem Accepts.put (accepts : disk.Accepts folder place name)
    (free : disk.node? target ≠ some .folder) :
    (disk.put target (.file contents)).Accepts folder place name where
  leads := placeOf_put free accepts.leads
  free := node?_put_file_ne_folder accepts.free

/-- A name that leads nowhere else is accepted by the folder if it can be written there at all. -/
theorem exists_accepts_of_write (plain : '/' ∉ name.toList) (proper : name ∉ ["", ".", ".."])
    {later : Disk} (written : disk.write (Path.join folder name) contents = .ok later) :
    ∃ place, disk.placeOf folder = .ok place ∧ disk.node? place = some .folder ∧
      disk.Accepts folder place name := by
  simp only [List.mem_cons, List.not_mem_nil, or_false, not_or] at proper
  obtain ⟨filled, notHere, notUp⟩ := proper
  have busy : Path.isIdle name = false := by simp [Path.isIdle, filled, notHere]
  unfold Disk.write at written
  split at written
  · cases written
  · next last leads =>
    split at written
    · cases written
    · next free =>
      have sound := placeOf_eq_ok_iff.mp leads
      obtain ⟨above, parts, own⟩ := @Path.exists_parts_join folder name plain
      obtain ⟨rest, whole⟩ := @Path.exists_join_eq folder name plain
      rw [parts, follow_append_eq_ok_iff] at sound
      -- the way to the file is the way to the folder and one part more
      obtain ⟨noNul, short, place, leadsAbove, leadsOn⟩ := sound
      rw [follow_cons_eq_ok_iff, if_neg (by simp [busy]), if_neg notUp] at leadsOn
      obtain ⟨there, _, ends⟩ := leadsOn
      obtain rfl : place ++ [name] = last := Except.ok.inj ends
      refine ⟨place, placeOf_eq_ok_iff.mpr ⟨?_, ?_, ?_⟩, there, leads, free⟩
      · rw [whole, String.toList_append, List.mem_append, not_or] at noNul
        exact noNul.1
      · rw [whole, String.utf8ByteSize_append] at short
        omega
      · rcases own with ⟨rfl, rfl⟩ | own | own
        · cases leadsAbove
          rfl
        · rwa [own]
        · rw [own, follow_append_eq_ok_iff]
          exact ⟨place, leadsAbove, follow_cons_eq_ok_iff.mpr ⟨there, rfl⟩⟩

/-- The disk with files put at their places. -/
def stored (disk : Disk) (entries : List (List String × String)) : Disk :=
  entries.foldl (fun disk entry => disk.put entry.1 (.file entry.2)) disk

variable {entries : List (List String × String)}

theorem node?_stored_of_notMem (apart : other ∉ entries.map Prod.fst) :
    (disk.stored entries).node? other = disk.node? other := by
  induction entries generalizing disk with
  | nil => rfl
  | cons entry entries ih =>
      rw [List.map_cons, List.mem_cons, not_or] at apart
      exact (ih apart.2).trans (node?_put_of_ne apart.1)

/-- Every file is found at its place if no two share one. -/
theorem node?_stored (below : ∀ entry ∈ entries, entry.1 ≠ [])
    (distinct : (entries.map Prod.fst).Nodup) :
    ∀ entry ∈ entries, (disk.stored entries).node? entry.1 = some (.file entry.2) := by
  induction entries generalizing disk with
  | nil => simp
  | cons entry entries ih =>
      rw [List.forall_mem_cons] at below
      obtain ⟨new, distinct⟩ := List.nodup_cons.mp distinct
      rw [List.forall_mem_cons]
      refine ⟨?_, ih below.2 distinct⟩
      exact (node?_stored_of_notMem new).trans (node?_put below.1)

theorem Accepts.stored (accepts : disk.Accepts folder place name)
    (free : ∀ entry ∈ entries, disk.node? entry.1 ≠ some .folder) :
    (disk.stored entries).Accepts folder place name := by
  induction entries generalizing disk with
  | nil => exact accepts
  | cons entry entries ih =>
      rw [List.forall_mem_cons] at free
      exact ih (accepts.put free.1) fun other among => node?_put_file_ne_folder (free.2 other among)

end Disk

end Classwright
