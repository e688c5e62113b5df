/-
# Classwright.Project.Disk — paths, and a file system as a value

A path is a text whose parts stand between slashes.  Paths are joined and shortened as they are
written and never tidied: empty parts and parts that say "here" stay where they are, except at
the ends of what is left of a path that has been shortened.  What `..` means is for the file system
to say.

A disk maps places to files and folders.  A place is the list of names from the root to it; a path
is followed part by part, and every part but the last name must lead through a folder that is there.

The folder that a path names is created together with the folders above it.  Each folder above is
created as the path spells it, one part shorter each time, so a path may lead through a folder that
exists only because of an earlier part, as in `new/../other`.
-/

import Classwright.Text.Words

/-! ## Paths -/

namespace Classwright.Path

/-- Does the path start at the root? -/
def isAbsolute (path : String) : Bool := path.toList.head? = some '/'

/-- Does the path end in a slash? -/
def endsOpen (path : String) : Bool := path.toList.getLast? = some '/'

/-- The path that leads on from another one; an absolute path leads nowhere but to itself. -/
def join (left right : String) : String :=
  if isAbsolute right || left = "" then right
  else if endsOpen left then left ++ right
  else left ++ "/" ++ right

/-- The parts between the slashes. -/
def parts (path : String) : List String := Text.parts '/' path

/-- The path with these parts. -/
def ofParts (parts : List String) : String := String.intercalate "/" parts

/-- Does the part lead nowhere? -/
def isIdle (part : String) : Bool := part = "" || part = "."

/-- The parts without those that lead nowhere at both ends. -/
def trimParts (parts : List String) : List String :=
  ((parts.dropWhile isIdle).reverse.dropWhile isIdle).reverse

/-- What follows the given parts, which lead somewhere, in a list of parts. -/
def partsBelow? : List String → List String → Option (List String)
  | [], parts => some parts
  | name :: names, parts =>
    match parts.dropWhile isIdle with
    | [] => none
    | part :: rest => if part = name then partsBelow? names rest else none

/-- The rest of an absolute path below an absolute folder. -/
def below? (folder path : String) : Option String :=
  (partsBelow? ((parts folder).filter (!isIdle ·)) (parts path)).map fun rest =>
    ofParts (trimParts rest)

/-- The path as seen from a folder: its rest, if it is below the folder, else the path itself. -/
def seenFrom (folder path : String) : String := (below? folder path).getD path

/-- The folders above a path whose parts are given from the last to the first, the nearest folder
first. -/
def partsAbove : List String → List (List String)
  | [] => []
  | part :: rest =>
    if isIdle part then partsAbove rest else rest.dropWhile isIdle :: partsAbove rest

/-- An absolute path and the folders above it, the root last. -/
def upward (path : String) : List String :=
  path :: (partsAbove (parts path).reverse).map fun above =>
    if above.isEmpty then "/" else ofParts above.reverse

end Classwright.Path

/-! ## Disks -/

namespace Classwright

/-- Why a disk refuses. -/
inductive DiskFault where
  | missing
  | exists
  | notFolder
  | isFolder
  | nameTooLong
  | nulInName
  /-- Another reason, as the system words it. -/
  | other (reason : String)
  deriving DecidableEq, Repr

/-- The fault in words. -/
def DiskFault.message : DiskFault → String
  | .missing => "No such file or directory (os error 2)"
  | .exists => "File exists (os error 17)"
  | .notFolder => "Not a directory (os error 20)"
  | .isFolder => "Is a directory (os error 21)"
  | .nameTooLong => "File name too long (os error 36)"
  | .nulInName => "file name contained an unexpected NUL byte"
  | .other reason => reason

/-- What there is at a place. -/
inductive DiskNode where
  | folder
  | file (contents : String)
  deriving DecidableEq, Repr

/-- Files and folders by their places.  The root is always there. -/
structure Disk where
  nodes : List (List String × DiskNode)
  deriving Repr

namespace Disk

/-- A disk with no files. -/
def empty : Disk := ⟨[]⟩

/-- What there is at a place. -/
def node? (disk : Disk) (place : List String) : Option DiskNode :=
  if place.isEmpty then some .folder else disk.nodes.lookup place

/-- The disk with a node put at a place. -/
def put (disk : Disk) (place : List String) (node : DiskNode) : Disk :=
  ⟨(place, node) :: disk.nodes.filter (·.1 ≠ place)⟩

/-- The most bytes a name may have. -/
def maxNameBytes : Nat := 255

/-- The place that parts lead to from a place. -/
def follow (disk : Disk) (place : List String) : List String → Except DiskFault (List String)
  | [] => .ok place
  | part :: rest =>
    match disk.node? place with
    | none => .error .missing
    | some (.file _) => .error .notFolder
    | some .folder =>
      if Path.isIdle part then disk.follow place rest
      else if part = ".." then disk.follow place.dropLast rest
      else if maxNameBytes < part.utf8ByteSize then .error .nameTooLong
      else disk.follow (place ++ [part]) rest

/-- The most bytes a path may have. -/
def maxPathBytes : Nat := 4095

/-- The place that an absolute path leads to. -/
def placeOf (disk : Disk) (path : String) : Except DiskFault (List String) :=
  if '\x00' ∈ path.toList then .error .nulInName
  else if maxPathBytes < path.utf8ByteSize then .error .nameTooLong
  else disk.follow [] (Path.parts path)

/-- Is there a folder where the path leads? -/
def isFolder (disk : Disk) (path : String) : Bool :=
  match disk.placeOf path with
  | .ok place => disk.node? place = some .folder
  | .error _ => false

/-- The contents of a file. -/
def read (disk : Disk) (path : String) : Except DiskFault String :=
  match disk.placeOf path with
  | .error fault => .error fault
  | .ok place =>
    match disk.node? place with
    | none => .error .missing
    | some .folder => .error .isFolder
    | some (.file contents) => .ok contents

/-- The disk with a file written, in place of an older file of that path. -/
def write (disk : Disk) (path contents : String) : Except DiskFault Disk :=
  match disk.placeOf path with
  | .error fault => .error fault
  | .ok place =>
    if disk.node? place = some .folder then .error .isFolder
    else .ok (disk.put place (.file contents))

/-- The path without slashes at its end. -/
def withoutSlashes (path : String) : String :=
  String.ofList (path.toList.reverse.dropWhile (· = '/')).reverse

/-- The disk with one folder more. -/
def createFolder (disk : Disk) (path : String) : Except DiskFault Disk :=
  match disk.placeOf (withoutSlashes path) with
  | .error fault => .error fault
  | .ok place =>
    match disk.node? place with
    | some _ => .error .exists
    | none => .ok (disk.put place .folder)

/-- Create the first of the paths, which are a path and the folders above it, and before it as many
of the others as it needs.  A folder that is there already is no fault.  What was created before a
fault remains. -/
def createUpward : List String → Disk → Option DiskFault × Disk
  | [], disk => (none, disk)
  | path :: above, disk =>
    match disk.createFolder path with
    | .ok disk => (none, disk)
    | .error .missing =>
      match createUpward above disk with
      | (some fault, disk) => (some fault, disk)
      | (none, disk) =>
        match disk.createFolder path with
        | .ok disk => (none, disk)
        | .error fault => (if disk.isFolder path then none else some fault, disk)
    | .error fault => (if disk.isFolder path then none else some fault, disk)

/-- Create a folder with all folders above it. -/
def createFolders (disk : Disk) (path : String) : Option DiskFault × Disk :=
  createUpward (Path.upward path) disk

end Disk

end Classwright
