/-
# Classwright.Command.Host — what commands need from outside

Commands read files, create folders, write files, and say something on one of two channels.  They
are written for any monad that can do this.  One such monad is plain state: a disk, and what has
been said so far.

All commands read documents and write source files in the same way.
-/

import Classwright.Project.Disk
import Classwright.Render.Backend
import Classwright.Schema.Document

namespace Classwright

/-- What commands need from outside. -/
class Host (m : Type → Type) where
  /-- The contents of a file. -/
  read : String → m (Except DiskFault String)
  /-- Create a folder with all folders above it. -/
  createFolders : String → m (Except DiskFault Unit)
  /-- Write a file. -/
  write : String → String → m (Except DiskFault Unit)
  /-- Add to the output. -/
  say : String → m Unit
  /-- Add to the complaints. -/
  complain : String → m Unit

/-- A disk, and what has been said so far. -/
structure Session where
  disk : Disk
  output : String := ""
  complaints : String := ""
  deriving Repr

/-- Commands run on a session. -/
instance : Host (StateM Session) where
  read path := do return (← get).disk.read path
  createFolders path := do
    let (fault?, disk) := (← get).disk.createFolders path
    modify fun session => { session with disk }
    match fault? with
    | some fault => return .error fault
    | none => return .ok ()
  write path contents := do
    match (← get).disk.write path contents with
    | .error fault => return .error fault
    | .ok disk =>
      modify fun session => { session with disk }
      return .ok ()
  say text := modify fun session => { session with output := session.output ++ text }
  complain text := modify fun session => { session with complaints := session.complaints ++ text }

/-- Commands that may give up run wherever other commands run. -/
instance {ε : Type} {m : Type → Type} [Monad m] [Host m] : Host (ExceptT ε m) where
  read path := ExceptT.lift (Host.read path)
  createFolders path := ExceptT.lift (Host.createFolders path)
  write path contents := ExceptT.lift (Host.write path contents)
  say text := ExceptT.lift (Host.say text)
  complain text := ExceptT.lift (Host.complain text)

/-- Why a command gives up: what it was doing, and what stood in its way. -/
structure Failure where
  headline : String
  cause : Option String := none
  deriving DecidableEq, Repr

/-- The failure in words. -/
def Failure.message (failure : Failure) : String :=
  match failure.cause with
  | some cause => failure.headline ++ ": " ++ cause
  | none => failure.headline

/-- The value, or a failure whose message is the message of the fault. -/
def failing {ε α : Type} {m : Type → Type} [Monad m] (message : ε → String) :
    Except ε α → ExceptT Failure m α
  | .ok value => pure value
  | .error fault => throw { headline := message fault }

/-- The value, or a failure that says what was being done when the fault came up. -/
def failingAt {ε α : Type} {m : Type → Type} [Monad m] (headline : String) (message : ε → String) :
    Except ε α → ExceptT Failure m α
  | .ok value => pure value
  | .error fault => throw { headline, cause := some (message fault) }

end Classwright

/-! ## Documents in, source files out -/

namespace Classwright.Command

variable {m : Type → Type} [Monad m] [Host m]

/-- The schema in the document at a path. -/
def loadSchema (path : String) : ExceptT Failure m Schema := do
  let text ← failingAt ("Cannot read model " ++ path) DiskFault.message (← Host.read path)
  failingAt ("Invalid model " ++ path) Json.ReadError.message (Schema.ofText text)

/-- Write files into a folder that is there, one after the other; the result is their paths. -/
def writeAll (folder : String) : List SourceFile → ExceptT Failure m (List String)
  | [] => return []
  | file :: files => do
    let path := Path.join folder file.name
    failingAt ("Cannot write " ++ path) DiskFault.message (← Host.write path file.contents)
    return path :: (← writeAll folder files)

/-- Write files into a folder, which is created if it is not there; the result is their paths. -/
def writeFiles (folder : String) (files : List SourceFile) : ExceptT Failure m (List String) := do
  failingAt ("Cannot create " ++ folder) DiskFault.message (← Host.createFolders folder)
  writeAll folder files

end Classwright.Command
