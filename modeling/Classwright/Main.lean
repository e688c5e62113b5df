/-
# Classwright.Main — the program

The commands run on the file system of the machine, in the folder in which the program was started.
-/

import Classwright.Command.Basic

namespace Classwright

/-- What stood in the way, as the machine tells it. -/
def DiskFault.ofError : IO.Error → DiskFault
  | .noFileOrDirectory _ _ _ => .missing
  | .alreadyExists _ _ _ => .exists
  | .inappropriateType _ 20 _ => .notFolder
  | .inappropriateType _ 21 _ => .isFolder
  | error => .other (toString error)

/-- The result of an action, or what stood in its way. -/
def attempt {α : Type} (action : IO α) : IO (Except DiskFault α) := do
  match ← action.toBaseIO with
  | .ok value => return .ok value
  | .error error => return .error (DiskFault.ofError error)

/-- Commands run on the machine. -/
instance : Host IO where
  read path := attempt (IO.FS.readFile path)
  createFolders path := attempt (IO.FS.createDirAll path)
  write path contents := attempt (IO.FS.writeFile path contents)
  say text := IO.print text
  complain text := IO.eprint text

end Classwright

/-- Run the program. -/
def main (arguments : List String) : IO UInt32 := do
  let cwd ← IO.currentDir
  return (← Classwright.Command.run cwd.toString arguments).toUInt32
