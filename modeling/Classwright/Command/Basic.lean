/-
# Classwright.Command.Basic — the commands, and the program as a whole

A document is rendered in one language, or a project is rendered in all of its targets.  Of one
document, everything that can be said about the arguments is said before it is read, and nothing is
written before everything is rendered.  A project is rendered only if all of it makes sense: every
target is settled and the document is read before anything is written.  After that the targets stand
on their own: one that fails writes nothing and does not keep the others from being written.

The program ends with one of three numbers: zero when it did what it was asked for, one when it gave
up, and two when it was not asked for anything that it can do.
-/

import Classwright.Backend.Basic
import Classwright.Command.Arguments
import Classwright.Command.Host
import Classwright.Project.Config

namespace Classwright.Command

variable {m : Type → Type} [Monad m] [Host m]

/-! ## One document in one language -/

/-- An option of the form `key=value`, without blanks around the key and the value. -/
def optionPair (text : String) : Except Failure (String × String) :=
  match Text.cut? '=' text with
  | some (key, value) => .ok (Text.trim key, Text.trim value)
  | none => .error { headline := s!"Option '{text}' must have the form key=value" }

/-- The settings that the options of a request stand for. -/
def requestedSettings (language : Language) (options : List String) : Except Failure Settings := do
  let pairs ← options.mapM optionPair
  match Settings.ofPairs language pairs with
  | .ok settings => return settings
  | .error fault =>
    throw { headline := s!"Invalid {language.title} options", cause := some fault.message }

/-- A file as it is printed, under its name. -/
def printedFile (file : SourceFile) : String :=
  "// ---- " ++ file.name ++ " ----\n" ++ file.contents

/-- Render a document in a language. -/
def render (cwd : String) (request : RenderRequest) : ExceptT Failure m Unit := do
  let language ← failing RenderFault.message (Catalogue.full.find request.language)
  let settings ← MonadExcept.ofExcept (requestedSettings language request.options)
  let s ← loadSchema (Path.join cwd request.model)
  let files ← failing RenderFault.message (language.render settings .unlimited s)
  if request.printed then
    Host.say (String.intercalate "\n" (files.map printedFile))
  else
    Host.say s!"🔨 Rendering {language.title} models...\n"
    for path in ← writeFiles (Path.join cwd request.outFolder) files do
      Host.say s!"  ✓ {Path.seenFrom cwd path}\n"
    Host.say s!"\n✅ Rendered {files.length} files\n"

/-! ## All targets of a project -/

/-- A target with everything settled. -/
structure Job where
  language : Language
  settings : Settings
  folder : String
  deriving Repr

/-- The job for a target of the project in the folder `root`. -/
def Job.ofTarget (root : String) (target : Target) : Except Failure Job :=
  match Catalogue.full.find target.language with
  | .error fault => .error { headline := fault.message }
  | .ok language =>
    match target.pairs with
    | .error fault => .error { headline := fault.message }
    | .ok pairs =>
      match Settings.ofPairs language pairs with
      | .error fault =>
        .error { headline := s!"Invalid options for target '{target.language}'"
                 cause := some fault.message }
      | .ok settings => .ok ⟨language, settings, target.folder root language⟩

/-- The files of a job. -/
def Job.files (job : Job) (s : Schema) : Except RenderFault (List SourceFile) :=
  job.language.render job.settings .unlimited s

/-- The project that is configured in a folder. -/
def loadConfig (root : String) : ExceptT Failure m Config := do
  let path := Path.join root Config.fileName
  let text ← failingAt ("Cannot read " ++ path) DiskFault.message (← Host.read path)
  failingAt ("Invalid " ++ path) ConfigFault.message (Config.ofText text)

/-- Render a job and write its files; the result is their paths. -/
def Job.run (job : Job) (s : Schema) : ExceptT Failure m (List String) := do
  writeFiles job.folder (← failing RenderFault.message (job.files s))

/-- Run a job and tell how it went: is it done? -/
def Job.report (root : String) (s : Schema) (job : Job) : m Bool := do
  match ← (job.run s).run with
  | .ok paths =>
    let folder := Path.seenFrom root job.folder
    Host.say s!"  ✓ {job.language.title} → {folder} ({paths.length} files)\n"
    return true
  | .error failure =>
    Host.complain s!"  ✗ {job.language.title} - {failure.headline}\n"
    return false

/-- Render all targets of the project in a folder. -/
def build (cwd folder : String) : ExceptT Failure m Unit := do
  let root := Path.join cwd folder
  let config ← loadConfig root
  let jobs ← MonadExcept.ofExcept (config.targets.mapM (Job.ofTarget root))
  let s ← loadSchema (config.modelPath root)
  Host.say s!"🔨 Rendering {jobs.length} targets...\n"
  let done ← jobs.mapM fun job => job.report root s
  Host.say "\n"
  let failed := done.count false
  if failed = 0 then
    Host.say s!"✅ Rendered {jobs.length} targets successfully\n"
  else
    throw { headline := s!"{failed} of {jobs.length} targets failed" }

/-! ## The program -/

/-- The line that tells the version. -/
def versionLine : String := "jsonmodeler 0.1.0\n"

/-- How the program is used. -/
def usage : String :=
  "Usage: jsonmodeler languages\n" ++
    "       jsonmodeler render MODEL --language LANGUAGE [--option KEY=VALUE]... " ++
    "[--out-dir DIR] [--stdout]\n" ++
    "       jsonmodeler build [DIR]\n"

/-- The lines about a language. -/
def languageLines (language : Language) : String :=
  s!"{language.title} ({language.key})\n" ++
    "  options: " ++ String.intercalate ", " (Settings.keys language) ++ "\n"

/-- Do what was asked for. -/
def fulfil (cwd : String) : Request → ExceptT Failure m Unit
  | .version => Host.say versionLine
  | .help => Host.say usage
  | .languages => Host.say (String.join (Catalogue.full.languages.map languageLines))
  | .render request => render cwd request
  | .build folder => build cwd folder

/-- Do what a request asks for, and tell how it ended. -/
def fulfilled (cwd : String) (request : Request) : m Nat := do
  match ← (fulfil cwd request).run with
  | .ok () => return 0
  | .error failure =>
    Host.complain s!"\nError: {failure.message}\n\n"
    return 1

/-- Run the program in a folder with the given arguments; the result is the number it ends with. -/
def run (cwd : String) (arguments : List String) : m Nat := do
  match parse arguments with
  | .ok request => fulfilled cwd request
  | .error (.asked request) => fulfilled cwd request
  | .error .misuse =>
    Host.complain usage
    return 2

end Classwright.Command
