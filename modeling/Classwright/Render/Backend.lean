/-
# Classwright.Render.Backend — from a schema to files

Every language goes through the same steps.  The settings are checked, classes are merged as the
settings ask, every class gets a type name, and then the classes are declared one by one, within a
budget, in the order that the language wants.  Files are put together at the end, all or none, and
every file starts with a comment that names it and warns against editing it.
-/

import Classwright.Render.Names
import Classwright.Settings.Basic
import Classwright.Text.Sheet

namespace Classwright

/-! ## Files of generated source -/

/-- A file of generated source. -/
structure SourceFile where
  name : String
  contents : String
  deriving DecidableEq, Repr

namespace SourceFile

open Text (Edit)

/-- What one level of indentation looks like. -/
def indentation : String := "    "

/-- The text that edits write with this indentation. -/
def typeset (edits : List Edit) : String := Text.typeset indentation edits

/-- The comment at the top of a file. -/
def header (name : String) : List Edit :=
  Text.lines ["//", "//  " ++ name, "//", "//  Generated by JSONModeler. Do not edit.", "//"] ++
    [.emptyLine]

/-- A file with its comment at the top. -/
def headed (name : String) (edits : List Edit) : SourceFile :=
  ⟨name, typeset (header name ++ edits)⟩

/-- Texts one after the other with an empty line between them. -/
def spaced (texts : List String) : List Edit :=
  List.intercalate [.emptyLine] (texts.map fun text => [.text text])

/-- How many bytes the file takes. -/
def bytes (file : SourceFile) : Nat := file.contents.utf8ByteSize

/-- How many bytes the files take together. -/
def totalBytes : List SourceFile → Nat
  | [] => 0
  | file :: files => file.bytes + totalBytes files

end SourceFile

/-! ## The steps of rendering -/

/-- In which order a language wants classes to be declared. -/
inductive DeclarationOrder where
  /-- From the roots down. -/
  | parentsFirst
  /-- Every class after the classes that it refers to. -/
  | leavesFirst
  deriving DecidableEq, Repr

/-- The classes of a schema in the given order. -/
def Schema.inOrder (s : Schema) : DeclarationOrder → List ClassDef
  | .parentsFirst => s.depthFirst
  | .leavesFirst => s.leavesFirst

/-- What a language with settings `σ` adds to the steps that all languages share.  A class is
declared as an `α`, with a `τ` handed on from each class to the next. -/
structure Backend (σ τ α : Type) where
  language : Language
  order : DeclarationOrder
  /-- Names that no type may have. -/
  reserved : List String
  general : σ → GeneralSettings
  fault? : σ → Option SettingsFault
  baseClass : σ → Option String
  start : τ
  declare : σ → TypeNames → τ → ClassDef → Except RenderFault (α × τ)
  /-- How many bytes a declaration counts before files are put together. -/
  bytes : α → Nat
  files : σ → List α → List SourceFile

namespace Backend

variable {σ τ α : Type}

/-- The type names of a schema. -/
def typeNames (backend : Backend σ τ α) (settings : σ) (s : Schema) : TypeNames :=
  .ofSchema backend.language s (backend.general settings).classPrefix backend.reserved

/-- The files of a schema whose classes have been merged. -/
def renderMerged (backend : Backend σ τ α) (settings : σ) (budget : Budget) (s : Schema) :
    Except RenderFault (List SourceFile) :=
  let names := backend.typeNames settings s
  let classes := s.inOrder backend.order
  let total := classes.length
  match names.baseFault? (backend.baseClass settings) with
  | some fault => .error (.settings fault)
  | none =>
    match budget.renderEach total (backend.declare settings names) backend.bytes {} backend.start
        classes with
    | .error fault => .error fault
    | .ok (declarations, tally) =>
      let files := backend.files settings declarations
      match budget.bytesFault? tally.rendered total (SourceFile.totalBytes files) with
      | some fault => .error fault
      | none => .ok files

/-- The files of a schema. -/
def render (backend : Backend σ τ α) (settings : σ) (budget : Budget) (s : Schema) :
    Except RenderFault (List SourceFile) :=
  match backend.fault? settings with
  | some fault => .error (.settings fault)
  | none =>
    match s.merged (backend.general settings).mergePolicy with
    | .error fault => .error (.schema fault)
    | .ok merged => backend.renderMerged settings budget merged

end Backend

end Classwright
