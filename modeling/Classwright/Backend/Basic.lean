/-
# Classwright.Backend.Basic — rendering in any of the languages

A catalogue lists the languages that can be rendered.  Languages are found in it by name, however
the name is spelled.
-/

import Classwright.Backend.Java
import Classwright.Backend.ObjectiveC
import Classwright.Backend.Swift
import Classwright.Settings.Basic

namespace Classwright

/-- The order in which classes are declared in a language. -/
def Language.order : Language → DeclarationOrder
  | .swift => Swift.backend.order
  | .objectiveC => ObjectiveC.backend.order
  | .java => Java.backend.order

/-- Render in a language.  The settings must be for that language. -/
def Language.render (language : Language) (settings : Settings) (budget : Budget) (s : Schema) :
    Except RenderFault (List SourceFile) :=
  match language, settings with
  | .swift, .swift settings => Swift.backend.render settings budget s
  | .objectiveC, .objectiveC settings => ObjectiveC.backend.render settings budget s
  | .java, .java settings => Java.backend.render settings budget s
  | language, settings => .error (.foreignSettings language settings.language)

/-- The languages that can be rendered, in the order in which they are listed. -/
structure Catalogue where
  languages : List Language
  deriving DecidableEq, Repr

namespace Catalogue

/-- The catalogue of all languages. -/
def full : Catalogue := ⟨Language.all⟩

/-- The catalogue of no language. -/
def empty : Catalogue := ⟨[]⟩

/-- The catalogue with the language at its end. -/
def register (language : Language) (catalogue : Catalogue) : Catalogue :=
  ⟨catalogue.languages.filter (· ≠ language) ++ [language]⟩

/-- The language of that name. -/
def find (catalogue : Catalogue) (name : String) : Except RenderFault Language :=
  match Language.ofName? name with
  | some language =>
    if language ∈ catalogue.languages then .ok language else .error (.unknownLanguage name)
  | none => .error (.unknownLanguage name)

end Catalogue

end Classwright
