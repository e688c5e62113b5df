/-
# Classwright.Command.Arguments — what the arguments of the program ask for

Options come in a long and a short form.  The value of an option follows it, as the next argument or
in the same one: `--name=value`, `-nvalue`, `-n=value`.  Short options without values can share one
argument.  Everything behind `--` is an operand.

Arguments are looked at from left to right.  Asking for the version or for help ends the search at
once; so does the first argument that makes no sense.
-/

import Classwright.Text.Words

namespace Classwright.Command

/-! ## Requests -/

/-- What to render, and where to put it. -/
structure RenderRequest where
  /-- The path of the document with the schema. -/
  model : String
  language : String
  /-- The options, each as one text. -/
  options : List String := []
  outFolder : String := "."
  /-- Print the files instead of writing them. -/
  printed : Bool := false
  deriving DecidableEq, Repr

/-- What the program can be asked for. -/
inductive Request where
  | version
  | help
  | languages
  | render (request : RenderRequest)
  /-- Render all targets of the project in a folder. -/
  | build (folder : String)
  deriving DecidableEq, Repr

/-- Why the search through the arguments ends early. -/
inductive Stop where
  /-- The arguments make no sense. -/
  | misuse
  /-- The request is clear without the other arguments. -/
  | asked (request : Request)
  deriving DecidableEq, Repr

/-! ## Options -/

/-- What an option does to what is known so far; no result means that it must not be given. -/
inductive Effect (σ : Type) where
  | flag (change : σ → Option σ)
  | value (put : String → σ → Option σ)
  | ask (request : Request)

/-- An option with its long name and its short one, if it has one. -/
structure Switch (σ : Type) where
  long : String
  short : Option Char
  effect : Effect σ

/-- What may stand behind a command. -/
structure Grammar (σ : Type) where
  switches : List (Switch σ)
  /-- Take in an operand. -/
  operand : String → σ → Option σ

/-- What is known after an argument. -/
inductive Taken (σ : Type) where
  | complete (known : σ)
  /-- The value of an option must follow. -/
  | wants (put : String → σ → Option σ) (known : σ)

/-- The kinds of arguments, by their form. -/
inductive Form where
  | terminator
  | long (text : List Char)
  | short (letters : List Char)
  | operand
  deriving DecidableEq, Repr

/-- The form of an argument.  A single hyphen is an operand. -/
def formOf (argument : String) : Form :=
  match argument.toList with
  | ['-', '-'] => .terminator
  | '-' :: '-' :: text => .long text
  | '-' :: c :: letters => .short (c :: letters)
  | _ => .operand

/-- The result of a change that may not be allowed. -/
def allowed {σ : Type} : Option σ → Except Stop (Taken σ)
  | some known => .ok (.complete known)
  | none => .error .misuse

namespace Grammar

variable {σ : Type}

/-- What the option of a long name does. -/
def longEffect? (g : Grammar σ) (name : String) : Option (Effect σ) :=
  (g.switches.find? fun switch => switch.long = name).map Switch.effect

/-- What the option of a short name does. -/
def shortEffect? (g : Grammar σ) (letter : Char) : Option (Effect σ) :=
  (g.switches.find? fun switch => switch.short = some letter).map Switch.effect

/-- Take in a long option. -/
def takeLong (g : Grammar σ) (text : List Char) (known : σ) : Except Stop (Taken σ) :=
  let (name, value) := match Text.cutChars? '=' text with
    | some (name, value) => (String.ofList name, some (String.ofList value))
    | none => (String.ofList text, none)
  match g.longEffect? name, value with
  | some (.flag change), none => allowed (change known)
  | some (.ask request), none => .error (.asked request)
  | some (.value put), some value => allowed (put value known)
  | some (.value put), none => .ok (.wants put known)
  | _, _ => .error .misuse

/-- The value in the same argument as a short option. -/
def attachedValue : List Char → Option String
  | [] => none
  | '=' :: value => some (String.ofList value)
  | value => some (String.ofList value)

/-- Take in short options that share an argument. -/
def takeShort (g : Grammar σ) : List Char → σ → Except Stop (Taken σ)
  | [], known => .ok (.complete known)
  | letter :: rest, known =>
    match g.shortEffect? letter with
    | some (.flag change) =>
      match change known with
      | some known => g.takeShort rest known
      | none => .error .misuse
    | some (.ask request) => .error (.asked request)
    | some (.value put) =>
      match attachedValue rest with
      | some value => allowed (put value known)
      | none => .ok (.wants put known)
    | none => .error .misuse

/-- Take in operands only. -/
def takeOperands (g : Grammar σ) : List String → σ → Except Stop σ
  | [], known => .ok known
  | argument :: rest, known =>
    match g.operand argument known with
    | some known => g.takeOperands rest known
    | none => .error .misuse

/-- Take in the arguments behind a command. -/
def takeAll (g : Grammar σ) : List String → σ → Except Stop σ
  | [], known => .ok known
  | argument :: rest, known =>
    let go (taken : Except Stop (Taken σ)) : Except Stop σ :=
      match taken with
      | .error stop => .error stop
      | .ok (.complete known) => g.takeAll rest known
      | .ok (.wants put known) =>
        match rest with
        | [] => .error .misuse
        | value :: rest =>
          match formOf value, put value known with
          | .operand, some known => g.takeAll rest known
          | _, _ => .error .misuse
    match formOf argument with
    | .terminator => g.takeOperands rest known
    | .operand => go (allowed (g.operand argument known))
    | .long text => go (g.takeLong text known)
    | .short letters => go (g.takeShort letters known)

end Grammar

/-! ## Commands -/

/-- Options that every command has.  Being told more changes nothing that is promised. -/
def shared (σ : Type) : List (Switch σ) :=
  [⟨"verbose", some 'v', .flag some⟩, ⟨"help", some 'h', .ask .help⟩]

/-- A text that can be a path. -/
def path? (text : String) : Option String :=
  if text = "" then none else some text

/-- Fill a slot that must be empty. -/
def once {σ α : Type} (slot : σ → Option α) (fill : α → σ → σ) (value : α) (known : σ) : Option σ :=
  if (slot known).isSome then none else some (fill value known)

/-- What is known of a request to render while arguments are being taken in. -/
structure RenderDraft where
  model : Option String := none
  language : Option String := none
  options : List String := []
  outFolder : Option String := none
  printed : Option Unit := none

/-- What may stand behind `render`. -/
def renderGrammar : Grammar RenderDraft where
  switches := shared RenderDraft ++ [
    ⟨"language", some 'l', .value <|
      once RenderDraft.language fun language draft => { draft with language := some language }⟩,
    ⟨"option", some 'O', .value fun option draft =>
      some { draft with options := draft.options ++ [option] }⟩,
    ⟨"out-dir", some 'o', .value fun text draft => (path? text).bind fun path =>
      once RenderDraft.outFolder (fun path draft => { draft with outFolder := some path })
        path draft⟩,
    ⟨"stdout", none, .flag <|
      once RenderDraft.printed (fun printed draft => { draft with printed := some printed }) ()⟩]
  operand text draft := (path? text).bind fun path =>
    once RenderDraft.model (fun path draft => { draft with model := some path }) path draft

/-- The request to render, if nothing is missing. -/
def RenderDraft.complete (draft : RenderDraft) : Except Stop Request :=
  match draft.model, draft.language with
  | some model, some language =>
    .ok (.render ⟨model, language, draft.options, draft.outFolder.getD ".", draft.printed.isSome⟩)
  | _, _ => .error .misuse

/-- What may stand behind `build`. -/
def buildGrammar : Grammar (Option String) where
  switches := shared (Option String)
  operand text folder := (path? text).bind fun path => once id (fun path _ => some path) path folder

/-- What may stand behind `languages`. -/
def languagesGrammar : Grammar Unit where
  switches := shared Unit
  operand _ _ := none

/-- What may stand in front of a command. -/
def leadingGrammar : Grammar Unit where
  switches := shared Unit ++ [⟨"version", some 'V', .ask .version⟩]
  operand _ _ := none

/-- The request of a command with the arguments behind it. -/
def requestOf (command : String) (arguments : List String) : Except Stop Request :=
  match command with
  | "render" =>
    match renderGrammar.takeAll arguments {} with
    | .ok draft => draft.complete
    | .error stop => .error stop
  | "build" =>
    match buildGrammar.takeAll arguments none with
    | .ok folder => .ok (.build (folder.getD "."))
    | .error stop => .error stop
  | "languages" => (languagesGrammar.takeAll arguments ()).map fun _ => .languages
  | "help" =>
    match arguments with
    | [] | ["render"] | ["build"] | ["languages"] | ["help"] => .ok .help
    | _ => .error .misuse
  | _ => .error .misuse

/-- What all arguments of the program ask for. -/
def parse : List String → Except Stop Request
  | [] => .error .misuse
  | argument :: rest =>
    match formOf argument with
    | .operand => requestOf argument rest
    | .terminator => .error .misuse
    | .long text =>
      match leadingGrammar.takeLong text () with
      | .ok _ => parse rest
      | .error stop => .error stop
    | .short letters =>
      match leadingGrammar.takeShort letters () with
      | .ok _ => parse rest
      | .error stop => .error stop

end Classwright.Command
