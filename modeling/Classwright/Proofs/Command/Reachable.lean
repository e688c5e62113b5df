/-
# Classwright.Proofs.Command.Reachable — any settings without fault can be asked for

There are two ways to ask for settings: the arguments of the program, and the file that configures a
project.  Either way the options are texts, an argument or an entry for each, and they come out as
they were put in: no argument with an option is taken for something else, and the entries of an
object are sorted, which does not count.  So the settings that can be asked for are the same both
ways, and they are all the settings without fault.
-/

import Mathlib
import Classwright.Command.Basic
import Classwright.Proofs.Command.Plan
import Classwright.Proofs.Expressible
import Classwright.Proofs.Json.Reader

namespace Classwright

open OptionRule (trimmed)
open Json (Token Scans Reads RecordRule listTokens objectTokens)

/-! ## Arguments -/

namespace Command

namespace Grammar

variable {σ : Type} {g : Grammar σ} {argument value : String} {rest : List String}
  {known known' : σ}

/-- An operand is taken in. -/
theorem takeAll_operand (form : formOf argument = .operand)
    (taken : g.operand argument known = some known') :
    g.takeAll (argument :: rest) known = g.takeAll rest known' := by
  rw [takeAll]
  simp only [form, taken, allowed]

/-- A long option is taken in with the argument behind it, which is its value. -/
theorem takeAll_long {text : List Char} {put : String → σ → Option σ}
    (form : formOf argument = .long text) (wants : g.takeLong text known = .ok (.wants put known))
    (operand : formOf value = .operand) (taken : put value known = some known') :
    g.takeAll (argument :: value :: rest) known = g.takeAll rest known' := by
  rw [takeAll]
  simp only [form, wants, operand, taken]

end Grammar

/-- The arguments that ask for a document in a language with the given options. -/
def renderArguments (language : Language) (options : List String) : List String :=
  "render" :: Config.defaultModel :: "--language" :: language.key ::
    options.flatMap fun option => ["--option", option]

theorem takeAll_options {options : List String} (draft : RenderDraft)
    (operands : ∀ option ∈ options, formOf option = .operand) :
    renderGrammar.takeAll (options.flatMap fun option => ["--option", option]) draft =
      .ok { draft with options := draft.options ++ options } := by
  induction options generalizing draft with
  | nil => simp [Grammar.takeAll]
  | cons option options ih =>
      obtain ⟨own, others⟩ := List.forall_mem_cons.mp operands
      rw [List.flatMap_cons, List.cons_append, List.cons_append, List.nil_append]
      rw [Grammar.takeAll_long (g := renderGrammar) rfl rfl own rfl, ih _ others]
      simp

theorem parse_renderArguments {language : Language} {options : List String}
    (operands : ∀ option ∈ options, formOf option = .operand) :
    parse (renderArguments language options) =
      .ok (.render ⟨Config.defaultModel, language.key, options, ".", false⟩) := by
  have key : formOf language.key = .operand := by cases language <;> rfl
  have taken : renderGrammar.takeAll (Config.defaultModel :: "--language" :: language.key ::
      options.flatMap fun option => ["--option", option]) {} =
        .ok { model := some Config.defaultModel, language := some language.key,
              options := options } := by
    rw [Grammar.takeAll_operand (g := renderGrammar) rfl rfl,
      Grammar.takeAll_long (g := renderGrammar) rfl rfl key rfl, takeAll_options _ operands]
    rfl
  have command : formOf "render" = .operand := rfl
  rw [renderArguments, parse, command]
  show requestOf "render" _ = _
  rw [requestOf, taken]
  rfl

theorem formOf_eq_operand {argument : String} (other : ∀ rest, argument.toList ≠ '-' :: rest) :
    formOf argument = .operand := by
  unfold formOf
  split
  · next same => exact absurd same (other _)
  · next same => exact absurd same (other _)
  · next same => exact absurd same (other _)
  · rfl

/-- An option whose key is an identifier cannot be taken for anything but a value. -/
theorem formOf_rawOption {option : String × String} (word : Text.isIdentifier option.1) :
    formOf (rawOption option) = .operand := by
  refine formOf_eq_operand fun rest same => ?_
  rw [rawOption, String.append_assoc, String.toList_append] at same
  rw [Text.isIdentifier] at word
  revert word same
  cases option.1.toList with
  | nil =>
      intro word
      cases word
  | cons c rest =>
      intro word same
      -- no identifier begins with a hyphen
      cases (List.cons.inj same).1
      cases word

theorem notMem_key {option : String × String} (word : Text.isIdentifier option.1) :
    '=' ∉ option.1.toList :=
  fun among => absurd (Text.isIdentifierPart_of_isIdentifier word _ among) (by decide)

/-- Options of a request whose keys have no `=` are the options themselves. -/
theorem requestedSettings_rawOption {language : Language} {options : List (String × String)}
    (simple : ∀ option ∈ options, '=' ∉ option.1.toList) (settings : Settings) :
    requestedSettings language (options.map rawOption) = .ok settings ↔
      Settings.ofPairs language options = .ok settings := by
  obtain ⟨pairs, typed, perm⟩ := exists_mapM_optionPair simple (.refl (options.map rawOption))
  rw [requestedSettings_eq_ok_iff, typed]
  simp only [Except.ok.injEq, exists_eq_left']
  refine Settings.ofPairs_of_perm_trimmed ?_ settings
  have again : (trimmed pairs).Perm (trimmed (trimmed options)) := perm.map _
  rwa [trimmed_trimmed] at again

end Command

/-! ## Configurations -/

/-- The key of a language is one of its spellings. -/
theorem Language.ofName?_key (language : Language) : ofName? language.key = some language := by
  cases language <;> rfl

namespace Config

/-- Options as entries of an object. -/
def textEntries (options : List (String × String)) : List (String × Json.Value) :=
  options.map fun option => (option.1, .string option.2)

/-- The tokens of the object that holds the options. -/
def optionTokens (options : List (String × String)) : List Token :=
  objectTokens (options.map fun option => (option.1, [.string (some option.2)]))

/-- A target with options. -/
def targetJson (language : Language) (options : List (String × String)) : Json.Value :=
  .object [("language", .string language.key), ("options", .object (textEntries options))]

/-- The tokens of the target. -/
def targetTokens (language : Language) (options : List (String × String)) : List Token :=
  objectTokens [("language", [.string (some language.key)]), ("options", optionTokens options)]

/-- The text that configures a project with one target. -/
def textOf (language : Language) (options : List (String × String)) : String :=
  (Json.Value.object [("targets", .list [targetJson language options])]).pretty

/-- The target that is read from the text, its options in the order of their keys. -/
def targetOf (language : Language) (options : List (String × String)) : Target :=
  ⟨language.key, Json.insertEntries (textEntries options) [], none⟩

variable {language : Language} {options : List (String × String)}

theorem scans_textEntries (level : Nat) :
    Scans ((Json.Value.object (textEntries options)).prettyChars level) (optionTokens options) := by
  have members := Scans.object (options.map fun option =>
    (option.1, Json.Value.string option.2, [Token.string (some option.2)])) level fun m among => by
      obtain ⟨option, _, rfl⟩ := List.mem_map.mp among
      exact Scans.stringChars option.2
  rwa [List.map_map, List.map_map] at members

theorem reads_optionTokens (options : List (String × String)) (levels : Nat) :
    Reads (Json.readTable (levels + 1) Json.readValue) (optionTokens options)
      (Json.insertEntries (textEntries options) []) := by
  have members := @Json.reads_readTable _ Json.readValue levels (options.map fun option =>
    (option.1, Json.Value.string option.2, [Token.string (some option.2)])) fun m among => by
      obtain ⟨option, _, rfl⟩ := List.mem_map.mp among
      exact fun rest => ⟨Nat.lt_succ_self _, by cases levels <;> rfl⟩
  rwa [List.map_map, List.map_map] at members

theorem scans_targetJson (level : Nat) :
    Scans ((targetJson language options).prettyChars level) (targetTokens language options) := by
  refine Scans.object [("language", .string language.key, _),
    ("options", .object (textEntries options), _)] level fun m among => ?_
  rcases List.mem_cons.mp among with rfl | among
  · exact Scans.stringChars _
  · rw [List.mem_singleton.mp among]
    exact scans_textEntries (level + 1)

theorem reads_targetTokens (levels : Nat) :
    Reads (Target.rule.read (levels + 2)) (targetTokens language options)
      (targetOf language options) := by
  have name := (Json.reads_readString language.key).map fun language =>
    { Target.rule.start with language := some language }
  have table := (reads_optionTokens options levels).map fun table =>
    (⟨some language.key, some table, none⟩ : Target.Draft)
  rw [targetTokens, Json.objectTokens_two]
  have complete : Target.rule.finish
      ⟨some language.key, some (Json.insertEntries (textEntries options) []), none⟩ =
        .ok (targetOf language options) := rfl
  refine RecordRule.reads_object (Reads.objectBody ?_) complete
  exact Json.entries_more (RecordRule.step_eq _ rfl rfl) name
    (Json.entries_last (RecordRule.step_eq _ rfl rfl) table)

theorem tokens_textOf :
    Json.tokens (textOf language options) =
      objectTokens [("targets", listTokens [targetTokens language options])] := by
  have targets := @Scans.list _ (targetJson language) (targetTokens language) [options] 1
    fun other among => by
      rw [List.mem_singleton.mp among]
      exact scans_targetJson 2
  have whole := Scans.object [("targets", .list [targetJson language options], _)] 0
    (fun m among => by
      rw [List.mem_singleton.mp among]
      exact targets) []
  rw [List.append_nil, Json.scan, List.append_nil] at whole
  rw [Json.tokens, textOf, Json.Value.pretty, String.toList_ofList]
  exact whole

/-- The text configures a project with the target. -/
theorem ofText_textOf :
    ofText (textOf language options) = .ok ⟨defaultModel, [targetOf language options]⟩ := by
  have list : Reads (Json.readList 126 Target.rule.read) _ [targetOf language options] :=
    @Json.reads_readList _ Target.rule.read 125 (fun _ => targetTokens language options) _
      (fun _ => ⟨_, rfl⟩) fun target among => by
        rw [List.mem_singleton.mp among]
        exact reads_targetTokens 123
  have targets := list.map fun targets => (⟨none, some targets⟩ : Draft)
  have known : rule.step 126 "targets" rule.start = .ok fun ts =>
      (Json.readList 126 Target.rule.read ts).map fun targets => ⟨none, some targets⟩ := by
    rw [RecordRule.step_eq 126 rfl rfl]
    rfl
  have body := (Json.entries_last known targets).objectBody
  have read : Json.readText (rule.read Json.maxLevels) (textOf language options) =
      .ok ⟨defaultModel, [targetOf language options]⟩ := by
    refine Json.readText_eq ?_
    rw [tokens_textOf, Json.objectTokens_one]
    have whole := RecordRule.read_object body []
    rw [List.append_nil] at whole
    exact whole
  exact Command.ofText_eq_ok_iff.mpr ⟨read, List.cons_ne_nil _ _⟩

/-- The target asks for what its options lead to. -/
theorem exists_settles_targetOf {root : String} {settings : Settings}
    (distinct : (options.map Prod.fst).Nodup)
    (made : Settings.ofPairs language options = .ok settings) :
    ∃ folder, (⟨language, settings, folder⟩ : Command.Job).Settles root
      (targetOf language options) := by
  have keys : ((textEntries options ++ []).map Prod.fst).Nodup := by
    rwa [List.append_nil, textEntries, List.map_map]
  have configured : (targetOf language options).options.Perm
      (options.map fun entry => (entry.1, .string entry.2)) := by
    have sorted := Json.perm_insertEntries keys
    rwa [List.append_nil] at sorted
  obtain ⟨pairs, plain, perm⟩ := Command.exists_pairs configured
  have same : (trimmed pairs).Perm (trimmed options) := perm.map _
  exact ⟨(targetOf language options).folder root language, language.ofName?_key,
    ⟨pairs, plain, (Settings.ofPairs_of_perm_trimmed same settings).mpr made⟩, rfl⟩

end Config

/-! ## What can be asked for -/

/-- The arguments ask for a document in the language, with these settings. -/
def Command.AsksFor (arguments : List String) (language : Language) (settings : Settings) : Prop :=
  ∃ request, parse arguments = .ok (.render request) ∧
    Catalogue.full.find request.language = .ok language ∧
    requestedSettings language request.options = .ok settings

/-- The text configures a project that has, if it lies in the folder `root`, a target for the
language with these settings. -/
def Config.AsksFor (text root : String) (language : Language) (settings : Settings) : Prop :=
  ∃ config, ofText text = .ok config ∧ ∃ target ∈ config.targets, ∃ job : Command.Job,
    Command.Job.ofTarget root target = .ok job ∧ job.language = language ∧ job.settings = settings

namespace Settings

open Command (rawOption renderArguments)

variable {settings : Settings}

theorem isIdentifier_of_mem_options (valid : settings.fault? = none) :
    ∀ option ∈ settings.options, Text.isIdentifier option.1 := by
  intro option among
  have known : option.1 ∈ keys settings.language := by
    rw [← map_fst_options valid]
    exact List.mem_map.mpr ⟨option, among, rfl⟩
  exact isIdentifier_of_mem_keys _ known

/-- The arguments with the options for settings ask for these settings. -/
theorem asksFor_renderArguments (valid : settings.fault? = none) :
    Command.AsksFor (renderArguments settings.language (settings.options.map rawOption))
      settings.language settings := by
  have words := isIdentifier_of_mem_options valid
  refine ⟨_, Command.parse_renderArguments ?_, ?_, ?_⟩
  · intro option among
    obtain ⟨option, own, rfl⟩ := List.mem_map.mp among
    exact Command.formOf_rawOption (words option own)
  · exact Command.find_full_eq_ok_iff.mpr (Language.ofName?_key _)
  · refine (Command.requestedSettings_rawOption (fun option among => ?_) settings).mpr
      (ofPairs_options valid)
    exact Command.notMem_key (words option among)

/-- The text with the options for settings asks for these settings. -/
theorem asksFor_textOf (root : String) (valid : settings.fault? = none) :
    Config.AsksFor (Config.textOf settings.language settings.options) root settings.language
      settings := by
  have distinct : (settings.options.map Prod.fst).Nodup := by
    rw [map_fst_options valid]
    exact nodup_keys _
  obtain ⟨folder, settles⟩ := Config.exists_settles_targetOf distinct (ofPairs_options valid)
  exact ⟨_, Config.ofText_textOf, _, List.mem_singleton_self _, _,
    Command.ofTarget_eq_ok_iff.mpr settles, rfl, rfl⟩

/-- Settings are those of a language and without fault exactly if some options of the language lead
to them; the options that spell them out do, then.  And that is so exactly if some arguments of the
program ask for them, and exactly if some text that configures a project does. -/
theorem reachable_iff_faultless (root : String) (language : Language) (settings : Settings) :
    List.TFAE [
      settings.language = language ∧ settings.fault? = none,
      ofPairs language settings.options = .ok settings,
      ∃ pairs, ofPairs language pairs = .ok settings,
      ∃ arguments, Command.AsksFor arguments language settings,
      ∃ text, Config.AsksFor text root language settings] := by
  tfae_have 1 → 2 := by
    rintro ⟨rfl, valid⟩
    exact ofPairs_options valid
  tfae_have 2 → 3 := fun made => ⟨_, made⟩
  tfae_have 3 → 1 := by
    rintro ⟨pairs, made⟩
    exact ⟨language_of_ofPairs made, (ofPairs_eq_ok_iff_applied.mp made).2⟩
  tfae_have 1 → 4 := by
    rintro ⟨rfl, valid⟩
    exact ⟨_, asksFor_renderArguments valid⟩
  tfae_have 4 → 3 := by
    rintro ⟨arguments, request, _, _, requested⟩
    obtain ⟨pairs, _, made⟩ := Command.requestedSettings_eq_ok_iff.mp requested
    exact ⟨pairs, made⟩
  tfae_have 1 → 5 := by
    rintro ⟨rfl, valid⟩
    exact ⟨_, asksFor_textOf root valid⟩
  tfae_have 5 → 3 := by
    rintro ⟨text, config, _, target, _, job, settled, rfl, rfl⟩
    obtain ⟨_, ⟨pairs, _, made⟩, _⟩ := Command.ofTarget_eq_ok_iff.mp settled
    exact ⟨pairs, made⟩
  tfae_finish

end Settings

end Classwright
