/-
# Classwright.Proofs.Command.Options — one set of options, given to either command

The options of a request are texts `key=value` in the order in which they were typed, and those of a
target are the entries of an object in a file.  A request loses the blanks around keys and values
before its options are looked at, a target does not.  Neither makes a difference: options are trimmed
when they are applied, trimming twice is trimming once, and the order does not count.

Only the first `=` of an option separates.  So any value can be given either way, and any key that
has no `=` of its own.
-/

import Mathlib
import Classwright.Command.Basic
import Classwright.Proofs.Options
import Classwright.Proofs.Text.Literal

namespace Classwright

/-! ## Trimming twice -/

namespace Text

theorem trimChars_trimChars (cs : List Char) : trimChars (trimChars cs) = trimChars cs := by
  have back : trimChars cs = (cs.dropWhile isBlank).rdropWhile isBlank := rfl
  -- blanks go from the front first, and what then goes from the back leaves the front as it is
  have front : (trimChars cs).dropWhile isBlank = trimChars cs := by
    refine List.dropWhile_eq_self_iff.mpr fun nonempty blank => ?_
    obtain ⟨rest, whole⟩ : trimChars cs <+: cs.dropWhile isBlank := List.rdropWhile_prefix ..
    have longer : 0 < (cs.dropWhile isBlank).length := by
      rw [← whole, List.length_append]
      omega
    refine List.dropWhile_get_zero_not isBlank cs longer ?_
    have same : (cs.dropWhile isBlank).get ⟨0, longer⟩ = (trimChars cs).get ⟨0, nonempty⟩ := by
      simp only [List.get_eq_getElem, ← whole, List.getElem_append_left nonempty]
    rw [same]
    exact blank
  calc trimChars (trimChars cs)
      = ((trimChars cs).dropWhile isBlank).rdropWhile isBlank := rfl
    _ = (trimChars cs).rdropWhile isBlank := by rw [front]
    _ = trimChars cs := by rw [back, List.rdropWhile_idempotent]

theorem trim_trim (text : String) : trim (trim text) = trim text := by
  simp only [trim, String.toList_ofList, trimChars_trimChars]

end Text

/-! ## Both commands -/

namespace Command

open OptionRule (trimmed)

variable {entries : List (String × String)} {raw : List String} {target : Target}

/-- An option as it is given to the program. -/
def rawOption (entry : String × String) : String := entry.1 ++ "=" ++ entry.2

theorem trimmed_trimmed (pairs : List (String × String)) :
    trimmed (trimmed pairs) = trimmed pairs := by
  simp only [trimmed, List.map_map]
  exact List.map_congr_left fun pair _ => by simp only [Function.comp_apply, Text.trim_trim]

theorem optionPair_rawOption {entry : String × String} (simple : '=' ∉ entry.1.toList) :
    optionPair (rawOption entry) = .ok (Text.trim entry.1, Text.trim entry.2) := by
  have whole : (rawOption entry).toList = entry.1.toList ++ '=' :: entry.2.toList := by
    simp [rawOption]
  have cut : Text.cut? '=' (rawOption entry) = some entry := by
    rw [Text.cut?, whole, Text.cutChars?_append simple]
    simp
  rw [optionPair, cut]

/-- A list in the order of another one is mapped from one in that order. -/
theorem exists_map_of_perm_map {α β : Type} {f : α → β} {items : List α} {others : List β}
    (perm : others.Perm (items.map f)) :
    ∃ ordered : List α, others = ordered.map f ∧ ordered.Perm items :=
  (congrFun (congrFun (List.eq_map_comp_perm f) others) items).mpr perm

/-- The options of a request are those that were meant, in some order and without blanks. -/
theorem exists_mapM_optionPair (simple : ∀ entry ∈ entries, '=' ∉ entry.1.toList)
    (typed : raw.Perm (entries.map rawOption)) :
    ∃ pairs, raw.mapM optionPair = .ok pairs ∧ pairs.Perm (trimmed entries) := by
  -- the entries in the order in which they were typed
  obtain ⟨ordered, rfl, same⟩ := exists_map_of_perm_map typed
  refine ⟨trimmed ordered, mapM_eq_ok_of_forall₂ ?_, same.map _⟩
  rw [trimmed, List.forall₂_map_left_iff, List.forall₂_map_right_iff, List.forall₂_same]
  exact fun entry among => optionPair_rawOption (simple entry (same.mem_iff.mp among))

/-- The options of a target are those that were meant, in some order. -/
theorem exists_pairs
    (configured : target.options.Perm (entries.map fun entry => (entry.1, .string entry.2))) :
    ∃ pairs, target.pairs = .ok pairs ∧ pairs.Perm entries := by
  obtain ⟨ordered, whole, same⟩ := exists_map_of_perm_map configured
  refine ⟨ordered, mapM_eq_ok_of_forall₂ ?_, same⟩
  rw [whole, List.forall₂_map_left_iff, List.forall₂_same]
  exact fun entry _ => rfl

theorem requestedSettings_eq_ok_iff {language : Language} {settings : Settings} :
    requestedSettings language raw = .ok settings ↔
      ∃ pairs, raw.mapM optionPair = .ok pairs ∧ Settings.ofPairs language pairs = .ok settings := by
  rw [requestedSettings]
  cases raw.mapM optionPair with
  | error failure => simp [bind, Except.bind]
  | ok pairs =>
      simp only [bind, Except.bind, Except.ok.injEq, exists_eq_left']
      cases Settings.ofPairs language pairs with
      | error fault => simp [throw, throwThe, MonadExceptOf.throw]
      | ok result => simp [pure, Except.pure]

theorem jobOfTarget_eq_ok_iff {language : Language} {root : String} {settings : Settings}
    (known : Catalogue.full.find target.language = .ok language) :
    Job.ofTarget root target = .ok ⟨language, settings, target.folder root language⟩ ↔
      ∃ pairs, target.pairs = .ok pairs ∧ Settings.ofPairs language pairs = .ok settings := by
  unfold Job.ofTarget
  rw [known]
  cases target.pairs with
  | error fault => simp
  | ok pairs =>
      simp only [Except.ok.injEq, exists_eq_left']
      cases Settings.ofPairs language pairs with
      | error fault => simp
      | ok result => simp

/-- Entries with any values, and with keys that have no `=`, lead to the same settings whether they
are typed as options of a request, in any order, or configured as options of a target — or they lead
to no settings either way. -/
theorem requestedSettings_iff_configured (language : Language)
    (simple : ∀ entry ∈ entries, '=' ∉ entry.1.toList)
    (typed : raw.Perm (entries.map fun entry => entry.1 ++ "=" ++ entry.2))
    (configured : target.options.Perm (entries.map fun entry => (entry.1, .string entry.2))) :
    (∃ rendered built, raw.mapM optionPair = .ok rendered ∧ target.pairs = .ok built ∧
      ∀ settings, Settings.ofPairs language rendered = .ok settings ↔
        Settings.ofPairs language built = .ok settings) ∧
    (Catalogue.full.find target.language = .ok language → ∀ root settings,
      requestedSettings language raw = .ok settings ↔
        Job.ofTarget root target = .ok ⟨language, settings, target.folder root language⟩) := by
  obtain ⟨rendered, splitUp, asTyped⟩ := exists_mapM_optionPair simple typed
  obtain ⟨built, spelled, asConfigured⟩ := exists_pairs configured
  have same : (trimmed rendered).Perm (trimmed built) := by
    refine (asTyped.map _).trans ?_
    rw [← trimmed, trimmed_trimmed]
    exact (asConfigured.map _).symm
  have agree : ∀ settings, Settings.ofPairs language rendered = .ok settings ↔
      Settings.ofPairs language built = .ok settings :=
    Settings.ofPairs_of_perm_trimmed same
  refine ⟨⟨rendered, built, splitUp, spelled, agree⟩, fun known root settings => ?_⟩
  rw [requestedSettings_eq_ok_iff, jobOfTarget_eq_ok_iff known, splitUp, spelled]
  simp only [Except.ok.injEq, exists_eq_left']
  exact agree settings

/-- Typed in the one order and with blanks, configured in the other: the settings are the same. -/
theorem requestedSettings_iff_configured_reversed :
    ∃ settings, requestedSettings .swift ["codable = no", " class_prefix=AB "] = .ok settings ∧
      Job.ofTarget "/project"
        ⟨"swift", [(" class_prefix", .string "AB "), ("codable ", .string " no")], none⟩ =
          .ok ⟨.swift, settings, "/project/generated/swift"⟩ := by
  have requested : requestedSettings .swift ["codable = no", " class_prefix=AB "] =
      .ok (.swift { classPrefix := "AB", codable := false }) := rfl
  have known : Catalogue.full.find "swift" = .ok .swift := rfl
  obtain ⟨_, agree⟩ := @requestedSettings_iff_configured
    [(" class_prefix", "AB "), ("codable ", " no")] ["codable = no", " class_prefix=AB "]
    ⟨"swift", [(" class_prefix", .string "AB "), ("codable ", .string " no")], none⟩
    .swift (by decide) (.swap ..) (.refl _)
  exact ⟨_, requested, (agree known "/project" _).mp requested⟩

end Command

end Classwright
