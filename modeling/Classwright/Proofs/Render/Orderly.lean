/-
# Classwright.Proofs.Render.Orderly — no key gets out of its literal

Classes and keys are called anything, and what they are called goes into comments, names and
literals of the source.  A line of source is scanned from left to right: a quote opens a literal,
the next one closes it, and in between a backslash takes the next character with it.  If names and
keys could be more than names and keys, some line would be left with an open literal, or with
several, or it would be no line that was written.  Every line that is written is tidy, and tidy
lines have no such thing.
-/

import Mathlib
import Classwright.Proofs.Render.Declarations

namespace Classwright

open Text (Edit Block IsPlain IsTidy IsWhole IsWord TidyBlock Quiet isPlainChar isPrintable isBody
  parts)

/-! ## Scanning a line -/

namespace Text

/-- How many literals the rest of a line holds, within one or not; none if one is left open. -/
def countLiterals? : Bool → List Char → Option Nat
  | false, [] => some 0
  | true, [] => none
  | false, c :: rest =>
    if c = '"' then (countLiterals? true rest).map (· + 1) else countLiterals? false rest
  | true, '\\' :: _ :: rest => countLiterals? true rest
  | true, c :: rest => countLiterals? (c ≠ '"') rest

/-- How many literals the line holds, if each is closed on it. -/
def literals? (line : String) : Option Nat := countLiterals? false line.toList

theorem countLiterals?_append_of_plain {front : List Char} (plain : ∀ c ∈ front, isPlainChar c)
    (rest : List Char) : countLiterals? false (front ++ rest) = countLiterals? false rest := by
  induction front with
  | nil => rfl
  | cons c front ih =>
      rw [List.forall_mem_cons] at plain
      have other : c ≠ '"' := by
        rintro rfl
        exact absurd plain.1 (by decide)
      rw [List.cons_append, countLiterals?, if_neg other, ih plain.2]

/-- The body of a literal goes on up to its quote. -/
theorem countLiterals?_append_of_isBody {body : List Char} (inside : isBody body)
    (rest : List Char) :
    countLiterals? true (body ++ '"' :: rest) = countLiterals? false rest := by
  fun_induction isBody body with
  | case1 => simp [countLiterals?]
  | case2 c body ih =>
      rw [Bool.and_eq_true] at inside
      rw [List.cons_append, List.cons_append, countLiterals?, ih inside.2]
  | case3 c body _ ih =>
      simp only [Bool.and_eq_true, bne_iff_ne, isPlainChar] at inside
      obtain ⟨⟨⟨_, noQuote⟩, noBackslash⟩, inside⟩ := inside
      rw [List.cons_append, countLiterals?]
      · simp only [noQuote, ne_eq, not_false_eq_true, decide_true]
        exact ih inside
      · exact fun other _ same => absurd same noBackslash

/-- A tidy line holds one literal at most. -/
theorem IsTidy.exists_literals {text : String} (tidy : IsTidy text) :
    ∃ count ≤ 1, literals? text = some count := by
  cases tidy with
  | plain own =>
      have eq := countLiterals?_append_of_plain (isPlain_iff.mp own) []
      rw [List.append_nil] at eq
      exact ⟨0, by decide, eq⟩
  | @literal front body back before inside behind =>
      have quote : "\"".toList = ['"'] := String.toList_ofList
      have whole : (front ++ "\"" ++ body ++ "\"" ++ back).toList =
          front.toList ++ '"' :: (body.toList ++ '"' :: (back.toList ++ [])) := by
        simp [quote]
      refine ⟨1, by decide, ?_⟩
      rw [literals?, whole, countLiterals?_append_of_plain (isPlain_iff.mp before), countLiterals?,
        if_pos rfl, countLiterals?_append_of_isBody inside,
        countLiterals?_append_of_plain (isPlain_iff.mp behind)]
      rfl

/-! ## Orderly text -/

/-- Is the line printable, without an open literal and with one literal at most? -/
def isOrderly (line : String) : Bool :=
  line.toList.all isPrintable && (literals? line).any (· ≤ 1)

/-- The line, unless it is orderly. -/
def disorder (line : String) : List String := if isOrderly line then [] else [line]

theorem disorder_empty : disorder "" = [] := by decide

/-- Every line of the text is orderly. -/
def IsOrderly (text : String) : Prop := readLines disorder text = []

theorem IsTidy.isOrderly {text : String} (tidy : IsTidy text) : isOrderly text := by
  obtain ⟨count, small, eq⟩ := tidy.exists_literals
  rw [Text.isOrderly, eq, Bool.and_eq_true, List.all_eq_true, Option.any_some]
  exact ⟨tidy.printable, decide_eq_true small⟩

theorem isOrderly_of_mem_parts {text line : String} (orderly : IsOrderly text)
    (among : line ∈ parts '\n' text) : isOrderly line := by
  have none := List.flatMap_eq_nil_iff.mp orderly line among
  rw [disorder] at none
  split at none
  · assumption
  · cases none

/-- Apart from line feeds, orderly text is printable. -/
theorem IsOrderly.printable {text : String} (orderly : IsOrderly text) {c : Char}
    (among : c ∈ text.toList) (other : c ≠ '\n') : isPrintable c := by
  have inside : c ∈ (splitChars '\n' text.toList).flatten := by
    rw [flatten_splitChars]
    exact List.mem_filter.mpr ⟨among, by simpa using other⟩
  obtain ⟨part, listed, own⟩ := List.mem_flatten.mp inside
  have line := isOrderly_of_mem_parts orderly (List.mem_map_of_mem listed)
  rw [isOrderly, Bool.and_eq_true, List.all_eq_true, String.toList_ofList] at line
  exact line.1 c own

end Text

namespace SourceFile

open Text (IsOrderly)

variable {level : Nat} {text name : String} {edits : List Edit}

theorem isTidy_margin (tidy : IsTidy text) : IsTidy (Edit.margin indentation level ++ text) := by
  have blank : IsPlain (Edit.margin indentation level) := by
    rw [Text.isPlain_iff, toList_margin]
    intro c among
    rw [(List.mem_replicate.mp among).2]
    decide
  cases tidy with
  | plain own => exact .plain (blank.append own)
  | literal before inside behind =>
      simp only [← String.append_assoc]
      exact .literal (blank.append before) inside behind

theorem isOrderly_addedBy (tidy : TidyBlock level edits) :
    IsOrderly (Text.addedBy indentation level edits) :=
  tidy.readLines_eq_nil Text.disorder_empty fun _ _ own =>
    ⟨lineFeed_notMem own, if_pos (isTidy_margin own).isOrderly⟩

theorem isOrderly_typeset (tidy : TidyBlock 0 edits) : IsOrderly (typeset edits) := by
  rw [typeset_eq]
  exact isOrderly_addedBy tidy

theorem tidy_header (plain : IsPlain name) : TidyBlock 0 (header name) := by
  have quiet : Block (Quiet 0 ['@']) 0 (header name) :=
    quiet_header plain ⟨'@', [], rfl, by decide⟩
  exact quiet.mono fun _ _ => Quiet.tidy

theorem isOrderly_headed (plain : IsPlain name) (tidy : TidyBlock 0 edits) :
    IsOrderly (headed name edits).contents :=
  isOrderly_typeset ((tidy_header plain).append tidy)

/-- A file with edits and texts under its comment is orderly, if all of them are written tidily. -/
theorem isOrderly_headed_spaced {α : Type} {as : List α} {write : α → List Edit}
    (plain : IsPlain name) (front : TidyBlock 0 edits) (each : ∀ a ∈ as, TidyBlock 0 (write a)) :
    IsOrderly
      (headed name (edits ++ spaced (as.map fun a => typeset (write a)))).contents := by
  have above : TidyBlock 0 (header name ++ edits) := (tidy_header plain).append front
  have whole : ∀ text ∈ as.map fun a => typeset (write a), IsWhole text := by
    rw [List.forall_mem_map]
    intro a among
    rw [typeset_eq]
    exact (each a among).isWhole
  have orderly : ∀ text ∈ as.map fun a => typeset (write a), IsOrderly text := by
    rw [List.forall_mem_map]
    exact fun a among => isOrderly_typeset (each a among)
  rw [headed, typeset_eq, ← List.append_assoc, above.addedBy_append, IsOrderly,
    Text.readLines_append Text.disorder_empty above.isWhole,
    readLines_spaced Text.disorder_empty whole, isOrderly_addedBy above,
    List.flatMap_eq_nil_iff.mpr orderly]
  rfl

end SourceFile

/-! ## The languages -/

open Text (IsOrderly)

theorem Java.isOrderly_file {s : JavaSettings} {d : Declaration} (valid : s.fault? = none)
    (spelled : d.IsSpelled) : IsOrderly (file s d).contents := by
  have name : IsPlain (fileName d.name) := spelled.name.isPlain.append (.literal (by decide))
  have front : Block (Quiet 1 keyStart) 0 (packageLines s ++ importLines d) :=
    quiet_front_inside valid
  exact SourceFile.isOrderly_headed name <| .append (front.mono fun _ _ => Quiet.tidy) <|
    .braced (tidy_opening valid spelled) (.plain (.literal (by decide))) (tidy_body spelled)

namespace Swift

variable {s : SwiftSettings} {d : Declaration} {ds : List Declaration}

theorem isWord_fileName (valid : s.fault? = none) : IsWord s.singleFileName := by
  obtain ⟨general, _⟩ := SwiftSettings.fault?_eq_none_iff.mp valid
  exact Text.isIdentifierPart_of_isIdentifier (GeneralSettings.fault?_eq_none_iff.mp general).2.1

theorem tidy_edits (valid : s.fault? = none) (spelled : d.IsSpelled) : TidyBlock 0 (d.edits s) := by
  have opens : Calm "" false 0 (opening s d ++ " \x7b") := calm_opening valid spelled
  exact .braced opens.keys.tidy (.plain (.literal (by decide))) (tidy_body spelled)

theorem isOrderly_file (valid : s.fault? = none) {stem : String} (word : IsWord stem)
    (spelled : ∀ d ∈ ds, d.IsSpelled) :
    IsOrderly (file stem (ds.map fun d => (sourceOf s d).text)).contents := by
  have name : IsPlain (fileName stem) := word.isPlain.append (.literal (by decide))
  exact SourceFile.isOrderly_headed_spaced name
    (.line (.plain (.literal (by decide))) (.emptyLine .nil))
    fun d among => tidy_edits valid (spelled d among)

theorem isOrderly_files (valid : s.fault? = none) (spelled : ∀ d ∈ ds, d.IsSpelled) :
    ∀ own ∈ files s (ds.map (sourceOf s)), IsOrderly own.contents := by
  unfold files
  cases s.fileLayout with
  | perClass =>
      rw [List.map_map, List.forall_mem_map]
      intro d among
      have own := spelled d among
      exact @isOrderly_file _ [d] valid _ own.name (List.forall_mem_singleton.mpr own)
  | singleFile =>
      cases ds with
      | nil => exact List.forall_mem_nil _
      | cons d ds =>
          refine List.forall_mem_singleton.mpr ?_
          rw [List.map_map]
          exact isOrderly_file valid (isWord_fileName valid) spelled

end Swift

namespace ObjectiveC

variable {s : ObjectiveCSettings} {d : Declaration} {ds : List Declaration} {stem : String}
  {nested : List String}

theorem isOrderly_header (valid : s.fault? = none) (word : IsWord stem)
    (words : ∀ typeName ∈ nested, IsWord typeName) (spelled : ∀ d ∈ ds, d.IsSpelled) :
    IsOrderly (header s stem nested (ds.map fun d => (sourceOf s d).interface)).contents := by
  have name : IsPlain (headerName stem) := word.isPlain.append (.literal (by decide))
  have front := (quiet_headerImports isNoImport_keyStart valid).append
    (quiet_announcement standsOut_keyStart words)
  exact SourceFile.isOrderly_headed_spaced name (front.mono fun _ _ => Quiet.tidy)
    fun d among => (quiet_interface standsOut_keyStart valid (spelled d among)).mono
      fun _ _ => Quiet.tidy

theorem isOrderly_implementationFile (word : IsWord stem)
    (words : ∀ typeName ∈ nested, IsWord typeName) (spelled : ∀ d ∈ ds, d.IsSpelled) :
    IsOrderly (implementationFile stem nested
      (ds.map fun d => (sourceOf s d).implementation)).contents := by
  have name : IsPlain (implementationName stem) := word.isPlain.append (.literal (by decide))
  rw [implementationFile_eq]
  exact SourceFile.isOrderly_headed_spaced name
    ((quiet_importLines isNoImport_keyStart word words).mono fun _ _ => Quiet.tidy)
    fun d among => tidy_implementation (spelled d among)

theorem isOrderly_files (valid : s.fault? = none) (spelled : ∀ d ∈ ds, d.IsSpelled) :
    ∀ own ∈ files s (ds.map (sourceOf s)), IsOrderly own.contents := by
  have pair {own : List Declaration} {stem : String} {nested : List String} (word : IsWord stem)
      (words : ∀ typeName ∈ nested, IsWord typeName) (fit : ∀ d ∈ own, d.IsSpelled) :
      ∀ file ∈ [header s stem nested (own.map fun d => (sourceOf s d).interface),
          implementationFile stem nested (own.map fun d => (sourceOf s d).implementation)],
        IsOrderly file.contents := by
    rw [List.forall_mem_cons, List.forall_mem_singleton]
    exact ⟨isOrderly_header valid word words fit, isOrderly_implementationFile word words fit⟩
  cases layout : s.fileLayout with
  | perClass =>
      rw [files_perClass layout]
      intro file among
      obtain ⟨d, listed, among⟩ := List.mem_flatMap.mp among
      have own := spelled d listed
      exact pair own.name own.nested (List.forall_mem_singleton.mpr own) file among
  | singleFile =>
      rcases eq_or_ne ds [] with rfl | written
      · rw [files, layout]
        exact List.forall_mem_nil _
      · rw [files_singleFile layout written]
        exact pair (isWord_fileName valid) (List.forall_mem_nil _) spelled

end ObjectiveC

/-! ## Every file -/

theorem isOrderly_of_render {language : Language} {settings : Settings} {budget : Budget}
    {s : Schema} {files : List SourceFile}
    (done : language.render settings budget s = .ok files) :
    ∀ file ∈ files, IsOrderly file.contents := by
  unfold Language.render at done
  split at done
  · obtain ⟨valid, m, _, sources, declares, rfl⟩ :=
      Backend.exists_declares_of_render Swift.countsOutput_backend done
    obtain ⟨ds, rfl, declared⟩ := Swift.exists_declarations valid declares
    exact Swift.isOrderly_files valid declared.spelled
  · obtain ⟨valid, m, _, sources, declares, rfl⟩ :=
      Backend.exists_declares_of_render ObjectiveC.countsOutput_backend done
    obtain ⟨ds, rfl, covers⟩ := ObjectiveC.exists_covers valid declares
    exact ObjectiveC.isOrderly_files valid covers.spelled
  · obtain ⟨valid, m, _, sources, declares, rfl⟩ :=
      Backend.exists_declares_of_render Java.countsOutput_backend done
    obtain ⟨ds, rfl, declared⟩ := Java.exists_declarations valid declares
    show ∀ own ∈ ds.map (Java.file _), IsOrderly own.contents
    rw [List.forall_mem_map]
    exact fun d among => Java.isOrderly_file valid (declared.spelled d among)
  · cases done

/-- Whatever classes and keys are called, a file has no control characters but line feeds, and on
every line of it each literal that is opened is closed, and there is one at most. -/
theorem literals_closed_of_render {language : Language} {settings : Settings} {budget : Budget}
    {s : Schema} {files : List SourceFile}
    (done : language.render settings budget s = .ok files) :
    ∀ file ∈ files,
      (∀ c ∈ file.contents.toList, c = '\n' ∨ 0x20 ≤ c.toNat ∧ c.toNat ≠ 0x7F) ∧
        ∀ line ∈ parts '\n' file.contents, ∃ count ≤ 1, Text.literals? line = some count := by
  intro file among
  have orderly := isOrderly_of_render done file among
  refine ⟨fun c inside => ?_, fun line listed => ?_⟩
  · by_cases feed : c = '\n'
    · exact .inl feed
    · have printable := orderly.printable inside feed
      rw [isPrintable, Bool.and_eq_true, decide_eq_true_eq, bne_iff_ne] at printable
      exact .inr printable
  · have own := Text.isOrderly_of_mem_parts orderly listed
    rw [Text.isOrderly, Bool.and_eq_true, Option.any_eq_true] at own
    obtain ⟨count, found, small⟩ := own.2
    exact ⟨count, of_decide_eq_true small, found⟩

/-- A key that is a quote, and another one that begins with a line feed, stay in their literals. -/
theorem literals_closed_of_render_marks :
    ∃ files, Language.java.render (.initial .java) .unlimited .marks = .ok files ∧
      ∀ file ∈ files,
        (∀ c ∈ file.contents.toList, c = '\n' ∨ 0x20 ≤ c.toNat ∧ c.toNat ≠ 0x7F) ∧
          ∀ line ∈ parts '\n' file.contents, ∃ count ≤ 1, Text.literals? line = some count := by
  obtain ⟨files, done⟩ := exists_render_marks .java
  exact ⟨files, done, literals_closed_of_render done⟩

end Classwright
