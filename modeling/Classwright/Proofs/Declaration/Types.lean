/-
# Classwright.Proofs.Declaration.Types — a declaration declares one type

What is written for a class is a block at the margin.  One of the lines there opens the type, and
the identifier behind that opening is the name of the declaration (`namesBehind`); no other line
begins like it.  In Objective-C this holds of interfaces and of implementations.  Neither end of the
text is an empty line (`IsFlush`), so what is put between two declarations is all that is between
them.
-/

import Mathlib
import Classwright.Proofs.Declaration.Interfaces
import Classwright.Proofs.Declaration.Java
import Classwright.Proofs.Declaration.Swift

namespace Classwright

open Text (Edit Block IsPlain IsTidy IsWhole IsWord Departs Quiet TidyBlock isIdentifierPart
  linesWith readLine)

/-! ## Names behind an opening -/

namespace Text

/-- The identifiers behind the opening, one for each line that begins with it. -/
def namesBehind (opening text : String) : List String :=
  (linesWith opening text).filterMap <| readLine opening fun cs =>
    some (String.ofList (cs.takeWhile isIdentifierPart))

/-- Lines with a name behind the opening and something else behind the name. -/
theorem namesBehind_eq {α : Type} {as : List α} {name rest : α → String} {opening text : String}
    (lines : linesWith opening text = as.map fun a => opening ++ (name a ++ rest a))
    (words : ∀ a ∈ as, IsWord (name a))
    (ends : ∀ a ∈ as, ∀ c ∈ (rest a).toList.head?, isIdentifierPart c = false) :
    namesBehind opening text = as.map name := by
  rw [namesBehind, lines, List.filterMap_map]
  refine List.filterMap_eq_map_iff_forall_eq_some.mpr fun a among => ?_
  have nothing : (rest a).toList.takeWhile isIdentifierPart = [] := by
    cases eq : (rest a).toList with
    | nil => rfl
    | cons c cs =>
        have other := ends a among c (by rw [eq, List.head?_cons, Option.mem_some_iff])
        rw [List.takeWhile_cons_of_neg (by rw [other]; exact Bool.false_ne_true)]
  rw [Function.comp_apply, readLine_append, String.toList_append,
    List.takeWhile_append_of_pos (words a among), nothing, List.append_nil, String.ofList_toList]

/-- Neither the first nor the last line of the text is empty. -/
def IsFlush (text : String) : Prop :=
  (∃ c rest, text.toList = c :: rest ∧ c ≠ '\n') ∧
    ∃ front c, text.toList = front ++ [c, '\n'] ∧ c ≠ '\n'

/-- Such a text ends with a line feed. -/
theorem IsFlush.isWhole {text : String} (flush : IsFlush text) : IsWhole text := by
  obtain ⟨_, front, c, eq, _⟩ := flush
  refine .inr ⟨String.ofList (front ++ [c]), ?_⟩
  rw [← String.toList_inj, eq]
  simp

variable {first last unit : String} {edits front others : List Edit} {P : Nat → String → Prop}

theorem isFlush_addedBy (opens : edits = .line first :: others)
    (ends : edits = front ++ [.line last]) (block : Block P 0 front) (filledFirst : first ≠ "")
    (tidyFirst : IsTidy first) (filledLast : last ≠ "") (tidyLast : IsTidy last) :
    IsFlush (addedBy unit 0 edits) := by
  have line {text : String} (filled : text ≠ "") :
      addedBy unit 0 [.line text] = text ++ "\n" := by
    rw [addedBy_line, if_neg (by simpa using filled)]
    exact congrArg (· ++ "\n") String.empty_append
  have feed : "\n".toList = ['\n'] := String.toList_ofList
  constructor
  · obtain ⟨c, rest, eq⟩ := List.exists_cons_of_ne_nil
      (fun none => filledFirst (String.toList_eq_nil_iff.mp none))
    refine ⟨c, rest ++ "\n".toList ++ (addedBy unit 0 others).toList, ?_, ?_⟩
    · rw [opens, addedBy_cons, line filledFirst, String.toList_append, String.toList_append, eq]
      rfl
    · rintro rfl
      exact tidyFirst.lineFeed_notMem (eq ▸ List.mem_cons_self)
  · obtain ⟨init, c, eq⟩ := (List.eq_nil_or_concat' last.toList).resolve_left
      (fun none => filledLast (String.toList_eq_nil_iff.mp none))
    refine ⟨(addedBy unit 0 front).toList ++ init, c, ?_, ?_⟩
    · rw [ends, block.addedBy_append, line filledLast, String.toList_append, String.toList_append,
        eq, feed]
      simp
    · rintro rfl
      exact tidyLast.lineFeed_notMem (eq ▸ by simp)

end Text

open Text (namesBehind IsFlush)

namespace SourceFile

variable {opening head name : String} {body edits : List Edit} {texts : List String}

theorem openingAt_zero (opening : String) : openingAt 0 opening.toList = opening := by
  rw [openingAt, String.ofList_toList, margin_zero]

/-- The head of a block is the only line of it that begins like the head. -/
theorem linesWith_braced_head (opens : IsStart opening.toList) (tidy : IsTidy (head ++ " \x7b"))
    (starts : opening.toList <+: (head ++ " \x7b").toList)
    (closes : Departs opening.toList "\x7d") (inner : TidyBlock 1 body) :
    linesWith opening (typeset (Text.braced head body)) = [head ++ " \x7b"] := by
  have first := @linesWith_braced_eq_head 0 _ _ _ opens tidy starts closes inner
  rw [margin_zero, openingAt_zero] at first
  rw [typeset_eq]
  exact first

theorem isFlush_braced (tidy : IsTidy (head ++ " \x7b")) (inner : TidyBlock 1 body) :
    IsFlush (typeset (Text.braced head body)) := by
  have block : TidyBlock 0 (.line (head ++ " \x7b") :: Text.indented body) :=
    .line tidy (.indented inner)
  rw [typeset_eq]
  exact Text.isFlush_addedBy rfl rfl block (by simp) tidy (by decide) (.plain (.literal (by decide)))

/-- A file has the names of the texts in it, if none of them is in front. -/
theorem namesBehind_headed_spaced (plain : IsPlain name) (opens : IsStart opening.toList)
    (front : Block (Quiet 0 opening.toList) 0 edits) (whole : ∀ text ∈ texts, IsWhole text) :
    namesBehind opening (headed name (edits ++ spaced texts)).contents =
      texts.flatMap (namesBehind opening) := by
  have lines := @linesWith_headed_spaced 0 _ _ _ _ plain opens front _ whole
  rw [linesWith_eq_nil front opens, List.nil_append, openingAt_zero] at lines
  rw [namesBehind, lines, List.filterMap_flatMap]
  rfl

end SourceFile

/-! ## Swift -/

namespace Swift

variable {s : SwiftSettings} {d : Declaration}

/-- What the line that opens a type begins with. -/
def typeOpening (s : SwiftSettings) : String := s.access.modifier ++ kindWords s.kind ++ " "

theorem exists_typeOpening_eq (s : SwiftSettings) :
    ∃ c rest, (typeOpening s).toList = c :: rest ∧ c ∈ ['s', 'c', 'f', 'p', 'o'] := by
  rw [typeOpening]
  cases s.access <;> cases s.kind <;> simp [SwiftAccess.modifier, kindWords]

theorem isStart_typeOpening (s : SwiftSettings) : SourceFile.IsStart (typeOpening s).toList := by
  obtain ⟨c, rest, eq, among⟩ := exists_typeOpening_eq s
  have other : ∀ c ∈ ['s', 'c', 'f', 'p', 'o'], c ≠ ' ' ∧ c ≠ '/' := by simp
  exact ⟨c, rest, eq, other c among⟩

theorem departs_typeOpening (s : SwiftSettings) {c : Char} {cs : List Char}
    (other : c ∉ ['s', 'c', 'f', 'p', 'o']) :
    Departs (typeOpening s).toList (String.ofList (c :: cs)) := by
  obtain ⟨first, rest, eq, among⟩ := exists_typeOpening_eq s
  have apart : first ≠ c := fun same => other (same ▸ among)
  refine .literal ?_
  rw [eq]
  exact ⟨fun goesOn => apart (List.cons_prefix_cons.mp goesOn).1,
    fun within => apart (List.cons_prefix_cons.mp within).1.symm⟩

theorem opening_eq (s : SwiftSettings) (d : Declaration) :
    opening s d ++ " \x7b" = typeOpening s ++ (d.name ++ (inheritance s ++ " \x7b")) := by
  simp only [opening, typeOpening, String.append_assoc]

theorem tidy_opening (valid : s.fault? = none) (spelled : d.IsSpelled) :
    IsTidy (opening s d ++ " \x7b") := by
  have calm : Calm "" false 0 (opening s d ++ " \x7b") := calm_opening valid spelled
  exact calm.keys.tidy

/-- Behind the name there is a colon, if anything. -/
theorem exists_inheritance_eq (s : SwiftSettings) :
    inheritance s = "" ∨ ∃ bases, inheritance s = ": " ++ bases := by
  simp only [inheritance]
  generalize s.baseClass.toList ++ (if s.codable then ["Codable"] else []) ++
    (if s.equatable then ["Equatable"] else []) = names
  split
  · exact .inl rfl
  · exact .inr ⟨_, rfl⟩

theorem namesBehind_source (valid : s.fault? = none) (spelled : d.IsSpelled) :
    namesBehind (typeOpening s) (sourceOf s d).text = [d.name] := by
  have lines : linesWith (typeOpening s) (sourceOf s d).text =
      [d].map fun d => typeOpening s ++ (d.name ++ (inheritance s ++ " \x7b")) := by
    rw [List.map_singleton, ← opening_eq]
    refine SourceFile.linesWith_braced_head (isStart_typeOpening s) (tidy_opening valid spelled) ?_
      (departs_typeOpening s (by decide)) (tidy_body spelled)
    rw [opening_eq]
    exact Text.prefix_append (List.prefix_refl _) _
  refine Text.namesBehind_eq lines (List.forall_mem_singleton.mpr spelled.name) fun _ _ => ?_
  rcases exists_inheritance_eq s with eq | ⟨bases, eq⟩
  all_goals simp [eq, isIdentifierPart]

theorem isFlush_source (valid : s.fault? = none) (spelled : d.IsSpelled) :
    IsFlush (sourceOf s d).text :=
  SourceFile.isFlush_braced (tidy_opening valid spelled) (tidy_body spelled)

end Swift

/-! ## Java -/

namespace Java

variable {s : JavaSettings} {d : Declaration}

/-- What the line that opens a class begins with. -/
def classOpening : String := "public class "

theorem classOpening_eq : classOpening.toList =
    ['p', 'u', 'b', 'l', 'i', 'c', ' ', 'c', 'l', 'a', 's', 's', ' '] := String.toList_ofList

theorem isStart_classOpening : SourceFile.IsStart classOpening.toList :=
  ⟨'p', _, classOpening_eq, by decide⟩

theorem opening_eq (s : JavaSettings) (d : Declaration) :
    opening s d ++ " \x7b" =
      classOpening ++ (d.name ++ ((s.baseClass.map (" extends " ++ ·)).getD "" ++ " \x7b")) := by
  unfold opening classOpening
  simp only [String.append_assoc]

theorem namesBehind_edits (valid : s.fault? = none) (spelled : d.IsSpelled) :
    namesBehind classOpening (SourceFile.typeset (d.edits s)) = [d.name] := by
  have lines : linesWith classOpening (SourceFile.typeset (d.edits s)) =
      [d].map fun d => classOpening ++
        (d.name ++ ((s.baseClass.map (" extends " ++ ·)).getD "" ++ " \x7b")) := by
    rw [List.map_singleton, ← opening_eq]
    refine SourceFile.linesWith_braced_head isStart_classOpening (tidy_opening valid spelled)
      ?_ ?_ (tidy_body spelled)
    · rw [opening_eq]
      exact Text.prefix_append (List.prefix_refl _) _
    · rw [classOpening_eq]
      exact .literal (by decide)
  refine Text.namesBehind_eq lines (List.forall_mem_singleton.mpr spelled.name) fun _ _ => ?_
  cases s.baseClass with
  | none => simp [isIdentifierPart]
  | some base => simp [isIdentifierPart]

theorem isFlush_edits (valid : s.fault? = none) (spelled : d.IsSpelled) :
    IsFlush (SourceFile.typeset (d.edits s)) :=
  SourceFile.isFlush_braced (tidy_opening valid spelled) (tidy_body spelled)

end Java

/-! ## Objective-C -/

namespace ObjectiveC

variable {s : ObjectiveCSettings} {d : Declaration}

/-- What the line that opens an implementation begins with. -/
def implementationOpening : String := "@implementation "

theorem implementationOpening_eq : implementationOpening.toList =
    ['@', 'i', 'm', 'p', 'l', 'e', 'm', 'e', 'n', 't', 'a', 't', 'i', 'o', 'n', ' '] :=
  String.toList_ofList

theorem isStart_implementationOpening : SourceFile.IsStart implementationOpening.toList :=
  ⟨'@', _, implementationOpening_eq, by decide⟩

theorem interfacesIn_source (valid : s.fault? = none) (spelled : d.IsSpelled)
    (filled : ∀ m ∈ d.members, m.name ≠ "") :
    interfacesIn (sourceOf s d).interface = [(d.name, d.members.flatMap (·.kind.words))] := by
  have own := interfaces_interfaceLines (s := s) spelled filled []
  rw [List.append_nil] at own
  rw [interfacesIn]
  exact (congrArg _ (linesWith_interface valid spelled)).trans own

theorem isFlush_interface (valid : s.fault? = none) (spelled : d.IsSpelled) :
    IsFlush (sourceOf s d).interface := by
  have opening : IsTidy (interfaceText s d) := .plain (isPlain_interfaceText valid spelled)
  have filled : interfaceText s d ≠ "" := by simp [interfaceText]
  have methods : TidyBlock 0 methodLines :=
    .line (.plain (.literal (by decide))) (.line (.plain (.literal (by decide)))
      (.line (.plain (.literal (by decide))) (.emptyLine .nil)))
  have block := Block.line opening (.append (.emptyLine .nil)
    (.append (block_closedGroup (tidy_propertyLines (s := s) spelled)) methods))
  have ends : d.interface s = (Edit.line (interfaceText s d) :: ([Edit.emptyLine] ++
      (closedGroup (d.members.map (propertyLine s)) ++ methodLines))) ++ [Edit.line "@end"] := by
    simp [interface_eq]
  show IsFlush (SourceFile.typeset (d.interface s))
  rw [SourceFile.typeset_eq]
  exact Text.isFlush_addedBy (interface_eq s d) ends block filled opening (by decide)
    (.plain (.literal (by decide)))

/-- Lines of a class that opens no implementation. -/
theorem isApart_implementationOpening :
    IsApart extensionFronts implementationOpening.toList := by
  rw [implementationOpening_eq]
  decide

theorem quiet_constants (spelled : d.IsSpelled) :
    Block (Quiet 0 implementationOpening.toList) 0 (closedGroup (d.members.map constantLine)) := by
  refine block_closedGroup (.map fun m among => ?_)
  refine .line (.own (tidy_constantText (spelled.members m among)) ?_) .nil
  rw [implementationOpening_eq]
  exact .append (.append (.append (.append (.literal (by decide)))))

/-- An implementation has one line that opens an implementation. -/
theorem namesBehind_implementation (spelled : d.IsSpelled) :
    namesBehind implementationOpening (sourceOf s d).implementation = [d.name] := by
  have apart := isApart_implementationOpening
  have opens := isStart_implementationOpening
  have tidy : IsTidy ("@implementation " ++ d.name) :=
    .plain (.append (.literal (by decide)) spelled.name.isPlain)
  have front := (quiet_constants spelled).append (quiet_extensionLines apart spelled)
  have behind : Block (Quiet 0 implementationOpening.toList) 0
      (methodsInside s d ++ [Edit.line "@end"]) :=
    .append (quiet_methodsInside (apart.longer (by decide)) spelled)
      (.line (quiet_literal apart (by decide) (by decide)) .nil)
  have first := @SourceFile.linesWith_cons 0 _ _ opens tidy
    (Text.prefix_append (List.prefix_refl _) _) (methodsInside s d ++ [Edit.line "@end"])
  rw [SourceFile.linesWith_eq_nil behind opens, SourceFile.margin_zero,
    SourceFile.openingAt_zero] at first
  have lines : linesWith implementationOpening (sourceOf s d).implementation =
      [d].map fun d => implementationOpening ++ (d.name ++ "") := by
    show linesWith _ (SourceFile.typeset (d.implementation s)) = _
    have whole := SourceFile.linesWith_append_of_quiet front opens
      (Edit.line ("@implementation " ++ d.name) :: (methodsInside s d ++ [Edit.line "@end"]))
    rw [SourceFile.typeset_eq, implementation_eq, behindConstants_eq, ← List.append_assoc]
    rw [SourceFile.openingAt_zero, first] at whole
    rw [whole, List.map_singleton, String.append_empty]
    rfl
  exact Text.namesBehind_eq lines (List.forall_mem_singleton.mpr spelled.name) fun _ _ => by simp

/-- An implementation begins with a constant, or else with the class extension. -/
theorem exists_implementation_eq (spelled : d.IsSpelled) :
    ∃ first others, d.implementation s = .line first :: others ∧ first ≠ "" ∧ IsTidy first := by
  rw [implementation_eq]
  cases eq : d.members with
  | nil =>
      have tidy : IsTidy ("@interface " ++ d.name ++ " ()") := .plain (.append
        (.append (.literal (by decide)) spelled.name.isPlain) (.literal (by decide)))
      exact ⟨_, _, rfl, by simp, tidy⟩
  | cons m members =>
      have among : m ∈ d.members := eq ▸ List.mem_cons_self
      refine ⟨constantText m, members.map constantLine ++ [Edit.emptyLine] ++ behindConstants s d,
        rfl, fun empty => ?_, tidy_constantText (spelled.members m among)⟩
      have begins := keyStart_prefix m
      rw [empty] at begins
      exact absurd (List.prefix_nil.mp begins) (by decide)

theorem isFlush_implementation (spelled : d.IsSpelled) :
    IsFlush (sourceOf s d).implementation := by
  have apart := isApart_implementationOpening
  have tidy : IsTidy ("@implementation " ++ d.name) :=
    .plain (.append (.literal (by decide)) spelled.name.isPlain)
  have constants := (quiet_constants spelled).mono fun _ _ => Quiet.tidy
  have extension := (quiet_extensionLines apart spelled).mono fun _ _ => Quiet.tidy
  have methods := (quiet_methodsInside (s := s) (apart.longer (by decide)) spelled).mono
    fun _ _ => Quiet.tidy
  have block := constants.append (extension.append (.line tidy methods))
  have ends : d.implementation s = (closedGroup (d.members.map constantLine) ++ (extensionLines d ++
      (Edit.line ("@implementation " ++ d.name) :: methodsInside s d))) ++ [Edit.line "@end"] := by
    simp [implementation_eq, behindConstants_eq]
  obtain ⟨first, others, opens, filled, tidyFirst⟩ := exists_implementation_eq (s := s) spelled
  show IsFlush (SourceFile.typeset (d.implementation s))
  rw [SourceFile.typeset_eq]
  exact Text.isFlush_addedBy opens ends block filled tidyFirst (by decide)
    (.plain (.literal (by decide)))

end ObjectiveC

end Classwright
