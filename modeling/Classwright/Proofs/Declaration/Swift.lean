/-
# Classwright.Proofs.Declaration.Swift — the lines of a class in Swift

Every line of a declaration is plain or holds one literal.  Three kinds of lines can be told by what
they begin with: the one that opens the coding keys, the cases among the coding keys, and the stored
properties.  No other line begins like one of them.
-/

import Classwright.Backend.Swift
import Classwright.Proofs.Render.Budget
import Classwright.Proofs.Render.MemberNaming
import Classwright.Proofs.Render.Outcome
import Classwright.Proofs.Render.SourceFile
import Classwright.Proofs.Settings
import Classwright.Proofs.Text.Entry

namespace Classwright.Swift

open Text (Edit Block IsPlain IsTidy IsWord Departs Quiet TidyBlock)

/-! ## What lines begin with -/

/-- What the line that opens the coding keys begins with. -/
def enumStart : List Char :=
  ['e', 'n', 'u', 'm', ' ', 'C', 'o', 'd', 'i', 'n', 'g', 'K', 'e', 'y', 's']

/-- What a case begins with. -/
def caseStart : List Char := ['c', 'a', 's', 'e', ' ']

/-- The word that declares a stored property. -/
def bindingWord (mutable : Bool) : List Char :=
  if mutable then ['v', 'a', 'r', ' '] else ['l', 'e', 't', ' ']

/-- What a stored property begins with. -/
def propertyStart (modifier : String) (mutable : Bool) : List Char :=
  modifier.toList ++ bindingWord mutable

/-- Members can be seen from everywhere or only in the module. -/
def IsModifier (modifier : String) : Prop := modifier = "" ∨ modifier = "public "

theorem isModifier_ofMembers (access : SwiftAccess) : IsModifier access.ofMembers.modifier := by
  cases access with
  | module => exact .inl rfl
  | everywhere | inheritable => exact .inr rfl

variable {s : SwiftSettings} {d : Declaration} {m : Member} {members : List Member}
  {modifier : String} {mutable : Bool} {level : Nat} {text : String}

theorem IsModifier.isPlain (own : IsModifier modifier) : IsPlain modifier := by
  rcases own with rfl | rfl
  · exact Text.isPlain_empty
  · exact .literal (by decide)

theorem isStart_enumStart : SourceFile.IsStart enumStart := ⟨'e', _, rfl, by decide⟩

theorem isStart_caseStart : SourceFile.IsStart caseStart := ⟨'c', _, rfl, by decide⟩

theorem isStart_propertyStart (own : IsModifier modifier) :
    SourceFile.IsStart (propertyStart modifier mutable) := by
  have binding : SourceFile.IsStart (bindingWord mutable) := by
    cases mutable
    all_goals exact ⟨_, _, rfl, by decide⟩
  rcases own with rfl | rfl
  · exact binding
  · exact ⟨'p', _, rfl, by decide⟩

/-- The line begins like none of those that are looked for. -/
structure Calm (modifier : String) (mutable : Bool) (level : Nat) (text : String) : Prop where
  keys : Quiet 1 enumStart level text
  cases : Quiet 2 caseStart level text
  properties : Quiet 1 (propertyStart modifier mutable) level text

/-- A line of the declaration itself. -/
theorem Calm.outside (tidy : IsTidy text) (unblank : Departs [' '] text) :
    Calm modifier mutable 0 text :=
  ⟨.outer tidy unblank (by decide), .outer tidy unblank (by decide),
    .outer tidy unblank (by decide)⟩

/-- A line between the braces of the declaration. -/
theorem Calm.between (tidy : IsTidy text) (keys : Departs enumStart text)
    (properties : Departs (propertyStart modifier mutable) text) (unblank : Departs [' '] text) :
    Calm modifier mutable 1 text :=
  ⟨.own tidy keys, .outer tidy unblank (by decide), .own tidy properties⟩

/-- A line inside a member. -/
theorem Calm.inside (tidy : IsTidy text) (cases : Departs caseStart text) :
    Calm modifier mutable 2 text :=
  ⟨.inner tidy (by decide), .own tidy cases, .inner tidy (by decide)⟩

/-- Behind the modifier comes another word, or in place of it. -/
theorem departs_modifier {c first : Char} {rest cs : List Char} (own : IsModifier modifier)
    (other : first ≠ 'p') (apart : first ≠ c) :
    Departs (first :: rest) (modifier ++ String.ofList (c :: cs)) := by
  rcases own with rfl | rfl
  · rw [String.empty_append]
    exact .literal (by simp [List.cons_prefix_cons, apart, apart.symm])
  · exact .append (.literal (by simp [List.cons_prefix_cons, other, other.symm]))

/-- Behind the modifier comes something else than a stored property. -/
theorem departs_property {c : Char} {cs : List Char} (other : c ∉ ['v', 'l']) :
    Departs (propertyStart modifier mutable) (modifier ++ String.ofList (c :: cs)) := by
  have apart : c ≠ 'v' ∧ c ≠ 'l' := by simpa using other
  have word : ¬ bindingWord mutable <+: c :: cs ∧ ¬ c :: cs <+: bindingWord mutable := by
    cases mutable
    all_goals simp [bindingWord, List.cons_prefix_cons, apart, apart.1.symm, apart.2.symm]
  refine .of_apart ?_ ?_
  all_goals rw [propertyStart, String.toList_append, String.toList_ofList,
    List.prefix_append_right_inj]
  · exact word.1
  · exact word.2

/-- A line without a modifier is no stored property unless it begins like one. -/
theorem departs_property_of_head (own : IsModifier modifier) {c : Char} {cs : List Char}
    (other : c ∉ ['v', 'l', 'p']) :
    Departs (propertyStart modifier mutable) (String.ofList (c :: cs)) := by
  have apart : c ≠ 'v' ∧ c ≠ 'l' ∧ c ≠ 'p' := by simpa using other
  rcases own with rfl | rfl
  · have empty : String.ofList (c :: cs) = "" ++ String.ofList (c :: cs) :=
      String.empty_append.symm
    rw [empty]
    exact departs_property (by simp [apart])
  · have start : propertyStart "public " mutable =
        'p' :: (['u', 'b', 'l', 'i', 'c', ' '] ++ bindingWord mutable) := rfl
    rw [start]
    exact .literal (by simp [List.cons_prefix_cons, apart, apart.2.2.symm])

/-- The line goes on behind the modifier with something else than a stored property. -/
inductive OpensMember (modifier : String) : String → Prop
  | start {c : Char} {cs : List Char} (other : c ∉ ['v', 'l', 'e', ' ']) :
      OpensMember modifier (modifier ++ String.ofList (c :: cs))
  | append {front back : String} (early : OpensMember modifier front) :
      OpensMember modifier (front ++ back)

/-- The line that opens a member begins like none of those that are looked for. -/
theorem Calm.member (own : IsModifier modifier) (tidy : IsTidy text)
    (opens : OpensMember modifier text) : Calm modifier mutable 1 text := by
  suffices departs : Departs enumStart text ∧ Departs (propertyStart modifier mutable) text ∧
      Departs [' '] text from .between tidy departs.1 departs.2.1 departs.2.2
  clear tidy
  induction opens with
  | @start c cs other =>
      have apart : c ≠ 'v' ∧ c ≠ 'l' ∧ c ≠ 'e' ∧ c ≠ ' ' := by simpa using other
      exact ⟨departs_modifier own (by decide) apart.2.2.1.symm,
        departs_property (by simp [apart]), departs_modifier own (by decide) apart.2.2.2.symm⟩
  | append _ ih => exact ⟨.append ih.1, .append ih.2.1, .append ih.2.2⟩

/-- A line without names. -/
theorem Calm.literal (own : IsModifier modifier) {c : Char} {cs : List Char}
    (plain : (c :: cs).all Text.isPlainChar) (other : c ∉ ['v', 'l', 'p', 'e', ' ']) :
    Calm modifier mutable 1 (String.ofList (c :: cs)) := by
  have apart : c ≠ 'v' ∧ c ≠ 'l' ∧ c ≠ 'p' ∧ c ≠ 'e' ∧ c ≠ ' ' := by simpa using other
  refine .between (.plain (.literal plain)) ?_ (departs_property_of_head own (by simp [apart])) ?_
  all_goals exact .literal (by simp [enumStart, List.cons_prefix_cons, apart,
    apart.2.2.2.1.symm, apart.2.2.2.2.symm])

/-! ## Members -/

/-- The names of a member are fit to stand in source. -/
structure Member.IsSpelled (m : Member) : Prop where
  name : ∀ c ∈ m.name.toList, c.isAlphanum
  type : IsPlain m.valueType
  /-- A line that starts with the name is no case. -/
  noCase : m.name.toList ≠ ['c', 'a', 's', 'e']

/-- The names of a declaration are fit to stand in source. -/
structure Declaration.IsSpelled (d : Declaration) : Prop where
  name : IsWord d.name
  members : ∀ m ∈ d.members, m.IsSpelled

theorem Member.IsSpelled.isPlain_name (spelled : m.IsSpelled) : IsPlain m.name :=
  (IsWord.of_isAlphanum spelled.name).isPlain

theorem Member.IsSpelled.isPlain_type (spelled : m.IsSpelled) : IsPlain m.type := by
  unfold Member.type
  split
  · exact spelled.type.append (.literal (by decide))
  · exact spelled.type

theorem Member.IsSpelled.isPlain_parameter (spelled : m.IsSpelled) : IsPlain (parameter m) := by
  have name := spelled.isPlain_name
  have type := spelled.isPlain_type
  unfold parameter
  split
  all_goals
    repeat' with_reducible first | assumption | constructor
    all_goals decide

/-- A line inside a member that starts with a fixed text. -/
theorem Calm.line {text : String} (plain : IsPlain text) (cases : Departs caseStart text) :
    Block (Calm modifier mutable) 2 [.line text] :=
  .line (.inside (.plain plain) cases) .nil

theorem calm_initializer (own : IsModifier modifier) (spelled : ∀ m ∈ members, m.IsSpelled) :
    Block (Calm modifier mutable) 1 (initializer s modifier members) := by
  have front := own.isPlain
  have parameters : IsPlain (String.intercalate ", " (members.map parameter)) :=
    .intercalate (.literal (by decide))
      (List.forall_mem_map.mpr fun m among => (spelled m among).isPlain_parameter)
  have assignments : Block (Calm modifier mutable) 2
      (members.map fun m => .line ("self." ++ m.name ++ " = " ++ m.name)) := by
    refine .map fun m among => ?_
    have name := (spelled m among).isPlain_name
    refine Calm.line ?_ ?_
    all_goals
      repeat' with_reducible first | assumption | constructor
      all_goals decide
  have rest : Block (Calm modifier mutable) 2
      (if s.baseClass.isSome then [.line "super.init()"] else []) := by
    split
    · exact Calm.line (.literal (by decide)) (.literal (by decide))
    · exact .nil
  refine .braced (.member own (.plain ?_) ?_) (.literal own (by decide) (by decide))
    (.append assignments rest)
  · split
    all_goals
      repeat' with_reducible first | assumption | constructor
      all_goals decide
  · split
    · exact .append (.append (.append (.append (.start (by decide)))))
    · rw [String.append_empty]
      exact .append (.append (.append (.start (by decide))))

theorem calm_containerLine {line : String} (plain : IsPlain line)
    (cases : Departs caseStart line) :
    Block (Calm modifier mutable) 2 (containerLine members line) := by
  unfold containerLine
  split
  · exact .nil
  · exact Calm.line plain cases

theorem calm_decodeLine (spelled : m.IsSpelled) :
    Block (Calm modifier mutable) 2 [decodeLine m] := by
  have name := spelled.isPlain_name
  have type := spelled.type
  have noBlank : ' ' ∉ m.name.toList := fun among => absurd (spelled.name ' ' among) (by decide)
  refine Calm.line ?_ ?_
  · split
    all_goals
      repeat' with_reducible first | assumption | constructor
      all_goals decide
  · exact .append (.append (.append (.append (.append (.append
      (.of_word spelled.noCase (by decide) noBlank))))))

theorem calm_decoder (own : IsModifier modifier) (spelled : ∀ m ∈ members, m.IsSpelled) :
    Block (Calm modifier mutable) 1 (decoder modifier members) := by
  have front := own.isPlain
  have container := @calm_containerLine members modifier mutable
    "let container = try decoder.container(keyedBy: CodingKeys.self)"
    (.literal (by decide)) (.literal (by decide))
  refine .braced (.member own (.plain ?_) (.append (.start (by decide))))
    (.literal own (by decide) (by decide))
    (.append (.append container (.map fun m among => calm_decodeLine (spelled m among)))
      (Calm.line (.literal (by decide)) (.literal (by decide))))
  repeat' with_reducible first | assumption | constructor
  all_goals decide

theorem calm_encodeLine (spelled : m.IsSpelled) :
    Block (Calm modifier mutable) 2 [encodeLine m] := by
  have name := spelled.isPlain_name
  refine Calm.line ?_ ?_
  · split
    all_goals
      repeat' with_reducible first | assumption | constructor
      all_goals decide
  · repeat' with_reducible first | assumption | constructor
    all_goals decide

theorem calm_encoder (own : IsModifier modifier) (spelled : ∀ m ∈ members, m.IsSpelled) :
    Block (Calm modifier mutable) 1 (encoder modifier members) := by
  have front := own.isPlain
  have container := @calm_containerLine members modifier mutable
    "var container = encoder.container(keyedBy: CodingKeys.self)"
    (.literal (by decide)) (.literal (by decide))
  refine .braced (.member own (.plain ?_) (.append (.start (by decide))))
    (.literal own (by decide) (by decide))
    (.append (.append container (.map fun m among => calm_encodeLine (spelled m among)))
      (Calm.line (.literal (by decide)) (.literal (by decide))))
  repeat' with_reducible first | assumption | constructor
  all_goals decide

theorem calm_returnAll {texts : List String} (each : ∀ text ∈ texts, IsPlain text) :
    ∀ text ∈ returnAll texts, Calm modifier mutable 2 text := by
  cases texts with
  | nil =>
      rw [returnAll, List.forall_mem_singleton]
      exact .inside (.plain (.literal (by decide))) (.literal (by decide))
  | cons first others =>
      rw [List.forall_mem_cons] at each
      rw [returnAll, List.forall_mem_cons, List.forall_mem_map]
      exact ⟨.inside (.plain (.append (.literal (by decide)) each.1))
          (.append (.literal (by decide))),
        fun text among => .inside (.plain (.append (.literal (by decide)) (each.2 text among)))
          (.append (.literal (by decide)))⟩

theorem calm_equality (own : IsModifier modifier) (spelled : d.IsSpelled) :
    Block (Calm modifier mutable) 1 (equality modifier d) := by
  have front := own.isPlain
  have name := spelled.name.isPlain
  have comparisons : ∀ text ∈ d.members.map fun m => "lhs." ++ m.name ++ " == rhs." ++ m.name,
      IsPlain text := by
    rw [List.forall_mem_map]
    intro m among
    have name := (spelled.members m among).isPlain_name
    repeat' with_reducible first | assumption | constructor
    all_goals decide
  refine .braced (.member own (.plain ?_) ?_) (.literal own (by decide) (by decide))
    (.lines (calm_returnAll comparisons))
  · repeat' with_reducible first | assumption | constructor
    all_goals decide
  · exact .append (.append (.append (.append (.append (.start (by decide))))))

/-! ## Stored properties -/

/-- The line of a stored property. -/
def propertyText (modifier : String) (mutable : Bool) (m : Member) : String :=
  modifier ++ (if mutable then "var " else "let ") ++ m.name ++ ": " ++ m.type

theorem isPlain_propertyText (own : IsModifier modifier) (spelled : m.IsSpelled) :
    IsPlain (propertyText modifier mutable m) := by
  have front := own.isPlain
  have name := spelled.isPlain_name
  have type := spelled.isPlain_type
  unfold propertyText
  split
  all_goals
    repeat' with_reducible first | assumption | constructor
    all_goals decide

theorem propertyStart_prefix (modifier : String) (mutable : Bool) (m : Member) :
    propertyStart modifier mutable <+: (propertyText modifier mutable m).toList := by
  have word : (if mutable then "var " else "let ").toList = bindingWord mutable := by
    cases mutable <;> rfl
  have front : propertyStart modifier mutable <+:
      (modifier ++ (if mutable then "var " else "let ")).toList := by
    rw [String.toList_append, word]
    exact List.prefix_refl _
  unfold propertyText
  exact Text.prefix_append (Text.prefix_append (Text.prefix_append front _) _) _

theorem storedProperties_eq (s : SwiftSettings) (modifier : String) (members : List Member) :
    storedProperties s modifier members =
      members.map fun m => .line (propertyText modifier s.mutable m) := rfl

theorem tidy_storedProperties (own : IsModifier modifier) (spelled : ∀ m ∈ members, m.IsSpelled) :
    TidyBlock 1 (storedProperties s modifier members) :=
  .map fun m among => .line (.plain (isPlain_propertyText own (spelled m among))) .nil

/-- A stored property neither opens the coding keys nor is it a case. -/
theorem quiet_storedProperties (own : IsModifier modifier) (spelled : ∀ m ∈ members, m.IsSpelled) :
    Block (fun level text => Quiet 1 enumStart level text ∧ Quiet 2 caseStart level text) 1
      (storedProperties s modifier members) := by
  rw [storedProperties_eq]
  refine .map fun m among => .line ?_ .nil
  have tidy : IsTidy (propertyText modifier s.mutable m) :=
    .plain (isPlain_propertyText own (spelled m among))
  have departs {first : Char} {rest : List Char} (other : first ∉ ['p', 'v', 'l']) :
      Departs (first :: rest) (propertyText modifier s.mutable m) := by
    have apart : first ≠ 'p' ∧ first ≠ 'v' ∧ first ≠ 'l' := by simpa using other
    unfold propertyText
    refine .append (.append (.append ?_))
    split
    · exact departs_modifier own apart.1 apart.2.1
    · exact departs_modifier own apart.1 apart.2.2
  exact ⟨.own tidy (departs (by decide)), .outer tidy (departs (by decide)) (by decide)⟩

/-! ## Coding keys -/

/-- The line of a case. -/
def caseText (m : Member) : String :=
  if m.name = m.key then "case " ++ m.name
  else "case " ++ m.name ++ " = \"" ++ Text.literalBody .braced m.key ++ "\""

theorem keyCase_eq (m : Member) : keyCase m = .line (caseText m) := by
  unfold keyCase caseText
  split <;> rfl

theorem tidy_caseText (spelled : m.IsSpelled) : IsTidy (caseText m) := by
  have front : IsPlain ("case " ++ m.name) := .append (.literal (by decide)) spelled.isPlain_name
  have opens : " = \"" = String.ofList ([' ', '=', ' '] ++ ['"']) := rfl
  have closes : "\"" = String.ofList ('"' :: []) := rfl
  unfold caseText
  split
  · exact .plain front
  · exact .of_literal opens closes front (by decide) (Text.isBody_literalBody .braced m.key)

theorem caseStart_prefix (m : Member) : caseStart <+: (caseText m).toList := by
  have front : caseStart <+: ("case " ++ m.name).toList :=
    Text.prefix_append (List.prefix_refl caseStart) m.name
  unfold caseText
  split
  · exact front
  · exact Text.prefix_append (Text.prefix_append (Text.prefix_append front _) _) _

theorem tidy_cases (spelled : ∀ m ∈ members, m.IsSpelled) : TidyBlock 2 (members.map keyCase) := by
  refine .map fun m among => ?_
  rw [keyCase_eq]
  exact .line (tidy_caseText (spelled m among)) .nil

/-- The line that opens the coding keys. -/
theorem tidy_enum : IsTidy ("enum CodingKeys: String, CodingKey" ++ " \x7b") :=
  .plain (.append (.literal (by decide)) (.literal (by decide)))

theorem tidy_codingKeys (spelled : ∀ m ∈ members, m.IsSpelled) : TidyBlock 1 (codingKeys members) :=
  .braced tidy_enum (.plain (.literal (by decide))) (tidy_cases spelled)

theorem quiet_codingKeys (own : IsModifier modifier) (spelled : ∀ m ∈ members, m.IsSpelled) :
    Block (Quiet 1 (propertyStart modifier mutable)) 1 (codingKeys members) := by
  have closes : Quiet 1 (propertyStart modifier mutable) 1 "\x7d" :=
    .own (.plain (.literal (by decide))) (departs_property_of_head own (by decide))
  exact .braced (.own tidy_enum (.append (departs_property_of_head own (by decide)))) closes
    ((tidy_cases spelled).quiet (by decide))

/-- The cases are where they are looked for. -/
theorem linesWith_case_codingKeys (spelled : ∀ m ∈ members, m.IsSpelled) :
    Text.linesWith (SourceFile.openingAt 2 caseStart)
        (Text.addedBy SourceFile.indentation 1 (codingKeys members)) =
      members.map fun m => Edit.margin SourceFile.indentation 2 ++ caseText m := by
  have cases : members.map keyCase = members.map fun m => .line (caseText m) :=
    List.map_congr_left fun m _ => keyCase_eq m
  have own := @SourceFile.linesWith_map_line 2 caseStart Member members caseText isStart_caseStart
    fun m among => ⟨tidy_caseText (spelled m among), caseStart_prefix m⟩
  rw [← cases] at own
  refine (SourceFile.linesWith_braced (.outer tidy_enum (.append (.literal (by decide))) (by decide))
    (.outer (.plain (.literal (by decide))) (.literal (by decide)) (by decide)) (tidy_cases spelled)
    isStart_caseStart).trans own

/-- The line that opens the coding keys is where it is looked for. -/
theorem linesWith_enum_codingKeys (members : List Member) :
    Text.linesWith (SourceFile.openingAt 1 enumStart)
        (Text.addedBy SourceFile.indentation 1 (codingKeys members)) ≠ [] := by
  have starts : enumStart <+: ("enum CodingKeys: String, CodingKey" ++ " \x7b").toList :=
    Text.prefix_append (List.prefix_append enumStart _) _
  have first : Text.linesWith (SourceFile.openingAt 1 enumStart) _ = _ :=
    SourceFile.linesWith_cons isStart_enumStart tidy_enum starts
      (Text.indented (members.map keyCase) ++ [.line "\x7d"])
  exact fun none => List.cons_ne_nil _ _ (first.symm.trans none)

/-! ## The whole body -/

/-- All that stands behind the coding keys. -/
def behindKeys (s : SwiftSettings) (d : Declaration) : List (List Edit) :=
  let modifier := s.access.ofMembers.modifier
  let isClass := s.kind != .struct
  Text.onlyIf (isClass || s.access != .module) (initializer s modifier d.members) ++
    Text.onlyIf (writesCoding s) (decoder modifier d.members) ++
    Text.onlyIf (writesCoding s) (encoder modifier d.members) ++
    Text.onlyIf (s.equatable && isClass) (equality modifier d)

theorem body_eq (s : SwiftSettings) (d : Declaration) :
    body s d = storedProperties s s.access.ofMembers.modifier d.members ++
      Text.setApart (Text.onlyIf (writesKeys s d.members) (codingKeys d.members) ++
        behindKeys s d) := by
  simp only [body, behindKeys, List.append_assoc]

theorem calm_behindKeys (spelled : d.IsSpelled) :
    ∀ part ∈ behindKeys s d, Block (Calm s.access.ofMembers.modifier s.mutable) 1 part := by
  have own := isModifier_ofMembers s.access
  simp only [behindKeys, List.forall_mem_append, Text.Block.forall_mem_onlyIf]
  exact ⟨⟨⟨fun _ => calm_initializer own spelled.members, fun _ => calm_decoder own spelled.members⟩,
    fun _ => calm_encoder own spelled.members⟩, fun _ => calm_equality own spelled⟩

theorem tidy_parts (spelled : d.IsSpelled) :
    ∀ part ∈ Text.onlyIf (writesKeys s d.members) (codingKeys d.members) ++ behindKeys s d,
      TidyBlock 1 part := by
  rw [List.forall_mem_append, Text.Block.forall_mem_onlyIf]
  exact ⟨fun _ => tidy_codingKeys spelled.members,
    fun part among => (calm_behindKeys spelled part among).mono fun _ _ calm => calm.keys.tidy⟩

theorem tidy_body (spelled : d.IsSpelled) : TidyBlock 1 (body s d) := by
  rw [body_eq]
  exact .append (tidy_storedProperties (isModifier_ofMembers s.access) spelled.members)
    (.setApart (tidy_parts spelled))

/-- In the body only stored properties begin like stored properties. -/
theorem linesWith_property_body (spelled : d.IsSpelled) :
    Text.linesWith
        (SourceFile.openingAt 1 (propertyStart s.access.ofMembers.modifier s.mutable))
        (Text.addedBy SourceFile.indentation 1 (body s d)) =
      d.members.map fun m => Edit.margin SourceFile.indentation 1 ++
        propertyText s.access.ofMembers.modifier s.mutable m := by
  have own := isModifier_ofMembers s.access
  have start := @isStart_propertyStart _ s.mutable own
  have others : Block (Quiet 1 (propertyStart s.access.ofMembers.modifier s.mutable)) 1
      (Text.setApart (Text.onlyIf (writesKeys s d.members) (codingKeys d.members) ++
        behindKeys s d)) := by
    refine .setApart ?_
    rw [List.forall_mem_append, Text.Block.forall_mem_onlyIf]
    exact ⟨fun _ => quiet_codingKeys own spelled.members, fun part among =>
      (calm_behindKeys spelled part among).mono fun _ _ calm => calm.properties⟩
  rw [body_eq]
  refine (SourceFile.linesWith_append_quiet (tidy_storedProperties own spelled.members) others
    start).trans ?_
  exact SourceFile.linesWith_map_line start fun m among =>
    ⟨.plain (isPlain_propertyText own (spelled.members m among)), propertyStart_prefix _ _ m⟩

/-- In the body only the cases among the coding keys begin like cases. -/
theorem linesWith_case_body (spelled : d.IsSpelled) :
    Text.linesWith (SourceFile.openingAt 2 caseStart)
        (Text.addedBy SourceFile.indentation 1 (body s d)) =
      if writesKeys s d.members then
        d.members.map fun m => Edit.margin SourceFile.indentation 2 ++ caseText m
      else [] := by
  have own := isModifier_ofMembers s.access
  have stored := (quiet_storedProperties (s := s) own spelled.members).mono fun _ _ quiet => quiet.2
  have others : (behindKeys s d).flatMap (fun part =>
      Text.linesWith (SourceFile.openingAt 2 caseStart)
        (Text.addedBy SourceFile.indentation 1 part)) = [] :=
    List.flatMap_eq_nil_iff.mpr fun part among => SourceFile.linesWith_eq_nil
      ((calm_behindKeys spelled part among).mono fun _ _ calm => calm.cases) isStart_caseStart
  rw [body_eq, SourceFile.linesWith_append_of_quiet stored isStart_caseStart,
    SourceFile.linesWith_setApart isStart_caseStart (tidy_parts spelled), List.flatMap_append,
    others, List.append_nil]
  cases writesKeys s d.members with
  | true =>
      show [codingKeys d.members].flatMap _ = _
      rw [List.flatMap_singleton, linesWith_case_codingKeys spelled.members, if_pos rfl]
  | false => rfl

/-- In the body only the coding keys open like coding keys. -/
theorem linesWith_enum_body (spelled : d.IsSpelled) :
    Text.linesWith (SourceFile.openingAt 1 enumStart)
        (Text.addedBy SourceFile.indentation 1 (body s d)) = [] ↔
      writesKeys s d.members = false := by
  have own := isModifier_ofMembers s.access
  have stored := (quiet_storedProperties (s := s) own spelled.members).mono fun _ _ quiet => quiet.1
  have others : (behindKeys s d).flatMap (fun part =>
      Text.linesWith (SourceFile.openingAt 1 enumStart)
        (Text.addedBy SourceFile.indentation 1 part)) = [] :=
    List.flatMap_eq_nil_iff.mpr fun part among => SourceFile.linesWith_eq_nil
      ((calm_behindKeys spelled part among).mono fun _ _ calm => calm.keys) isStart_enumStart
  rw [body_eq, SourceFile.linesWith_append_of_quiet stored isStart_enumStart,
    SourceFile.linesWith_setApart isStart_enumStart (tidy_parts spelled), List.flatMap_append,
    others, List.append_nil]
  cases writesKeys s d.members with
  | true =>
      show [codingKeys d.members].flatMap _ = [] ↔ _
      rw [List.flatMap_singleton]
      simpa using linesWith_enum_codingKeys d.members
  | false => exact iff_of_true rfl rfl

/-! ## Whole declarations -/

theorem isPlain_inheritance (valid : s.fault? = none) : IsPlain (inheritance s) := by
  obtain ⟨_, base, _⟩ := SwiftSettings.fault?_eq_none_iff.mp valid
  have listed : ∀ name ∈ s.baseClass.toList ++ (if s.codable then ["Codable"] else []) ++
      (if s.equatable then ["Equatable"] else []), IsPlain name := by
    rw [List.forall_mem_append, List.forall_mem_append]
    refine ⟨⟨fun name among => ?_, ?_⟩, ?_⟩
    · have word : IsWord name :=
        Text.isIdentifierPart_of_isIdentifier (base name (Option.mem_toList.mp among)).1
      exact word.isPlain
    · split
      · rw [List.forall_mem_singleton]
        exact .literal (by decide)
      · exact List.forall_mem_nil _
    · split
      · rw [List.forall_mem_singleton]
        exact .literal (by decide)
      · exact List.forall_mem_nil _
  simp only [inheritance]
  generalize s.baseClass.toList ++ (if s.codable then ["Codable"] else []) ++
    (if s.equatable then ["Equatable"] else []) = names at listed ⊢
  split
  · exact Text.isPlain_empty
  · exact .append (.literal (by decide)) (.intercalate (.literal (by decide)) listed)

theorem calm_opening (valid : s.fault? = none) (spelled : d.IsSpelled) :
    Calm modifier mutable 0 (opening s d ++ " \x7b") := by
  have name := spelled.name.isPlain
  have inherits := isPlain_inheritance valid
  have words : IsPlain (s.access.modifier ++ kindWords s.kind) ∧
      Departs [' '] (s.access.modifier ++ kindWords s.kind) := by
    cases s.access with
    | module =>
        show IsPlain ("" ++ _) ∧ Departs [' '] ("" ++ _)
        rw [String.empty_append]
        cases s.kind
        all_goals exact ⟨.literal (by decide), .literal (by decide)⟩
    | everywhere | inheritable =>
        cases s.kind
        all_goals exact ⟨.append (.literal (by decide)) (.literal (by decide)),
          .append (.literal (by decide))⟩
  obtain ⟨plain, unblank⟩ := words
  unfold opening
  refine .outside (.plain ?_) (.append (.append (.append (.append unblank))))
  repeat' with_reducible first | assumption | constructor
  all_goals decide

theorem calm_close : Calm modifier mutable 0 "\x7d" :=
  .outside (.plain (.literal (by decide))) (.literal (by decide))

/-- What is written for a declaration. -/
def sourceOf (s : SwiftSettings) (d : Declaration) : Source :=
  ⟨d.name, SourceFile.typeset (d.edits s)⟩

/-- The braces around the body do not matter. -/
theorem linesWith_source {at_ : Nat} {start : List Char} (spelled : d.IsSpelled)
    (opens : SourceFile.IsStart start) (before : Quiet at_ start 0 (opening s d ++ " \x7b"))
    (behind : Quiet at_ start 0 "\x7d") :
    Text.linesWith (SourceFile.openingAt at_ start) (sourceOf s d).text =
      Text.linesWith (SourceFile.openingAt at_ start)
        (Text.addedBy SourceFile.indentation 1 (body s d)) := by
  show Text.linesWith _ (SourceFile.typeset (d.edits s)) = _
  rw [SourceFile.typeset_eq]
  exact SourceFile.linesWith_braced before behind (tidy_body spelled) opens

/-! ## Declarations of classes -/

theorem isPlain_spell {names : TypeNames} {place : FieldPlace} {type : ValueType} {text : String}
    (words : ∀ className typeName, names.get className = .ok typeName → IsWord typeName)
    (spelled : spell names place type = .ok text) : IsPlain text := by
  induction type generalizing text with
  | integer | float | string | boolean =>
      cases spelled
      exact .literal (by decide)
  | array item ih =>
      obtain ⟨inner, inside, rfl⟩ := exists_of_map_ok spelled
      exact .append (.append (.literal (by decide)) (ih inside)) (.literal (by decide))
  | optional item ih =>
      obtain ⟨inner, inside, rfl⟩ := exists_of_map_ok spelled
      exact .append (ih inside) (.literal (by decide))
  | reference name => exact (words _ _ spelled).isPlain
  | any | null => cases spelled

/-- A declaration has the type name of its class and a member for each field. -/
theorem resolved_of_ofClass {names : TypeNames} {c : ClassDef}
    (done : Declaration.ofClass names c = .ok d) :
    names.get c.name = .ok d.name ∧
      (memberRule.named c).mapM (Member.ofField names c.name) = .ok d.members := by
  obtain ⟨name, named, done⟩ := exists_of_bind_ok done
  obtain ⟨members, known, done⟩ := exists_of_bind_ok done
  cases done
  exact ⟨named, known⟩

/-- What is declared is the text of a declaration. -/
theorem exists_ofClass_of_declare {names : TypeNames} {c : ClassDef} {source : Source}
    {before after : Unit} (declared : backend.declare s names before c = .ok (source, after)) :
    ∃ d, Declaration.ofClass names c = .ok d ∧ source = sourceOf s d := by
  obtain ⟨text, found, eq⟩ := exists_of_map_ok declared
  cases eq
  obtain ⟨d, done, rfl⟩ := exists_of_map_ok found
  exact ⟨d, done, rfl⟩

/-- The declaration of a class is spelled with its type name and its member names, and holds its
keys in their order. -/
theorem ofClass_spec {names : TypeNames} {c : ClassDef}
    (words : ∀ className typeName, names.get className = .ok typeName → IsWord typeName)
    (done : Declaration.ofClass names c = .ok d) :
    d.IsSpelled ∧ d.members.map (·.name) = memberRule.names c ∧
      d.members.map (·.key) = c.fields.map (·.key) := by
  obtain ⟨named, known⟩ := resolved_of_ofClass done
  have each := forall₂_of_mapM_ok known
  have same : ∀ field member, Member.ofField names c.name field = .ok member →
      field.2 = member.name ∧ field.1.key = member.key := by
    intro field member found
    obtain ⟨valueType, _, rfl⟩ := exists_of_map_ok found
    exact ⟨rfl, rfl⟩
  refine ⟨⟨words _ _ named, fun m among => ?_⟩, ?_, ?_⟩
  · obtain ⟨field, listed, found⟩ := exists_of_forall₂ each m among
    obtain ⟨valueType, spelled, rfl⟩ := exists_of_map_ok found
    have member : field.2 ∈ memberRule.names c := MemberRule.snd_mem_names listed
    refine ⟨isSound_memberRule.isAlphanum_name member, isPlain_spell words spelled,
      fun keyword => isSound_memberRule.notMem_reserved member ?_⟩
    have own : field.2 = "case" := String.toList_inj.mp (keyword.trans String.toList_ofList.symm)
    rw [own]
    decide
  · rw [← map_eq_of_forall₂ each fun field m found => (same field m found).1,
      memberRule.map_snd_named]
  · rw [← map_eq_of_forall₂ each fun field m found => (same field m found).2,
      ← memberRule.map_fst_named c, List.map_map]
    rfl

end Classwright.Swift
