/-
# Classwright.Proofs.Declaration.Java — the lines of a class in Java

Every line of a declaration is plain or holds one literal, since the names in it are identifiers and
a key stands in a literal only.  The lines with the constants are the only ones that begin like
them.
-/

import Classwright.Backend.Java
import Classwright.Proofs.Render.MemberNaming
import Classwright.Proofs.Render.Outcome
import Classwright.Proofs.Render.SourceFile
import Classwright.Proofs.Settings
import Classwright.Proofs.Text.Entry

namespace Classwright.Java

open Text (Edit Block IsPlain IsTidy IsWord Departs Quiet TidyBlock)

/-- What the line of a constant begins with. -/
def keyStart : List Char :=
  ['p', 'u', 'b', 'l', 'i', 'c', ' ', 's', 't', 'a', 't', 'i', 'c', ' ', 'f', 'i', 'n', 'a', 'l',
    ' ', 'S', 't', 'r', 'i', 'n', 'g', ' ']

theorem isStart_keyStart : SourceFile.IsStart keyStart := ⟨'p', _, rfl, by decide⟩

/-- The names of a member are fit to stand in source. -/
structure Member.IsSpelled (m : Member) : Prop where
  name : ∀ c ∈ m.name.toList, c.isAlphanum
  constant : IsWord m.constant
  getter : IsWord m.getter
  type : IsPlain m.kind.spelling
  /-- No blank is in the spelling of the type. -/
  unbroken : m.kind.spelling.toList.count ' ' = 0

namespace Member.IsSpelled

variable {m : Member}

theorem isPlain_name (spelled : m.IsSpelled) : IsPlain m.name :=
  (IsWord.of_isAlphanum spelled.name).isPlain

theorem isPlain_suffix (spelled : m.IsSpelled) : IsPlain m.suffix :=
  (IsWord.of_isAlphanum (Text.isAlphanum_of_mem_capitalizeFirst spelled.name)).isPlain

theorem isPlain_parameter (spelled : m.IsSpelled) : IsPlain (parameter m) :=
  (spelled.type.append (.literal (by decide))).append spelled.isPlain_name

end Member.IsSpelled

/-- The names of a declaration are fit to stand in source. -/
structure Declaration.IsSpelled (d : Declaration) : Prop where
  name : IsWord d.name
  members : ∀ m ∈ d.members, m.IsSpelled

variable {s : JavaSettings} {d : Declaration} {m : Member} {members : List Member}

/-! ## Lines inside methods -/

theorem tidy_assignLine (spelled : m.IsSpelled) (level : Nat) : TidyBlock level [assignLine m] := by
  have name := spelled.isPlain_name
  refine .line (.plain ?_) .nil
  repeat' with_reducible first | assumption | constructor
  all_goals decide

theorem isPlain_comparison (spelled : m.IsSpelled) : IsPlain (comparison m) := by
  have name := spelled.isPlain_name
  rw [comparison]
  split
  all_goals
    repeat' with_reducible first | assumption | constructor
    all_goals decide

theorem isPlain_closeLast {ending : String} (ends : IsPlain ending) {texts : List String}
    (each : ∀ text ∈ texts, IsPlain text) : ∀ text ∈ closeLast ending texts, IsPlain text := by
  fun_induction closeLast ending texts with
  | case1 => simp
  | case2 last => simpa using (each last (by simp)).append ends
  | case3 one others _ ih =>
      rw [List.forall_mem_cons] at each ⊢
      exact ⟨each.1, ih each.2⟩

theorem isPlain_returnAll {texts : List String} (each : ∀ text ∈ texts, IsPlain text) :
    ∀ text ∈ returnAll texts, IsPlain text := by
  cases texts with
  | nil => simpa [returnAll] using @IsPlain.literal _ (by decide)
  | cons first others =>
      rw [List.forall_mem_cons] at each
      refine isPlain_closeLast (.literal (by decide)) ?_
      rw [List.forall_mem_cons, List.forall_mem_map]
      exact ⟨.append (.literal (by decide)) each.1,
        fun text among => .append (.literal (by decide)) (each.2 text among)⟩

/-! ## Methods -/

/-- A method whose line has a parenthesis early on is no constant. -/
theorem departs_of_count {front : String} {rest : List Char} (few : front.toList.count ' ' < 4) :
    Departs keyStart (front ++ String.ofList ('(' :: rest)) :=
  .of_count (by decide) (c := ' ') few

theorem tidy_assignments (spelled : ∀ m ∈ members, m.IsSpelled) :
    TidyBlock 2 (members.map assignLine) :=
  .map fun m among => tidy_assignLine (spelled m among) 2

theorem quiet_constructor {typeName : String} (word : IsWord typeName)
    (spelled : ∀ m ∈ members, m.IsSpelled) :
    Block (Quiet 1 keyStart) 1 (constructor typeName members) := by
  have name := word.isPlain
  have parameters : IsPlain (String.intercalate ", " (members.map parameter)) :=
    .intercalate (.literal (by decide))
      (List.forall_mem_map.mpr fun m among => (spelled m among).isPlain_parameter)
  refine .braced (.own (.plain ?_) ?_) (.own (.plain (.literal (by decide))) (.literal (by decide)))
    ((tidy_assignments spelled).quiet (by decide))
  · repeat' with_reducible first | assumption | constructor
    all_goals decide
  · refine .append (.append (.append (departs_of_count ?_)))
    rw [String.toList_append, List.count_append, word.count_blank]
    decide

theorem tidy_returnLine {value : String} (plain : IsPlain value) :
    TidyBlock 2 [.line ("return " ++ value ++ ";")] := by
  refine .line (.plain ?_) .nil
  repeat' with_reducible first | assumption | constructor
  all_goals decide

theorem quiet_getter (spelled : m.IsSpelled) : Block (Quiet 1 keyStart) 1 (getter m) := by
  have own := spelled.getter.isPlain
  have type := spelled.type
  refine .braced (.own (.plain ?_) ?_) (.own (.plain (.literal (by decide))) (.literal (by decide)))
    ((tidy_returnLine spelled.isPlain_name).quiet (by decide))
  · repeat' with_reducible first | assumption | constructor
    all_goals decide
  · refine .append (departs_of_count ?_)
    simp only [String.toList_append, List.count_append, spelled.unbroken,
      spelled.getter.count_blank]
    decide

theorem quiet_setter (spelled : m.IsSpelled) : Block (Quiet 1 keyStart) 1 (setter m) := by
  have suffix := spelled.isPlain_suffix
  have own := spelled.isPlain_parameter
  refine .braced (.own (.plain ?_) ?_) (.own (.plain (.literal (by decide))) (.literal (by decide)))
    ((tidy_assignLine spelled 2).quiet (by decide))
  all_goals
    repeat' with_reducible first | assumption | constructor
    all_goals decide

theorem quiet_fieldLine (spelled : m.IsSpelled) :
    Block (Quiet 1 keyStart) 1 [fieldLine s m] := by
  have name := spelled.isPlain_name
  have type := spelled.type
  simp only [fieldLine]
  refine .line (.own (.plain ?_) ?_) .nil
  all_goals
    split
    all_goals
      repeat' with_reducible first | assumption | constructor
      all_goals decide

theorem tidy_castLine (spelled : d.IsSpelled) (level : Nat) : TidyBlock level (castLine d) := by
  have name := spelled.name.isPlain
  rw [castLine]
  split
  · exact .nil
  · refine .line (.plain ?_) .nil
    repeat' with_reducible first | assumption | constructor
    all_goals decide

/-- What stands between the braces of the method that compares two objects. -/
theorem tidy_equalityBody (spelled : d.IsSpelled) :
    TidyBlock 2 (Text.braced "if (this == o)" [.line "return true;"] ++
      Text.braced "if (o == null || getClass() != o.getClass())" [.line "return false;"] ++
      castLine d ++ Text.lines (returnAll (d.members.map comparison))) := by
  have returns : ∀ text ∈ returnAll (d.members.map comparison), IsPlain text :=
    isPlain_returnAll (List.forall_mem_map.mpr fun m among =>
      isPlain_comparison (spelled.members m among))
  have word {cs : List Char} (own : cs.all Text.isPlainChar = true) : IsTidy (String.ofList cs) :=
    .plain (.literal own)
  have same : TidyBlock 2 (Text.braced "if (this == o)" [.line "return true;"]) :=
    .braced (.plain (.append (.literal (by decide)) (.literal (by decide)))) (word (by decide))
      (.line (word (by decide)) .nil)
  have other : TidyBlock 2
      (Text.braced "if (o == null || getClass() != o.getClass())" [.line "return false;"]) :=
    .braced (.plain (.append (.literal (by decide)) (.literal (by decide)))) (word (by decide))
      (.line (word (by decide)) .nil)
  exact ((same.append other).append (tidy_castLine spelled 2)).append
    (.lines fun text among => .plain (returns text among))

theorem quiet_equality (spelled : d.IsSpelled) : Block (Quiet 1 keyStart) 1 (equality d) := by
  have word {cs : List Char} (own : cs.all Text.isPlainChar = true) : IsTidy (String.ofList cs) :=
    .plain (.literal own)
  refine .line (.own (word (by decide)) (.literal (by decide)))
    (.braced (.own (.plain ?_) ?_) (.own (word (by decide)) (.literal (by decide)))
      ((tidy_equalityBody spelled).quiet (by decide)))
  all_goals
    repeat' with_reducible first | assumption | constructor
    all_goals decide

theorem isPlain_hashValue (spelled : ∀ m ∈ members, m.IsSpelled) :
    IsPlain (hashValue members) := by
  have names : IsPlain (String.intercalate ", " (members.map (·.name))) :=
    .intercalate (.literal (by decide))
      (List.forall_mem_map.mpr fun m among => (spelled m among).isPlain_name)
  rw [hashValue]
  split
  · exact .literal (by decide)
  · exact .append (.append (.literal (by decide)) names) (.literal (by decide))

theorem quiet_hashing (spelled : ∀ m ∈ members, m.IsSpelled) :
    Block (Quiet 1 keyStart) 1 (hashing members) := by
  refine .line (.own (.plain (.literal (by decide))) (.literal (by decide)))
    (.braced (.own (.plain ?_) ?_) (.own (.plain (.literal (by decide))) (.literal (by decide)))
      ((tidy_returnLine (isPlain_hashValue spelled)).quiet (by decide)))
  all_goals
    repeat' with_reducible first | assumption | constructor
    all_goals decide

/-! ## Constants -/

/-- The line of a constant. -/
def constantText (m : Member) : String :=
  "public static final String " ++ m.constant ++ " = \"" ++ Text.literalBody .octal m.key ++ "\";"

theorem tidy_constantText (spelled : m.IsSpelled) : IsTidy (constantText m) := by
  have front : IsPlain ("public static final String " ++ m.constant) :=
    .append (.literal (by decide)) spelled.constant.isPlain
  have opens : " = \"" = String.ofList ([' ', '=', ' '] ++ ['"']) := rfl
  have closes : "\";" = String.ofList ('"' :: [';']) := rfl
  exact .of_literal opens closes front (by decide) (Text.isBody_literalBody .octal m.key)

theorem keyStart_prefix (m : Member) : keyStart <+: (constantText m).toList := by
  have start : "public static final String ".toList = keyStart := by
    unfold keyStart
    exact String.toList_ofList
  have front : keyStart <+: "public static final String ".toList := start ▸ List.prefix_refl _
  unfold constantText
  exact Text.prefix_append (Text.prefix_append (Text.prefix_append
    (Text.prefix_append front _) _) _) _

theorem tidy_constants (spelled : d.IsSpelled) : TidyBlock 1 (d.members.map constantLine) :=
  .map fun m among => .line (tidy_constantText (spelled.members m among)) .nil

/-! ## The whole body -/

/-- All that stands behind the constants. -/
def behindConstants (s : JavaSettings) (d : Declaration) : List (List Edit) :=
  let hasFields := !d.members.isEmpty
  Text.onlyIf hasFields (d.members.map (fieldLine s)) ++
    Text.onlyIf (!s.immutable || !hasFields) (constructor d.name []) ++
    Text.onlyIf hasFields (constructor d.name d.members) ++
    d.members.flatMap (accessors s) ++
    [equality d, hashing d.members]

theorem body_eq (s : JavaSettings) (d : Declaration) :
    body s d = Text.setApart (Text.onlyIf (!d.members.isEmpty) (d.members.map constantLine) ++
      behindConstants s d) := by
  simp only [body, behindConstants, List.append_assoc]

theorem quiet_behindConstants (spelled : d.IsSpelled) :
    ∀ part ∈ behindConstants s d, Block (Quiet 1 keyStart) 1 part := by
  simp only [behindConstants, List.forall_mem_append, Text.Block.forall_mem_onlyIf]
  refine ⟨⟨⟨⟨fun _ => ?_, fun _ => ?_⟩, fun _ => ?_⟩, ?_⟩, ?_⟩
  · exact .map fun m among => quiet_fieldLine (spelled.members m among)
  · exact quiet_constructor spelled.name nofun
  · exact quiet_constructor spelled.name spelled.members
  · intro part among
    obtain ⟨m, member, own⟩ := List.mem_flatMap.mp among
    rw [accessors] at own
    rcases List.mem_cons.mp own with rfl | own
    · exact quiet_getter (spelled.members m member)
    · exact Text.Block.forall_mem_onlyIf.mpr (fun _ => quiet_setter (spelled.members m member))
        part own
  · rw [List.forall_mem_cons, List.forall_mem_singleton]
    exact ⟨quiet_equality spelled, quiet_hashing spelled.members⟩

theorem tidy_parts (spelled : d.IsSpelled) :
    ∀ part ∈ Text.onlyIf (!d.members.isEmpty) (d.members.map constantLine) ++ behindConstants s d,
      TidyBlock 1 part := by
  rw [List.forall_mem_append, Text.Block.forall_mem_onlyIf]
  exact ⟨fun _ => tidy_constants spelled,
    fun part among => (quiet_behindConstants spelled part among).mono fun _ _ => Quiet.tidy⟩

theorem tidy_body (spelled : d.IsSpelled) : TidyBlock 1 (body s d) := by
  rw [body_eq]
  exact .setApart (tidy_parts spelled)

/-- In the body only the constants begin like constants. -/
theorem linesWith_body (spelled : d.IsSpelled) :
    Text.linesWith (SourceFile.openingAt 1 keyStart)
        (Text.addedBy SourceFile.indentation 1 (body s d)) =
      d.members.map fun m => Edit.margin SourceFile.indentation 1 ++ constantText m := by
  have others : (behindConstants s d).flatMap (fun part =>
      Text.linesWith (SourceFile.openingAt 1 keyStart)
        (Text.addedBy SourceFile.indentation 1 part)) = [] :=
    List.flatMap_eq_nil_iff.mpr fun part among =>
      SourceFile.linesWith_eq_nil (quiet_behindConstants spelled part among) isStart_keyStart
  have constants : Text.linesWith (SourceFile.openingAt 1 keyStart)
      (Text.addedBy SourceFile.indentation 1 (d.members.map constantLine)) =
        d.members.map fun m => Edit.margin SourceFile.indentation 1 ++ constantText m :=
    SourceFile.linesWith_map_line isStart_keyStart
      fun m among => ⟨tidy_constantText (spelled.members m among), keyStart_prefix m⟩
  rw [body_eq, SourceFile.linesWith_setApart isStart_keyStart (tidy_parts spelled),
    List.flatMap_append, others, List.append_nil]
  by_cases none : d.members = []
  · rw [none]
    rfl
  · rw [List.isEmpty_eq_false_iff.mpr none]
    show _ ++ [] = _
    rw [List.append_nil]
    exact constants

/-! ## Files -/

theorem isPlain_of_isPackage {name : String} (valid : JavaSettings.isPackage name) :
    IsPlain name := by
  refine Text.isPlain_iff.mpr fun c among => ?_
  obtain rfl | ⟨part, identifier, own⟩ := JavaSettings.mem_of_isPackage valid among
  · decide
  · exact Text.isPlainChar_of_isIdentifierPart
      (Text.isIdentifierPart_of_isIdentifier identifier c own)

/-- What the lines in front of a class begin with. -/
def fileFronts : List (List Char) := [['p', 'a'], ['i']]

/-- No line in front of a class begins like this.  It matters for what is looked for at the margin
only, since that is where these lines are. -/
abbrev IsNotInFront (start : List Char) : Prop :=
  ∀ front ∈ fileFronts, ¬ start <+: front ∧ ¬ front <+: start

theorem quiet_packageLines {at_ : Nat} {start : List Char}
    (departs : at_ = 0 → Departs start "package ") (valid : s.fault? = none) :
    Block (Quiet at_ start) 0 (packageLines s) := by
  obtain ⟨_, _, package, _⟩ := JavaSettings.fault?_eq_none_iff.mp valid
  rw [packageLines]
  split
  · next name eq =>
    have plain := isPlain_of_isPackage (package name eq)
    refine .line (.atMargin (.plain ?_) (fun margin => .append (.append (departs margin))) ?_)
      (.emptyLine .nil)
    all_goals
      repeat' with_reducible first | assumption | constructor
      all_goals decide
  · exact .nil

theorem isPlain_of_mem_imports : ∀ name ∈ d.imports, IsPlain name := by
  rw [Declaration.imports, List.forall_mem_append]
  constructor
  · split
    · rw [List.forall_mem_singleton]
      exact .literal (by decide)
    · exact List.forall_mem_nil _
  · split
    · exact List.forall_mem_nil _
    · rw [List.forall_mem_singleton]
      exact .literal (by decide)

theorem quiet_importLines {at_ : Nat} {start : List Char}
    (departs : at_ = 0 → Departs start "import ") : Block (Quiet at_ start) 0 (importLines d) := by
  rw [importLines]
  split
  · exact .nil
  · refine .append (.map fun name among => ?_) (.emptyLine .nil)
    have plain := isPlain_of_mem_imports name among
    refine .line (.atMargin (.plain ?_) (fun margin => .append (.append (departs margin))) ?_) .nil
    all_goals
      repeat' with_reducible first | assumption | constructor
      all_goals decide

/-- The lines in front of a class are looked over. -/
theorem quiet_front {at_ : Nat} {start : List Char} (apart : at_ = 0 → IsNotInFront start)
    (valid : s.fault? = none) : Block (Quiet at_ start) 0 (packageLines s ++ importLines d) :=
  .append
    (quiet_packageLines
      (fun margin => .of_literal_front (apart margin ['p', 'a'] (by decide)) (by decide)) valid)
    (quiet_importLines
      fun margin => .of_literal_front (apart margin ['i'] (by decide)) (by decide))

theorem quiet_front_inside {start : List Char} (valid : s.fault? = none) :
    Block (Quiet 1 start) 0 (packageLines s ++ importLines d) :=
  quiet_front (fun margin => absurd margin one_ne_zero) valid

theorem tidy_opening (valid : s.fault? = none) (spelled : d.IsSpelled) :
    IsTidy (opening s d ++ " \x7b") := by
  obtain ⟨_, _, _, base, _⟩ := JavaSettings.fault?_eq_none_iff.mp valid
  have name := spelled.name.isPlain
  have extends_ : IsPlain ((s.baseClass.map (" extends " ++ ·)).getD "") := by
    cases eq : s.baseClass with
    | none => exact Text.isPlain_empty
    | some own =>
        have word : IsWord own := Text.isIdentifierPart_of_isIdentifier (base own eq).1
        exact .append (.literal (by decide)) word.isPlain
  unfold opening
  refine .plain ?_
  repeat' with_reducible first | assumption | constructor
  all_goals decide

theorem quiet_opening {start : List Char} (valid : s.fault? = none) (spelled : d.IsSpelled) :
    Quiet 1 start 0 (opening s d ++ " \x7b") := by
  refine .outer (tidy_opening valid spelled) ?_ (by decide)
  unfold opening
  exact .append (.append (.append (.literal (by decide))))

/-- In a file only the constants begin like constants. -/
theorem linesWith_file (valid : s.fault? = none) (spelled : d.IsSpelled) :
    Text.linesWith (SourceFile.openingAt 1 keyStart) (file s d).contents =
      d.members.map fun m => Edit.margin SourceFile.indentation 1 ++ constantText m := by
  have name : IsPlain (fileName d.name) := spelled.name.isPlain.append (.literal (by decide))
  refine (SourceFile.linesWith_headed name isStart_keyStart _).trans ?_
  refine (SourceFile.linesWith_append_of_quiet (quiet_front_inside valid)
    isStart_keyStart _).trans ?_
  exact (SourceFile.linesWith_braced (quiet_opening valid spelled)
    (.outer (.plain (.literal (by decide))) (.literal (by decide)) (by decide))
    (tidy_body spelled) isStart_keyStart).trans (linesWith_body spelled)

/-! ## Declarations of classes -/

theorem isSpelled_boxed {kind : FieldKind}
    (own : IsPlain kind.spelling ∧ kind.spelling.toList.count ' ' = 0) :
    IsPlain kind.boxed.spelling ∧ kind.boxed.spelling.toList.count ' ' = 0 := by
  cases kind with
  | primitive basic =>
      cases basic
      all_goals exact ⟨.literal (by decide), by decide⟩
  | named className => exact own
  | list item => exact own

theorem isSpelled_list {item : FieldKind}
    (own : IsPlain item.spelling ∧ item.spelling.toList.count ' ' = 0) :
    IsPlain (FieldKind.list item).spelling ∧
      (FieldKind.list item).spelling.toList.count ' ' = 0 := by
  refine ⟨.append (.append (.literal (by decide)) own.1) (.literal (by decide)), ?_⟩
  simp only [FieldKind.spelling, String.toList_append, List.count_append, own.2]
  decide

theorem isSpelled_ofType {names : TypeNames} {type : ValueType} {kind : FieldKind}
    (words : ∀ className typeName, names.get className = .ok typeName → IsWord typeName)
    (found : FieldKind.ofType names type = .ok kind) :
    IsPlain kind.spelling ∧ kind.spelling.toList.count ' ' = 0 := by
  induction type generalizing kind with
  | integer | float | string | boolean | any | null =>
      cases found
      exact ⟨.literal (by decide), by decide⟩
  | array item ih =>
      obtain ⟨inner, inside, rfl⟩ := exists_of_map_ok found
      exact isSpelled_list (isSpelled_boxed (ih inside))
  | optional item ih =>
      obtain ⟨inner, inside, rfl⟩ := exists_of_map_ok found
      exact isSpelled_boxed (ih inside)
  | reference name =>
      obtain ⟨typeName, inside, rfl⟩ := exists_of_map_ok found
      have word := words _ _ inside
      exact ⟨word.isPlain, word.count_blank⟩

theorem isWord_chooseGetter {v : Variable} (own : ∀ c ∈ v.name.toList, c.isAlphanum)
    (plain : List String) (place : Nat) : IsWord (chooseGetter plain v place) := by
  have usual : IsWord v.plainGetter := by
    refine .append ?_ (.of_isAlphanum (Text.isAlphanum_of_mem_capitalizeFirst own))
    split <;> decide
  rw [chooseGetter]
  split
  · next question asks =>
    split
    · exact usual
    · rw [Variable.question?] at asks
      split at asks
      · split at asks
        · cases asks
          exact .of_isAlphanum own
        · cases asks
      · cases asks
  · exact usual

theorem map_toVariable_withGetters (vs : List Variable) :
    (withGetters vs).map Member.toVariable = vs := by
  rw [withGetters, List.map_map]
  exact List.zipIdx_map_fst 0 vs

/-- What the variable of a field is. -/
def IsVariableOf (names : TypeNames) (field : Field × String) (v : Variable) : Prop :=
  v.name = field.2 ∧ v.key = field.1.key ∧
    Text.IsVariant (wantedConstant field.2) v.constant ∧
    FieldKind.ofType names field.1.type.normalize = .ok v.kind

/-- Every field has a variable, and no two share a constant. -/
theorem forall₂_resolveVariables {names : TypeNames} {fields : List (Field × String)}
    {vs : List Variable} (found : resolveVariables names fields = .ok vs) :
    List.Forall₂ (IsVariableOf names) fields vs ∧ (vs.map (·.constant)).Nodup := by
  obtain ⟨kinds, each, done⟩ := exists_of_bind_ok found
  cases done
  have kinds_of := forall₂_of_mapM_ok each
  have constants_of := Text.NameSupply.forall₂_issueAll
    (fields.map fun field => wantedConstant field.2) .empty
  rw [List.forall₂_map_left_iff] at constants_of
  constructor
  · rw [List.forall₂_map_right_iff]
    refine (forall₂_zip_zip constants_of kinds_of).imp ?_
    rintro field found ⟨rfl, variant, kind⟩
    exact ⟨rfl, rfl, variant, kind⟩
  · have lengths := constants_of.length_eq.symm
    have right : ((fields.zip ((Text.NameSupply.empty.issueAll
        (fields.map fun field => wantedConstant field.2)).1.zip kinds)).map Prod.snd).map Prod.fst =
          (Text.NameSupply.empty.issueAll (fields.map fun field => wantedConstant field.2)).1 := by
      rw [List.map_snd_zip, List.map_fst_zip]
      · rw [lengths, kinds_of.length_eq]
      · rw [List.length_zip, lengths]
        exact Nat.min_le_left _ _
    rw [List.map_map] at right ⊢
    have distinct := Text.NameSupply.nodup_issueAll
      (fields.map fun field => wantedConstant field.2) .empty
    rw [← right] at distinct
    exact distinct

/-- A variable with its getter is fit to stand in source. -/
theorem isSpelled_of_isVariableOf {names : TypeNames} {c : ClassDef} {field : Field × String}
    {v : Variable}
    (words : ∀ className typeName, names.get className = .ok typeName → IsWord typeName)
    (among : field ∈ memberRule.named c) (own : IsVariableOf names field v) (plain : List String)
    (place : Nat) : Member.IsSpelled ⟨v, chooseGetter plain v place⟩ := by
  obtain ⟨same, _, variant, kind⟩ := own
  have name : ∀ c ∈ v.name.toList, c.isAlphanum := by
    rw [same]
    exact isSound_memberRule.isAlphanum_name (MemberRule.snd_mem_names among)
  have type := isSpelled_ofType words kind
  exact ⟨name, (IsWord.append (by decide) (.screamingCase _)).variant variant,
    isWord_chooseGetter name plain place, type.1, type.2⟩

/-- A declaration has the type name of its class and a member for the variable of each field. -/
theorem resolved_of_ofClass {names : TypeNames} {c : ClassDef} {d : Declaration}
    (done : Declaration.ofClass names c = .ok d) :
    names.get c.name = .ok d.name ∧
      ∃ vs, resolveVariables names (memberRule.named c) = .ok vs ∧ d.members = withGetters vs := by
  obtain ⟨name, named, done⟩ := exists_of_bind_ok done
  obtain ⟨vs, resolved, done⟩ := exists_of_bind_ok done
  cases done
  exact ⟨named, vs, resolved, rfl⟩

/-- What is declared is the file of a declaration. -/
theorem exists_ofClass_of_declare {names : TypeNames} {c : ClassDef} {file_ : SourceFile}
    {before after : Unit} (declared : backend.declare s names before c = .ok (file_, after)) :
    ∃ d, Declaration.ofClass names c = .ok d ∧ file_ = file s d := by
  obtain ⟨d, done, eq⟩ := exists_of_map_ok declared
  cases eq
  exact ⟨d, done, rfl⟩

/-- The declaration of a class is spelled with its type name and its member names, holds its keys in
their order, and has a constant of its own for each. -/
theorem ofClass_spec {names : TypeNames} {c : ClassDef} {d : Declaration}
    (words : ∀ className typeName, names.get className = .ok typeName → IsWord typeName)
    (done : Declaration.ofClass names c = .ok d) :
    d.IsSpelled ∧ d.members.map (·.key) = c.fields.map (·.key) ∧
      (d.members.map (·.constant)).Nodup := by
  obtain ⟨named, vs, resolved, members⟩ := resolved_of_ofClass done
  obtain ⟨each, distinct⟩ := forall₂_resolveVariables resolved
  have same : (withGetters vs).map Member.toVariable = vs := map_toVariable_withGetters vs
  have keys : (withGetters vs).map (·.key) = vs.map (·.key) := by
    rw [← same, List.map_map, same]
    rfl
  have constants : (withGetters vs).map (·.constant) = vs.map (·.constant) := by
    rw [← same, List.map_map, same]
    rfl
  refine ⟨⟨words _ _ named, ?_⟩, ?_, ?_⟩
  · rw [members]
    intro m among
    obtain ⟨⟨v, place⟩, numbered, rfl⟩ := List.mem_map.mp among
    obtain ⟨field, listed, own⟩ := exists_of_forall₂ each v (List.fst_mem_of_mem_zipIdx numbered)
    exact isSpelled_of_isVariableOf words listed own _ place
  · rw [members, keys, ← map_eq_of_forall₂ each fun field v own => own.2.1.symm,
      ← memberRule.map_fst_named c, List.map_map]
    rfl
  · rwa [members, constants]

end Classwright.Java
