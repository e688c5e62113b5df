/-
# Classwright.Proofs.Declaration.ObjectiveC — the lines of a class in Objective-C

Every line of an interface or an implementation is plain or holds one literal.  The constants are
the only lines that begin like constants, and since one supply of names goes through all classes
they differ across classes as well.
-/

import Classwright.Backend.ObjectiveC
import Classwright.Proofs.Render.Budget
import Classwright.Proofs.Render.MemberNaming
import Classwright.Proofs.Render.Outcome
import Classwright.Proofs.Render.SourceFile
import Classwright.Proofs.Render.TypeNaming
import Classwright.Proofs.Settings
import Classwright.Proofs.Text.Entry

namespace Classwright.ObjectiveC

open Text (Edit Block IsPlain IsTidy IsWord Departs Quiet TidyBlock)

/-- What the line of a constant begins with. -/
def keyStart : List Char :=
  ['s', 't', 'a', 't', 'i', 'c', ' ', 'N', 'S', 'S', 't', 'r', 'i', 'n', 'g', ' ', '*', 'c', 'o',
    'n', 's', 't', ' ']

theorem isStart_keyStart : SourceFile.IsStart keyStart := ⟨'s', _, rfl, by decide⟩

/-- What the lines of methods at the margin of a class begin with. -/
def methodFronts : List (List Char) := [['+'], ['-'], ['\x7b'], ['\x7d'], ['#', 'p']]

/-- What the lines at the margin of a class begin with, those of constants apart. -/
def marginFronts : List (List Char) := ['@'] :: methodFronts

/-- Nothing begins both like this and like one of the fronts. -/
abbrev IsApart (fronts : List (List Char)) (start : List Char) : Prop :=
  ∀ front ∈ fronts, ¬ start <+: front ∧ ¬ front <+: start

/-- No line at the margin of a class begins like this. -/
abbrev StandsOut (start : List Char) : Prop := IsApart marginFronts start

/-- What is apart from some fronts is apart from all that begins with one of them. -/
theorem IsApart.longer {fronts others : List (List Char)} {start : List Char}
    (apart : IsApart fronts start) (each : ∀ other ∈ others, ∃ front ∈ fronts, front <+: other) :
    IsApart others start := by
  intro other among
  obtain ⟨front, own, begins⟩ := each other among
  have departs : Departs start (String.ofList other) :=
    .of_literal_front (apart front own) begins
  have off := departs.not_prefix
  rwa [String.toList_ofList] at off

theorem standsOut_keyStart : StandsOut keyStart := by decide

/-- The names of a member are fit to stand in source. -/
structure Member.IsSpelled (m : Member) : Prop where
  name : ∀ c ∈ m.name.toList, c.isAlphanum
  constant : IsWord m.constant
  types : ∀ typeName, m.kind = .object typeName ∨ m.kind = .objects typeName → IsWord typeName

/-- The names of a declaration are fit to stand in source. -/
structure Declaration.IsSpelled (d : Declaration) : Prop where
  name : IsWord d.name
  nested : ∀ typeName ∈ d.nested, IsWord typeName
  members : ∀ m ∈ d.members, m.IsSpelled

variable {s : ObjectiveCSettings} {d : Declaration} {m : Member} {members : List Member}
  {level : Nat} {start : List Char}

namespace Member.IsSpelled

theorem isPlain_name (spelled : m.IsSpelled) : IsPlain m.name :=
  (IsWord.of_isAlphanum spelled.name).isPlain

theorem isPlain_capitalized (spelled : m.IsSpelled) : IsPlain (Text.capitalizeFirst m.name) :=
  (IsWord.of_isAlphanum (Text.isAlphanum_of_mem_capitalizeFirst spelled.name)).isPlain

theorem isPlain_lookup (spelled : m.IsSpelled) : IsPlain (lookup m) := by
  have constant := spelled.constant.isPlain
  unfold lookup
  repeat' with_reducible first | assumption | constructor
  all_goals decide

theorem isPlain_declarator (spelled : m.IsSpelled) : IsPlain (m.kind.declarator m.name) := by
  have name := spelled.isPlain_name
  cases kind : m.kind with
  | scalar value =>
      refine .append (.append ?_ (.literal (by decide))) name
      cases value <;> exact .literal (by decide)
  | array element =>
      refine .append (.append (.append (.literal (by decide)) ?_) (.literal (by decide))) name
      cases element <;> exact .literal (by decide)
  | number | string | dynamic => exact .append (.literal (by decide)) name
  | object typeName =>
      exact .append (.append (spelled.types _ (.inl kind)).isPlain (.literal (by decide))) name
  | objects typeName =>
      have own := (spelled.types _ (.inr kind)).isPlain
      exact .append (.append (.append (.literal (by decide))
        (.append own (.literal (by decide)))) (.literal (by decide))) name

end Member.IsSpelled

/-! ## Interfaces -/

theorem departs_literal {fronts : List (List Char)} {cs : List Char} (apart : IsApart fronts start)
    (begins : ∃ front ∈ fronts, front <+: cs) : Departs start (String.ofList cs) := by
  obtain ⟨front, among, begins⟩ := begins
  exact .of_literal_front (apart front among) begins

/-- A line of the program text that stands as it is. -/
theorem quiet_literal {fronts : List (List Char)} {cs : List Char} (apart : IsApart fronts start)
    (own : cs.all Text.isPlainChar) (begins : ∃ front ∈ fronts, front <+: cs) :
    Quiet 0 start 0 (String.ofList cs) :=
  .own (.plain (.literal own)) (departs_literal apart begins)

/-- The line of a property. -/
def propertyText (s : ObjectiveCSettings) (m : Member) : String :=
  "@property (" ++ (if s.atomic then "atomic" else "nonatomic") ++ ", " ++
    storageWord s m.kind.storage ++ ") " ++ m.kind.declarator m.name ++ ";"

theorem isWord_storageWord (s : ObjectiveCSettings) (storage : Storage) :
    IsWord (storageWord s storage) := by
  unfold storageWord
  cases storage with
  | assign => exact (by decide : IsWord "assign")
  | copy => exact (by decide : IsWord "copy")
  | retain =>
      cases s.countsReferences
      · exact (by decide : IsWord "retain")
      · exact (by decide : IsWord "strong")

theorem isPlain_propertyText (spelled : m.IsSpelled) : IsPlain (propertyText s m) := by
  have own := spelled.isPlain_declarator
  have word := (isWord_storageWord s m.kind.storage).isPlain
  unfold propertyText
  split
  all_goals
    repeat' with_reducible first | assumption | constructor
    all_goals decide

/-- The line that opens an interface. -/
def interfaceText (s : ObjectiveCSettings) (d : Declaration) : String :=
  "@interface " ++ d.name ++ " : " ++ s.baseClass

theorem isPlain_interfaceText (valid : s.fault? = none) (spelled : d.IsSpelled) :
    IsPlain (interfaceText s d) := by
  obtain ⟨_, base, _⟩ := ObjectiveCSettings.fault?_eq_none_iff.mp valid
  have word : IsWord s.baseClass := Text.isIdentifierPart_of_isIdentifier base
  exact .append (.append (.append (.literal (by decide)) spelled.name.isPlain)
    (.literal (by decide))) word.isPlain

/-- The methods that every interface declares. -/
def methodLines : List Edit :=
  [.line "+ (instancetype)modelObjectWithDictionary:(NSDictionary *)dict;",
    .line "- (instancetype)initWithDictionary:(NSDictionary *)dict;",
    .line "- (NSDictionary *)dictionaryRepresentation;", .emptyLine]

theorem interface_eq (s : ObjectiveCSettings) (d : Declaration) :
    d.interface s = .line (interfaceText s d) :: ([.emptyLine] ++
      (closedGroup (d.members.map (propertyLine s)) ++ (methodLines ++ [.line "@end"]))) := rfl

theorem block_closedGroup {P : Nat → String → Prop} {edits : List Edit}
    (block : Block P level edits) : Block P level (closedGroup edits) := by
  unfold closedGroup
  split
  · exact .nil
  · exact .append block (.emptyLine .nil)

theorem tidy_propertyLines (spelled : d.IsSpelled) :
    TidyBlock 0 (d.members.map (propertyLine s)) :=
  .map fun m among => .line (.plain (isPlain_propertyText (spelled.members m among))) .nil

theorem quiet_interface (apart : StandsOut start) (valid : s.fault? = none)
    (spelled : d.IsSpelled) : Block (Quiet 0 start) 0 (d.interface s) := by
  have opening : Quiet 0 start 0 (interfaceText s d) :=
    .own (.plain (isPlain_interfaceText valid spelled))
      (.append (.append (.append (departs_literal apart (by decide)))))
  have property (m : Member) (among : m ∈ d.members) : Quiet 0 start 0 (propertyText s m) :=
    .own (.plain (isPlain_propertyText (spelled.members m among)))
      (.append (.append (.append (.append (.append (.append
        (departs_literal apart (by decide))))))))
  have literal {cs : List Char} := @quiet_literal start marginFronts cs apart
  rw [interface_eq]
  refine .line opening (.append (.emptyLine .nil) (.append (block_closedGroup ?_)
    (.append ?_ (.line (literal (by decide) (by decide)) .nil))))
  · exact .map fun m among => .line (property m among) .nil
  · exact .line (literal (by decide) (by decide)) (.line (literal (by decide) (by decide))
      (.line (literal (by decide) (by decide)) (.emptyLine .nil)))

/-! ## From dictionaries to objects -/

theorem quiet_method {head : String} {body : List Edit} (apart : IsApart methodFronts start)
    (own : Quiet 0 start 0 head) (inner : TidyBlock 1 body) :
    Block (Quiet 0 start) 0 (method head body) :=
  .append (.append (.line own (.line (quiet_literal apart (by decide) (by decide)) .nil))
    (.indented (inner.quiet (by decide))))
    (.line (quiet_literal apart (by decide) (by decide)) .nil)

/-- A line of plain text. -/
theorem tidy_line {text : String} (plain : IsPlain text) : TidyBlock level [.line text] :=
  .line (.plain plain) .nil

theorem tidy_braced {head : String} {body : List Edit} (plain : IsPlain head)
    (inner : TidyBlock (level + 1) body) : TidyBlock level (Text.braced head body) :=
  .braced (.plain (.append plain (.literal (by decide)))) (.plain (.literal (by decide))) inner

theorem isPlain_objectOf {typeName dictionary : String} (type : IsPlain typeName)
    (own : IsPlain dictionary) : IsPlain (objectOf typeName dictionary) := by
  unfold objectOf
  repeat' with_reducible first | assumption | constructor
  all_goals decide

/-- The line that puts an object made of a dictionary into an array. -/
theorem tidy_addObject {collected object : String} (array : IsPlain collected)
    (own : IsPlain object) :
    TidyBlock level [.line ("[" ++ collected ++ " addObject:" ++ object ++ "];")] := by
  refine tidy_line ?_
  repeat' with_reducible first | assumption | constructor
  all_goals decide

theorem tidy_parseObjects (spelled : m.IsSpelled) {typeName : String} (type : IsPlain typeName) :
    TidyBlock level (parseObjects m typeName) := by
  have name := spelled.isPlain_name
  have value := spelled.isPlain_lookup
  have capitalized := spelled.isPlain_capitalized
  have received : IsPlain ("received" ++ Text.capitalizeFirst m.name) :=
    .append (.literal (by decide)) capitalized
  have parsed : IsPlain ("parsed" ++ Text.capitalizeFirst m.name) :=
    .append (.literal (by decide)) capitalized
  unfold parseObjects
  refine .append (.append (.append (.append ?_ (.indented ?_)) ?_) (.indented ?_)) ?_
  · refine .append (tidy_line ?_) (.append (tidy_line ?_) (tidy_line ?_))
    all_goals
      repeat' with_reducible first | assumption | constructor
      all_goals decide
  · refine tidy_braced (.append (.append (.literal (by decide)) received) (.literal (by decide))) ?_
    refine tidy_braced (.literal (by decide)) ?_
    exact tidy_addObject parsed (isPlain_objectOf type (.literal (by decide)))
  · refine tidy_line ?_
    repeat' with_reducible first | assumption | constructor
    all_goals decide
  · exact tidy_addObject parsed
      (isPlain_objectOf type (.append (.literal (by decide)) received))
  · refine .append (tidy_line (.literal (by decide))) (tidy_line ?_)
    repeat' with_reducible first | assumption | constructor
    all_goals decide

theorem tidy_parse (spelled : m.IsSpelled) : TidyBlock level (parse m) := by
  have name := spelled.isPlain_name
  have value := spelled.isPlain_lookup
  cases kind : m.kind with
  | scalar scalar =>
      have getter : IsPlain scalar.getter := by cases scalar <;> exact .literal (by decide)
      simp only [parse, kind]
      refine tidy_line ?_
      repeat' with_reducible first | assumption | constructor
      all_goals decide
  | object typeName =>
      have object := isPlain_objectOf (spelled.types _ (.inl kind)).isPlain value
      simp only [parse, kind]
      refine tidy_line ?_
      repeat' with_reducible first | assumption | constructor
      all_goals decide
  | objects typeName =>
      simp only [parse, kind]
      exact tidy_parseObjects spelled (spelled.types _ (.inr kind)).isPlain
  | array _ | number | string | dynamic =>
      simp only [parse, kind]
      refine tidy_line ?_
      repeat' with_reducible first | assumption | constructor
      all_goals decide

theorem tidy_factoryBody (s : ObjectiveCSettings) : TidyBlock 1
    (if s.countsReferences then [.line "return [[self alloc] initWithDictionary:dict];"]
      else [.line "return [[[self alloc] initWithDictionary:dict] autorelease];"]) := by
  split
  all_goals exact tidy_line (.literal (by decide))

theorem quiet_factory (apart : IsApart methodFronts start) : Block (Quiet 0 start) 0 (factory s) :=
  quiet_method apart (quiet_literal apart (by decide) (by decide)) (tidy_factoryBody s)

theorem tidy_initializerBody (spelled : ∀ m ∈ members, m.IsSpelled) : TidyBlock 1
    (.line "self = [super init];" ::
      (Text.braced "if (self && [dict isKindOfClass:[NSDictionary class]])"
        (members.flatMap parse) ++ [.line "return self;"])) :=
  .append (tidy_line (.literal (by decide))) <|
    .append (tidy_braced (.literal (by decide))
      (.flatMap fun m among => tidy_parse (spelled m among))) (tidy_line (.literal (by decide)))

theorem quiet_initializer (apart : IsApart methodFronts start)
    (spelled : ∀ m ∈ members, m.IsSpelled) :
    Block (Quiet 0 start) 0 (initializer members) :=
  quiet_method apart (quiet_literal apart (by decide) (by decide)) (tidy_initializerBody spelled)

/-! ## From objects to dictionaries -/

theorem tidy_storeLine (spelled : m.IsSpelled) {value : String} (own : IsPlain value) :
    TidyBlock level [storeLine m value] := by
  have constant := spelled.constant.isPlain
  refine tidy_line ?_
  repeat' with_reducible first | assumption | constructor
  all_goals decide

theorem tidy_storeObjects (spelled : m.IsSpelled) : TidyBlock level (storeObjects m) := by
  have name := spelled.isPlain_name
  have collected : IsPlain ("tempArrayFor" ++ Text.capitalizeFirst m.name) :=
    .append (.literal (by decide)) spelled.isPlain_capitalized
  unfold storeObjects
  refine .append (tidy_line ?_) (.append (tidy_braced ?_ ?_) (tidy_storeLine spelled ?_))
  · repeat' with_reducible first | assumption | constructor
    all_goals decide
  · exact .append (.append (.literal (by decide)) name) (.literal (by decide))
  · refine .append (.append (.append (.append ?_ (.indented ?_)) ?_) (.indented ?_)) ?_
    · exact tidy_line (.literal (by decide))
    · exact tidy_addObject collected (.literal (by decide))
    · exact tidy_line (.literal (by decide))
    · exact tidy_addObject collected (.literal (by decide))
    · exact tidy_line (.literal (by decide))
  · exact .append (.append (.literal (by decide)) collected) (.literal (by decide))

theorem tidy_store (spelled : m.IsSpelled) : TidyBlock level (store m) := by
  have name := spelled.isPlain_name
  have value : IsPlain ("self." ++ m.name) := .append (.literal (by decide)) name
  cases kind : m.kind with
  | scalar scalar =>
      have boxer : IsPlain scalar.boxer := by cases scalar <;> exact .literal (by decide)
      simp only [store, kind]
      refine tidy_storeLine spelled ?_
      repeat' with_reducible first | assumption | constructor
      all_goals decide
  | object typeName =>
      simp only [store, kind]
      exact tidy_storeLine spelled
        (.append (.append (.literal (by decide)) value) (.literal (by decide)))
  | objects typeName =>
      simp only [store, kind]
      exact tidy_storeObjects spelled
  | array _ | number | string | dynamic =>
      simp only [store, kind]
      exact tidy_storeLine spelled value

theorem tidy_representationBody (spelled : ∀ m ∈ members, m.IsSpelled) : TidyBlock 1
    (.line "NSMutableDictionary *mutableDict = [NSMutableDictionary dictionary];" ::
      (members.flatMap store ++
        [.emptyLine, .line "return [NSDictionary dictionaryWithDictionary:mutableDict];"])) :=
  .append (tidy_line (.literal (by decide))) <|
    .append (.flatMap fun m among => tidy_store (spelled m among))
      (.emptyLine (tidy_line (.literal (by decide))))

theorem quiet_representation (apart : IsApart methodFronts start)
    (spelled : ∀ m ∈ members, m.IsSpelled) :
    Block (Quiet 0 start) 0 (representation members) :=
  quiet_method apart (quiet_literal apart (by decide) (by decide)) (tidy_representationBody spelled)

/-! ## Implementations -/

theorem tidy_descriptionBody : TidyBlock 1
    [.line "return [NSString stringWithFormat:@\"%@\", [self dictionaryRepresentation]];"] := by
  have pieces : "return [NSString stringWithFormat:@\"%@\", [self dictionaryRepresentation]];" =
      "return [NSString stringWithFormat:@" ++ "\"" ++ "%@" ++ "\"" ++
        ", [self dictionaryRepresentation]];" := rfl
  refine .line ?_ .nil
  rw [pieces]
  exact .literal (.literal (by decide)) (by decide) (.literal (by decide))

theorem quiet_description (apart : IsApart methodFronts start) :
    Block (Quiet 0 start) 0 description :=
  quiet_method apart (quiet_literal apart (by decide) (by decide)) tidy_descriptionBody

theorem tidy_helperBody : TidyBlock 1
    [.line "id object = [dict objectForKey:aKey];",
      .line "return [object isEqual:[NSNull null]] ? nil : object;"] :=
  .line (.plain (.literal (by decide))) (tidy_line (.literal (by decide)))

theorem quiet_helper (apart : IsApart methodFronts start) : Block (Quiet 0 start) 0 helper :=
  .append (.line (quiet_literal apart (by decide) (by decide)) (.emptyLine .nil)) <|
    quiet_method apart (quiet_literal apart (by decide) (by decide)) tidy_helperBody

theorem tidy_releaseBody (spelled : ∀ m ∈ members, m.IsSpelled) : TidyBlock 1
    (((members.filter fun m => m.kind.storage ≠ .assign).map fun m =>
      .line ("[_" ++ m.name ++ " release];")) ++ [.line "[super dealloc];"]) := by
  have line (m : Member) (among : m ∈ members.filter fun m => m.kind.storage ≠ .assign) :
      TidyBlock 1 [.line ("[_" ++ m.name ++ " release];")] := by
    have name := (spelled m (List.mem_of_mem_filter among)).isPlain_name
    exact tidy_line (.append (.append (.literal (by decide)) name) (.literal (by decide)))
  exact .append (.map line) (tidy_line (.literal (by decide)))

theorem quiet_release (apart : IsApart methodFronts start) (spelled : ∀ m ∈ members, m.IsSpelled) :
    Block (Quiet 0 start) 0 (release members) :=
  quiet_method apart (quiet_literal apart (by decide) (by decide)) (tidy_releaseBody spelled)

/-- The line of a constant. -/
def constantText (m : Member) : String :=
  "static NSString *const " ++ m.constant ++ " = @\"" ++ Text.literalBody .octal m.key ++ "\";"

theorem tidy_constantText (spelled : m.IsSpelled) : IsTidy (constantText m) := by
  have front : IsPlain ("static NSString *const " ++ m.constant) :=
    .append (.literal (by decide)) spelled.constant.isPlain
  have opens : " = @\"" = String.ofList ([' ', '=', ' ', '@'] ++ ['"']) := rfl
  have closes : "\";" = String.ofList ('"' :: [';']) := rfl
  exact .of_literal opens closes front (by decide) (Text.isBody_literalBody .octal m.key)

theorem keyStart_prefix (m : Member) : keyStart <+: (constantText m).toList := by
  have start : "static NSString *const ".toList = keyStart := by
    unfold keyStart
    exact String.toList_ofList
  have front : keyStart <+: "static NSString *const ".toList := start ▸ List.prefix_refl _
  unfold constantText
  exact Text.prefix_append (Text.prefix_append (Text.prefix_append
    (Text.prefix_append front _) _) _) _

theorem tidy_constants (spelled : d.IsSpelled) : TidyBlock 0 (d.members.map constantLine) :=
  .map fun m among => .line (tidy_constantText (spelled.members m among)) .nil

/-- All that stands behind the constants. -/
def behindConstants (s : ObjectiveCSettings) (d : Declaration) : List Edit :=
  [Edit.line ("@interface " ++ d.name ++ " ()"), .emptyLine,
      .line "- (id)objectOrNilForKey:(id)aKey fromDictionary:(NSDictionary *)dict;", .emptyLine,
      .line "@end", .emptyLine, .line ("@implementation " ++ d.name)] ++
    Text.setApart (
      [factory s, initializer d.members, representation d.members, description, helper] ++
        Text.onlyIf (!s.countsReferences) (release d.members) ++ [[.line "@end"]])

theorem implementation_eq (s : ObjectiveCSettings) (d : Declaration) :
    d.implementation s = closedGroup (d.members.map constantLine) ++ behindConstants s d := by
  unfold Declaration.implementation behindConstants
  exact List.append_assoc _ _ _

/-- What the lines of a class extension begin with. -/
def extensionFronts : List (List Char) := ['@', 'i', 'n'] :: ['@', 'e'] :: methodFronts

/-- The class extension, which declares the helper that the methods use. -/
def extensionLines (d : Declaration) : List Edit :=
  [.line ("@interface " ++ d.name ++ " ()"), .emptyLine,
    .line "- (id)objectOrNilForKey:(id)aKey fromDictionary:(NSDictionary *)dict;", .emptyLine,
    .line "@end", .emptyLine]

/-- The methods of an implementation. -/
def methodParts (s : ObjectiveCSettings) (d : Declaration) : List (List Edit) :=
  [factory s, initializer d.members, representation d.members, description, helper] ++
    Text.onlyIf (!s.countsReferences) (release d.members)

/-- What stands between the first and the last line of an implementation. -/
def methodsInside (s : ObjectiveCSettings) (d : Declaration) : List Edit :=
  Text.setApart (methodParts s d) ++ [Edit.emptyLine]

theorem behindConstants_eq (s : ObjectiveCSettings) (d : Declaration) :
    behindConstants s d = extensionLines d ++
      (Edit.line ("@implementation " ++ d.name) :: (methodsInside s d ++ [Edit.line "@end"])) := by
  simp [behindConstants, extensionLines, methodsInside, methodParts, Text.setApart]

theorem quiet_extensionLines (apart : IsApart extensionFronts start) (spelled : d.IsSpelled) :
    Block (Quiet 0 start) 0 (extensionLines d) := by
  have name := spelled.name.isPlain
  have extension : Quiet 0 start 0 ("@interface " ++ d.name ++ " ()") :=
    .own (.plain (.append (.append (.literal (by decide)) name) (.literal (by decide))))
      (.append (.append (departs_literal apart (by decide))))
  have lookup : Quiet 0 start 0
      "- (id)objectOrNilForKey:(id)aKey fromDictionary:(NSDictionary *)dict;" :=
    quiet_literal apart (by decide) (by decide)
  have ends : Quiet 0 start 0 "@end" := quiet_literal apart (by decide) (by decide)
  exact .line extension (.emptyLine (.line lookup (.emptyLine (.line ends (.emptyLine .nil)))))

theorem quiet_methodParts (apart : IsApart methodFronts start) (spelled : d.IsSpelled) :
    ∀ part ∈ methodParts s d, Block (Quiet 0 start) 0 part := by
  simp only [methodParts, List.forall_mem_append, List.forall_mem_cons,
    Text.Block.forall_mem_onlyIf]
  exact ⟨⟨quiet_factory apart, quiet_initializer apart spelled.members,
    quiet_representation apart spelled.members, quiet_description apart, quiet_helper apart,
    nofun⟩, fun _ => quiet_release apart spelled.members⟩

theorem quiet_methodsInside (apart : IsApart methodFronts start) (spelled : d.IsSpelled) :
    Block (Quiet 0 start) 0 (methodsInside s d) :=
  .append (.setApart (quiet_methodParts apart spelled)) (.emptyLine .nil)

theorem quiet_behindConstants (apart : StandsOut start) (spelled : d.IsSpelled) :
    Block (Quiet 0 start) 0 (behindConstants s d) := by
  have methods : IsApart methodFronts start := apart.longer (by decide)
  have extension : IsApart extensionFronts start := apart.longer (by decide)
  have implementation : Quiet 0 start 0 ("@implementation " ++ d.name) :=
    .own (.plain (.append (.literal (by decide)) spelled.name.isPlain))
      (.append (departs_literal apart (by decide)))
  have ends : Quiet 0 start 0 "@end" := quiet_literal apart (by decide) (by decide)
  rw [behindConstants_eq]
  exact .append (quiet_extensionLines extension spelled)
    (.line implementation (.append (quiet_methodsInside methods spelled) (.line ends .nil)))

theorem tidy_implementation (spelled : d.IsSpelled) : TidyBlock 0 (d.implementation s) := by
  rw [implementation_eq]
  refine .append ?_ ((quiet_behindConstants standsOut_keyStart spelled).mono fun _ _ => Quiet.tidy)
  unfold closedGroup
  split
  · exact .nil
  · exact .append (tidy_constants spelled) (.emptyLine .nil)

/-- In an implementation only the constants begin like constants. -/
theorem linesWith_implementation (spelled : d.IsSpelled) :
    Text.linesWith (SourceFile.openingAt 0 keyStart)
        (SourceFile.typeset (d.implementation s)) =
      d.members.map fun m => Edit.margin SourceFile.indentation 0 ++ constantText m := by
  have constants : Text.linesWith (SourceFile.openingAt 0 keyStart)
      (Text.addedBy SourceFile.indentation 0 (d.members.map constantLine)) =
        d.members.map fun m => Edit.margin SourceFile.indentation 0 ++ constantText m :=
    SourceFile.linesWith_map_line isStart_keyStart
      fun m among => ⟨tidy_constantText (spelled.members m among), keyStart_prefix m⟩
  have gap : Block (Quiet 0 keyStart) 0 [.emptyLine] := .emptyLine .nil
  rw [SourceFile.typeset_eq, implementation_eq]
  unfold closedGroup
  split
  · next none =>
    have empty : d.members.map constantLine = [] := List.isEmpty_iff.mp none
    rw [empty] at constants
    rw [← constants]
    exact SourceFile.linesWith_append_quiet (P := Quiet 0 keyStart) .nil
      (quiet_behindConstants standsOut_keyStart spelled) isStart_keyStart
  · rw [List.append_assoc]
    exact (SourceFile.linesWith_append_quiet (tidy_constants spelled)
      (gap.append (quiet_behindConstants standsOut_keyStart spelled)) isStart_keyStart).trans constants

/-! ## Files -/

theorem isWord_fileName (valid : s.fault? = none) : IsWord s.singleFileName := by
  obtain ⟨general, _⟩ := ObjectiveCSettings.fault?_eq_none_iff.mp valid
  exact Text.isIdentifierPart_of_isIdentifier (GeneralSettings.fault?_eq_none_iff.mp general).2.1

theorem tidy_importLine {stem : String} (word : IsWord stem) :
    IsTidy ("#import \"" ++ headerName stem ++ "\"") := by
  have opens : "#import \"" = String.ofList (['#', 'i', 'm', 'p', 'o', 'r', 't', ' '] ++ ['"']) :=
    rfl
  have closes : "\"" = String.ofList ('"' :: []) := rfl
  have inside : Text.isBody (headerName stem).toList := by
    rw [headerName, String.toList_append]
    exact Text.isBody_append (Text.isBody_of_isWord word) (by decide)
  have own := IsTidy.of_literal opens closes Text.isPlain_empty (by decide) inside
  rwa [String.empty_append] at own

/-- Imports do not begin like this. -/
abbrev IsNoImport (start : List Char) : Prop := ¬ start <+: ['#', 'i'] ∧ ¬ ['#', 'i'] <+: start

theorem isNoImport_keyStart : IsNoImport keyStart := by decide

theorem quiet_importLine (apart : IsNoImport start) {stem : String} (word : IsWord stem) :
    Block (Quiet 0 start) 0 [importLine stem] := by
  have departs : Departs start "#import \"" := .of_literal_front apart (by decide)
  exact .line (.own (tidy_importLine word) (.append (.append departs))) .nil

theorem quiet_headerImports (apart : IsNoImport start) (valid : s.fault? = none) :
    Block (Quiet 0 start) 0 (headerImports s) := by
  obtain ⟨_, base, _⟩ := ObjectiveCSettings.fault?_eq_none_iff.mp valid
  have departs : Departs start "#import <Foundation/Foundation.h>" :=
    .of_literal_front apart (by decide)
  refine .line (.own (.plain (.literal (by decide))) departs) (.append ?_ (.emptyLine .nil))
  split
  · exact .nil
  · exact quiet_importLine apart (Text.isIdentifierPart_of_isIdentifier base)

/-- The line that announces classes. -/
def announcementText (nested : List String) : String :=
  "@class " ++ String.intercalate ", " nested ++ ";"

theorem isPlain_announcementText {nested : List String}
    (words : ∀ typeName ∈ nested, IsWord typeName) : IsPlain (announcementText nested) :=
  .append (.append (.literal (by decide)) (.intercalate (.literal (by decide))
    fun typeName among => (words typeName among).isPlain)) (.literal (by decide))

theorem quiet_announcement (apart : StandsOut start) {nested : List String}
    (words : ∀ typeName ∈ nested, IsWord typeName) :
    Block (Quiet 0 start) 0 (announcement nested) := by
  refine block_closedGroup ?_
  split
  · exact .nil
  · exact .line (.own (.plain (isPlain_announcementText words))
      (.append (.append (departs_literal apart (by decide))))) .nil

/-- What is written for a declaration. -/
def sourceOf (s : ObjectiveCSettings) (d : Declaration) : Source :=
  ⟨d.name, d.nested, SourceFile.typeset (d.interface s), SourceFile.typeset (d.implementation s)⟩

/-- A header has the lines of what stands in front of the interfaces, and those of interfaces. -/
theorem linesWith_header (opens : SourceFile.IsStart start) (valid : s.fault? = none)
    {stem : String} (word : IsWord stem) {nested : List String}
    (words : ∀ typeName ∈ nested, IsWord typeName) {ds : List Declaration}
    (spelled : ∀ d ∈ ds, d.IsSpelled) :
    Text.linesWith (SourceFile.openingAt 0 start)
        (header s stem nested (ds.map fun d => (sourceOf s d).interface)).contents =
      Text.linesWith (SourceFile.openingAt 0 start) (Text.addedBy SourceFile.indentation 0
          (headerImports s ++ announcement nested)) ++
        ds.flatMap fun d => Text.linesWith (SourceFile.openingAt 0 start)
          (SourceFile.typeset (d.interface s)) := by
  have name : IsPlain (headerName stem) := word.isPlain.append (.literal (by decide))
  have front := (quiet_headerImports isNoImport_keyStart valid).append
    (quiet_announcement standsOut_keyStart words)
  refine (SourceFile.linesWith_headed_spaced name opens front ?_).trans ?_
  · rw [List.forall_mem_map]
    intro d among
    show Text.IsWhole (SourceFile.typeset (d.interface s))
    rw [SourceFile.typeset_eq]
    exact (quiet_interface standsOut_keyStart valid (spelled d among)).isWhole
  · rw [List.flatMap_map]
    rfl

/-- No line of a header begins like a constant. -/
theorem linesWith_header_keyStart (valid : s.fault? = none) {stem : String} (word : IsWord stem)
    {nested : List String} (words : ∀ typeName ∈ nested, IsWord typeName) {ds : List Declaration}
    (spelled : ∀ d ∈ ds, d.IsSpelled) :
    Text.linesWith (SourceFile.openingAt 0 keyStart)
      (header s stem nested (ds.map fun d => (sourceOf s d).interface)).contents = [] := by
  have front := (quiet_headerImports isNoImport_keyStart valid).append
    (quiet_announcement standsOut_keyStart words)
  rw [linesWith_header isStart_keyStart valid word words spelled,
    SourceFile.linesWith_eq_nil front isStart_keyStart, List.nil_append, List.flatMap_eq_nil_iff]
  intro d among
  rw [SourceFile.typeset_eq]
  exact SourceFile.linesWith_eq_nil
    (quiet_interface standsOut_keyStart valid (spelled d among)) isStart_keyStart

/-- What stands in front of the implementations. -/
def importLines (stem : String) (nested : List String) : List Edit :=
  (stem :: nested).map importLine ++ [.emptyLine]

theorem implementationFile_eq (stem : String) (nested implementations : List String) :
    implementationFile stem nested implementations = .headed (implementationName stem)
      (importLines stem nested ++ SourceFile.spaced implementations) := by
  simp [implementationFile, importLines]

theorem quiet_importLines (apart : IsNoImport start) {stem : String} (word : IsWord stem)
    {nested : List String} (words : ∀ typeName ∈ nested, IsWord typeName) :
    Block (Quiet 0 start) 0 (importLines stem nested) := by
  refine .append (.map fun typeName among => quiet_importLine apart ?_) (.emptyLine .nil)
  rcases List.mem_cons.mp among with rfl | among
  · exact word
  · exact words typeName among

/-- An implementation file has the lines of its imports and those of its implementations. -/
theorem linesWith_implementationFile (opens : SourceFile.IsStart start) {stem : String}
    (word : IsWord stem) {nested : List String} (words : ∀ typeName ∈ nested, IsWord typeName)
    {ds : List Declaration} (spelled : ∀ d ∈ ds, d.IsSpelled) :
    Text.linesWith (SourceFile.openingAt 0 start)
        (implementationFile stem nested
          (ds.map fun d => (sourceOf s d).implementation)).contents =
      Text.linesWith (SourceFile.openingAt 0 start)
          (Text.addedBy SourceFile.indentation 0 (importLines stem nested)) ++
        ds.flatMap fun d => Text.linesWith (SourceFile.openingAt 0 start)
          (SourceFile.typeset (d.implementation s)) := by
  have name : IsPlain (implementationName stem) := word.isPlain.append (.literal (by decide))
  have front : Block (Quiet 0 keyStart) 0 (importLines stem nested) :=
    quiet_importLines isNoImport_keyStart word words
  rw [implementationFile_eq]
  refine (SourceFile.linesWith_headed_spaced name opens front ?_).trans ?_
  · rw [List.forall_mem_map]
    intro d among
    show Text.IsWhole (SourceFile.typeset (d.implementation s))
    rw [SourceFile.typeset_eq]
    exact (tidy_implementation (spelled d among)).isWhole
  · rw [List.flatMap_map]
    rfl

/-- An implementation file has the constants of its implementations. -/
theorem linesWith_implementationFile_keyStart {stem : String} (word : IsWord stem)
    {nested : List String} (words : ∀ typeName ∈ nested, IsWord typeName) {ds : List Declaration}
    (spelled : ∀ d ∈ ds, d.IsSpelled) :
    Text.linesWith (SourceFile.openingAt 0 keyStart)
      (implementationFile stem nested (ds.map fun d => (sourceOf s d).implementation)).contents =
        ds.flatMap fun d => d.members.map fun m =>
          Edit.margin SourceFile.indentation 0 ++ constantText m := by
  have front := quiet_importLines isNoImport_keyStart word words
  rw [linesWith_implementationFile isStart_keyStart word words spelled,
    SourceFile.linesWith_eq_nil front isStart_keyStart, List.nil_append]
  exact List.flatMap_congr fun d among => linesWith_implementation (spelled d among)

/-- All files together have the constants of all classes, in the order of the classes. -/
theorem linesWith_files (valid : s.fault? = none) {ds : List Declaration}
    (spelled : ∀ d ∈ ds, d.IsSpelled) :
    ((files s (ds.map (sourceOf s))).flatMap fun file =>
        Text.linesWith (SourceFile.openingAt 0 keyStart) file.contents) =
      ds.flatMap fun d => d.members.map fun m =>
        Edit.margin SourceFile.indentation 0 ++ constantText m := by
  have pair {stem : String} (word : IsWord stem) {nested : List String}
      (words : ∀ typeName ∈ nested, IsWord typeName) {own : List Declaration}
      (fit : ∀ d ∈ own, d.IsSpelled) :
      ([header s stem nested (own.map fun d => (sourceOf s d).interface),
          implementationFile stem nested (own.map fun d => (sourceOf s d).implementation)].flatMap
        fun file => Text.linesWith (SourceFile.openingAt 0 keyStart) file.contents) =
          own.flatMap fun d => d.members.map fun m =>
            Edit.margin SourceFile.indentation 0 ++ constantText m := by
    -- the constants are in the implementation, and the header has none
    rw [List.flatMap_cons, List.flatMap_singleton, linesWith_header_keyStart valid word words fit,
      linesWith_implementationFile_keyStart word words fit, List.nil_append]
  unfold files
  cases s.fileLayout with
  | perClass =>
      rw [List.flatMap_map, List.flatMap_assoc]
      refine List.flatMap_congr fun d among => ?_
      have own := spelled d among
      have alone := pair own.name own.nested (List.forall_mem_singleton.mpr own)
      rw [List.flatMap_singleton] at alone
      exact alone
  | singleFile =>
      cases ds with
      | nil => rfl
      | cons d ds =>
          have all := pair (isWord_fileName valid) (List.forall_mem_nil _) spelled
          show [header _ _ _ (((d :: ds).map (sourceOf s)).map (·.interface)), implementationFile _ _
            (((d :: ds).map (sourceOf s)).map (·.implementation))].flatMap _ = _
          rw [List.map_map, List.map_map]
          exact all

/-! ## Classes in types -/

variable {names : TypeNames} {place : FieldPlace} {type item : ValueType} {kind : PropertyKind}

/-- The type names of classes in the type of a property. -/
def PropertyKind.typeNames : PropertyKind → List String
  | .object typeName | .objects typeName => [typeName]
  | _ => []

/-- The class has this type name. -/
def IsNamed (names : TypeNames) (className typeName : String) : Prop :=
  names.get className = .ok typeName

theorem PropertyKind.typeNames_boxed (kind : PropertyKind) :
    kind.boxed.typeNames = kind.typeNames := by
  cases kind <;> rfl

/-- Elements that are kept as they come hold no classes. -/
theorem Element.references_eq_nil {element : Element}
    (found : Element.ofType? type = some element) : type.references = [] := by
  induction type with
  | array item _ =>
      rw [ofType?] at found
      split at found
      · next none => exact List.isEmpty_iff.mp none
      · cases found
  | optional inner ih => exact ih found
  | reference name => cases found
  | _ => rfl

theorem isNamed_arrayOf (found : arrayOf names place item = .ok kind) :
    List.Forall₂ (IsNamed names) item.references kind.typeNames := by
  rw [← ValueType.references_present]
  unfold arrayOf at found
  split at found
  · next className inside =>
    obtain ⟨typeName, named, rfl⟩ := exists_of_map_ok found
    rw [inside]
    exact .cons named .nil
  · split at found
    · next element kept =>
      cases found
      rw [Element.references_eq_nil kept]
      exact .nil
    · cases found

theorem isNamed_ofPresent (found : PropertyKind.ofPresent names place type = .ok kind) :
    List.Forall₂ (IsNamed names) type.references kind.typeNames := by
  induction type with
  | array item _ =>
      show List.Forall₂ (IsNamed names) item.references kind.typeNames
      exact isNamed_arrayOf found
  | optional inner ih => exact ih found
  | reference className =>
      obtain ⟨typeName, named, rfl⟩ := exists_of_map_ok found
      exact .cons named .nil
  | _ =>
      cases found
      exact .nil

/-- A property is spelled with the classes that its type refers to. -/
theorem isNamed_ofType (found : PropertyKind.ofType names place type = .ok kind) :
    List.Forall₂ (IsNamed names) type.references kind.typeNames := by
  rw [← ValueType.references_present]
  unfold PropertyKind.ofType at found
  split at found
  · obtain ⟨value, inside, rfl⟩ := exists_of_map_ok found
    rw [PropertyKind.typeNames_boxed]
    exact isNamed_ofPresent inside
  · exact isNamed_ofPresent found

/-! ## Declarations of classes -/

/-- What the property of a field is. -/
def IsMemberOf (names : TypeNames) (className typeName : String) (field : Field × String)
    (m : Member) : Prop :=
  m.name = field.2 ∧ m.key = field.1.key ∧
    Text.IsVariant (wantedConstant typeName field.2) m.constant ∧
    kindOf names className field.1 = .ok m.kind

/-- Every field has a property, and the constants are those that the supply hands out in a row. -/
theorem resolveMembers_spec {className typeName : String} {fields : List (Field × String)}
    {constants after : Text.NameSupply}
    (found : resolveMembers names className typeName constants fields = .ok (members, after)) :
    List.Forall₂ (IsMemberOf names className typeName) fields members ∧
      constants.issueAll (fields.map fun field => wantedConstant typeName field.2) =
        (members.map (·.constant), after) := by
  induction fields generalizing constants members with
  | nil =>
      cases found
      exact ⟨.nil, rfl⟩
  | cons field fields ih =>
      obtain ⟨own, name⟩ := field
      rw [resolveMembers] at found
      split at found
      · cases found
      · next kind known =>
        simp only at found
        split at found
        · cases found
        · next others later rest =>
          cases found
          obtain ⟨each, issued⟩ := ih rest
          refine ⟨.cons ⟨rfl, rfl, ?_, known⟩ each, ?_⟩
          · exact Text.NameSupply.isVariant_pick _ constants
          · rw [List.map_cons, Text.NameSupply.issueAll, issued]
            rfl

/-- A declaration has the type name of its class, a member for each field, and the type names of the
classes that the fields refer to. -/
theorem resolved_of_ofClass {c : ClassDef} {constants after : Text.NameSupply}
    (done : Declaration.ofClass names constants c = .ok (d, after)) :
    names.get c.name = .ok d.name ∧
      resolveMembers names c.name d.name constants (memberRule.named c) = .ok (d.members, after) ∧
      c.nested.mapM names.get = .ok d.nested := by
  obtain ⟨name, named, done⟩ := exists_of_bind_ok done
  obtain ⟨⟨members, later⟩, resolved, done⟩ := exists_of_bind_ok done
  obtain ⟨nested, known, done⟩ := exists_of_bind_ok done
  cases done
  exact ⟨named, resolved, known⟩

/-- The declaration of a class is spelled with its type name and its member names, and holds its
keys in their order. -/
theorem ofClass_spec {c : ClassDef} {constants after : Text.NameSupply}
    (words : ∀ className typeName, names.get className = .ok typeName → IsWord typeName)
    (done : Declaration.ofClass names constants c = .ok (d, after)) :
    d.IsSpelled ∧ d.members.map (·.key) = c.fields.map (·.key) ∧
      ∃ wanted, constants.issueAll wanted = (d.members.map (·.constant), after) := by
  obtain ⟨named, resolved, known⟩ := resolved_of_ofClass done
  obtain ⟨each, issued⟩ := resolveMembers_spec resolved
  refine ⟨⟨words _ _ named, fun typeName among => ?_, fun m among => ?_⟩, ?_, _, issued⟩
  · obtain ⟨className, _, found⟩ := exists_of_forall₂ (forall₂_of_mapM_ok known) typeName among
    exact words _ _ found
  · obtain ⟨field, listed, same, _, variant, kind⟩ := exists_of_forall₂ each m among
    have own : ∀ c ∈ field.2.toList, c.isAlphanum :=
      isSound_memberRule.isAlphanum_name (MemberRule.snd_mem_names listed)
    have base : IsWord (wantedConstant d.name field.2) :=
      .append (.append (by decide) (words _ _ named))
        (.of_isAlphanum (Text.isAlphanum_of_mem_capitalizeFirst own))
    refine ⟨by rwa [same], base.variant variant, fun typeName is => ?_⟩
    have own : typeName ∈ m.kind.typeNames := by
      rcases is with is | is
      all_goals
        rw [is]
        exact List.mem_singleton_self typeName
    obtain ⟨className, _, found⟩ := exists_of_forall₂ (isNamed_ofType kind) typeName own
    exact words _ _ found
  · rw [← map_eq_of_forall₂ each fun field m own => own.2.1.symm, ← memberRule.map_fst_named c,
      List.map_map]
    rfl

/-- Classes declared one after the other: each has its declaration, and all constants together are
handed out in a row. -/
theorem runs_spec {classes : List ClassDef} {constants : Text.NameSupply} {sources : List Source}
    (words : ∀ className typeName, names.get className = .ok typeName → IsWord typeName)
    (runs : Budget.Runs (declare s names) constants classes sources) :
    ∃ ds : List Declaration, sources = ds.map (sourceOf s) ∧
      List.Forall₂ (fun c d => ∃ constants after,
        Declaration.ofClass names constants c = .ok (d, after)) classes ds ∧
      ∃ wanted, (constants.issueAll wanted).1 = ds.flatMap fun d => d.members.map (·.constant) := by
  induction runs with
  | nil => exact ⟨[], rfl, .nil, [], rfl⟩
  | cons first _ ih =>
      obtain ⟨⟨d, later⟩, declared, eq⟩ := exists_of_map_ok first
      cases eq
      obtain ⟨_, _, wanted, issued⟩ := ofClass_spec words declared
      obtain ⟨ds, rfl, each, others, rest⟩ := ih
      refine ⟨d :: ds, rfl, .cons ⟨_, _, declared⟩ each, wanted ++ others, ?_⟩
      rw [Text.NameSupply.issueAll_append, issued, rest, List.flatMap_cons]

end Classwright.ObjectiveC
