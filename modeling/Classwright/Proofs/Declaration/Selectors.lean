/-
# Classwright.Proofs.Declaration.Selectors — getters beside the methods of an implementation

A property is read by a method that is called like it, and an implementation defines some methods
without arguments itself.  If one of these had the name of a property, it would be the getter.  The
names that generated code always uses are kept from properties, and `description` is a keyword.  The
method that gives up references is neither: it is written only where references are not counted, and
there a key that is converted to its name gives a property that it would be the getter of.
-/

import Mathlib
import Classwright.Proofs.Declaration.Interfaces
import Classwright.Proofs.Declaration.References
import Classwright.Proofs.Render.MemberNaming

namespace Classwright.ObjectiveC

open Text (Edit Block IsPlain IsTidy IsWord Departs Quiet TidyBlock linesWith readLine)

/-! ## Readers -/

/-- The method without arguments whose definition the line opens: behind the type that it returns
there is only its name. -/
def readSelector : String → Option String :=
  readLine "- (" fun cs =>
    let name := (cs.dropWhile (· ≠ ')')).tail
    if name.all Text.isIdentifierPart then some (String.ofList name) else none

/-- The methods without arguments that a text defines for objects. -/
def selectorsIn (text : String) : List String := (linesWith "- (" text).filterMap readSelector

/-- The getters of the properties that a text declares. -/
def gettersIn (text : String) : List String := (propertiesIn text).map (·.2)

variable {s : ObjectiveCSettings} {d : Declaration} {members : List Member}

/-! ## Lines that open methods -/

/-- What the definition of a method for objects begins with. -/
def methodStart : List Char := ['-', ' ', '(']

theorem isStart_methodStart : SourceFile.IsStart methodStart := ⟨'-', _, rfl, by decide⟩

theorem method_eq : "- (" = SourceFile.openingAt 0 methodStart := rfl

/-- A line of the program text that begins otherwise. -/
theorem quiet_apart {cs : List Char} (own : cs.all Text.isPlainChar)
    (apart : ¬ methodStart <+: cs ∧ ¬ cs <+: methodStart) :
    Quiet 0 methodStart 0 (String.ofList cs) := .own (.plain (.literal own)) (.literal apart)

theorem quiet_behindHead {body : List Edit} (inner : TidyBlock 1 body) :
    Block (Quiet 0 methodStart) 0 (.line "\x7b" :: (Text.indented body ++ [.line "\x7d"])) :=
  .line (quiet_apart (by decide) (by decide)) (.append (.indented (inner.quiet (by decide)))
    (.line (quiet_apart (by decide) (by decide)) .nil))

/-- A method for objects is opened by its head. -/
theorem linesWith_method {cs : List Char} {body : List Edit} (own : cs.all Text.isPlainChar)
    (opens : methodStart <+: cs) (inner : TidyBlock 1 body) :
    linesWith "- (" (Text.addedBy SourceFile.indentation 0 (method (String.ofList cs) body)) =
      [String.ofList cs] := by
  have begins : methodStart <+: (String.ofList cs).toList := by rwa [String.toList_ofList]
  have lines := @SourceFile.linesWith_cons 0 _ _ isStart_methodStart (.plain (.literal own)) begins
    (.line "\x7b" :: (Text.indented body ++ [.line "\x7d"]))
  rw [SourceFile.linesWith_eq_nil (quiet_behindHead inner) isStart_methodStart,
    SourceFile.margin_zero] at lines
  exact lines

/-- A method for the class itself is not. -/
theorem linesWith_factory :
    linesWith "- (" (Text.addedBy SourceFile.indentation 0 (factory s)) = [] :=
  SourceFile.linesWith_eq_nil
    (.line (quiet_apart (by decide) (by decide)) (quiet_behindHead (tidy_factoryBody s)))
    isStart_methodStart

theorem linesWith_helper :
    linesWith "- (" (Text.addedBy SourceFile.indentation 0 helper) =
      ["- (id)objectOrNilForKey:(id)aKey fromDictionary:(NSDictionary *)dict"] := by
  have mark : Block (Quiet 0 methodStart) 0 [.line "#pragma mark - Helper Method", .emptyLine] :=
    .line (quiet_apart (by decide) (by decide)) (.emptyLine .nil)
  exact (SourceFile.linesWith_append_of_quiet mark isStart_methodStart _).trans
    (linesWith_method (by decide) (by decide) tidy_helperBody)

/-- The lines that open the methods of an implementation. -/
def methodHeads (s : ObjectiveCSettings) : List String :=
  ["- (instancetype)initWithDictionary:(NSDictionary *)dict",
    "- (NSDictionary *)dictionaryRepresentation", "- (NSString *)description",
    "- (id)objectOrNilForKey:(id)aKey fromDictionary:(NSDictionary *)dict"] ++
    if s.countsReferences then [] else ["- (void)dealloc"]

theorem linesWith_methodParts (spelled : d.IsSpelled) :
    (methodParts s d).flatMap (fun part =>
      linesWith "- (" (Text.addedBy SourceFile.indentation 0 part)) = methodHeads s := by
  have initializer : linesWith "- (" (Text.addedBy _ 0 (initializer d.members)) = _ :=
    linesWith_method (by decide) (by decide) (tidy_initializerBody spelled.members)
  have representation : linesWith "- (" (Text.addedBy _ 0 (representation d.members)) = _ :=
    linesWith_method (by decide) (by decide) (tidy_representationBody spelled.members)
  have description : linesWith "- (" (Text.addedBy _ 0 description) = _ :=
    linesWith_method (by decide) (by decide) tidy_descriptionBody
  have release : linesWith "- (" (Text.addedBy _ 0 (release d.members)) = _ :=
    linesWith_method (by decide) (by decide) (tidy_releaseBody spelled.members)
  rw [methodParts, List.flatMap_append, methodHeads]
  simp only [List.flatMap_cons, List.flatMap_nil, linesWith_factory, initializer, representation,
    description, linesWith_helper]
  cases s.countsReferences with
  | true => rfl
  | false =>
      simp only [Bool.not_false, Text.onlyIf, if_true, List.flatMap_singleton, release]
      rfl

theorem linesWith_extensionLines (spelled : d.IsSpelled) :
    linesWith "- (" (Text.addedBy SourceFile.indentation 0 (extensionLines d)) =
      ["- (id)objectOrNilForKey:(id)aKey fromDictionary:(NSDictionary *)dict;"] := by
  have opening : Quiet 0 methodStart 0 ("@interface " ++ d.name ++ " ()") :=
    .own (.plain (.append (.append (.literal (by decide)) spelled.name.isPlain)
      (.literal (by decide)))) (.append (.append (.literal (by decide))))
  have front : Block (Quiet 0 methodStart) 0
      [.line ("@interface " ++ d.name ++ " ()"), .emptyLine] := .line opening (.emptyLine .nil)
  have back : Block (Quiet 0 methodStart) 0 [.emptyLine, .line "@end", .emptyLine] :=
    .emptyLine (.line (quiet_apart (by decide) (by decide)) (.emptyLine .nil))
  have plain : IsPlain "- (id)objectOrNilForKey:(id)aKey fromDictionary:(NSDictionary *)dict;" :=
    .literal (by decide)
  have begins : methodStart <+:
      "- (id)objectOrNilForKey:(id)aKey fromDictionary:(NSDictionary *)dict;".toList := by
    rw [show "- (id)objectOrNilForKey:(id)aKey fromDictionary:(NSDictionary *)dict;".toList = _ from
      String.toList_ofList]
    decide
  have lines := @SourceFile.linesWith_cons 0 _ _ isStart_methodStart (.plain plain) begins
    [.emptyLine, .line "@end", .emptyLine]
  rw [SourceFile.linesWith_eq_nil back isStart_methodStart, SourceFile.margin_zero] at lines
  exact (SourceFile.linesWith_append_of_quiet front isStart_methodStart _).trans lines

/-- In an implementation the helper is declared, and then the methods are defined. -/
theorem linesWith_method_implementation (spelled : d.IsSpelled) :
    linesWith "- (" (SourceFile.typeset (d.implementation s)) =
      "- (id)objectOrNilForKey:(id)aKey fromDictionary:(NSDictionary *)dict;" :: methodHeads s := by
  have constants : Block (Quiet 0 methodStart) 0 (closedGroup (d.members.map constantLine)) := by
    refine block_closedGroup (.map fun m among => .line (.own ?_ ?_) .nil)
    · exact tidy_constantText (spelled.members m among)
    · exact .append (.append (.append (.append (.literal (by decide)))))
  have opening : Block (Quiet 0 methodStart) 0 [.line ("@implementation " ++ d.name)] :=
    .line (.own (.plain (.append (.literal (by decide)) spelled.name.isPlain))
      (.append (.literal (by decide)))) .nil
  have closing : Block (Quiet 0 methodStart) 0 [.emptyLine, .line "@end"] :=
    .emptyLine (.line (quiet_apart (by decide) (by decide)) .nil)
  have extension : TidyBlock 0 (extensionLines d) :=
    (quiet_extensionLines (by decide : IsApart extensionFronts keyStart) spelled).mono
      fun _ _ => Quiet.tidy
  have parts : ∀ part ∈ methodParts s d, TidyBlock 0 part := fun part among =>
    (quiet_methodParts (by decide : IsApart methodFronts keyStart) spelled part among).mono
      fun _ _ => Quiet.tidy
  have pieces : d.implementation s = closedGroup (d.members.map constantLine) ++ (extensionLines d ++
      ([.line ("@implementation " ++ d.name)] ++
        (Text.setApart (methodParts s d) ++ [.emptyLine, .line "@end"]))) := by
    simp [implementation_eq, behindConstants_eq, methodsInside]
  have declares := linesWith_extensionLines spelled
  have defines := @linesWith_methodParts s d spelled
  rw [method_eq] at declares
  simp only [method_eq] at defines
  -- the constants and the opening of the implementation are looked over
  rw [SourceFile.typeset_eq, pieces, method_eq,
    SourceFile.linesWith_append_of_quiet constants isStart_methodStart,
    extension.linesWith_append (SourceFile.openingAt_ne_empty isStart_methodStart), declares,
    SourceFile.linesWith_append_of_quiet opening isStart_methodStart,
    SourceFile.linesWith_append_quiet (.setApart parts) closing isStart_methodStart,
    SourceFile.linesWith_setApart isStart_methodStart parts, defines]
  rfl

/-! ## Methods without arguments -/

/-- An implementation defines methods without arguments for the dictionary and the description of an
object, and for giving up its references if nobody counts them. -/
theorem selectorsIn_implementation (spelled : d.IsSpelled) :
    selectorsIn (SourceFile.typeset (d.implementation s)) =
      ["dictionaryRepresentation", "description"] ++
        if s.countsReferences then [] else ["dealloc"] := by
  rw [selectorsIn, linesWith_method_implementation spelled, methodHeads]
  cases s.countsReferences
  all_goals cbv

/-! ## Properties -/

section Declared

variable {names : TypeNames} {c : ClassDef}

/-- The getters of a class are its member names. -/
theorem gettersIn_interface (valid : s.fault? = none) (isOf : d.IsOf names c) :
    gettersIn (SourceFile.typeset (d.interface s)) = memberRule.names c := by
  rw [gettersIn, propertiesIn_interface valid isOf.spelled isOf.refers.filled, List.map_map,
    ← isOf.memberNames]
  rfl

/-- The method that gives up references is called like the members of some keys. -/
theorem isPlainName_dealloc : memberRule.IsPlainName "dealloc" where
  opens := ⟨'d', by simp, by decide⟩
  apart := by decide +kernel
  clear := by decide +kernel
  free := by decide +kernel
  open_ := by decide +kernel
  adjust other := by
    constructor
    · intro same
      have same : avoidFamily other = "dealloc" := same
      unfold avoidFamily at same
      split at same
      · have letters := congrArg String.toList same
        simp at letters
      · exact same
    · rintro rfl
      decide +kernel

end Declared

/-- Every class that Objective-C has counterparts for is declared, with a getter for each member.
Its implementation defines two methods without arguments, for the dictionary and the description of
an object, and a third one that gives up its references if nobody counts them.  The first two are
never getters.  The third one is the getter of a member exactly if some key is converted to its
name; so getters and methods keep apart if references are counted or there is no such key. -/
theorem getters_apart_from_methods {settings : ObjectiveCSettings} (valid : settings.fault? = none)
    (s : Schema) {c : ClassDef} (among : c ∈ s.classes)
    (supported : ¬ Language.objectiveC.Rejects c) (constants : Text.NameSupply) :
    ∃ (source : Source) (after : Text.NameSupply),
      backend.declare settings (backend.typeNames settings s) constants c = .ok (source, after) ∧
      gettersIn source.interface = memberRule.names c ∧
      selectorsIn source.implementation = ["dictionaryRepresentation", "description"] ++
        (if settings.countsReferences then [] else ["dealloc"]) ∧
      (∀ name ∈ ["dictionaryRepresentation", "description"], name ∉ gettersIn source.interface) ∧
      ("dealloc" ∈ gettersIn source.interface ↔
        ∃ field ∈ c.fields, Text.camelCase field.key = "dealloc") ∧
      ((∀ getter ∈ gettersIn source.interface, getter ∉ selectorsIn source.implementation) ↔
        settings.countsReferences ∨ ∀ field ∈ c.fields, Text.camelCase field.key ≠ "dealloc") := by
  obtain ⟨d, after, declared, isOf⟩ := exists_declared valid among supported constants
  have getters : gettersIn (sourceOf settings d).interface = memberRule.names c :=
    gettersIn_interface valid isOf
  have methods : selectorsIn (sourceOf settings d).implementation = _ :=
    selectorsIn_implementation isOf.spelled
  have dealloc : "dealloc" ∈ memberRule.names c ↔
      ∃ field ∈ c.fields, Text.camelCase field.key = "dealloc" :=
    isPlainName_dealloc.mem_names_iff
  -- one name is kept for generated code, and the other one is a keyword
  have apart : ∀ name ∈ ["dictionaryRepresentation", "description"],
      name ∉ memberRule.names c := by
    simp only [List.forall_mem_cons]
    refine ⟨fun member => ?_, fun member => ?_, nofun⟩
    · exact MemberRule.notMem_generated member (by decide +kernel)
    · exact isSound_memberRule.notMem_reserved member (by decide +kernel)
  refine ⟨_, after, declared, getters, methods, ?_, ?_, ?_⟩
  · rwa [getters]
  · rw [getters, dealloc]
  · rw [getters, methods]
    cases settings.countsReferences with
    | true =>
        simp only [if_true, List.append_nil, true_or, iff_true]
        exact fun getter member listed => apart getter listed member
    | false =>
        have none : (∀ field ∈ c.fields, Text.camelCase field.key ≠ "dealloc") ↔
            "dealloc" ∉ memberRule.names c := by
          rw [dealloc]
          simp
        simp only [Bool.false_eq_true, if_false, false_or, none]
        constructor
        · exact fun keeps member => keeps _ member (by decide)
        · rintro free getter member listed
          rcases List.mem_append.mp listed with fixed | last
          · exact apart getter fixed member
          · exact free (List.mem_singleton.mp last ▸ member)

/-- A session, with keys for all methods that an implementation may define. -/
def session : ClassDef :=
  ⟨"Session", [⟨"description", .string⟩, ⟨"dictionary_representation", .string⟩,
    ⟨"dealloc", .string⟩]⟩

/-- A schema of sessions. -/
def sessions : Schema where
  classes := [session]
  faultless := ClassList.fault?_eq_none.mpr ⟨by decide, by decide, by cbv⟩

theorem supported_session : ¬ Language.objectiveC.Rejects session := by decide

/-- Where references are counted, no member of a session is read by a method that is defined. -/
theorem getters_apart_from_methods_sessions :
    ({} : ObjectiveCSettings).fault? = none ∧ session ∈ sessions.classes ∧
      ¬ Language.objectiveC.Rejects session ∧
      ∃ (source : Source) (after : Text.NameSupply),
        backend.declare {} (backend.typeNames {} sessions) .empty session = .ok (source, after) ∧
        "dealloc" ∈ gettersIn source.interface ∧
        ∀ getter ∈ gettersIn source.interface, getter ∉ selectorsIn source.implementation := by
  have valid : ({} : ObjectiveCSettings).fault? = none := by decide
  have listed : session ∈ sessions.classes := List.mem_cons_self
  obtain ⟨source, after, declared, _, _, _, third, apart⟩ :=
    getters_apart_from_methods valid sessions listed supported_session .empty
  refine ⟨valid, listed, supported_session, source, after, declared, third.mpr ?_,
    apart.mpr (.inl rfl)⟩
  exact ⟨⟨"dealloc", .string⟩, by simp [session], by decide +kernel⟩

/-- Where they are not, the method that gives up the references of a session is the getter of one of
its members. -/
theorem getter_gives_up_references :
    ({ countsReferences := false } : ObjectiveCSettings).fault? = none ∧
      session ∈ sessions.classes ∧
      ∃ (source : Source) (after : Text.NameSupply),
        backend.declare { countsReferences := false }
            (backend.typeNames { countsReferences := false } sessions) .empty session =
          .ok (source, after) ∧
        "dealloc" ∈ gettersIn source.interface ∧ "dealloc" ∈ selectorsIn source.implementation := by
  have valid : ({ countsReferences := false } : ObjectiveCSettings).fault? = none := by decide
  have listed : session ∈ sessions.classes := List.mem_cons_self
  obtain ⟨d, after, declared, isOf⟩ := exists_declared valid listed supported_session .empty
  refine ⟨valid, listed, _, after, declared, ?_, ?_⟩
  · show "dealloc" ∈ gettersIn (SourceFile.typeset (d.interface _))
    rw [gettersIn_interface valid isOf, isPlainName_dealloc.mem_names_iff]
    exact ⟨⟨"dealloc", .string⟩, by simp [session], by decide +kernel⟩
  · show "dealloc" ∈ selectorsIn (SourceFile.typeset (d.implementation _))
    rw [selectorsIn_implementation isOf.spelled]
    decide

end Classwright.ObjectiveC
