/-
# Classwright.Proofs.Declaration.Interfaces — what a header says about its classes

The directives of a header stand at its margin: the announcement of other classes, and for each
class the opening of its interface, its properties and the end.  Read line by line they give back
the interfaces, each with the words that the types of its properties are spelled with.
-/

import Mathlib
import Classwright.Proofs.Declaration.ObjectiveC

namespace Classwright.ObjectiveC

open Text (Edit Block IsPlain IsTidy IsWord Departs Quiet identifiersIn linesWith readLine)

/-! ## Readers -/

/-- The class whose interface the line opens. -/
def readInterface : String → Option String :=
  readLine "@interface " fun cs => some (String.ofList (cs.takeWhile Text.isIdentifierPart))

/-- The words in the type of a property.  They stand behind its attributes and in front of its
name. -/
def readPropertyType : String → Option (List String) :=
  readLine "@property (" fun cs =>
    some ((identifiersIn (cs.dropWhile (· ≠ ')'))).dropLast.map String.ofList)

/-- The interfaces in these lines, each with the words in the types of its properties. -/
def interfaces : List String → List (String × List String)
  | [] => []
  | line :: lines =>
    match readInterface line with
    | some name =>
      (name, ((lines.takeWhile (· ≠ "@end")).filterMap readPropertyType).flatten) ::
        interfaces lines
    | none => interfaces lines

/-- The interfaces in a text. -/
def interfacesIn (text : String) : List (String × List String) := interfaces (linesWith "@" text)

/-- How a property holds its value, and its name.  The attributes are two words, and the name is the
last word of all. -/
def readProperty : String → Option (String × String) :=
  readLine "@property (" fun cs =>
    match identifiersIn cs with
    | _ :: storage :: words =>
      words.getLast?.map fun name => (String.ofList storage, String.ofList name)
    | _ => none

/-- The properties that a text declares. -/
def propertiesIn (text : String) : List (String × String) :=
  (linesWith "@" text).filterMap readProperty

variable {s : ObjectiveCSettings} {d : Declaration} {m : Member} {nested : List String}

/-! ## Lines with directives -/

/-- What directives begin with. -/
def directiveStart : List Char := ['@']

theorem isStart_directiveStart : SourceFile.IsStart directiveStart := ⟨'@', [], rfl, by decide⟩

theorem isNoImport_directiveStart : IsNoImport directiveStart := by decide

theorem directive_eq : "@" = SourceFile.openingAt 0 directiveStart := rfl

theorem prefix_directive {cs : List Char} (begins : ['@'] <+: cs) :
    directiveStart <+: (String.ofList cs).toList := by
  rwa [String.toList_ofList]

/-- The line that announces classes, if there are any. -/
def announcementLines (nested : List String) : List String :=
  if nested.isEmpty then [] else [announcementText nested]

/-- The directives of an interface. -/
def interfaceLines (s : ObjectiveCSettings) (d : Declaration) : List String :=
  interfaceText s d :: (d.members.map (propertyText s) ++ ["@end"])

theorem linesWith_directive {text : String} (tidy : IsTidy text)
    (begins : directiveStart <+: text.toList) (edits : List Edit) :
    linesWith "@" (Text.addedBy SourceFile.indentation 0 (.line text :: edits)) =
      text :: linesWith "@" (Text.addedBy SourceFile.indentation 0 edits) := by
  have own := @SourceFile.linesWith_cons 0 _ _ isStart_directiveStart tidy begins edits
  rwa [SourceFile.margin_zero, ← directive_eq] at own

theorem linesWith_closedGroup {edits : List Edit} (block : Text.TidyBlock 0 edits) :
    linesWith "@" (Text.addedBy SourceFile.indentation 0 (closedGroup edits)) =
      linesWith "@" (Text.addedBy SourceFile.indentation 0 edits) := by
  unfold closedGroup
  split
  · next none =>
    rw [List.isEmpty_iff.mp none]
  · rw [directive_eq]
    exact SourceFile.linesWith_append_quiet block (.emptyLine .nil) isStart_directiveStart

theorem linesWith_announcement (words : ∀ typeName ∈ nested, IsWord typeName) :
    linesWith "@" (Text.addedBy SourceFile.indentation 0 (announcement nested)) =
      announcementLines nested := by
  have plain := isPlain_announcementText words
  have begins : directiveStart <+: (announcementText nested).toList :=
    Text.prefix_append (Text.prefix_append (prefix_directive (by decide)) _) _
  have line := linesWith_directive (.plain plain) begins []
  rw [announcement, linesWith_closedGroup]
  · unfold announcementLines
    split
    · exact Text.linesWith_empty (by decide)
    · exact line
  · split
    · exact .nil
    · exact .line (.plain plain) .nil

theorem linesWith_interface (valid : s.fault? = none) (spelled : d.IsSpelled) :
    linesWith "@" (SourceFile.typeset (d.interface s)) = interfaceLines s d := by
  have opening : directiveStart <+: (interfaceText s d).toList :=
    Text.prefix_append (Text.prefix_append (Text.prefix_append
      (prefix_directive (by decide)) _) _) _
  have property (m : Member) : directiveStart <+: (propertyText s m).toList :=
    Text.prefix_append (Text.prefix_append (Text.prefix_append (Text.prefix_append
      (Text.prefix_append (Text.prefix_append (prefix_directive (by decide)) _) _) _) _) _) _
  have properties : linesWith "@" (Text.addedBy SourceFile.indentation 0
      (d.members.map (propertyLine s))) = d.members.map (propertyText s) := by
    have lines := @SourceFile.linesWith_map_line 0 _ _ d.members (propertyText s)
      isStart_directiveStart fun m among =>
        ⟨.plain (isPlain_propertyText (spelled.members m among)), property m⟩
    simp only [SourceFile.margin_zero] at lines
    exact lines
  have plainEnd : IsPlain "@end" := .literal (by decide)
  have beginsEnd : directiveStart <+: "@end".toList := prefix_directive (by decide)
  have ends := linesWith_directive (.plain plainEnd) beginsEnd []
  have quiet {cs : List Char} (own : cs.all Text.isPlainChar)
      (apart : ¬ directiveStart <+: cs ∧ ¬ cs <+: directiveStart) :
      Quiet 0 directiveStart 0 (String.ofList cs) := .own (.plain (.literal own)) (.literal apart)
  have methods : Block (Quiet 0 directiveStart) 0 methodLines :=
    .line (quiet (by decide) (by decide)) (.line (quiet (by decide) (by decide))
      (.line (quiet (by decide) (by decide)) (.emptyLine .nil)))
  have gap : Block (Quiet 0 directiveStart) 0 [.emptyLine] := .emptyLine .nil
  have group := tidy_propertyLines (s := s) spelled
  -- the opening, a gap, the properties, a gap, the methods and the end, in this order
  rw [SourceFile.typeset_eq, interface_eq]
  refine (linesWith_directive (.plain (isPlain_interfaceText valid spelled)) opening _).trans
    (congrArg _ ?_)
  refine (SourceFile.linesWith_append_of_quiet gap isStart_directiveStart _).trans ?_
  refine ((block_closedGroup group).linesWith_append (by decide) _).trans ?_
  refine congrArg₂ _ ((linesWith_closedGroup group).trans properties) ?_
  exact (SourceFile.linesWith_append_of_quiet methods isStart_directiveStart _).trans ends

/-- A header has the announcement of other classes and the directives of its interfaces. -/
theorem linesWith_directives (valid : s.fault? = none) {stem : String} (word : IsWord stem)
    (words : ∀ typeName ∈ nested, IsWord typeName) {ds : List Declaration}
    (spelled : ∀ d ∈ ds, d.IsSpelled) :
    linesWith "@" (header s stem nested (ds.map fun d => (sourceOf s d).interface)).contents =
      announcementLines nested ++ ds.flatMap (interfaceLines s) := by
  have imports := quiet_headerImports isNoImport_directiveStart valid
  rw [directive_eq]
  refine (linesWith_header isStart_directiveStart valid word words spelled).trans ?_
  refine congrArg₂ _ ?_ ?_
  · exact (SourceFile.linesWith_append_of_quiet imports isStart_directiveStart _).trans
      (linesWith_announcement words)
  · exact List.flatMap_congr fun d among => linesWith_interface valid (spelled d among)

/-! ## Reading what was written -/

/-- The words that a type of a property is spelled with. -/
def PropertyKind.words (kind : PropertyKind) : List String :=
  (identifiersIn (kind.declarator "").toList).map String.ofList

/-- In front of the name that it declares, a type ends with a blank or a star. -/
theorem PropertyKind.exists_declarator_eq (kind : PropertyKind) :
    ∃ front c, Text.isIdentifierPart c = false ∧
      ∀ name, (kind.declarator name).toList = front ++ c :: name.toList := by
  cases kind with
  | scalar value =>
      exact ⟨value.typeName.toList, ' ', rfl, fun name => by simp [declarator]⟩
  | dynamic => exact ⟨"id".toList, ' ', rfl, fun name => by simp [declarator]⟩
  | number => exact ⟨"NSNumber ".toList, '*', rfl, fun name => by simp [declarator]⟩
  | string => exact ⟨"NSString ".toList, '*', rfl, fun name => by simp [declarator]⟩
  | array element =>
      refine ⟨("NSArray<" ++ element.spelling ++ "> ").toList, '*', rfl, fun name => ?_⟩
      simp [declarator, arraySpelling]
  | object typeName =>
      exact ⟨(typeName ++ " ").toList, '*', rfl, fun name => by simp [declarator]⟩
  | objects typeName =>
      refine ⟨("NSArray<" ++ (typeName ++ " *") ++ "> ").toList, '*', rfl, fun name => ?_⟩
      simp [declarator, arraySpelling]

/-- The name that is declared is the last word. -/
theorem PropertyKind.identifiersIn_declarator (kind : PropertyKind) {name : String}
    (word : IsWord name) (filled : name ≠ "") :
    identifiersIn (kind.declarator name).toList =
      identifiersIn (kind.declarator "").toList ++ [name.toList] := by
  obtain ⟨front, c, gap, eq⟩ := kind.exists_declarator_eq
  have own : name.toList ≠ [] := fun none => filled (String.toList_eq_nil_iff.mp none)
  have nothing : identifiersIn "".toList = [] := by decide
  rw [eq, eq, Text.identifiersIn_append _ _ gap, Text.identifiersIn_append _ _ gap,
    Text.identifiersIn_word word own, nothing, List.append_nil]

/-- Between a parenthesis and a semicolon nothing but the declarator holds identifiers. -/
theorem identifiersIn_behind (cs : List Char) :
    identifiersIn (')' :: ' ' :: (cs ++ [';'])) = identifiersIn cs := by
  have nothing : identifiersIn [] = [] := by decide
  have enclosed := Text.identifiersIn_enclose [] [] (' ' :: cs) (c := ')') (d := ';') rfl rfl
  have blank := Text.identifiersIn_append [] cs (c := ' ') rfl
  rw [nothing, List.nil_append] at enclosed blank
  rwa [List.nil_append, List.append_nil, blank] at enclosed

/-- What stands behind the opening of a property. -/
theorem propertyText_eq (s : ObjectiveCSettings) (m : Member) :
    propertyText s m = "@property (" ++ ((if s.atomic then "atomic" else "nonatomic") ++ ", " ++
      storageWord s m.kind.storage ++ ") " ++ m.kind.declarator m.name ++ ";") := by
  unfold propertyText
  simp only [String.append_assoc]

/-- A property is read as the type that it is spelled with. -/
theorem readPropertyType_propertyText (spelled : m.IsSpelled) (filled : m.name ≠ "") :
    readPropertyType (propertyText s m) = some m.kind.words := by
  have word : IsWord m.name := .of_isAlphanum spelled.name
  have storage := isWord_storageWord s m.kind.storage
  have attributes : ∀ c ∈ ((if s.atomic then "atomic" else "nonatomic") ++ ", " ++
      storageWord s m.kind.storage).toList, decide (c ≠ ')') = true := by
    simp only [String.toList_append, List.forall_mem_append]
    refine ⟨⟨?_, by simp⟩, fun c among => ?_⟩
    · split <;> simp
    · rw [decide_eq_true_eq]
      rintro rfl
      exact absurd (storage ')' among) (by decide)
  -- the attributes hold no closing parenthesis, so the reader drops exactly them
  rw [readPropertyType, propertyText_eq, Text.readLine_append, String.toList_append,
    String.toList_append, String.toList_append]
  generalize ((if s.atomic then "atomic" else "nonatomic") ++ ", " ++
    storageWord s m.kind.storage).toList = front at attributes
  have behind : ((front ++ ") ".toList ++ (m.kind.declarator m.name).toList ++ ";".toList).dropWhile
      fun c => decide (c ≠ ')')) = ')' :: ' ' :: ((m.kind.declarator m.name).toList ++ [';']) := by
    rw [List.append_assoc, List.append_assoc, List.dropWhile_append_of_pos attributes]
    simp
  rw [behind, identifiersIn_behind, m.kind.identifiersIn_declarator word filled,
    List.dropLast_concat]
  rfl

/-- A property is read as its attribute and its name. -/
theorem readProperty_propertyText (spelled : m.IsSpelled) (filled : m.name ≠ "") :
    readProperty (propertyText s m) = some (storageWord s m.kind.storage, m.name) := by
  have word : IsWord m.name := .of_isAlphanum spelled.name
  have storage : IsWord (storageWord s m.kind.storage) := isWord_storageWord s m.kind.storage
  have shown : (storageWord s m.kind.storage).toList ≠ [] := by
    unfold storageWord
    cases m.kind.storage <;> cases s.countsReferences <;> simp
  obtain ⟨first, opens⟩ : IsWord (if s.atomic then "atomic" else "nonatomic") ∧
      (if s.atomic then "atomic" else "nonatomic").toList ≠ [] := by
    cases s.atomic with
    | true => exact ⟨(by decide : IsWord "atomic"), by simp⟩
    | false => exact ⟨(by decide : IsWord "nonatomic"), by simp⟩
  -- a comma, a blank and a parenthesis part the attributes from each other and from the declarator
  have letters : ((if s.atomic then "atomic" else "nonatomic") ++ ", " ++
      storageWord s m.kind.storage ++ ") " ++ m.kind.declarator m.name ++ ";").toList =
        (if s.atomic then "atomic" else "nonatomic").toList ++ ',' :: ([] ++ ' ' ::
          ((storageWord s m.kind.storage).toList ++ ')' :: ([] ++ ' ' ::
            ((m.kind.declarator m.name).toList ++ ';' :: [])))) := by
    simp [String.toList_append]
  have nothing : identifiersIn [] = [] := by decide
  rw [readProperty, propertyText_eq, Text.readLine_append, letters,
    Text.identifiersIn_append _ _ (by decide), Text.identifiersIn_append _ _ (by decide),
    Text.identifiersIn_append _ _ (by decide), Text.identifiersIn_append _ _ (by decide),
    Text.identifiersIn_append _ _ (by decide), Text.identifiersIn_word first opens,
    Text.identifiersIn_word storage shown, m.kind.identifiersIn_declarator word filled, nothing]
  simp

/-- The properties of an interface are those of its class. -/
theorem propertiesIn_interface (valid : s.fault? = none) (spelled : d.IsSpelled)
    (filled : ∀ m ∈ d.members, m.name ≠ "") :
    propertiesIn (SourceFile.typeset (d.interface s)) =
      d.members.map fun m => (storageWord s m.kind.storage, m.name) := by
  have other {line : String} (departs : Departs
      ['@', 'p', 'r', 'o', 'p', 'e', 'r', 't', 'y', ' ', '('] line) : readProperty line = none := by
    have opening : "@property (".toList =
        ['@', 'p', 'r', 'o', 'p', 'e', 'r', 't', 'y', ' ', '('] := String.toList_ofList
    exact Text.readLine_eq_none _ (opening ▸ departs)
  have opens : readProperty (interfaceText s d) = none :=
    other (.append (.append (.append (.literal (by decide)))))
  have ends : readProperty "@end" = none := other (.literal (by decide))
  have properties : (d.members.map (propertyText s)).filterMap readProperty =
      d.members.map fun m => (storageWord s m.kind.storage, m.name) := by
    rw [List.filterMap_map]
    refine List.filterMap_eq_map_iff_forall_eq_some.mpr fun m among => ?_
    rw [Function.comp_apply]
    exact readProperty_propertyText (spelled.members m among) (filled m among)
  rw [propertiesIn, linesWith_interface valid spelled, interfaceLines,
    List.filterMap_cons_none opens, List.filterMap_append, properties,
    List.filterMap_cons_none ends]
  simp

theorem readInterface_interfaceText (spelled : d.IsSpelled) :
    readInterface (interfaceText s d) = some d.name := by
  have word := spelled.name
  have assoc (a b c d : String) : a ++ b ++ c ++ d = a ++ (b ++ c ++ d) := by
    simp only [String.append_assoc]
  have pieces : interfaceText s d = "@interface " ++ (d.name ++ " : " ++ s.baseClass) :=
    assoc _ _ _ _
  rw [readInterface, pieces, Text.readLine_append]
  have own : (d.name ++ " : " ++ s.baseClass).toList.takeWhile Text.isIdentifierPart =
      d.name.toList := by
    rw [String.append_assoc, String.toList_append, List.takeWhile_append_of_pos word]
    simp [Text.isIdentifierPart]
  rw [own, String.ofList_toList]

/-- Other directives open no interface. -/
theorem readInterface_eq_none {line : String}
    (apart : Departs ['@', 'i', 'n', 't', 'e', 'r', 'f', 'a', 'c', 'e', ' '] line) :
    readInterface line = none := by
  have opening : "@interface ".toList = ['@', 'i', 'n', 't', 'e', 'r', 'f', 'a', 'c', 'e', ' '] :=
    String.toList_ofList
  exact Text.readLine_eq_none _ (opening ▸ apart)

theorem readInterface_propertyText (m : Member) : readInterface (propertyText s m) = none :=
  readInterface_eq_none (.append (.append (.append (.append (.append (.append
    (.literal (by decide))))))))

theorem readInterface_announcementText (nested : List String) :
    readInterface (announcementText nested) = none :=
  readInterface_eq_none (.append (.append (.literal (by decide))))

theorem readInterface_end : readInterface "@end" = none :=
  readInterface_eq_none (.literal (by decide))

theorem propertyText_ne_end (m : Member) : propertyText s m ≠ "@end" := by
  have begins : Departs ['@', 'e'] (propertyText s m) :=
    .append (.append (.append (.append (.append (.append (.literal (by decide)))))))
  intro same
  rw [same] at begins
  exact begins.not_prefix.1 ⟨['n', 'd'], String.toList_ofList.symm⟩

/-- Lines that open no interface are looked over. -/
theorem interfaces_append {front : List String} (others : ∀ line ∈ front, readInterface line = none)
    (back : List String) : interfaces (front ++ back) = interfaces back := by
  induction front with
  | nil => rfl
  | cons line front ih =>
      rw [List.forall_mem_cons] at others
      rw [List.cons_append, interfaces, others.1]
      exact ih others.2

/-- An interface goes up to its end. -/
theorem interfaces_interfaceLines (spelled : d.IsSpelled) (filled : ∀ m ∈ d.members, m.name ≠ "")
    (back : List String) :
    interfaces (interfaceLines s d ++ back) =
      (d.name, d.members.flatMap (·.kind.words)) :: interfaces back := by
  have property : ∀ line ∈ d.members.map (propertyText s), decide (line ≠ "@end") = true := by
    rw [List.forall_mem_map]
    exact fun m _ => decide_eq_true (propertyText_ne_end m)
  have inside : ((d.members.map (propertyText s) ++ "@end" :: back).takeWhile
      fun line => decide (line ≠ "@end")) = d.members.map (propertyText s) := by
    rw [List.takeWhile_append_of_pos property, List.takeWhile_cons_of_neg (by simp),
      List.append_nil]
  have types : (d.members.map (propertyText s)).filterMap readPropertyType =
      d.members.map (·.kind.words) := by
    rw [List.filterMap_map]
    refine List.filterMap_eq_map_iff_forall_eq_some.mpr fun m among => ?_
    rw [Function.comp_apply]
    exact readPropertyType_propertyText (spelled.members m among) (filled m among)
  -- the search for the next interface passes the properties and the end
  have others : ∀ line ∈ d.members.map (propertyText s) ++ ["@end"], readInterface line = none := by
    rw [List.forall_mem_append, List.forall_mem_map, List.forall_mem_singleton]
    exact ⟨fun m _ => readInterface_propertyText m, readInterface_end⟩
  rw [interfaceLines, List.cons_append, interfaces, readInterface_interfaceText spelled,
    interfaces_append others, List.append_assoc, List.singleton_append, inside, types,
    ← List.flatMap_def]

theorem interfaces_flatMap {ds : List Declaration} (spelled : ∀ d ∈ ds, d.IsSpelled)
    (filled : ∀ d ∈ ds, ∀ m ∈ d.members, m.name ≠ "") :
    interfaces (ds.flatMap (interfaceLines s)) =
      ds.map fun d => (d.name, d.members.flatMap (·.kind.words)) := by
  induction ds with
  | nil => rfl
  | cons d ds ih =>
      rw [List.forall_mem_cons] at spelled filled
      rw [List.flatMap_cons, interfaces_interfaceLines spelled.1 filled.1, List.map_cons,
        ih spelled.2 filled.2]

/-- A header reads as the interfaces that it was written for. -/
theorem interfacesIn_header (valid : s.fault? = none) {stem : String} (word : IsWord stem)
    (words : ∀ typeName ∈ nested, IsWord typeName) {ds : List Declaration}
    (spelled : ∀ d ∈ ds, d.IsSpelled) (filled : ∀ d ∈ ds, ∀ m ∈ d.members, m.name ≠ "") :
    interfacesIn (header s stem nested (ds.map fun d => (sourceOf s d).interface)).contents =
      ds.map fun d => (d.name, d.members.flatMap (·.kind.words)) := by
  have announcement : ∀ line ∈ announcementLines nested, readInterface line = none := by
    unfold announcementLines
    split
    · exact List.forall_mem_nil _
    · exact List.forall_mem_singleton.mpr (readInterface_announcementText nested)
  rw [interfacesIn, linesWith_directives valid word words spelled, interfaces_append announcement,
    interfaces_flatMap spelled filled]

/-- The only line of a header that announces classes is the one for all of them. -/
theorem linesWith_class (valid : s.fault? = none) {stem : String} (word : IsWord stem)
    (words : ∀ typeName ∈ nested, IsWord typeName) {ds : List Declaration}
    (spelled : ∀ d ∈ ds, d.IsSpelled) :
    linesWith "@class " (header s stem nested (ds.map fun d => (sourceOf s d).interface)).contents =
      announcementLines nested := by
  have opening : "@class ".toList = ['@', 'c', 'l', 'a', 's', 's', ' '] := String.toList_ofList
  have longer : "@".toList <+: "@class ".toList := by
    rw [opening]
    exact ⟨_, rfl⟩
  have own : ∀ line ∈ announcementLines nested, Text.begins "@class " line := by
    unfold announcementLines
    split
    · exact List.forall_mem_nil _
    · rw [List.forall_mem_singleton, Text.begins, List.isPrefixOf_iff_prefix]
      exact Text.prefix_append (Text.prefix_append (List.prefix_refl _) _) _
  have others : ∀ line ∈ ds.flatMap (interfaceLines s), ¬ Text.begins "@class " line := by
    have apart {line : String} (departs : Departs ['@', 'c', 'l', 'a', 's', 's', ' '] line) :
        ¬ Text.begins "@class " line := by
      rw [Text.begins, List.isPrefixOf_iff_prefix, opening]
      exact departs.not_prefix.1
    intro line among
    obtain ⟨d, _, among⟩ := List.mem_flatMap.mp among
    rcases List.mem_cons.mp among with rfl | among
    · exact apart (.append (.append (.append (.literal (by decide)))))
    · rcases List.mem_append.mp among with among | among
      · obtain ⟨m, _, rfl⟩ := List.mem_map.mp among
        exact apart (.append (.append (.append (.append (.append (.append
          (.literal (by decide))))))))
      · rw [List.mem_singleton.mp among]
        exact apart (.literal (by decide))
  -- announcements are among the directives, which are known; only the first can be one
  rw [← Text.linesWith_filter longer, linesWith_directives valid word words spelled,
    List.filter_append, List.filter_eq_self.mpr own, List.filter_eq_nil_iff.mpr others,
    List.append_nil]

/-! ## Classes in the words of a type -/

theorem PropertyKind.words_object {typeName : String} (word : IsWord typeName)
    (filled : typeName ≠ "") : (object typeName).words = [typeName] := by
  have own : typeName.toList ≠ [] := fun none => filled (String.toList_eq_nil_iff.mp none)
  have text : ((object typeName).declarator "").toList = typeName.toList ++ ' ' :: ['*'] := by
    simp [declarator]
  have star : identifiersIn ['*'] = [] := by decide
  rw [words, text, Text.identifiersIn_append _ _ (by decide), Text.identifiersIn_word word own,
    star]
  simp

theorem PropertyKind.words_objects {typeName : String} (word : IsWord typeName)
    (filled : typeName ≠ "") : (objects typeName).words = ["NSArray", typeName] := by
  have text : ((objects typeName).declarator "").toList = ['N', 'S', 'A', 'r', 'r', 'a', 'y'] ++
      '<' :: (((object typeName).declarator "").toList ++ '>' :: [' ', '*']) := by
    simp [declarator, arraySpelling]
  have front : identifiersIn ['N', 'S', 'A', 'r', 'r', 'a', 'y'] =
      [['N', 'S', 'A', 'r', 'r', 'a', 'y']] := by decide
  have back : identifiersIn [' ', '*'] = [] := by decide
  have array : String.ofList ['N', 'S', 'A', 'r', 'r', 'a', 'y'] = "NSArray" := rfl
  have own := words_object word filled
  rw [words] at own
  rw [words, text, Text.identifiersIn_enclose _ _ _ (by decide) (by decide), front, back,
    List.append_nil, List.map_append, own, List.map_singleton, array]
  rfl

end Classwright.ObjectiveC
