/-
# Classwright.Proofs.Declaration.Messages — what an implementation imports and sends messages to

An object of a generated class is made by a message to the class.  In the lines of an implementation
the receivers of that message are found behind a bracket; only the constants for keys may hold
anything, so they are looked over.  A line is put together from texts that send no messages and from
the one text that does, so its receivers are known piece by piece (`Sends`).
-/

import Mathlib
import Classwright.Proofs.Declaration.References
import Classwright.Proofs.Render.Keys
import Classwright.Proofs.Render.SourceFile

namespace Classwright.ObjectiveC

open Text (Edit Block IsPlain IsTidy IsWord Departs Quiet linesWith isIdentifierPart)

variable {s : ObjectiveCSettings} {d : Declaration} {m : Member} {nested : List String}

/-! ## Readers -/

/-- What stands behind the receiver of the message that makes an object. -/
def makeMessage : List Char :=
  [' ', 'm', 'o', 'd', 'e', 'l', 'O', 'b', 'j', 'e', 'c', 't', 'W', 'i', 't', 'h', 'D', 'i', 'c',
    't', 'i', 'o', 'n', 'a', 'r', 'y', ':']

/-- The receiver behind a bracket, if the message makes an object. -/
def receiver? (cs : List Char) : Option String :=
  if makeMessage.isPrefixOf (cs.dropWhile isIdentifierPart) then
    some (String.ofList (cs.takeWhile isIdentifierPart))
  else none

/-- The receivers of messages that make objects. -/
def receivers : List Char → List String
  | [] => []
  | c :: cs => (if c = '[' then (receiver? cs).toList else []) ++ receivers cs

/-- The receivers in a line that is not the constant for a key. -/
def lineReceivers (line : String) : List String :=
  if Text.begins keyOpening line then [] else receivers line.toList

/-- The receivers of messages that make objects, in all lines of a text but the constants. -/
def receiversIn (text : String) : List String := Text.readLines lineReceivers text

/-! ## Imports -/

/-- What imports begin with. -/
def importStart : List Char := ['#', 'i', 'm', 'p', 'o', 'r', 't', ' ']

theorem isStart_importStart : SourceFile.IsStart importStart := ⟨'#', _, rfl, by decide⟩

theorem standsOut_importStart : StandsOut importStart := by decide

theorem import_eq : "#import " = SourceFile.openingAt 0 importStart := rfl

/-- The import of a header. -/
def importText (stem : String) : String := "#import \"" ++ headerName stem ++ "\""

theorem prefix_importText (stem : String) : importStart <+: (importText stem).toList := by
  have opening : "#import \"".toList = importStart ++ ['"'] := String.toList_ofList
  refine Text.prefix_append (Text.prefix_append ?_ _) _
  rw [opening]
  exact List.prefix_append _ _

theorem linesWith_importLines {stem : String} (word : IsWord stem)
    (words : ∀ typeName ∈ nested, IsWord typeName) :
    linesWith "#import " (Text.addedBy SourceFile.indentation 0 (importLines stem nested)) =
      (stem :: nested).map importText := by
  have each : ∀ name ∈ stem :: nested, IsTidy (importText name) ∧
      importStart <+: (importText name).toList := by
    rw [List.forall_mem_cons]
    exact ⟨⟨tidy_importLine word, prefix_importText stem⟩, fun name among =>
      ⟨tidy_importLine (words name among), prefix_importText name⟩⟩
  have block : Text.TidyBlock 0 ((stem :: nested).map importLine) :=
    .map fun name among => .line (each name among).1 .nil
  have lines := @SourceFile.linesWith_map_line 0 _ _ _ importText isStart_importStart each
  simp only [SourceFile.margin_zero] at lines
  rw [import_eq, importLines]
  exact (SourceFile.linesWith_append_quiet block (.emptyLine .nil) isStart_importStart).trans lines

theorem quiet_implementation_importStart (spelled : d.IsSpelled) :
    Block (Quiet 0 importStart) 0 (d.implementation s) := by
  rw [implementation_eq]
  refine .append (block_closedGroup (.map fun m among => .line (.own ?_ ?_) .nil))
    (quiet_behindConstants standsOut_importStart spelled)
  · exact tidy_constantText (spelled.members m among)
  · exact .append (.append (.append (.append (.literal (by decide)))))

/-- An implementation file imports its own header and those of the nested classes, and no others. -/
theorem linesWith_import {stem : String} (word : IsWord stem)
    (words : ∀ typeName ∈ nested, IsWord typeName) {ds : List Declaration}
    (spelled : ∀ d ∈ ds, d.IsSpelled) :
    linesWith "#import " (implementationFile stem nested
        (ds.map fun d => (sourceOf s d).implementation)).contents =
      (stem :: nested).map importText := by
  have nothing : (ds.flatMap fun d => linesWith "#import "
      (SourceFile.typeset (d.implementation s))) = [] := by
    rw [List.flatMap_eq_nil_iff]
    intro d among
    rw [SourceFile.typeset_eq, import_eq]
    exact SourceFile.linesWith_eq_nil (quiet_implementation_importStart (spelled d among))
      isStart_importStart
  have lines := @linesWith_implementationFile s _ isStart_importStart _ word _ words _ spelled
  rw [← import_eq, nothing, List.append_nil, linesWith_importLines word words] at lines
  exact lines

/-! ## Texts that send messages -/

/-- No continuation of the text starts with the message. -/
def isApart (cs : List Char) : Bool :=
  !makeMessage.isPrefixOf cs && !cs.isPrefixOf makeMessage

/-- Behind every bracket in the text something else than the message is sent. -/
def isSilent : List Char → Bool
  | [] => true
  | c :: cs => (c != '[' || isApart (cs.dropWhile isIdentifierPart)) && isSilent cs

/-- The text ends with a bracket, and possibly with the start of a receiver behind it. -/
def isOpen : List Char → Bool
  | [] => false
  | c :: cs => c == '[' && cs.all isIdentifierPart ||
      (c != '[' || isApart (cs.dropWhile isIdentifierPart)) && isOpen cs

/-- The text sends messages to these, whatever stands behind it. -/
def Sends (names : List String) (text : String) : Prop :=
  ∀ rest, receivers (text.toList ++ rest) = names ++ receivers rest

theorem receiver?_eq_none {cs : List Char} (apart : isApart (cs.dropWhile isIdentifierPart))
    (rest : List Char) : receiver? (cs ++ rest) = none := by
  simp only [isApart, Bool.and_eq_true, Bool.not_eq_true', Bool.eq_false_iff, ne_eq,
    List.isPrefixOf_iff_prefix] at apart
  have filled : (cs.dropWhile isIdentifierPart).isEmpty = false := by
    rw [List.isEmpty_eq_false_iff]
    intro none
    rw [none] at apart
    exact apart.2 List.nil_prefix
  rw [receiver?, List.dropWhile_append, filled, if_neg]
  simp only [Bool.false_eq_true, if_false, List.isPrefixOf_iff_prefix]
  intro sends
  -- the message would end inside the text or go on behind it, and the text is apart from both
  rcases List.prefix_or_prefix_of_prefix sends (List.prefix_append _ rest) with within | within
  · exact apart.1 within
  · exact apart.2 within

theorem receivers_append_of_notMem {cs : List Char} (none : '[' ∉ cs) (rest : List Char) :
    receivers (cs ++ rest) = receivers rest := by
  induction cs with
  | nil => rfl
  | cons c cs ih =>
      rw [List.mem_cons, not_or] at none
      rw [List.cons_append, receivers, if_neg (Ne.symm none.1), List.nil_append, ih none.2]

theorem bracket_notMem {text : String} (word : IsWord text) : '[' ∉ text.toList :=
  fun among => absurd (word '[' among) (by decide)

namespace Sends

variable {names others : List String} {front back text : String} {cs : List Char}

theorem receivers_eq (sends : Sends names text) : receivers text.toList = names := by
  have own := sends []
  rwa [List.append_nil, receivers, List.append_nil] at own

theorem append (before : Sends names front) (behind : Sends others back) :
    Sends (names ++ others) (front ++ back) := by
  intro rest
  rw [String.toList_append, List.append_assoc, before, behind, List.append_assoc]

theorem word (own : IsWord text) : Sends [] text :=
  receivers_append_of_notMem (bracket_notMem own)

theorem literal (silent : isSilent cs) : Sends [] (String.ofList cs) := by
  intro rest
  rw [String.toList_ofList, List.nil_append]
  induction cs with
  | nil => rfl
  | cons c cs ih =>
      rw [isSilent, Bool.and_eq_true, Bool.or_eq_true, bne_iff_ne] at silent
      rw [List.cons_append, receivers, ih silent.2]
      split
      · next bracket =>
        rw [receiver?_eq_none (silent.1.resolve_left fun other => other bracket)]
        rfl
      · rfl

/-- A bracket with a name behind it, which something else is sent to. -/
theorem bracket {ds : List Char} (opens : isOpen cs) (own : IsWord text)
    (silent : isSilent ('[' :: ds)) : Sends [] (String.ofList cs ++ text ++ String.ofList ds) := by
  intro rest
  simp only [isSilent, Bool.and_eq_true, bne_self_eq_false, Bool.false_or] at silent
  -- the receiver is read across all three pieces, so they cannot be taken one by one
  have behind : receivers (text.toList ++ (ds ++ rest)) = receivers rest := by
    have last := literal silent.2 rest
    rw [String.toList_ofList] at last
    rw [receivers_append_of_notMem (bracket_notMem own), last, List.nil_append]
  simp only [String.toList_append, String.toList_ofList, List.append_assoc, List.nil_append]
  induction cs with
  | nil => cases opens
  | cons c cs ih =>
      rw [isOpen, Bool.or_eq_true, Bool.and_eq_true, Bool.and_eq_true, Bool.or_eq_true,
        bne_iff_ne] at opens
      rw [List.cons_append, receivers]
      rcases opens with ⟨_, part⟩ | ⟨other, opens⟩
      · -- this is the bracket, and the name goes on from what stands behind it
        have part := List.all_eq_true.mp part
        have none : '[' ∉ cs := fun among => absurd (part '[' among) (by decide)
        have apart : isApart ((cs ++ (text.toList ++ ds)).dropWhile isIdentifierPart) := by
          rw [List.dropWhile_append_of_pos part, List.dropWhile_append_of_pos own]
          exact silent.1
        have nobody := receiver?_eq_none apart rest
        simp only [List.append_assoc] at nobody
        rw [nobody, receivers_append_of_notMem none, behind]
        simp
      · rw [ih opens]
        split
        · next bracket =>
          have nobody := receiver?_eq_none (other.resolve_left fun other => other bracket)
            (text.toList ++ (ds ++ rest))
          rw [nobody]
          rfl
        · rfl

/-- A bracket in front of a text that does not start with a receiver of the message. -/
theorem behindBracket {start : List Char} (own : Sends names text) (begins : start <+: text.toList)
    (apart : isApart (start.dropWhile isIdentifierPart)) : Sends names ("[" ++ text) := by
  intro rest
  obtain ⟨more, eq⟩ := begins
  have nobody : receiver? (text.toList ++ rest) = none := by
    rw [← eq, List.append_assoc]
    exact receiver?_eq_none apart _
  have opens : "[".toList = ['['] := String.toList_ofList
  rw [String.toList_append, opens, List.append_assoc, List.singleton_append, receivers, if_pos rfl,
    nobody, own rest]
  rfl

/-- The message itself. -/
theorem message (own : IsWord text) :
    Sends [text] ("[" ++ text ++ " modelObjectWithDictionary:") := by
  intro rest
  have pieces : ("[" ++ text ++ " modelObjectWithDictionary:").toList ++ rest =
      '[' :: (text.toList ++ (makeMessage ++ rest)) := by
    have sent : " modelObjectWithDictionary:".toList = makeMessage := String.toList_ofList
    have opens : "[".toList = ['['] := String.toList_ofList
    rw [String.toList_append, String.toList_append, sent, opens]
    simp only [List.append_assoc, List.cons_append, List.nil_append]
  have blank : ¬ isIdentifierPart ' ' := by decide
  have found : receiver? (text.toList ++ (makeMessage ++ rest)) = some text := by
    have behind : (makeMessage ++ rest).dropWhile isIdentifierPart = makeMessage ++ rest :=
      List.dropWhile_cons_of_neg blank
    have front : (makeMessage ++ rest).takeWhile isIdentifierPart = [] :=
      List.takeWhile_cons_of_neg blank
    rw [receiver?, List.dropWhile_append_of_pos own, behind, if_pos,
      List.takeWhile_append_of_pos own, front, List.append_nil, String.ofList_toList]
    exact List.isPrefixOf_iff_prefix.mpr (List.prefix_append _ rest)
  rw [pieces, receivers, if_pos rfl, found, receivers_append_of_notMem (bracket_notMem own),
    receivers_append_of_notMem (by decide)]
  rfl

end Sends

/-! ## Edits that send messages -/

/-- The receivers of messages in the lines of edits. -/
def sentBy (edits : List Edit) : List String :=
  edits.flatMap (Edit.told fun text => receivers text.toList)

section SentBy

variable {names : List String} {text head : String}

theorem sentBy_append (edits others : List Edit) :
    sentBy (edits ++ others) = sentBy edits ++ sentBy others := Text.toldBy_append edits others

theorem sentBy_cons (sends : Sends names text) (edits : List Edit) :
    sentBy (.line text :: edits) = names ++ sentBy edits :=
  congrArg (· ++ sentBy edits) sends.receivers_eq

theorem sentBy_line (sends : Sends names text) : sentBy [.line text] = names := by
  rw [sentBy_cons sends]
  exact List.append_nil names

theorem sentBy_emptyLine (edits : List Edit) : sentBy (.emptyLine :: edits) = sentBy edits := rfl

theorem sentBy_indented (body : List Edit) : sentBy (Text.indented body) = sentBy body :=
  Text.toldBy_indented body

theorem sentBy_braced (silent : Sends [] head) (body : List Edit) :
    sentBy (Text.braced head body) = sentBy body := by
  have opens : Sends [] (head ++ " \x7b") := silent.append (.literal (by decide))
  have closes : Sends [] "\x7d" := .literal (by decide)
  rw [Text.braced, sentBy_cons opens, sentBy_append, sentBy_indented, sentBy_line closes,
    List.append_nil, List.nil_append]

theorem sentBy_method (silent : Sends [] head) (body : List Edit) :
    sentBy (method head body) = sentBy body := by
  have opens : Sends [] "\x7b" := .literal (by decide)
  have closes : Sends [] "\x7d" := .literal (by decide)
  rw [method, sentBy_append, sentBy_append, sentBy_cons silent, sentBy_line opens, sentBy_indented,
    sentBy_line closes, List.append_nil]
  rfl

theorem sentBy_flatMap {α : Type} (as : List α) (f : α → List Edit) :
    sentBy (as.flatMap f) = as.flatMap fun a => sentBy (f a) := Text.toldBy_flatMap as f

theorem sentBy_setApart (parts : List (List Edit)) :
    sentBy (Text.setApart parts) = parts.flatMap sentBy := Text.toldBy_setApart parts

end SentBy

/-! ## From dictionaries to objects -/

/-- The receivers of messages that make the objects of a property. -/
def PropertyKind.receivers : PropertyKind → List String
  | .object typeName => [typeName]
  | .objects typeName => [typeName, typeName]
  | _ => []

theorem PropertyKind.mem_receivers_iff {kind : PropertyKind} {typeName : String} :
    typeName ∈ kind.receivers ↔ typeName ∈ kind.typeNames := by
  cases kind <;> simp [receivers, typeNames]

section Silent

variable (spelled : m.IsSpelled)

include spelled

theorem sends_lookup : Sends [] (lookup m) :=
  (Sends.append (.literal (by decide)) (.word spelled.constant)).append (.literal (by decide))

theorem isWord_capitalized (front : String) (word : IsWord front) :
    IsWord (front ++ Text.capitalizeFirst m.name) :=
  word.append (.of_isAlphanum (Text.isAlphanum_of_mem_capitalizeFirst spelled.name))

theorem sends_value : Sends [] ("self." ++ m.name) :=
  .append (.literal (by decide)) (.word (.of_isAlphanum spelled.name))

theorem sends_target : Sends [] ("self." ++ m.name ++ " = ") :=
  (sends_value spelled).append (.literal (by decide))

end Silent

theorem sends_objectOf {typeName dictionary : String} (type : IsWord typeName)
    (own : Sends [] dictionary) : Sends [typeName] (objectOf typeName dictionary) :=
  ((Sends.message type).append own).append (.literal (by decide))

/-- Putting an object into an array sends what making the object sends. -/
theorem sends_addObject {collected object : String} {names : List String} (array : IsWord collected)
    (own : Sends names object) :
    Sends names ("[" ++ collected ++ " addObject:" ++ object ++ "];") := by
  have front : Sends [] ("[" ++ collected ++ " addObject:") :=
    .bracket (by decide) array (by decide)
  have whole := (front.append own).append (.literal (by decide) : Sends [] "];")
  rwa [List.nil_append, List.append_nil] at whole

theorem sentBy_parseObjects (spelled : m.IsSpelled) {typeName : String} (type : IsWord typeName) :
    sentBy (parseObjects m typeName) = [typeName, typeName] := by
  have received := isWord_capitalized spelled "received" (by decide)
  have parsed := isWord_capitalized spelled "parsed" (by decide)
  have look : Sends [] ("NSObject *" ++ ("received" ++ Text.capitalizeFirst m.name) ++ " = " ++
      lookup m ++ ";") :=
    (((Sends.append (.literal (by decide)) (.word received)).append (.literal (by decide))).append
      (sends_lookup spelled)).append (.literal (by decide))
  have array : Sends [] ("NSMutableArray *" ++ ("parsed" ++ Text.capitalizeFirst m.name) ++
      " = [NSMutableArray array];") :=
    (Sends.append (.literal (by decide)) (.word parsed)).append (.literal (by decide))
  have ifArray : Sends [] ("if ([" ++ ("received" ++ Text.capitalizeFirst m.name) ++
      " isKindOfClass:[NSArray class]]) \x7b") := .bracket (by decide) received (by decide)
  have each : Sends [] ("for (NSDictionary *item in (NSArray *)" ++
      ("received" ++ Text.capitalizeFirst m.name) ++ ")") :=
    (Sends.append (.literal (by decide)) (.word received)).append (.literal (by decide))
  have ifItem : Sends [] "if ([item isKindOfClass:[NSDictionary class]])" := .literal (by decide)
  have ifOne : Sends [] ("\x7d else if ([" ++ ("received" ++ Text.capitalizeFirst m.name) ++
      " isKindOfClass:[NSDictionary class]]) \x7b") := .bracket (by decide) received (by decide)
  have addItem := sends_addObject parsed
    (sends_objectOf type (.literal (by decide) : Sends [] "item"))
  have addOne := sends_addObject parsed (sends_objectOf type
    (Sends.append (.literal (by decide) : Sends [] "(NSDictionary *)") (.word received)))
  have closes : Sends [] "\x7d" := .literal (by decide)
  have store : Sends [] ("self." ++ m.name ++ " = [NSArray arrayWithArray:" ++
      ("parsed" ++ Text.capitalizeFirst m.name) ++ "];") :=
    (((sends_value spelled).append (.literal (by decide))).append (.word parsed)).append
      (.literal (by decide))
  -- one object is made for each item of an array, and one where a dictionary stands alone
  simp only [parseObjects, sentBy_append, sentBy_cons look, sentBy_cons array, sentBy_line ifArray,
    sentBy_indented, sentBy_braced each, sentBy_braced ifItem, sentBy_line addItem,
    sentBy_line ifOne, sentBy_line addOne, sentBy_cons closes, sentBy_line store]
  rfl

theorem sentBy_parse (spelled : m.IsSpelled) : sentBy (parse m) = m.kind.receivers := by
  have target := sends_target spelled
  have value := sends_lookup spelled
  cases kind : m.kind with
  | scalar scalar =>
      have getter : IsWord scalar.getter := by cases scalar <;> decide
      have begins : ['['] <+: (lookup m).toList :=
        Text.prefix_append (Text.prefix_append (by simp) _) _
      -- the receiver of the getter is the lookup itself, a message to `self`
      have pieces : "self." ++ m.name ++ " = " ++ "[" ++ lookup m =
          "self." ++ m.name ++ " = " ++ ("[" ++ lookup m) := String.append_assoc
      have front : Sends [] ("self." ++ m.name ++ " = " ++ "[" ++ lookup m) := by
        rw [pieces]
        exact target.append (value.behindBracket begins (by decide))
      have line := ((front.append (.literal (by decide) : Sends [] " ")).append
        (.word getter)).append (.literal (by decide) : Sends [] "];")
      simp only [parse, kind]
      exact sentBy_line line
  | object typeName =>
      have type := spelled.types _ (.inl kind)
      have line := (target.append (sends_objectOf type value)).append
        (.literal (by decide) : Sends [] ";")
      simp only [parse, kind]
      exact sentBy_line line
  | objects typeName =>
      simp only [parse, kind]
      exact sentBy_parseObjects spelled (spelled.types _ (.inr kind))
  | array _ | number | string | dynamic =>
      have line := (target.append value).append (.literal (by decide) : Sends [] ";")
      simp only [parse, kind]
      exact sentBy_line line

variable {members : List Member}

theorem sentBy_initializer (spelled : ∀ m ∈ members, m.IsSpelled) :
    sentBy (initializer members) = members.flatMap (·.kind.receivers) := by
  have head : Sends [] "- (instancetype)initWithDictionary:(NSDictionary *)dict" :=
    .literal (by decide)
  have first : Sends [] "self = [super init];" := .literal (by decide)
  have condition : Sends [] "if (self && [dict isKindOfClass:[NSDictionary class]])" :=
    .literal (by decide)
  have last : Sends [] "return self;" := .literal (by decide)
  rw [initializer, sentBy_method head, sentBy_cons first, sentBy_append, sentBy_braced condition,
    sentBy_line last, sentBy_flatMap, List.append_nil, List.nil_append]
  exact List.flatMap_congr fun m among => sentBy_parse (spelled m among)

theorem sentBy_factory : sentBy (factory s) = [] := by
  have head : Sends [] "+ (instancetype)modelObjectWithDictionary:(NSDictionary *)dict" :=
    .literal (by decide)
  rw [factory, sentBy_method head]
  split
  all_goals exact sentBy_line (.literal (by decide))

/-! ## From objects to dictionaries -/

theorem sends_storeLine (spelled : m.IsSpelled) {value : String} (own : Sends [] value) :
    Sends [] ("[mutableDict setValue:" ++ value ++ " forKey:" ++ m.constant ++ "];") :=
  (((Sends.append (.literal (by decide)) own).append (.literal (by decide))).append
    (.word spelled.constant)).append (.literal (by decide))

theorem sentBy_storeObjects (spelled : m.IsSpelled) : sentBy (storeObjects m) = [] := by
  have collected := isWord_capitalized spelled "tempArrayFor" (by decide)
  have array : Sends [] ("NSMutableArray *" ++ ("tempArrayFor" ++ Text.capitalizeFirst m.name) ++
      " = [NSMutableArray array];") :=
    (Sends.append (.literal (by decide)) (.word collected)).append (.literal (by decide))
  have each : Sends [] ("for (NSObject *subArrayObject in self." ++ m.name ++ ")") :=
    (Sends.append (.literal (by decide)) (.word (.of_isAlphanum spelled.name))).append
      (.literal (by decide))
  have condition : Sends []
      "if ([subArrayObject respondsToSelector:@selector(dictionaryRepresentation)]) \x7b" :=
    .literal (by decide)
  have otherwise : Sends [] "\x7d else \x7b" := .literal (by decide)
  have addOne := sends_addObject collected (.literal (by decide) : Sends []
    "[subArrayObject performSelector:@selector(dictionaryRepresentation)]")
  have addIt := sends_addObject collected (.literal (by decide) : Sends [] "subArrayObject")
  have closes : Sends [] "\x7d" := .literal (by decide)
  have store := sends_storeLine spelled
    ((Sends.append (.literal (by decide) : Sends [] "[NSArray arrayWithArray:")
      (.word collected)).append (.literal (by decide) : Sends [] "]"))
  simp only [storeObjects, sentBy_cons array, sentBy_append, sentBy_braced each,
    sentBy_line condition, sentBy_indented, sentBy_line addOne, sentBy_line otherwise,
    sentBy_line addIt, sentBy_line closes, storeLine, sentBy_line store]
  rfl

theorem sentBy_store (spelled : m.IsSpelled) : sentBy (store m) = [] := by
  have value := sends_value spelled
  cases kind : m.kind with
  | scalar scalar =>
      -- the bracket is settled only by what the box is asked for
      have box : Sends [] ("[NSNumber " ++ scalar.boxer) := by
        cases scalar with
        | integer => exact (.literal (by decide) : Sends [] "[NSNumber numberWithInteger")
        | double => exact (.literal (by decide) : Sends [] "[NSNumber numberWithDouble")
        | boolean => exact (.literal (by decide) : Sends [] "[NSNumber numberWithBool")
      have boxed := ((box.append (.literal (by decide) : Sends [] ":")).append value).append
        (.literal (by decide) : Sends [] "]")
      simp only [store, kind]
      exact sentBy_line (sends_storeLine spelled boxed)
  | object typeName =>
      have begins : ['s', 'e', 'l', 'f', '.'] <+: ("self." ++ m.name).toList :=
        Text.prefix_append (by simp) _
      have represented := (value.behindBracket begins (by decide)).append
        (.literal (by decide) : Sends [] " dictionaryRepresentation]")
      simp only [store, kind]
      exact sentBy_line (sends_storeLine spelled represented)
  | objects typeName =>
      simp only [store, kind]
      exact sentBy_storeObjects spelled
  | array _ | number | string | dynamic =>
      simp only [store, kind]
      exact sentBy_line (sends_storeLine spelled value)

theorem sentBy_representation (spelled : ∀ m ∈ members, m.IsSpelled) :
    sentBy (representation members) = [] := by
  have head : Sends [] "- (NSDictionary *)dictionaryRepresentation" := .literal (by decide)
  have first : Sends []
      "NSMutableDictionary *mutableDict = [NSMutableDictionary dictionary];" :=
    .literal (by decide)
  have last : Sends [] "return [NSDictionary dictionaryWithDictionary:mutableDict];" :=
    .literal (by decide)
  have stores : (members.flatMap fun m => sentBy (store m)) = [] :=
    List.flatMap_eq_nil_iff.mpr fun m among => sentBy_store (spelled m among)
  rw [representation, sentBy_method head, sentBy_cons first, sentBy_append, sentBy_flatMap, stores,
    sentBy_emptyLine, sentBy_line last]
  rfl

/-! ## Implementations -/

theorem sentBy_description : sentBy description = [] := by
  have head : Sends [] "- (NSString *)description" := .literal (by decide)
  have line : Sends []
      "return [NSString stringWithFormat:@\"%@\", [self dictionaryRepresentation]];" :=
    .literal (by decide)
  rw [description, sentBy_method head, sentBy_line line]

theorem sentBy_helper : sentBy helper = [] := by
  have mark : Sends [] "#pragma mark - Helper Method" := .literal (by decide)
  have head : Sends [] "- (id)objectOrNilForKey:(id)aKey fromDictionary:(NSDictionary *)dict" :=
    .literal (by decide)
  have find : Sends [] "id object = [dict objectForKey:aKey];" := .literal (by decide)
  have give : Sends [] "return [object isEqual:[NSNull null]] ? nil : object;" :=
    .literal (by decide)
  rw [helper, sentBy_append, sentBy_cons mark, sentBy_method head, sentBy_cons find,
    sentBy_line give]
  rfl

theorem sentBy_release (spelled : ∀ m ∈ members, m.IsSpelled) : sentBy (release members) = [] := by
  have head : Sends [] "- (void)dealloc" := .literal (by decide)
  have last : Sends [] "[super dealloc];" := .literal (by decide)
  have each (m : Member) (among : m ∈ members.filter fun m => m.kind.storage ≠ .assign) :
      Sends [] ("[_" ++ m.name ++ " release];") :=
    .bracket (by decide) (.of_isAlphanum (spelled m (List.mem_of_mem_filter among)).name)
      (by decide)
  rw [release, sentBy_method head, sentBy_append, sentBy_line last, List.append_nil, sentBy,
    List.flatMap_map, List.flatMap_eq_nil_iff]
  exact fun m among => (each m among).receivers_eq

/-- Behind the constants nothing but the initializer sends messages that make objects. -/
theorem sentBy_behindConstants (spelled : d.IsSpelled) :
    sentBy (behindConstants s d) = d.members.flatMap (·.kind.receivers) := by
  have extension : Sends [] ("@interface " ++ d.name ++ " ()") :=
    (Sends.append (.literal (by decide)) (.word spelled.name)).append (.literal (by decide))
  have lookup : Sends []
      "- (id)objectOrNilForKey:(id)aKey fromDictionary:(NSDictionary *)dict;" :=
    .literal (by decide)
  have implementation : Sends [] ("@implementation " ++ d.name) :=
    .append (.literal (by decide)) (.word spelled.name)
  have ends : Sends [] "@end" := .literal (by decide)
  have released : (Text.onlyIf (!s.countsReferences) (release d.members)).flatMap sentBy = [] := by
    refine List.flatMap_eq_nil_iff.mpr (Text.Block.forall_mem_onlyIf.mpr fun _ => ?_)
    exact sentBy_release spelled.members
  rw [behindConstants, sentBy_append, sentBy_cons extension, sentBy_emptyLine, sentBy_cons lookup,
    sentBy_emptyLine, sentBy_cons ends, sentBy_emptyLine, sentBy_line implementation,
    sentBy_setApart, List.flatMap_append, List.flatMap_append, released]
  simp only [List.flatMap_cons, List.flatMap_nil, sentBy_factory,
    sentBy_initializer spelled.members, sentBy_representation spelled.members, sentBy_description,
    sentBy_helper, sentBy_line ends, List.append_nil, List.nil_append]

/-! ## Files -/

theorem lineReceivers_empty : lineReceivers "" = [] := by
  rw [lineReceivers, Text.not_begins_empty (by decide)]
  rfl

/-- In front of a line a margin sends nothing. -/
theorem receivers_margin (level : Nat) (text : String) :
    receivers (Edit.margin SourceFile.indentation level ++ text).toList =
      receivers text.toList := by
  have blank : '[' ∉ List.replicate (4 * level) ' ' := fun among =>
    absurd (List.eq_of_mem_replicate among) (by decide)
  rw [String.toList_append, SourceFile.toList_margin, receivers_append_of_notMem blank]

/-- Where no line begins like a constant, all lines are looked at. -/
theorem receiversIn_addedBy {level : Nat} {edits : List Edit}
    (quiet : Block (Quiet 0 keyStart) level edits) :
    receiversIn (Text.addedBy SourceFile.indentation level edits) = sentBy edits := by
  refine quiet.readLines_addedBy lineReceivers_empty rfl fun level text own => ?_
  have other := SourceFile.not_begins own isStart_keyStart
  rw [← keyOpening_eq] at other
  rw [lineReceivers, other, ← receivers_margin level text]
  exact ⟨SourceFile.lineFeed_notMem own.tidy, rfl⟩

theorem receiversIn_append {front : String} (whole : Text.IsWhole front) (back : String) :
    receiversIn (front ++ back) = receiversIn front ++ receiversIn back :=
  Text.readLines_append lineReceivers_empty whole back

/-- Constants are looked over, whatever they hold. -/
theorem receiversIn_constants (spelled : d.IsSpelled) :
    receiversIn (Text.addedBy SourceFile.indentation 0
      (closedGroup (d.members.map constantLine))) = [] := by
  have block : Block (fun level text => level = 0 ∧ IsTidy text ∧ keyStart <+: text.toList) 0
      (closedGroup (d.members.map constantLine)) := by
    refine block_closedGroup (.map fun m among => .line ⟨rfl, ?_, keyStart_prefix m⟩ .nil)
    exact tidy_constantText (spelled.members m among)
  refine block.readLines_eq_nil lineReceivers_empty ?_
  rintro _ text ⟨rfl, tidy, begins⟩
  have constant : Text.begins keyOpening (Edit.margin SourceFile.indentation 0 ++ text) := by
    rw [keyOpening_eq]
    exact SourceFile.begins_iff.mpr begins
  rw [lineReceivers, if_pos constant]
  exact ⟨SourceFile.lineFeed_notMem tidy, rfl⟩

/-- An implementation makes the objects of its properties and no others. -/
theorem receiversIn_implementation (spelled : d.IsSpelled) :
    receiversIn (SourceFile.typeset (d.implementation s)) =
      d.members.flatMap (·.kind.receivers) := by
  have constants := block_closedGroup (tidy_constants spelled)
  have behind := @quiet_behindConstants s d _ standsOut_keyStart spelled
  rw [SourceFile.typeset_eq, implementation_eq, constants.addedBy_append,
    receiversIn_append constants.isWhole, receiversIn_constants spelled, List.nil_append,
    receiversIn_addedBy behind, sentBy_behindConstants spelled]

theorem sentBy_importLines {stem : String} (word : IsWord stem)
    (words : ∀ typeName ∈ nested, IsWord typeName) : sentBy (importLines stem nested) = [] := by
  have each : ∀ name ∈ stem :: nested, IsWord name := List.forall_mem_cons.mpr ⟨word, words⟩
  have line (name : String) (among : name ∈ stem :: nested) : Sends [] (importText name) :=
    (Sends.append (.literal (by decide))
      ((Sends.word (each name among)).append (.literal (by decide)))).append (.literal (by decide))
  rw [importLines, sentBy_append, sentBy, List.flatMap_map]
  refine List.append_eq_nil_iff.mpr ⟨List.flatMap_eq_nil_iff.mpr fun name among => ?_, rfl⟩
  exact (line name among).receivers_eq

theorem sentBy_header {stem : String} (word : IsWord stem) :
    sentBy (SourceFile.header (implementationName stem)) = [] := by
  have slashes : Sends [] "//" := .literal (by decide)
  have name : Sends [] ("//  " ++ implementationName stem) :=
    .append (.literal (by decide)) (.append (.word word) (.literal (by decide)))
  have warning : Sends [] "//  Generated by JSONModeler. Do not edit." := .literal (by decide)
  show sentBy (.line "//" :: .line ("//  " ++ implementationName stem) :: .line "//" ::
    .line "//  Generated by JSONModeler. Do not edit." :: .line "//" :: [.emptyLine]) = []
  rw [sentBy_cons slashes, sentBy_cons name, sentBy_cons slashes, sentBy_cons warning,
    sentBy_cons slashes]
  rfl

/-- An implementation file makes the objects of the properties of its classes. -/
theorem receiversIn_implementationFile {stem : String} (word : IsWord stem)
    (words : ∀ typeName ∈ nested, IsWord typeName) {ds : List Declaration}
    (spelled : ∀ d ∈ ds, d.IsSpelled) :
    receiversIn (implementationFile stem nested
        (ds.map fun d => (sourceOf s d).implementation)).contents =
      ds.flatMap fun d => d.members.flatMap (·.kind.receivers) := by
  have name : IsPlain (implementationName stem) := word.isPlain.append (.literal (by decide))
  have comment : Block (Quiet 0 keyStart) 0 (SourceFile.header (implementationName stem)) :=
    SourceFile.quiet_header name isStart_keyStart
  have imports := quiet_importLines isNoImport_keyStart word words
  have whole : ∀ text ∈ ds.map fun d => (sourceOf s d).implementation, Text.IsWhole text := by
    rw [List.forall_mem_map]
    intro d among
    show Text.IsWhole (SourceFile.typeset (d.implementation s))
    rw [SourceFile.typeset_eq]
    exact (tidy_implementation (spelled d among)).isWhole
  -- neither the comment nor the imports make an object, so the classes are left
  rw [implementationFile_eq, SourceFile.headed, SourceFile.typeset_eq, comment.addedBy_append,
    receiversIn_append comment.isWhole, receiversIn_addedBy comment, sentBy_header word,
    imports.addedBy_append, receiversIn_append imports.isWhole, receiversIn_addedBy imports,
    sentBy_importLines word words, List.nil_append, List.nil_append]
  refine (SourceFile.readLines_spaced lineReceivers_empty whole).trans ?_
  rw [List.flatMap_map]
  exact List.flatMap_congr fun d among => receiversIn_implementation (spelled d among)

end Classwright.ObjectiveC
