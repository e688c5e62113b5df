/-
# Classwright.Proofs.Declaration.Coding — what names stand for in the coding methods

Under a base class the coding methods are written out, and they call properties by their bare names.
A bare name stands for what the method itself declares under it, and only else for the property, so a
property whose name the method uses for its parameter or for its container is out of reach there.
The methods are read line by line with the names that they have declared so far.
-/

import Mathlib
import Classwright.Proofs.Declaration.References
import Classwright.Proofs.Render.MemberNaming
import Classwright.Proofs.Render.SourceFile

namespace Classwright.Swift

open Text (Edit Block IsPlain IsTidy IsWord Departs TidyBlock begins readLine toldBy)

/-! ## Readers -/

/-- What a bare name stands for inside a method of a class. -/
inductive Referent where
  /-- A property of the class. -/
  | ofClass (name : String)
  /-- A parameter, constant or variable of the method. -/
  | ofMethod (name : String)
  deriving DecidableEq, Repr

/-- What a name stands for where the method has declared some names. -/
def referent (scope : List String) (name : String) : Referent :=
  if name ∈ scope then .ofMethod name else .ofClass name

/-- The name behind the opening of a line. -/
def nameBehind (opening : String) : String → Option String :=
  readLine opening fun cs => some (String.ofList (cs.takeWhile Text.isIdentifierPart))

/-- The names that a line of a method declares; its head declares the parameter. -/
def declares (head line : String) : List String :=
  (nameBehind head line).toList ++ (nameBehind "let " line).toList ++
    (nameBehind "var " line).toList

/-- What names stand for in the lines of a method.  A line sees the names of the lines above it. -/
def referents (head : String) (used : String → Option String) :
    List String → List String → List Referent
  | _, [] => []
  | scope, line :: lines =>
    ((used line).map (referent scope)).toList ++
      referents head used (declares head line ++ scope) lines

/-- The lines of the method with this head, up to the brace that closes it. -/
def methodLines (head : String) (lines : List String) : List String :=
  (lines.dropWhile fun line => !begins head line).takeWhile (· ≠ "\x7d")

/-- The name that a line assigns a decoded value to. -/
def assigned (line : String) : Option String :=
  if " = try container.".toList.isPrefixOf (line.toList.dropWhile Text.isIdentifierPart) then
    some (String.ofList (line.toList.takeWhile Text.isIdentifierPart))
  else none

/-- The name whose value a line encodes. -/
def encoded (line : String) : Option String :=
  (nameBehind "try container.encode(" line).or (nameBehind "try container.encodeIfPresent(" line)

/-- The head of the initializer that decodes, up to its parameter. -/
def decodeHead (s : SwiftSettings) : String :=
  s.access.ofMembers.modifier ++ "required init(from "

/-- The head of the method that encodes, up to its parameter. -/
def encodeHead (s : SwiftSettings) : String :=
  s.access.ofMembers.modifier ++ "override func encode(to "

/-- What decoded values are assigned to. -/
def assignedIn (s : SwiftSettings) (text : String) : List Referent :=
  referents (decodeHead s) assigned [] (methodLines (decodeHead s) (Text.shownLines text))

/-- What is encoded. -/
def encodedIn (s : SwiftSettings) (text : String) : List Referent :=
  referents (encodeHead s) encoded [] (methodLines (encodeHead s) (Text.shownLines text))

variable {s : SwiftSettings} {d : Declaration} {m : Member} {members : List Member}
  {modifier text : String} {front inner back scope : List String} {head : String}

/-! ## Finding a method -/

theorem methodLines_append {first : String} (before : ∀ line ∈ front, begins head line = false)
    (opens : begins head first) (other : first ≠ "\x7d") (inside : ∀ line ∈ inner, line ≠ "\x7d") :
    methodLines head (front ++ (first :: (inner ++ "\x7d" :: back))) = first :: inner := by
  have found : (front ++ (first :: (inner ++ "\x7d" :: back))).dropWhile
      (fun line => !begins head line) = first :: (inner ++ "\x7d" :: back) := by
    rw [List.dropWhile_append_of_pos fun line among => by simp [before line among],
      List.dropWhile_cons_of_neg (by simp [opens])]
  have ends : (first :: (inner ++ "\x7d" :: back)).takeWhile (· ≠ "\x7d") = first :: inner := by
    rw [List.takeWhile_cons_of_pos (by simpa using other),
      List.takeWhile_append_of_pos fun line among => by simpa using inside line among,
      List.takeWhile_cons_of_neg (by simp), List.append_nil]
  rw [methodLines, found, ends]

/-- Lines that each use a name and declare none. -/
theorem referents_map {α : Type} {items : List α} {write name : α → String}
    {used : String → Option String} (silent : ∀ a ∈ items, declares head (write a) = [])
    (uses : ∀ a ∈ items, used (write a) = some (name a)) :
    referents head used scope (items.map write ++ back) =
      items.map (fun a => referent scope (name a)) ++ referents head used scope back := by
  induction items with
  | nil => rfl
  | cons a items ih =>
      rw [List.forall_mem_cons] at silent uses
      rw [List.map_cons, List.cons_append, referents, uses.1, silent.1, List.nil_append,
        ih silent.2 uses.2]
      rfl

theorem nameBehind_eq_none {opening : String} (departs : Departs opening.toList text) :
    nameBehind opening text = none := Text.readLine_eq_none _ departs

theorem declares_eq_nil (noHead : Departs head.toList text)
    (noConstant : Departs ['l', 'e', 't', ' '] text)
    (noVariable : Departs ['v', 'a', 'r', ' '] text) :
    declares head text = [] := by
  have constant : "let ".toList = ['l', 'e', 't', ' '] := String.toList_ofList
  have variable_ : "var ".toList = ['v', 'a', 'r', ' '] := String.toList_ofList
  rw [declares, nameBehind_eq_none noHead, nameBehind_eq_none (constant ▸ noConstant),
    nameBehind_eq_none (variable_ ▸ noVariable)]
  rfl

/-! ## Lines in front of a method -/

/-- What the head of the initializer that decodes goes on with. -/
def decodeStart : List Char :=
  ['r', 'e', 'q', 'u', 'i', 'r', 'e', 'd', ' ', 'i', 'n', 'i', 't', '(', 'f', 'r', 'o', 'm', ' ']

/-- What the head of the method that encodes goes on with. -/
def encodeStart : List Char :=
  ['o', 'v', 'e', 'r', 'r', 'i', 'd', 'e', ' ', 'f', 'u', 'n', 'c', ' ', 'e', 'n', 'c', 'o', 'd',
    'e', '(', 't', 'o', ' ']

theorem toList_decodeHead (s : SwiftSettings) :
    (decodeHead s).toList = s.access.ofMembers.modifier.toList ++ decodeStart := by
  rw [decodeHead, String.toList_append]
  exact congrArg _ String.toList_ofList

theorem toList_encodeHead (s : SwiftSettings) :
    (encodeHead s).toList = s.access.ofMembers.modifier.toList ++ encodeStart := by
  rw [encodeHead, String.toList_append]
  exact congrArg _ String.toList_ofList

/-- Behind a modifier two texts depart where they do without it. -/
theorem departs_behind {start cs : List Char} (apart : ¬ start <+: cs ∧ ¬ cs <+: start) :
    Departs (modifier.toList ++ start) (modifier ++ String.ofList cs) := by
  refine .of_apart ?_ ?_
  all_goals rw [String.toList_append, String.toList_ofList, List.prefix_append_right_inj]
  · exact apart.1
  · exact apart.2

/-- A line that opens neither of the coding methods. -/
structure Elsewhere (modifier text : String) : Prop where
  unblank : Departs [' '] text
  decodes : Departs (modifier.toList ++ decodeStart) text
  encodes : Departs (modifier.toList ++ encodeStart) text

namespace Elsewhere

theorem append {front : String} (early : Elsewhere modifier front) (back : String) :
    Elsewhere modifier (front ++ back) :=
  ⟨.append early.unblank, .append early.decodes, .append early.encodes⟩

/-- A line without a modifier. -/
theorem literal (own : IsModifier modifier) {c : Char} {cs : List Char}
    (other : c ∉ [' ', 'p', 'r', 'o']) : Elsewhere modifier (String.ofList (c :: cs)) := by
  have apart : c ≠ ' ' ∧ c ≠ 'p' ∧ c ≠ 'r' ∧ c ≠ 'o' := by simpa using other
  have departs {first : Char} {rest : List Char} (differs : c ≠ first) :
      Departs (first :: rest) (String.ofList (c :: cs)) :=
    .literal (by simp [List.cons_prefix_cons, differs, differs.symm])
  rcases own with rfl | rfl
  · exact ⟨departs apart.1, departs apart.2.2.1, departs apart.2.2.2⟩
  · exact ⟨departs apart.1, departs apart.2.1, departs apart.2.1⟩

/-- A line with the modifier in front. -/
theorem modified (own : IsModifier modifier) {c : Char} {cs : List Char}
    (blank : c ≠ ' ') (decodes : ¬ decodeStart <+: c :: cs ∧ ¬ c :: cs <+: decodeStart)
    (encodes : ¬ encodeStart <+: c :: cs ∧ ¬ c :: cs <+: encodeStart) :
    Elsewhere modifier (modifier ++ String.ofList (c :: cs)) :=
  ⟨departs_modifier own (by decide) blank.symm, departs_behind decodes, departs_behind encodes⟩

end Elsewhere

/-- The line, unless it is empty, without its indentation. -/
def shown (text : String) : List String :=
  if Text.unindented text = "" then [] else [Text.unindented text]

theorem shown_eq (unblank : Departs [' '] text) : shown text = [text] := by
  have filled : text ≠ "" := by
    rintro rfl
    exact unblank.not_prefix.2 List.nil_prefix
  rw [shown, Text.unindented_eq_self unblank, if_neg filled]

theorem shownLines_text (spelled : d.IsSpelled) (valid : s.fault? = none) :
    Text.shownLines (sourceOf s d).text = toldBy shown (d.edits s) := by
  have tidy : TidyBlock 0 (d.edits s) :=
    .braced (calm_opening valid spelled : Calm "" false 0 _).keys.tidy
      (.plain (.literal (by decide))) (tidy_body spelled)
  show Text.shownLines (SourceFile.typeset (d.edits s)) = _
  rw [SourceFile.typeset_eq, Text.shownLines, tidy.readUnindented (by simp)]
  rfl

theorem not_begins_of_departs {start : List Char} (opening : head.toList = start)
    (departs : Departs start text) : begins head text = false := by
  rw [begins, opening, Bool.eq_false_iff, ne_eq, List.isPrefixOf_iff_prefix]
  exact departs.not_prefix.1

/-- The line begins like no coding method. -/
theorem Elsewhere.not_begins (own : Elsewhere s.access.ofMembers.modifier text) :
    begins (decodeHead s) text = false ∧ begins (encodeHead s) text = false :=
  ⟨not_begins_of_departs (toList_decodeHead s) own.decodes,
    not_begins_of_departs (toList_encodeHead s) own.encodes⟩

theorem not_begins_toldBy {edits : List Edit} {level : Nat}
    (block : Block (fun _ => Elsewhere s.access.ofMembers.modifier) level edits) :
    ∀ line ∈ toldBy shown edits,
      begins (decodeHead s) line = false ∧ begins (encodeHead s) line = false := by
  refine block.forall_mem_toldBy fun _ text own => ?_
  rw [shown_eq own.unblank, List.forall_mem_singleton]
  exact own.not_begins

theorem elsewhere_opening (s : SwiftSettings) (d : Declaration) :
    Elsewhere s.access.ofMembers.modifier (opening s d ++ " \x7b") := by
  suffices front : Elsewhere s.access.ofMembers.modifier (s.access.modifier ++ kindWords s.kind) from
    ((((front.append _).append _).append _).append _)
  cases s.access with
  | module =>
      show Elsewhere "" ("" ++ _)
      rw [String.empty_append]
      cases s.kind
      all_goals exact .literal (.inl rfl) (by decide)
  | everywhere =>
      cases s.kind
      all_goals exact .modified (.inr rfl) (by decide) (by decide) (by decide)
  | inheritable =>
      have opens : Elsewhere "public " "open " := by
        refine ⟨.literal (by decide), ?_, ?_⟩
        all_goals exact .literal (by decide)
      exact opens.append _

theorem elsewhere_storedProperties (own : IsModifier modifier) :
    Block (fun _ => Elsewhere modifier) 1 (storedProperties s modifier members) := by
  rw [storedProperties_eq]
  refine .map fun m _ => .line ?_ .nil
  unfold propertyText
  refine Elsewhere.append (Elsewhere.append (Elsewhere.append ?_ _) _) _
  cases s.mutable
  all_goals exact .modified own (by decide) (by decide) (by decide)

theorem elsewhere_codingKeys (own : IsModifier modifier) :
    Block (fun _ => Elsewhere modifier) 1 (codingKeys members) := by
  refine .braced (.append (.literal own (by decide)) _) (.literal own (by decide)) ?_
  refine .map fun m _ => ?_
  rw [keyCase_eq, caseText]
  split
  · exact .line (.append (.literal own (by decide)) _) .nil
  · exact .line (.append (.append (.append (.append (.literal own (by decide)) _) _) _) _) .nil

theorem elsewhere_initializer (own : IsModifier modifier) :
    Block (fun _ => Elsewhere modifier) 1 (initializer s modifier members) := by
  refine .braced ?_ (.literal own (by decide)) (.append (.map fun m _ => .line ?_ .nil) ?_)
  · refine Elsewhere.append (Elsewhere.append (Elsewhere.append ?_ _) _) _
    split
    · -- `override` opens this head as well, so the text behind it has to be looked at
      have pieces : modifier ++ "override " ++ "init(" = modifier ++ String.ofList
          ['o', 'v', 'e', 'r', 'r', 'i', 'd', 'e', ' ', 'i', 'n', 'i', 't', '('] := by
        rw [← String.toList_inj]
        simp [String.toList_append]
      rw [pieces]
      exact .modified own (by decide) (by decide) (by decide)
    · rw [String.append_empty]
      exact .modified own (by decide) (by decide) (by decide)
  · exact .append (.append (.append (.literal own (by decide)) _) _) _
  · split
    · exact .line (.literal own (by decide)) .nil
    · exact .nil

/-! ## Lines of the coding methods -/

/-- The name of the property starts with a small letter and is no keyword. -/
structure Member.IsNamed (m : Member) : Prop where
  opens : Text.Opens Char.isLower m.name
  free : m.name ∉ Lexicon.Swift.keywords

/-- The line that decodes a property. -/
def decodeText (m : Member) : String :=
  m.name ++ " = try container." ++ (if m.optional then "decodeIfPresent" else "decode") ++ "(" ++
    m.valueType ++ ".self, forKey: ." ++ m.name ++ ")"

/-- The line that encodes a property. -/
def encodeText (m : Member) : String :=
  "try container." ++ (if m.optional then "encodeIfPresent" else "encode") ++ "(" ++ m.name ++
    ", forKey: ." ++ m.name ++ ")"

namespace Member.IsNamed

theorem isWord (named : m.IsNamed) : IsWord m.name :=
  .of_isAlphanum (named.opens.isAlphanum fun c low => by simp [Char.isAlpha, low])

theorem blank_notMem (named : m.IsNamed) : ' ' ∉ m.name.toList :=
  fun among => absurd (named.isWord ' ' among) (by decide)

theorem departs_word (named : m.IsNamed) (word : List Char) {back : String}
    (keyword : String.ofList word ∈ Lexicon.Swift.keywords) (whole : ' ' ∉ word) :
    Departs (word ++ [' ']) (m.name ++ " = try container." ++ back) := by
  have other : m.name.toList ≠ word := by
    rintro rfl
    rw [String.ofList_toList] at keyword
    exact named.free keyword
  exact .append (.of_word other whole named.blank_notMem)

theorem unblank (named : m.IsNamed) : Departs [' '] m.name := by
  obtain ⟨first, rest, eq, small, _⟩ := named.opens
  have other : first ≠ ' ' := by
    rintro rfl
    exact absurd small (by decide)
  have apart : ¬ [' '] <+: [first] ∧ ¬ [first] <+: [' '] := by
    simp [List.cons_prefix_cons, other, other.symm]
  have begins : [first] <+: m.name.toList := ⟨rest, eq.symm⟩
  exact .of_front apart begins

/-- Up to the sign of an assignment there is one blank, in front of a parameter there are more. -/
theorem departs_assignment (named : m.IsNamed) {start : List Char} {back : String}
    (blanks : 1 < start.count ' ') (noSign : '=' ∉ start) :
    Departs start (m.name ++ " = try container." ++ back) := by
  have pieces : m.name ++ " = try container." = (m.name ++ " ") ++ String.ofList ('=' ::
      [' ', 't', 'r', 'y', ' ', 'c', 'o', 'n', 't', 'a', 'i', 'n', 'e', 'r', '.']) := by
    rw [← String.toList_inj]
    simp [String.toList_append]
  rw [pieces]
  have one : (m.name ++ " ").toList.count ' ' = 1 := by
    rw [String.toList_append, List.count_append, named.isWord.count_blank]
    simp
  exact .append (.of_count noSign (one.trans_lt blanks))

theorem elsewhere (own : IsModifier modifier) (named : m.IsNamed) :
    Elsewhere modifier (decodeText m) := by
  have assignment {start : List Char} (blanks : 1 < start.count ' ') (noSign : '=' ∉ start) :
      Departs start (decodeText m) :=
    .append (.append (.append (.append (.append (named.departs_assignment blanks noSign)))))
  refine ⟨?_, ?_, ?_⟩
  · exact .append (.append (.append (.append (.append (.append (.append named.unblank))))))
  all_goals
    rcases own with rfl | rfl
    all_goals exact assignment (by decide) (by decide)

theorem assigned_decodeText (named : m.IsNamed) : assigned (decodeText m) = some m.name := by
  obtain ⟨back, eq⟩ : ∃ back, (decodeText m).toList =
      m.name.toList ++ (" = try container.".toList ++ back) :=
    ⟨_, by simp only [decodeText, String.toList_append, List.append_assoc]; rfl⟩
  have leading : " = try container.".toList = ' ' ::
      ['=', ' ', 't', 'r', 'y', ' ', 'c', 'o', 'n', 't', 'a', 'i', 'n', 'e', 'r', '.'] :=
    String.toList_ofList
  have blank : ¬ Text.isIdentifierPart ' ' := by decide
  have behind : (decodeText m).toList.dropWhile Text.isIdentifierPart =
      " = try container.".toList ++ back := by
    rw [eq, List.dropWhile_append_of_pos named.isWord, leading, List.cons_append,
      List.dropWhile_cons_of_neg blank]
  have own : (decodeText m).toList.takeWhile Text.isIdentifierPart = m.name.toList := by
    rw [eq, List.takeWhile_append_of_pos named.isWord, leading, List.cons_append,
      List.takeWhile_cons_of_neg blank, List.append_nil]
  rw [assigned, behind, own, if_pos (List.isPrefixOf_iff_prefix.mpr (List.prefix_append _ _)),
    String.ofList_toList]

theorem declares_decodeText (own : IsModifier s.access.ofMembers.modifier) (named : m.IsNamed) :
    declares (decodeHead s) (decodeText m) = [] := by
  refine declares_eq_nil ?_ ?_ ?_
  · rw [toList_decodeHead]
    exact (named.elsewhere own).decodes
  · exact .append (.append (.append (.append (.append
      (named.departs_word ['l', 'e', 't'] (by decide +kernel) (by decide))))))
  · exact .append (.append (.append (.append (.append
      (named.departs_word ['v', 'a', 'r'] (by decide +kernel) (by decide))))))

theorem encoded_encodeText (named : m.IsNamed) : encoded (encodeText m) = some m.name := by
  have own : ((m.name ++ (", forKey: ." ++ m.name ++ ")")).toList.takeWhile
      Text.isIdentifierPart) = m.name.toList := by
    rw [String.toList_append, List.takeWhile_append_of_pos named.isWord]
    simp [Text.isIdentifierPart]
  have read (opening : String) :
      nameBehind opening (opening ++ (m.name ++ (", forKey: ." ++ m.name ++ ")"))) =
        some m.name := by
    rw [nameBehind, Text.readLine_append, own, String.ofList_toList]
  unfold encodeText
  cases m.optional with
  | false =>
      have pieces : "try container." ++ "encode" ++ "(" ++ m.name ++ ", forKey: ." ++ m.name ++
          ")" = "try container.encode(" ++ (m.name ++ (", forKey: ." ++ m.name ++ ")")) := by
        simp [← String.toList_inj, String.toList_append]
      rw [if_neg Bool.false_ne_true, pieces, encoded, read]
      rfl
  | true =>
      have pieces : "try container." ++ "encodeIfPresent" ++ "(" ++ m.name ++ ", forKey: ." ++
          m.name ++ ")" =
            "try container.encodeIfPresent(" ++ (m.name ++ (", forKey: ." ++ m.name ++ ")")) := by
        simp [← String.toList_inj, String.toList_append]
      have opening : "try container.encode(".toList = ['t', 'r', 'y', ' ', 'c', 'o', 'n', 't', 'a',
          'i', 'n', 'e', 'r', '.', 'e', 'n', 'c', 'o', 'd', 'e', '('] := String.toList_ofList
      -- the line departs from the shorter opening, so it is read by the longer one
      have longer : nameBehind "try container.encode(" ("try container.encodeIfPresent(" ++
          (m.name ++ (", forKey: ." ++ m.name ++ ")"))) = none :=
        nameBehind_eq_none (opening ▸ .append (.literal (by decide)))
      rw [if_pos rfl, pieces, encoded, longer, read]
      rfl

end Member.IsNamed

/-! ## The coding methods -/

section Method

variable {first parameter container last : String} {used : String → Option String}
  {write : Member → String}

/-- The lines inside a coding method: the container, a line for each property, and the call of the
base class. -/
def codingLines (members : List Member) (container : String) (write : Member → String)
    (last : String) : List String :=
  (if members.isEmpty then [] else [container]) ++ (members.map write ++ [last])

/-- In a coding method names stand for properties, unless they are those of the parameter and of the
container. -/
theorem referents_codingLines (parameters : declares head first = [parameter])
    (binds : declares head container = ["container"]) (noUse : used first = none)
    (nothing : used container = none) (ends : used last = none)
    (silent : ∀ m ∈ members, declares head (write m) = [])
    (uses : ∀ m ∈ members, used (write m) = some m.name) :
    referents head used [] (first :: codingLines members container write last) =
      members.map fun m => referent ["container", parameter] m.name := by
  have closing (scope : List String) : referents head used scope [last] = [] := by
    rw [referents, ends]
    rfl
  rw [referents, noUse, parameters]
  cases members with
  | nil =>
      show [] ++ referents head used [parameter] [last] = _
      rw [closing]
      rfl
  | cons m members =>
      show [] ++ referents head used [parameter]
        (container :: ((m :: members).map write ++ [last])) = _
      rw [referents, nothing, binds, referents_map silent uses, closing, List.append_nil]
      rfl

theorem toldBy_codingMethod (front : Departs [' '] (head ++ " \x7b"))
    (opens : Departs [' '] container) (ends : Departs [' '] last)
    (each : ∀ m ∈ members, Departs [' '] (write m)) :
    toldBy shown (Text.braced head (containerLine members container ++
        members.map (fun m => .line (write m)) ++ [.line last])) =
      (head ++ " \x7b") :: (codingLines members container write last ++ "\x7d" :: []) := by
  have lines : (members.flatMap fun m => shown (write m)) = members.map write := by
    rw [List.flatMap_congr fun m among => shown_eq (each m among),
      ← List.flatMap_singleton' (members.map write), List.flatMap_map]
  have first : toldBy shown (containerLine members container) =
      if members.isEmpty then [] else [container] := by
    unfold containerLine
    split
    · rfl
    · rw [Text.toldBy_line, shown_eq opens]
      rfl
  have closes : shown "\x7d" = ["\x7d"] := shown_eq (.literal (by decide))
  rw [Text.toldBy_braced, Text.toldBy_append, Text.toldBy_append, Text.toldBy_map_line, lines, first,
    Text.toldBy_line, shown_eq front, shown_eq ends, closes, codingLines, Text.toldBy_nil]
  simp

end Method

/-- The lines of the initializer that decodes. -/
def decoderLines (modifier : String) (members : List Member) : List String :=
  (modifier ++ "required init(from decoder: Decoder) throws" ++ " \x7b") ::
    codingLines members "let container = try decoder.container(keyedBy: CodingKeys.self)" decodeText
      "try super.init(from: decoder)"

/-- The lines of the method that encodes. -/
def encoderLines (modifier : String) (members : List Member) : List String :=
  (modifier ++ "override func encode(to encoder: Encoder) throws" ++ " \x7b") ::
    codingLines members "var container = encoder.container(keyedBy: CodingKeys.self)" encodeText
      "try super.encode(to: encoder)"

section Named

variable (own : IsModifier s.access.ofMembers.modifier) (named : ∀ m ∈ members, m.IsNamed)

theorem toldBy_decoder (own : IsModifier modifier) (named : ∀ m ∈ members, m.IsNamed) :
    toldBy shown (decoder modifier members) = decoderLines modifier members ++ ["\x7d"] :=
  toldBy_codingMethod (.append (departs_modifier own (by decide) (by decide)))
    (.literal (by decide)) (.literal (by decide))
    fun m among => ((named m among).elsewhere own).unblank

theorem toldBy_encoder (own : IsModifier modifier) :
    toldBy shown (encoder modifier members) = encoderLines modifier members ++ ["\x7d"] := by
  refine toldBy_codingMethod (.append (departs_modifier own (by decide) (by decide)))
    (.literal (by decide)) (.literal (by decide)) fun m _ => ?_
  exact .append (.append (.append (.append (.append (.append (.literal (by decide)))))))

include own named

theorem referents_decoderLines :
    referents (decodeHead s) assigned [] (decoderLines s.access.ofMembers.modifier members) =
      members.map fun m => referent ["container", "decoder"] m.name := by
  have silent (m : Member) (among : m ∈ members) : declares (decodeHead s) (decodeText m) = [] :=
    (named m among).declares_decodeText own
  have uses (m : Member) (among : m ∈ members) : assigned (decodeText m) = some m.name :=
    (named m among).assigned_decodeText
  revert silent
  unfold decoderLines decodeHead
  intro silent
  refine referents_codingLines ?_ ?_ ?_ (by decide +kernel) (by decide +kernel) silent uses
  all_goals
    rcases own with eq | eq
    all_goals
      rw [eq]
      decide +kernel

theorem referents_encoderLines :
    referents (encodeHead s) encoded [] (encoderLines s.access.ofMembers.modifier members) =
      members.map fun m => referent ["container", "encoder"] m.name := by
  have silent (m : Member) (_ : m ∈ members) : declares (encodeHead s) (encodeText m) = [] := by
    have departs {start : List Char} (apart : ¬ start <+: ['t'] ∧ ¬ ['t'] <+: start) :
        Departs start (encodeText m) :=
      .append (.append (.append (.append (.append (.append (.of_literal_front apart (by decide)))))))
    refine declares_eq_nil ?_ (departs (by decide)) (departs (by decide))
    rw [toList_encodeHead]
    rcases own with eq | eq
    all_goals
      rw [eq]
      exact departs (by decide)
  have uses (m : Member) (among : m ∈ members) : encoded (encodeText m) = some m.name :=
    (named m among).encoded_encodeText
  revert silent
  unfold encoderLines encodeHead
  intro silent
  refine referents_codingLines ?_ ?_ ?_ (by decide +kernel) (by decide +kernel) silent uses
  all_goals
    rcases own with eq | eq
    all_goals
      rw [eq]
      decide +kernel

end Named

/-! ## Whole declarations -/

theorem forall_mem_codingLines {P : String → Prop} {container last : String}
    {write : Member → String} (opens : P container) (each : ∀ m ∈ members, P (write m))
    (ends : P last) : ∀ line ∈ codingLines members container write last, P line := by
  rw [codingLines, List.forall_mem_append, List.forall_mem_append, List.forall_mem_map,
    List.forall_mem_singleton]
  refine ⟨?_, each, ends⟩
  split
  · exact List.forall_mem_nil _
  · rwa [List.forall_mem_singleton]

/-- A line in which a name is used is not the brace that closes a method. -/
theorem ne_close {used : String → Option String} {name : String} (uses : used text = some name)
    (none : used "\x7d" = .none) : text ≠ "\x7d" := by
  rintro rfl
  rw [none] at uses
  cases uses

/-- The lines of a declaration in front of its coding methods. -/
def linesInFront (s : SwiftSettings) (d : Declaration) : List String :=
  toldBy shown [.line (opening s d ++ " \x7b")] ++
    (toldBy shown (storedProperties s s.access.ofMembers.modifier d.members) ++
      toldBy shown (Text.setApart (Text.onlyIf (writesKeys s d.members) (codingKeys d.members) ++
        Text.onlyIf (s.kind != .struct || s.access != .module)
          (initializer s s.access.ofMembers.modifier d.members))))

theorem not_begins_linesInFront (s : SwiftSettings) (d : Declaration) :
    ∀ line ∈ linesInFront s d,
      begins (decodeHead s) line = false ∧ begins (encodeHead s) line = false := by
  have own := isModifier_ofMembers s.access
  have opens : Block (fun _ => Elsewhere s.access.ofMembers.modifier) 0
      [.line (opening s d ++ " \x7b")] := .line (elsewhere_opening s d) .nil
  have parts : ∀ part ∈ Text.onlyIf (writesKeys s d.members) (codingKeys d.members) ++
      Text.onlyIf (s.kind != .struct || s.access != .module)
        (initializer s s.access.ofMembers.modifier d.members),
      Block (fun _ => Elsewhere s.access.ofMembers.modifier) 1 part := by
    rw [List.forall_mem_append, Text.Block.forall_mem_onlyIf, Text.Block.forall_mem_onlyIf]
    exact ⟨fun _ => elsewhere_codingKeys own, fun _ => elsewhere_initializer own⟩
  rw [linesInFront, List.forall_mem_append, List.forall_mem_append]
  exact ⟨not_begins_toldBy opens, not_begins_toldBy (elsewhere_storedProperties own),
    not_begins_toldBy (.setApart parts)⟩

section Whole

variable (writes : writesCoding s) (named : ∀ m ∈ d.members, m.IsNamed)

include writes named

theorem exists_toldBy_edits : ∃ back, toldBy shown (d.edits s) = linesInFront s d ++
    (decoderLines s.access.ofMembers.modifier d.members ++ "\x7d" ::
      (encoderLines s.access.ofMembers.modifier d.members ++ "\x7d" :: back)) := by
  have own := isModifier_ofMembers s.access
  refine ⟨toldBy shown (Text.setApart (Text.onlyIf (s.equatable && s.kind != .struct)
    (equality s.access.ofMembers.modifier d))) ++ shown "\x7d", ?_⟩
  rw [Declaration.edits, Text.toldBy_braced, body_eq, behindKeys, writes, Text.toldBy_append]
  simp only [Text.toldBy_setApart, List.flatMap_append, Text.onlyIf, if_true, List.flatMap_cons,
    toldBy_decoder own named, toldBy_encoder own, linesInFront,
    Text.toldBy_line, Text.toldBy_nil, List.append_nil, List.append_assoc, List.cons_append,
    List.nil_append]

theorem methodLines_decoder {lines : List String} (whole : toldBy shown (d.edits s) = lines) :
    methodLines (decodeHead s) lines = decoderLines s.access.ofMembers.modifier d.members := by
  obtain ⟨back, eq⟩ := exists_toldBy_edits writes named
  rw [← whole, eq]
  refine methodLines_append (fun line among => (not_begins_linesInFront s d line among).1) ?_ ?_ ?_
  · rw [begins, List.isPrefixOf_iff_prefix, toList_decodeHead]
    simp [String.toList_append, decodeStart]
  · rcases isModifier_ofMembers s.access with eq | eq
    all_goals
      rw [eq]
      decide
  · exact forall_mem_codingLines (by decide)
      (fun m among => ne_close (named m among).assigned_decodeText (by decide +kernel)) (by decide)

theorem methodLines_encoder {lines : List String} (whole : toldBy shown (d.edits s) = lines) :
    methodLines (encodeHead s) lines = encoderLines s.access.ofMembers.modifier d.members := by
  have own := isModifier_ofMembers s.access
  obtain ⟨back, eq⟩ := exists_toldBy_edits writes named
  have regroup : linesInFront s d ++ (decoderLines s.access.ofMembers.modifier d.members ++ "\x7d" ::
      (encoderLines s.access.ofMembers.modifier d.members ++ "\x7d" :: back)) =
        (linesInFront s d ++ (decoderLines s.access.ofMembers.modifier d.members ++ ["\x7d"])) ++
          (encoderLines s.access.ofMembers.modifier d.members ++ "\x7d" :: back) := by
    simp
  rw [← whole, eq, regroup]
  refine methodLines_append ?_ ?_ ?_ ?_
  · -- the other coding method stands in front of this one
    have head : begins (encodeHead s) (s.access.ofMembers.modifier ++
        "required init(from decoder: Decoder) throws" ++ " \x7b") = false :=
      not_begins_of_departs (toList_encodeHead s) (.append (departs_behind (by decide)))
    have literal {c : Char} {cs : List Char} (other : c ∉ [' ', 'p', 'r', 'o']) :
        begins (encodeHead s) (String.ofList (c :: cs)) = false :=
      (Elsewhere.literal own other).not_begins.2
    rw [List.forall_mem_append, List.forall_mem_append, decoderLines, List.forall_mem_cons,
      List.forall_mem_singleton]
    refine ⟨fun line among => (not_begins_linesInFront s d line among).2, ⟨head, ?_⟩,
      literal (by decide)⟩
    exact forall_mem_codingLines (literal (by decide))
      (fun m among => ((named m among).elsewhere own).not_begins.2) (literal (by decide))
  · rw [begins, List.isPrefixOf_iff_prefix, toList_encodeHead]
    simp [String.toList_append, encodeStart]
  · rcases own with eq | eq
    all_goals
      rw [eq]
      decide
  · exact forall_mem_codingLines (by decide)
      (fun m among => ne_close (named m among).encoded_encodeText (by decide +kernel)) (by decide)

end Whole

/-! ## Names that the coding methods use -/

/-- The names of the parameters of the coding methods and of their containers. -/
def codingNames : List String := ["container", "decoder", "encoder"]

/-- Each of them is the member name of some keys. -/
theorem isPlainName_of_mem_codingNames : ∀ name ∈ codingNames, memberRule.IsPlainName name := by
  have each : ∀ name ∈ codingNames, (name.toList.head?.any fun c => !c.isDigit) ∧
      ¬ MemberRule.fallback.toList <+: name.toList ∧ Text.standsClear MemberRule.suffix name ∧
      name ∉ memberRule.reserved ∧ name ∉ memberRule.generated := by
    decide +kernel
  intro name among
  obtain ⟨opens, apart, clear, free, open_⟩ := each name among
  obtain ⟨c, first, letter⟩ := (Option.any_eq_true _ _).mp opens
  exact ⟨⟨c, first, by simpa using letter⟩, apart, clear, free, open_, fun _ => Iff.rfl⟩

/-- All names stand for properties if none of them is one that the method declares. -/
theorem map_referent_eq_iff {names scope : List String} :
    names.map (referent scope) = names.map .ofClass ↔ ∀ name ∈ names, name ∉ scope := by
  rw [List.map_inj_left]
  refine forall₂_congr fun name _ => ?_
  unfold referent
  split <;> simp_all

/-- What the coding methods of a declared class refer to. -/
theorem exists_coding {settings : SwiftSettings} (valid : settings.fault? = none)
    (writes : writesCoding settings) {s : Schema} {c : ClassDef} (among : c ∈ s.classes)
    (supported : ¬ Language.swift.Rejects c) :
    ∃ source : Source,
      backend.declare settings (backend.typeNames settings s) () c = .ok (source, ()) ∧
      assignedIn settings source.text =
        (memberRule.names c).map (referent ["container", "decoder"]) ∧
      encodedIn settings source.text =
        (memberRule.names c).map (referent ["container", "encoder"]) := by
  obtain ⟨d, declared, spelled, names⟩ := Swift.exists_declared valid among supported
  have own := isModifier_ofMembers settings.access
  have named : ∀ m ∈ d.members, m.IsNamed := by
    intro m listed
    have member : m.name ∈ memberRule.names c := names ▸ List.mem_map_of_mem listed
    exact ⟨isSound_memberRule.opens_name member, isSound_memberRule.notMem_reserved member⟩
  have lines := (shownLines_text spelled valid).symm
  refine ⟨_, declared, ?_, ?_⟩
  · rw [assignedIn, methodLines_decoder writes named lines, referents_decoderLines own named,
      ← names, List.map_map]
    rfl
  · rw [encodedIn, methodLines_encoder writes named lines, referents_encoderLines own named,
      ← names, List.map_map]
    rfl

/-- With coding and a base class, every class that Swift has counterparts for is declared with coding
methods.  These assign to and encode a name for each member of the class, in order.  The name stands
for the property, except where it is the name of the container or of the parameter of the method:
there it stands for that.  A member has such a name exactly if the key of its field is converted to
it, so the methods get to all properties exactly if no key is. -/
theorem coding_refers_to_members {settings : SwiftSettings} (valid : settings.fault? = none)
    (codable : settings.codable) (derived : settings.baseClass.isSome) (s : Schema) {c : ClassDef}
    (among : c ∈ s.classes) (supported : ¬ Language.swift.Rejects c) :
    ∃ source : Source,
      backend.declare settings (backend.typeNames settings s) () c = .ok (source, ()) ∧
      assignedIn settings source.text =
        (memberRule.names c).map (referent ["container", "decoder"]) ∧
      encodedIn settings source.text =
        (memberRule.names c).map (referent ["container", "encoder"]) ∧
      (∀ name ∈ codingNames, name ∈ memberRule.names c ↔
        ∃ field ∈ c.fields, Text.camelCase field.key = name) ∧
      (assignedIn settings source.text = (memberRule.names c).map .ofClass ∧
          encodedIn settings source.text = (memberRule.names c).map .ofClass ↔
        ∀ field ∈ c.fields, Text.camelCase field.key ∉ codingNames) := by
  have writes : writesCoding settings := by
    rw [writesCoding, codable, derived]
    rfl
  obtain ⟨source, declared, assigns, encodes⟩ := exists_coding valid writes among supported
  have members (name : String) (special : name ∈ codingNames) : name ∈ memberRule.names c ↔
      ∃ field ∈ c.fields, Text.camelCase field.key = name :=
    (isPlainName_of_mem_codingNames name special).mem_names_iff
  refine ⟨source, declared, assigns, encodes, members, ?_⟩
  rw [assigns, encodes, map_referent_eq_iff, map_referent_eq_iff]
  constructor
  · rintro ⟨decodes, encodes⟩ field has special
    have member := (members _ special).mpr ⟨field, has, rfl⟩
    have apart := decodes _ member
    have apart' := encodes _ member
    simp only [codingNames, List.mem_cons, List.not_mem_nil, or_false] at special apart apart'
    rcases special with same | same | same <;> simp [same] at apart apart'
  · intro free
    have apart (name : String) (member : name ∈ memberRule.names c) : name ∉ codingNames := by
      intro special
      obtain ⟨field, has, rfl⟩ := (members name special).mp member
      exact free field has special
    refine ⟨fun name member within => apart name member ?_,
      fun name member within => apart name member ?_⟩
    all_goals
      simp only [codingNames, List.mem_cons, List.not_mem_nil, or_false] at within ⊢
      tauto

/-- A shipment, one key of which is converted to the name of a container. -/
def shipment : ClassDef := ⟨"Shipment", [⟨"weight", .float⟩, ⟨"container", .string⟩]⟩

/-- A parcel, no key of which is. -/
def parcel : ClassDef := ⟨"Parcel", [⟨"weight", .float⟩, ⟨"container_id", .optional .integer⟩]⟩

/-- A schema of shipments and parcels. -/
def freight : Schema where
  classes := [shipment, parcel]
  faultless := ClassList.fault?_eq_none.mpr ⟨by decide, by decide, by cbv⟩

/-- Classes under a base class. -/
def derivedSettings : SwiftSettings := { kind := .openClass, baseClass := some "BaseModel" }

/-- The coding methods of a parcel get to all its properties. -/
theorem coding_refers_to_members_parcel :
    derivedSettings.fault? = none ∧ derivedSettings.codable ∧ derivedSettings.baseClass.isSome ∧
      parcel ∈ freight.classes ∧ ¬ Language.swift.Rejects parcel ∧
      ∃ source : Source,
        backend.declare derivedSettings (backend.typeNames derivedSettings freight) () parcel =
          .ok (source, ()) ∧
        assignedIn derivedSettings source.text = (memberRule.names parcel).map .ofClass ∧
        encodedIn derivedSettings source.text = (memberRule.names parcel).map .ofClass := by
  have valid : derivedSettings.fault? = none := by decide +kernel
  have listed : parcel ∈ freight.classes := List.mem_cons_of_mem _ List.mem_cons_self
  have supported : ¬ Language.swift.Rejects parcel := by decide
  have free : ∀ field ∈ parcel.fields, Text.camelCase field.key ∉ codingNames := by decide +kernel
  obtain ⟨source, declared, _, _, _, reach⟩ :=
    coding_refers_to_members valid rfl rfl freight listed supported
  exact ⟨valid, rfl, rfl, listed, supported, source, declared, reach.mpr free⟩

/-- In a shipment the container of the methods stands in front of the property. -/
theorem coding_misses_container :
    derivedSettings.fault? = none ∧ derivedSettings.codable ∧ derivedSettings.baseClass.isSome ∧
      shipment ∈ freight.classes ∧ "container" ∈ memberRule.names shipment ∧
      ∃ source : Source,
        backend.declare derivedSettings (backend.typeNames derivedSettings freight) () shipment =
          .ok (source, ()) ∧
        assignedIn derivedSettings source.text = [.ofClass "weight", .ofMethod "container"] ∧
        encodedIn derivedSettings source.text = [.ofClass "weight", .ofMethod "container"] := by
  have valid : derivedSettings.fault? = none := by decide +kernel
  have listed : shipment ∈ freight.classes := List.mem_cons_self
  have supported : ¬ Language.swift.Rejects shipment := by decide
  have wanted : (shipment.fields.map fun field => memberRule.wanted field.key) =
      ["weight", "container"] := by decide +kernel
  have names : memberRule.names shipment = ["weight", "container"] := by
    rw [MemberRule.names, wanted]
    cbv
  obtain ⟨source, declared, assigns, encodes⟩ :=
    exists_coding valid rfl listed supported
  rw [names] at assigns encodes
  refine ⟨valid, rfl, rfl, listed, by rw [names]; simp, source, declared, ?_, ?_⟩
  · rw [assigns]
    decide
  · rw [encodes]
    decide

end Classwright.Swift
