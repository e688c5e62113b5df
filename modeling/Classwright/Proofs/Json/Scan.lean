/-
# Classwright.Proofs.Json.Scan — written text scans to the tokens it stands for

What a piece of text scans to is stated for the piece with any text behind it (`Scans`), so pieces
are put side by side without a look at where one ends.  Strings, brackets and the blanks of the
pretty layout are such pieces; numbers are not, because digits behind a number would extend it, and
no document of a schema holds one.
-/

import Classwright.Json.Value

namespace Classwright.Json

/-! ## Strings -/

theorem hexCode?_hexPair : ∀ code < 0x20, hexCode? ('0' :: '0' :: hexPair code) = some code := by
  decide

/-- Reading the body of a string undoes the escape of a character. -/
theorem stringBody_escapeChar (c : Char) (text : List Char) :
    stringBody (escapeChar c ++ text) = withPiece (.char c) (stringBody text) := by
  unfold escapeChar
  -- the short escapes, each of which reads as its own letter
  by_cases quote : c = '"'
  · subst quote; rfl
  by_cases backslash : c = '\\'
  · subst backslash; rfl
  by_cases backspace : c = '\x08'
  · subst backspace; rfl
  by_cases formFeed : c = '\x0c'
  · subst formFeed; rfl
  by_cases lineFeed : c = '\n'
  · subst lineFeed; rfl
  by_cases carriageReturn : c = '\r'
  · subst carriageReturn; rfl
  by_cases tab : c = '\t'
  · subst tab; rfl
  simp only [quote, backslash, backspace, formFeed, lineFeed, carriageReturn, tab, if_false]
  by_cases control : c.toNat < 0x20
  · have code : hexCode? ['0', '0', Nat.digitChar (c.toNat / 16 % 16),
        Nat.digitChar (c.toNat % 16)] = some c.toNat := hexCode?_hexPair c.toNat control
    have piece : Piece.ofCode c.toNat = .char c := by
      rw [Piece.ofCode, if_neg (by omega), if_neg (by omega), Char.ofNat_toNat]
    rw [if_pos control]
    show stringBody ('\\' :: 'u' :: '0' :: '0' :: _ :: _ :: text) = _
    rw [stringBody, code]
    show withPiece (.ofCode c.toNat) _ = _
    rw [piece]
  · rw [if_neg control]
    show stringBody (c :: text) = _
    rw [stringBody]
    · rw [if_neg control]
    -- the other equations are for quotes and backslashes
    · exact quote
    all_goals intros; contradiction

theorem stringBody_flatMap (cs rest : List Char) :
    stringBody (cs.flatMap escapeChar ++ '"' :: rest) = (cs.map .char, .ok rest) := by
  induction cs with
  | nil => rfl
  | cons c cs ih =>
      rw [List.flatMap_cons, List.append_assoc, stringBody_escapeChar, ih]
      rfl

theorem joinPieces_map_char (cs : List Char) : joinPieces (cs.map .char) = some cs := by
  induction cs with
  | nil => rfl
  | cons c cs ih =>
      rw [List.map_cons, joinPieces, ih]
      rfl

theorem stringToken_eq {text rest : List Char} {pieces : List Piece}
    (found : stringBody text = (pieces, .ok rest)) :
    ∃ h, stringToken text = (.string ((joinPieces pieces).map String.ofList), some ⟨rest, h⟩) := by
  unfold stringToken
  simp only
  split
  · next behind eq =>
    rw [found] at eq
    cases eq
    exact ⟨Nat.le_of_lt (length_of_stringBody eq), by simp only [found]⟩
  · next flaw eq =>
    rw [found] at eq
    cases eq

/-! ## Tokens of lists and objects -/

/-- The tokens of a list whose elements have these tokens. -/
def listTokens (items : List (List Token)) : List Token :=
  .opening .square :: (List.intercalate [.comma] items ++ [.closing .square])

/-- The tokens of an object whose values have these tokens. -/
def objectTokens (entries : List (String × List Token)) : List Token :=
  .opening .curly :: (List.intercalate [.comma]
    (entries.map fun e => .string (some e.1) :: .colon :: e.2) ++ [.closing .curly])

theorem objectTokens_one (key : String) (ts : List Token) :
    objectTokens [(key, ts)] =
      .opening .curly :: .string (some key) :: .colon :: (ts ++ [.closing .curly]) := by
  simp [objectTokens]

theorem objectTokens_two (key key' : String) (ts ts' : List Token) :
    objectTokens [(key, ts), (key', ts')] =
      .opening .curly :: .string (some key) :: .colon ::
        (ts ++ .comma :: .string (some key') :: .colon :: (ts' ++ [.closing .curly])) := by
  simp [objectTokens, List.intercalate]

/-! ## Pieces of text -/

/-- The characters scan to the tokens, whatever stands behind them. -/
def Scans (chars : List Char) (ts : List Token) : Prop :=
  ∀ rest, scan (chars ++ rest) = ts ++ scan rest

theorem scan_of_scanToken {c : Char} {text rest : List Char} {token : Token} {h}
    (solid : isSpace c = false) (found : scanToken c text = (token, some ⟨rest, h⟩)) :
    scan (c :: text) = token :: scan rest := by
  rw [scan, solid, found]
  rfl

theorem scan_of_isSpace {c : Char} (blank : isSpace c) (text : List Char) :
    scan (c :: text) = scan text := by
  rw [scan, if_pos blank]

namespace Scans

variable {chars more : List Char} {ts us : List Token}

theorem nil : Scans [] [] := fun _ => rfl

theorem append (first : Scans chars ts) (second : Scans more us) :
    Scans (chars ++ more) (ts ++ us) := by
  intro rest
  rw [List.append_assoc, first, second, List.append_assoc]

/-- A bracket or a separator in front. -/
theorem cons {c : Char} {token : Token} (solid : isSpace c = false)
    (single : ∀ text, scanToken c text = (token, some ⟨text, Nat.le_refl _⟩))
    (behind : Scans chars ts) : Scans (c :: chars) (token :: ts) := by
  intro rest
  rw [List.cons_append, scan_of_scanToken solid (single _), behind]
  rfl

theorem blanks (all : ∀ c ∈ chars, isSpace c) : Scans chars [] := by
  intro rest
  induction chars with
  | nil => rfl
  | cons c chars ih =>
      rw [List.cons_append, scan_of_isSpace (all c List.mem_cons_self)]
      exact ih fun d among => all d (List.mem_cons_of_mem c among)

theorem freshLine (level : Nat) : Scans (freshLine level) [] := by
  refine blanks fun c among => ?_
  rcases List.mem_cons.mp among with rfl | among
  · rfl
  · rw [List.eq_of_mem_replicate among]
    rfl

theorem stringChars (text : String) : Scans (stringChars text) [.string (some text)] := by
  intro rest
  obtain ⟨h, token⟩ := stringToken_eq (stringBody_flatMap text.toList rest)
  rw [joinPieces_map_char, Option.map_some, String.ofList_toList] at token
  have shape : Json.stringChars text ++ rest =
      '"' :: (text.toList.flatMap escapeChar ++ '"' :: rest) := by
    rw [Json.stringChars, List.cons_append, List.append_assoc]
    rfl
  rw [shape, scan_of_scanToken (c := '"') rfl token]
  rfl

/-! ## Brackets -/

/-- Parts with commas between them, each behind blanks of its own. -/
theorem intercalate {α : Type} {written : α → List Char} {tokens : α → List Token} {blank}
    (lead : Scans blank []) : ∀ {parts : List α},
    (∀ part ∈ parts, Scans (written part) (tokens part)) →
      Scans (List.intercalate [','] (parts.map fun part => blank ++ written part))
        (List.intercalate [.comma] (parts.map tokens))
  | [], _ => nil
  | [part], each => by simpa using lead.append (each part List.mem_cons_self)
  | part :: other :: parts, each => by
      have first := lead.append (each part List.mem_cons_self)
      have others := intercalate lead fun part among => each part (List.mem_cons_of_mem _ among)
      have comma := cons (c := ',') rfl (fun _ => rfl) others
      simpa [List.intercalate] using first.append comma

/-- The parts between brackets of the pretty layout. -/
theorem encloseLines {α : Type} {written : α → List Char} {tokens : α → List Token}
    {left right : Char} {opening closing : Token} {parts : List α} (level : Nat)
    (solidLeft : isSpace left = false) (solidRight : isSpace right = false)
    (opens : ∀ text, scanToken left text = (opening, some ⟨text, Nat.le_refl _⟩))
    (closes : ∀ text, scanToken right text = (closing, some ⟨text, Nat.le_refl _⟩))
    (each : ∀ part ∈ parts, Scans (written part) (tokens part)) :
    Scans (encloseLines level left right (parts.map written))
      (opening :: (List.intercalate [.comma] (parts.map tokens) ++ [closing])) := by
  have close : Scans [right] [closing] := cons solidRight closes nil
  cases parts with
  | nil => exact cons solidLeft opens close
  | cons part parts =>
      have lines := intercalate (freshLine (level + 1)) each
      have body := (lines.append (freshLine level)).append close
      rw [List.append_nil] at body
      have whole := cons solidLeft opens body
      simpa [Json.encloseLines, List.map_map, Function.comp_def] using whole

/-! ## Lists and objects -/

theorem prettyItems_eq_map (level : Nat) (items : List Value) :
    Value.prettyItems level items = items.map (·.prettyChars level) := by
  induction items with
  | nil => rfl
  | cons item items ih => rw [Value.prettyItems, ih, List.map_cons]

theorem prettyEntries_eq_map (level : Nat) (entries : List (String × Value)) :
    Value.prettyEntries level entries =
      entries.map fun e => Json.stringChars e.1 ++ ':' :: ' ' :: e.2.prettyChars level := by
  induction entries with
  | nil => rfl
  | cons entry entries ih => rw [Value.prettyEntries, ih, List.map_cons]

/-- The key of an entry, the colon and the value. -/
theorem entry {key : String} (value : Scans chars ts) :
    Scans (Json.stringChars key ++ ':' :: ' ' :: chars) (.string (some key) :: .colon :: ts) := by
  have blank : Scans [' '] [] := blanks fun c among => by
    rw [List.mem_singleton.mp among]
    rfl
  exact (stringChars key).append (cons (c := ':') rfl (fun _ => rfl) (blank.append value))

theorem list {α : Type} {toJson : α → Value} {tokens : α → List Token} {items : List α}
    (level : Nat) (each : ∀ a ∈ items, Scans ((toJson a).prettyChars (level + 1)) (tokens a)) :
    Scans ((Value.list (items.map toJson)).prettyChars level)
      (listTokens (items.map tokens)) := by
  rw [Value.prettyChars, prettyItems_eq_map, List.map_map]
  exact encloseLines level rfl rfl (fun _ => rfl) (fun _ => rfl) each

/-- An object, given as its keys, its values and the tokens of these. -/
theorem object (members : List (String × Value × List Token)) (level : Nat)
    (each : ∀ m ∈ members, Scans (m.2.1.prettyChars (level + 1)) m.2.2) :
    Scans ((Value.object (members.map fun m => (m.1, m.2.1))).prettyChars level)
      (objectTokens (members.map fun m => (m.1, m.2.2))) := by
  rw [Value.prettyChars, prettyEntries_eq_map, List.map_map, objectTokens, List.map_map]
  exact encloseLines level rfl rfl (fun _ => rfl) (fun _ => rfl) fun m among =>
    (each m among).entry

end Scans

end Classwright.Json
