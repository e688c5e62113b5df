/-
# Classwright.Proofs.Text.Identifier — repaired names are identifiers

A name that comes out of a case conversion is mended in steps: a fallback for a name that cannot
open an identifier, a suffix for a reserved word, a number for a name that is taken.  Every step
keeps the shape of the name, a letter with letters and digits behind it (`Opens`).  No later step
leads back to a reserved word either, as long as no reserved word ends in the suffix or in a digit
(`standsClear`).
-/

import Classwright.Proofs.Text.NameSupply
import Classwright.Proofs.Text.Words
import Classwright.Text.Identifier

namespace Classwright.Text

variable {p : Char → Bool} {name base more fallback suffix word : String} {reserved : List String}

/-! ## Identifiers -/

theorem isIdentifierPart_of_isAlphanum {c : Char} (own : c.isAlphanum) : isIdentifierPart c := by
  simp [isIdentifierPart, own]

theorem isIdentifierPart_of_start {c : Char} (opens : isIdentifierStart c) :
    isIdentifierPart c := by
  simp only [isIdentifierStart, isIdentifierPart, Char.isAlphanum, Bool.or_eq_true] at opens ⊢
  exact opens.imp_left .inl

theorem isIdentifierPart_of_isIdentifier (own : isIdentifier name) :
    ∀ c ∈ name.toList, isIdentifierPart c := by
  rw [isIdentifier] at own
  revert own
  cases name.toList with
  | nil => simp [identifierChars]
  | cons first rest =>
      intro own
      rw [identifierChars, Bool.and_eq_true, List.all_eq_true] at own
      exact List.forall_mem_cons.mpr ⟨isIdentifierPart_of_start own.1, own.2⟩

theorem isIdentifier_append (own : isIdentifier name)
    (parts : ∀ c ∈ more.toList, isIdentifierPart c) : isIdentifier (name ++ more) := by
  rw [isIdentifier] at own ⊢
  rw [String.toList_append]
  revert own
  cases name.toList with
  | nil => simp [identifierChars]
  | cons first rest =>
      intro own
      rw [identifierChars, Bool.and_eq_true, List.all_eq_true] at own
      rw [List.cons_append, identifierChars, Bool.and_eq_true, List.all_eq_true,
        List.forall_mem_append]
      exact ⟨own.1, own.2, parts⟩

theorem IsVariant.isIdentifier (variant : IsVariant base name) (own : isIdentifier base) :
    isIdentifier name := by
  obtain ⟨digits, eq, all⟩ := variant.exists_digits
  obtain rfl : name = base ++ String.ofList digits :=
    String.toList_inj.mp (by rw [eq, String.toList_append, String.toList_ofList])
  refine isIdentifier_append own fun c among => isIdentifierPart_of_isAlphanum ?_
  rw [String.toList_ofList] at among
  simp [Char.isAlphanum, all c among]

/-- The text holds only characters that may stand in an identifier. -/
def IsWord (text : String) : Prop := ∀ c ∈ text.toList, isIdentifierPart c

instance (text : String) : Decidable (IsWord text) :=
  decidable_of_iff (text.toList.all isIdentifierPart = true) List.all_eq_true

namespace IsWord

theorem of_isAlphanum (own : ∀ c ∈ name.toList, c.isAlphanum) : IsWord name :=
  fun c among => isIdentifierPart_of_isAlphanum (own c among)

theorem append (before : IsWord name) (behind : IsWord more) : IsWord (name ++ more) := by
  rw [IsWord, String.toList_append, List.forall_mem_append]
  exact ⟨before, behind⟩

theorem variant (own : IsWord base) (variant : IsVariant base name) : IsWord name := by
  obtain ⟨digits, eq, all⟩ := variant.exists_digits
  rw [IsWord, eq, List.forall_mem_append]
  refine ⟨own, fun c among => isIdentifierPart_of_isAlphanum ?_⟩
  simp [Char.isAlphanum, all c among]

/-- Words in capitals with underscores between them. -/
theorem screamingCase (text : String) : IsWord (screamingCase text) := by
  rw [IsWord, Text.screamingCase, String.toList_ofList]
  have own : ∀ word ∈ splitWords text.toList, ∀ c ∈ upperWord word, isIdentifierPart c := by
    intro word among c within
    obtain ⟨d, origin, rfl⟩ := List.mem_map.mp within
    exact isIdentifierPart_of_isAlphanum
      (isAlphanum_toUpper (isAlphanum_of_mem_splitWords among d origin))
  revert own
  induction splitWords text.toList with
  | nil => simp [List.intercalate]
  | cons word words ih =>
      intro own
      rw [List.forall_mem_cons] at own
      cases words with
      | nil => simpa [List.intercalate] using own.1
      | cons other words =>
          have eq : List.intercalate ['_'] ((word :: other :: words).map upperWord) =
              upperWord word ++ '_' :: List.intercalate ['_'] ((other :: words).map upperWord) := by
            simp [List.intercalate]
          rw [eq, List.forall_mem_append, List.forall_mem_cons]
          exact ⟨own.1, by decide, ih own.2⟩

end IsWord

/-! ## Identifiers inside a text -/

/-- The identifiers in a text, from left to right. -/
def identifiersIn (cs : List Char) : List (List Char) :=
  (cs.splitOnP fun c => !isIdentifierPart c).filter (· ≠ [])

/-- Around a character that is in no identifier the text falls apart. -/
theorem identifiersIn_append (before after : List Char) {c : Char}
    (gap : isIdentifierPart c = false) :
    identifiersIn (before ++ c :: after) = identifiersIn before ++ identifiersIn after := by
  unfold identifiersIn
  rw [List.splitOnP_append_cons before after (by simp [gap]), List.filter_append]

theorem identifiersIn_enclose (before after inner : List Char) {c d : Char}
    (opens : isIdentifierPart c = false) (closes : isIdentifierPart d = false) :
    identifiersIn (before ++ c :: (inner ++ d :: after)) =
      identifiersIn before ++ identifiersIn inner ++ identifiersIn after := by
  rw [identifiersIn_append _ _ opens, identifiersIn_append _ _ closes, List.append_assoc]

/-- A word is the only identifier in it. -/
theorem identifiersIn_word {cs : List Char} (own : ∀ c ∈ cs, isIdentifierPart c)
    (filled : cs ≠ []) : identifiersIn cs = [cs] := by
  have whole : (cs.splitOnP fun c => !isIdentifierPart c) = [cs] :=
    List.splitOnP_eq_singleton fun c among => by simp [own c among]
  rw [identifiersIn, whole, List.filter_cons_of_pos (by simpa using filled), List.filter_nil]

/-- Every identifier in the text is one of the words. -/
def SpelledWith (words : List String) (text : String) : Prop :=
  ∀ own ∈ identifiersIn text.toList, String.ofList own ∈ words

instance (words : List String) (text : String) : Decidable (SpelledWith words text) :=
  inferInstanceAs (Decidable (∀ own ∈ identifiersIn text.toList, String.ofList own ∈ words))

/-! ## The shape of a converted name -/

theorem isAlpha_of_isLower (c : Char) (small : c.isLower) : c.isAlpha := by
  simp [Char.isAlpha, small]

theorem isAlpha_of_isUpper (c : Char) (capital : c.isUpper) : c.isAlpha := by
  simp [Char.isAlpha, capital]

/-- The name is a letter that passes the test, with letters and digits behind it. -/
def Opens (p : Char → Bool) (name : String) : Prop :=
  ∃ first rest, name.toList = first :: rest ∧ p first ∧ ∀ c ∈ rest, c.isAlphanum

namespace Opens

/-- Converted names consist of letters and digits. -/
theorem isAlphanum (letter : ∀ c, p c → c.isAlpha) (own : Opens p name) :
    ∀ c ∈ name.toList, c.isAlphanum := by
  obtain ⟨first, rest, eq, passes, others⟩ := own
  rw [eq, List.forall_mem_cons]
  exact ⟨by simp [Char.isAlphanum, letter first passes], others⟩

theorem isIdentifier (letter : ∀ c, p c → c.isAlpha) (own : Opens p name) : isIdentifier name := by
  obtain ⟨first, rest, eq, passes, others⟩ := own
  rw [Text.isIdentifier, eq, identifierChars, Bool.and_eq_true, List.all_eq_true]
  exact ⟨by simp [isIdentifierStart, letter first passes],
    fun c among => isIdentifierPart_of_isAlphanum (others c among)⟩

theorem append (own : Opens p name) (others : ∀ c ∈ more.toList, c.isAlphanum) :
    Opens p (name ++ more) := by
  obtain ⟨first, rest, eq, passes, front⟩ := own
  refine ⟨first, rest ++ more.toList, ?_, passes, List.forall_mem_append.mpr ⟨front, others⟩⟩
  rw [String.toList_append, eq, List.cons_append]

theorem variant (own : Opens p base) (variant : IsVariant base name) : Opens p name := by
  obtain ⟨digits, eq, all⟩ := variant.exists_digits
  obtain ⟨first, rest, same, passes, front⟩ := own
  refine ⟨first, rest ++ digits, ?_, passes, List.forall_mem_append.mpr ⟨front, ?_⟩⟩
  · rw [eq, same, List.cons_append]
  · intro c among
    simp [Char.isAlphanum, all c among]

/-- A fallback mends a name that is empty or starts with a digit. -/
theorem identifierOr (mends : Opens p fallback) (own : ∀ c ∈ name.toList, c.isAlphanum)
    (head : ∀ c ∈ name.toList.head?, ¬ c.isDigit → p c) : Opens p (identifierOr fallback name) := by
  rw [Text.identifierOr]
  split
  · exact mends
  · next first rest eq =>
    split
    · exact mends.append own
    · next letter =>
      rw [eq] at own head
      exact ⟨first, rest, eq, head first rfl letter, (List.forall_mem_cons.mp own).2⟩

theorem escapeReserved (own : Opens p name) (others : ∀ c ∈ suffix.toList, c.isAlphanum) :
    Opens p (escapeReserved reserved suffix name) := by
  rw [Text.escapeReserved]
  split
  · exact own.append others
  · exact own

end Opens

/-! ## Reserved words -/

/-- Neither the suffix nor a number can have led to the word. -/
def standsClear (suffix word : String) : Bool :=
  !suffix.toList.isSuffixOf word.toList && !word.toList.getLast?.any Char.isDigit

theorem ne_append_of_standsClear (clear : standsClear suffix word) (name : String) :
    name ++ suffix ≠ word := by
  rintro rfl
  have ends : suffix.toList.isSuffixOf (name ++ suffix).toList := by
    rw [List.isSuffixOf_iff_suffix, String.toList_append]
    exact List.suffix_append _ _
  rw [standsClear, ends] at clear
  cases clear

theorem escapeReserved_notMem (clear : ∀ word ∈ reserved, standsClear suffix word)
    (name : String) : escapeReserved reserved suffix name ∉ reserved := by
  rw [escapeReserved]
  split
  · exact fun among => ne_append_of_standsClear (clear _ among) name rfl
  · assumption

/-- A number behind a name that is not reserved does not lead to a reserved word. -/
theorem IsVariant.notMem (variant : IsVariant base name)
    (clear : ∀ word ∈ reserved, standsClear suffix word) (free : base ∉ reserved) :
    name ∉ reserved := by
  rcases variant.eq_or_isDigit_getLast with rfl | ⟨last, ends, digit⟩
  · exact free
  · intro among
    have clear := clear name among
    rw [Option.mem_def] at ends
    simp [standsClear, ends, digit] at clear

end Classwright.Text
