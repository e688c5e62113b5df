/-
# Classwright.Proofs.Text.Segmentation — where a name is cut into words

Which letters and digits of a name share a word is told here from their places alone.  Two of them
that are neighbours, with nothing or with other characters between them, are in different words
exactly at a boundary (`Neighbours.IsBoundary`).  Words that are not empty, hold all letters and
digits in their order and are cut at the boundaries are a segmentation of the name (`Segments`).

There is one segmentation of each name, and cutting the name yields it (`segments_iff`).  The proof
goes through the name from the left: what a segmentation is of a name with one more character in
front is told from a segmentation of the rest, by the same question that the cutting asks there.

Capitals, small letters and digits are those of ASCII throughout.
-/

import Classwright.Proofs.Text.Words

namespace Classwright.Text

/-! ## Neighbours -/

/-- Two letters or digits of a text with no third one between them. -/
structure Neighbours (text : List Char) where
  before : List Char
  first : Char
  gap : List Char
  second : Char
  behind : List Char
  text_eq : text = before ++ first :: (gap ++ second :: behind)
  own_first : first.isAlphanum
  own_second : second.isAlphanum
  other_gap : ∀ c ∈ gap, ¬ c.isAlphanum

/-- The number of the word that holds the letter with an index, counted through all words. -/
def wordAt : List (List Char) → Nat → Nat
  | [], _ => 0
  | word :: words, index =>
    if index < word.length then 0 else wordAt words (index - word.length) + 1

/-- The two places at which a new word is opened without other characters in front of it. -/
theorem opensWord_iff {first second : Char} {after : Option Char} :
    opensWord first second after = true ↔
      (second.isUpper ∧ (first.isLower ∨ first.isDigit)) ∨
        (first.isUpper ∧ second.isUpper ∧ ∃ next ∈ after, next.isLower) := by
  simp only [opensWord, Bool.and_eq_true, Bool.or_eq_true, Option.any_eq_true, Option.mem_def]
  tauto

namespace Neighbours

variable {text rest : List Char} {c : Char}

/-- The index of the first neighbour among the letters and digits of the text.  The second one has
the next index. -/
def index (pair : Neighbours text) : Nat := pair.before.countP Char.isAlphanum

/-- The neighbours are in different words. -/
def AreApart (pair : Neighbours text) (words : List (List Char)) : Prop :=
  wordAt words pair.index ≠ wordAt words (pair.index + 1)

/-- Something else stands between the neighbours, or the second is a capital behind a small letter
or a digit, or it is the last capital of an acronym: both are capitals, and the character behind
them is a small letter. -/
def IsBoundary (pair : Neighbours text) : Prop :=
  pair.gap ≠ [] ∨
    (pair.second.isUpper ∧ (pair.first.isLower ∨ pair.first.isDigit)) ∨
    (pair.first.isUpper ∧ pair.second.isUpper ∧ ∃ next ∈ pair.behind.head?, next.isLower)

/-- The same neighbours in a text with one more character in front. -/
def cons (c : Char) (pair : Neighbours rest) : Neighbours (c :: rest) where
  before := c :: pair.before
  first := pair.first
  gap := pair.gap
  second := pair.second
  behind := pair.behind
  text_eq := congrArg (c :: ·) pair.text_eq
  own_first := pair.own_first
  own_second := pair.own_second
  other_gap := pair.other_gap

/-- The first character of the text is the first neighbour. -/
structure IsFront (pair : Neighbours (c :: rest)) : Prop where
  index_eq : pair.index = 0
  first_eq : pair.first = c
  rest_eq : rest = pair.gap ++ pair.second :: pair.behind

/-- Neighbours either stand behind the first character, or it is the first of them. -/
theorem cases_cons (pair : Neighbours (c :: rest)) :
    (∃ inner : Neighbours rest, pair = inner.cons c) ∨ pair.IsFront := by
  obtain ⟨before, first, gap, second, behind, text_eq, own_first, own_second, other_gap⟩ := pair
  cases before with
  | nil =>
      obtain ⟨rfl, rfl⟩ := List.cons.inj text_eq
      exact .inr ⟨rfl, rfl, rfl⟩
  | cons d before =>
      obtain ⟨rfl, rfl⟩ := List.cons.inj text_eq
      exact .inl ⟨⟨before, first, gap, second, behind, rfl, own_first, own_second, other_gap⟩, rfl⟩

/-- A letter or digit that is not the last one has a neighbour. -/
theorem exists_of_mem (own : c.isAlphanum) {later : Char} (among : later ∈ rest)
    (own_later : later.isAlphanum) :
    ∃ pair : Neighbours (c :: rest), pair.IsFront := by
  have kept : later ∈ rest.filter Char.isAlphanum := List.mem_filter.mpr ⟨among, own_later⟩
  obtain ⟨second, others, eq⟩ := List.exists_cons_of_ne_nil (List.ne_nil_of_mem kept)
  obtain ⟨gap, behind, rfl, other_gap, own_second, -⟩ := List.filter_eq_cons_iff.mp eq
  exact ⟨⟨[], c, gap, second, behind, rfl, own, own_second, other_gap⟩, ⟨rfl, rfl, rfl⟩⟩

/-- The cutting asks for a boundary where it looks at the next character. -/
theorem isBoundary_iff (pair : Neighbours text) : pair.IsBoundary ↔
    wordGoesOn pair.first (pair.gap ++ pair.second :: pair.behind) = false := by
  obtain ⟨before, first, gap, second, behind, -, -, own_second, other_gap⟩ := pair
  cases gap with
  | nil =>
      show _ ↔ (second.isAlphanum && !opensWord first second behind.head?) = false
      rw [own_second, Bool.true_and, Bool.not_eq_false_eq_eq_true, opensWord_iff]
      exact or_iff_right (not_not_intro rfl)
  | cons d gap =>
      have other := other_gap d List.mem_cons_self
      simp [IsBoundary, wordGoesOn, other]

end Neighbours

variable {c : Char} {rest text word : List Char} {words : List (List Char)}

/-! ## Numbers of words -/

@[simp]
theorem wordAt_nil_cons (index : Nat) : wordAt ([] :: words) index = wordAt words index + 1 := rfl

@[simp]
theorem wordAt_cons_zero : wordAt ((c :: word) :: words) 0 = 0 := rfl

@[simp]
theorem wordAt_cons_succ (index : Nat) :
    wordAt ((c :: word) :: words) (index + 1) = wordAt (word :: words) index := by
  simp [wordAt]

/-- The first letter shares its word with the next one exactly if there is more of its word. -/
theorem wordAt_one_eq_zero_iff : wordAt ((c :: word) :: words) 1 = 0 ↔ word ≠ [] := by
  show wordAt ((c :: word) :: words) (0 + 1) = 0 ↔ _
  rw [wordAt_cons_succ]
  cases word with
  | nil => simp
  | cons d word => simp

namespace Neighbours

theorem areApart_cons_other (other : ¬ c.isAlphanum) (pair : Neighbours rest) :
    (pair.cons c).AreApart words ↔ pair.AreApart words := by
  have index_eq : (pair.cons c).index = pair.index := List.countP_cons_of_neg other
  rw [AreApart, AreApart, index_eq]

theorem areApart_cons_own (own : c.isAlphanum) (pair : Neighbours rest) :
    (pair.cons c).AreApart ((c :: word) :: words) ↔ pair.AreApart (word :: words) := by
  have index_eq : (pair.cons c).index = pair.index + 1 := List.countP_cons_of_pos own
  rw [AreApart, AreApart, index_eq, wordAt_cons_succ, wordAt_cons_succ]

theorem areApart_nil_cons (pair : Neighbours rest) :
    pair.AreApart ([] :: words) ↔ pair.AreApart words := by
  simp [AreApart]

namespace IsFront

variable {pair : Neighbours (c :: rest)}

theorem areApart_iff (front : pair.IsFront) : pair.AreApart ((c :: word) :: words) ↔ word = [] := by
  rw [AreApart, front.index_eq, wordAt_cons_zero, ne_comm, Ne, wordAt_one_eq_zero_iff, not_not]

theorem isBoundary_iff (front : pair.IsFront) :
    pair.IsBoundary ↔ wordGoesOn c rest = false := by
  rw [Neighbours.isBoundary_iff, front.first_eq, ← front.rest_eq]

theorem any_rest (front : pair.IsFront) : rest.any Char.isAlphanum := by
  rw [front.rest_eq]
  simp [pair.own_second]

end IsFront

end Neighbours

/-! ## Segmentations -/

/-- The words are a segmentation of the letters and digits of the text. -/
structure Segments (text : List Char) (words : List (List Char)) : Prop where
  /-- No word is empty. -/
  filled : ∀ word ∈ words, word ≠ []
  /-- Nothing is lost, repeated or moved. -/
  whole : words.flatten = text.filter Char.isAlphanum
  /-- Neighbours are in different words exactly at the boundaries. -/
  cuts : ∀ pair : Neighbours text, pair.AreApart words ↔ pair.IsBoundary

namespace Segments

theorem nil_iff : Segments [] words ↔ words = [] := by
  constructor
  · intro segments
    cases words with
    | nil => rfl
    | cons word words =>
        have empty := List.flatten_eq_nil_iff.mp segments.whole word List.mem_cons_self
        exact absurd empty (segments.filled word List.mem_cons_self)
  · rintro rfl
    refine ⟨by simp, rfl, fun pair => ?_⟩
    have impossible := congrArg List.length pair.text_eq
    simp at impossible

/-- Other characters in front change nothing. -/
theorem cons_other_iff (other : ¬ c.isAlphanum) :
    Segments (c :: rest) words ↔ Segments rest words := by
  have kept : (c :: rest).filter Char.isAlphanum = rest.filter Char.isAlphanum :=
    List.filter_cons_of_neg other
  constructor
  · intro segments
    refine ⟨segments.filled, segments.whole.trans kept, fun pair => ?_⟩
    exact (Neighbours.areApart_cons_other other pair).symm.trans (segments.cuts (pair.cons c))
  · intro segments
    refine ⟨segments.filled, segments.whole.trans kept.symm, fun pair => ?_⟩
    rcases pair.cases_cons with ⟨inner, rfl⟩ | front
    · exact (Neighbours.areApart_cons_other other inner).trans (segments.cuts inner)
    · exact absurd (front.first_eq ▸ pair.own_first) other

/-- The cuts of a text with one more letter in front are those of the rest and, if there is a next
letter, the one between the two. -/
theorem cuts_cons_iff (own : c.isAlphanum) :
    (∀ pair : Neighbours (c :: rest), pair.AreApart ((c :: word) :: words) ↔ pair.IsBoundary) ↔
      (rest.any Char.isAlphanum → (word = [] ↔ wordGoesOn c rest = false)) ∧
        ∀ pair : Neighbours rest, pair.AreApart (word :: words) ↔ pair.IsBoundary := by
  constructor
  · intro cuts
    refine ⟨fun more => ?_, fun pair => ?_⟩
    · obtain ⟨later, among, own_later⟩ := List.any_eq_true.mp more
      obtain ⟨pair, front⟩ := Neighbours.exists_of_mem own among own_later
      rw [← front.areApart_iff, cuts pair, front.isBoundary_iff]
    · rw [← Neighbours.areApart_cons_own own pair]
      exact cuts (pair.cons c)
  · rintro ⟨next, others⟩ pair
    rcases pair.cases_cons with ⟨inner, rfl⟩ | front
    · exact (Neighbours.areApart_cons_own own inner).trans (others inner)
    · rw [front.areApart_iff, front.isBoundary_iff, next front.any_rest]

/-- A word goes on only if there is something to go on with. -/
theorem any_of_wordGoesOn (goes : wordGoesOn c rest = true) : rest.any Char.isAlphanum := by
  cases rest with
  | nil => cases goes
  | cons d rest =>
      have own := (Bool.and_eq_true_iff.mp goes).1
      simp [own]

theorem whole_cons_iff (own : c.isAlphanum) :
    ((c :: word) :: words).flatten = (c :: rest).filter Char.isAlphanum ↔
      (word :: words).flatten = rest.filter Char.isAlphanum := by
  rw [List.filter_cons_of_pos own]
  show c :: (word :: words).flatten = _ ↔ _
  rw [List.cons_inj_right]

/-- The first letter is a word of its own where its word does not go on. -/
theorem cons_single_iff (own : c.isAlphanum) :
    Segments (c :: rest) ([c] :: words) ↔ wordGoesOn c rest = false ∧ Segments rest words := by
  constructor
  · rintro ⟨filled, whole, cuts⟩
    obtain ⟨next, others⟩ := (cuts_cons_iff own).mp cuts
    refine ⟨?_, (List.forall_mem_cons.mp filled).2, (whole_cons_iff own).mp whole, ?_⟩
    · cases goes : wordGoesOn c rest with
      | false => rfl
      | true =>
          have ends := (next (any_of_wordGoesOn goes)).mp rfl
          exact goes.symm.trans ends
    · intro pair
      rw [← Neighbours.areApart_nil_cons]
      exact others pair
  · rintro ⟨ends, filled, whole, cuts⟩
    refine ⟨?_, (whole_cons_iff own).mpr whole, (cuts_cons_iff own).mpr ⟨?_, ?_⟩⟩
    · exact List.forall_mem_cons.mpr ⟨by simp, filled⟩
    · intro _
      simp [ends]
    · intro pair
      rw [Neighbours.areApart_nil_cons]
      exact cuts pair

/-- The first letter stands in front of the first word of the rest where its word goes on. -/
theorem cons_cons_iff (own : c.isAlphanum) {d : Char} :
    Segments (c :: rest) ((c :: d :: word) :: words) ↔
      wordGoesOn c rest = true ∧ Segments rest ((d :: word) :: words) := by
  constructor
  · rintro ⟨filled, whole, cuts⟩
    obtain ⟨next, others⟩ := (cuts_cons_iff own).mp cuts
    have behind : ((d :: word) :: words).flatten = rest.filter Char.isAlphanum :=
      (whole_cons_iff own).mp whole
    refine ⟨?_, ?_, behind, others⟩
    · have among : d ∈ rest.filter Char.isAlphanum := behind ▸ List.mem_cons_self
      have more : rest.any Char.isAlphanum := by
        obtain ⟨among, own_next⟩ := List.mem_filter.mp among
        exact List.any_eq_true.mpr ⟨d, among, own_next⟩
      simpa using next more
    · simpa using filled
  · rintro ⟨goes, filled, whole, cuts⟩
    refine ⟨?_, (whole_cons_iff own).mpr whole, (cuts_cons_iff own).mpr ⟨?_, cuts⟩⟩
    · simpa using filled
    · intro _
      simp [goes]

/-- A segmentation of a text in which there is a letter has a first word, which is not empty. -/
theorem exists_eq_cons (segments : Segments text words) (more : text.any Char.isAlphanum) :
    ∃ d word others, words = (d :: word) :: others := by
  cases words with
  | nil =>
      obtain ⟨d, among, own⟩ := List.any_eq_true.mp more
      have kept : d ∈ text.filter Char.isAlphanum := List.mem_filter.mpr ⟨among, own⟩
      rw [← segments.whole] at kept
      cases kept
  | cons word others =>
      obtain ⟨d, word, rfl⟩ :=
        List.exists_cons_of_ne_nil (segments.filled word List.mem_cons_self)
      exact ⟨d, word, others, rfl⟩

end Segments

/-- The words of a text are its one segmentation. -/
theorem segments_iff : Segments text words ↔ words = splitWords text := by
  induction text generalizing words with
  | nil => exact Segments.nil_iff
  | cons c rest ih =>
      by_cases own : c.isAlphanum
      · rw [splitWords, if_pos own]
        constructor
        · intro segments
          -- the words hold the letters in their order, so the first word starts with this one
          obtain ⟨d, word, others, rfl⟩ := segments.exists_eq_cons (by simp [own])
          obtain rfl : d = c := by
            have whole := segments.whole
            rw [List.filter_cons_of_pos own] at whole
            exact (List.cons.inj whole).1
          cases word with
          | nil =>
              obtain ⟨ends, behind⟩ := (Segments.cons_single_iff own).mp segments
              rw [if_neg (by simp [ends]), ih.mp behind]
          | cons e word =>
              obtain ⟨goes, behind⟩ := (Segments.cons_cons_iff own).mp segments
              rw [if_pos goes, ← ih.mp behind]
              rfl
        · rintro rfl
          have behind : Segments rest (splitWords rest) := ih.mpr rfl
          split
          · next goes =>
            obtain ⟨d, word, others, eq⟩ :=
              behind.exists_eq_cons (Segments.any_of_wordGoesOn goes)
            rw [eq] at behind ⊢
            exact (Segments.cons_cons_iff own).mpr ⟨goes, behind⟩
          · next ends =>
            exact (Segments.cons_single_iff own).mpr ⟨eq_false_of_ne_true ends, behind⟩
      · rw [Segments.cons_other_iff own, ih, splitWords, if_neg own]

/-! ## Converted names -/

theorem lowerWord_append (front back : List Char) :
    lowerWord (front ++ back) = lowerWord front ++ lowerWord back := List.map_append

theorem lowerWord_lowerWord (word : List Char) : lowerWord (lowerWord word) = lowerWord word := by
  simp [lowerWord]

theorem lowerWord_capitalWord (word : List Char) :
    lowerWord (capitalWord word) = lowerWord word := by
  cases word with
  | nil => rfl
  | cons c rest =>
      show c.toUpper.toLower :: lowerWord (lowerWord rest) = c.toLower :: lowerWord rest
      rw [lowerWord_lowerWord, Char.toLower_toUpper_eq_toLower]

/-- Up to case, joined words are the words put together. -/
theorem lowerWord_joinPascal (words : List (List Char)) :
    lowerWord (joinPascal words) = lowerWord words.flatten := by
  induction words with
  | nil => rfl
  | cons word words ih =>
      show lowerWord (capitalWord word ++ joinPascal words) = lowerWord (word ++ words.flatten)
      rw [lowerWord_append, lowerWord_append, lowerWord_capitalWord, ih]

theorem lowerWord_joinCamel (words : List (List Char)) :
    lowerWord (joinCamel words) = lowerWord words.flatten := by
  cases words with
  | nil => rfl
  | cons word words =>
      show lowerWord (lowerWord word ++ joinPascal words) = lowerWord (word ++ words.flatten)
      rw [lowerWord_append, lowerWord_append, lowerWord_lowerWord, lowerWord_joinPascal]

/-- The words of a text are its one segmentation.  Up to case, its letters and digits in their order
are what it is converted to, whether the first word is capitalised or not. -/
theorem words_are_segmentation (text : String) :
    (∀ parts : List String,
        Segments text.toList (parts.map String.toList) ↔ parts = Text.words text) ∧
      lowerWord (pascalCase text).toList = lowerWord (text.toList.filter Char.isAlphanum) ∧
      lowerWord (camelCase text).toList = lowerWord (text.toList.filter Char.isAlphanum) := by
  refine ⟨fun parts => ?_, ?_, ?_⟩
  · have split : (Text.words text).map String.toList = splitWords text.toList := by
      simp [Text.words, Function.comp_def]
    rw [segments_iff, ← split]
    exact (List.map_injective_iff.mpr fun _ _ => String.toList_inj.mp).eq_iff
  · rw [pascalCase, String.toList_ofList, lowerWord_joinPascal, flatten_splitWords]
  · rw [camelCase, String.toList_ofList, lowerWord_joinCamel, flatten_splitWords]

/-- A digit goes with the word in front of it, a letter of another alphabet separates words, and the
last capital of an acronym goes with the small letters behind it. -/
example : Text.words "parseHTTPServer2Go_àURLs" =
    ["parse", "HTTP", "Server2", "Go", "UR", "Ls"] := by
  cbv

end Classwright.Text
