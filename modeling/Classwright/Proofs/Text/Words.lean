/-
# Classwright.Proofs.Text.Words — what words and converted names consist of

Cutting a name into words keeps its letters and digits and loses everything else.  A case conversion
changes letters into letters, so a converted name consists of letters and digits too, and its first
character has the case that the conversion gives to it.
-/

import Mathlib
import Classwright.Text.Identifier

namespace Classwright.Text

/-! ## Changing the case of a character -/

theorem toNat_lt_of_isAlphanum {c : Char} (own : c.isAlphanum) : c.toNat < 128 := by
  simp only [Char.isAlphanum, Char.isAlpha, Char.isUpper, Char.isLower, Char.isDigit,
    Bool.or_eq_true, Bool.and_eq_true, decide_eq_true_eq, UInt32.le_iff_toNat_le] at own
  show c.val.toNat < 128
  have last : 'z'.val.toNat = 122 := rfl
  have capital : 'Z'.val.toNat = 90 := rfl
  have digit : '9'.val.toNat = 57 := rfl
  omega

/-- What holds of letters and digits is a finite matter. -/
theorem forall_alphanum {P : Char → Prop}
    (each : ∀ code < 128, (Char.ofNat code).isAlphanum → P (Char.ofNat code)) {c : Char}
    (own : c.isAlphanum) : P c := by
  have holds := each c.toNat (toNat_lt_of_isAlphanum own)
  rw [Char.ofNat_toNat] at holds
  exact holds own

theorem isAlphanum_toLower {c : Char} (own : c.isAlphanum) : c.toLower.isAlphanum :=
  forall_alphanum (P := fun c => c.toLower.isAlphanum) (by decide +kernel) own

theorem isAlphanum_toUpper {c : Char} (own : c.isAlphanum) : c.toUpper.isAlphanum :=
  forall_alphanum (P := fun c => c.toUpper.isAlphanum) (by decide +kernel) own

/-! ## Words -/

theorem flatten_attach (c : Char) (words : List (List Char)) :
    (attach c words).flatten = c :: words.flatten := by
  cases words <;> rfl

/-- Words hold the letters and digits of the name, in their order, and nothing else. -/
theorem flatten_splitWords (cs : List Char) :
    (splitWords cs).flatten = cs.filter Char.isAlphanum := by
  induction cs with
  | nil => rfl
  | cons c rest ih =>
      rw [splitWords]
      split
      · next own =>
        rw [List.filter_cons_of_pos own, ← ih]
        split
        · exact flatten_attach c _
        · rfl
      · next other => rw [List.filter_cons_of_neg other, ih]

theorem ne_nil_of_mem_attach {c : Char} {words : List (List Char)}
    (filled : ∀ word ∈ words, word ≠ []) : ∀ word ∈ attach c words, word ≠ [] := by
  cases words with
  | nil => simp [attach]
  | cons first words =>
      intro word among
      rcases List.mem_cons.mp among with rfl | among
      · simp
      · exact filled word (List.mem_cons_of_mem first among)

/-- No word is empty. -/
theorem ne_nil_of_mem_splitWords {cs : List Char} : ∀ word ∈ splitWords cs, word ≠ [] := by
  induction cs with
  | nil => simp [splitWords]
  | cons c rest ih =>
      rw [splitWords]
      split
      · split
        · exact ne_nil_of_mem_attach ih
        · exact List.forall_mem_cons.mpr ⟨by simp, ih⟩
      · exact ih

theorem isAlphanum_of_mem_splitWords {cs word : List Char} (among : word ∈ splitWords cs) :
    ∀ c ∈ word, c.isAlphanum := by
  intro c within
  have kept : c ∈ (splitWords cs).flatten := List.mem_flatten.mpr ⟨word, among, within⟩
  rw [flatten_splitWords] at kept
  exact (List.mem_filter.mp kept).2

/-! ## Converted names -/

theorem isAlphanum_of_mem_lowerWord {word : List Char} (own : ∀ c ∈ word, c.isAlphanum) :
    ∀ c ∈ lowerWord word, c.isAlphanum := by
  intro c within
  obtain ⟨d, origin, rfl⟩ := List.mem_map.mp within
  exact isAlphanum_toLower (own d origin)

theorem isAlphanum_of_mem_capitalWord {word : List Char} (own : ∀ c ∈ word, c.isAlphanum) :
    ∀ c ∈ capitalWord word, c.isAlphanum := by
  cases word with
  | nil => simp [capitalWord]
  | cons first rest =>
      rw [List.forall_mem_cons] at own
      exact List.forall_mem_cons.mpr
        ⟨isAlphanum_toUpper own.1, isAlphanum_of_mem_lowerWord own.2⟩

theorem isAlphanum_of_mem_joinPascal {words : List (List Char)}
    (own : ∀ word ∈ words, ∀ c ∈ word, c.isAlphanum) :
    ∀ c ∈ joinPascal words, c.isAlphanum := by
  intro c within
  obtain ⟨word, among, within⟩ := List.mem_flatMap.mp within
  exact isAlphanum_of_mem_capitalWord (own word among) c within

theorem isAlphanum_of_mem_pascalCase (text : String) :
    ∀ c ∈ (pascalCase text).toList, c.isAlphanum := by
  rw [pascalCase, String.toList_ofList]
  exact isAlphanum_of_mem_joinPascal fun _ => isAlphanum_of_mem_splitWords

theorem isAlphanum_of_mem_camelCase (text : String) :
    ∀ c ∈ (camelCase text).toList, c.isAlphanum := by
  rw [camelCase, String.toList_ofList]
  have own : ∀ word ∈ splitWords text.toList, ∀ c ∈ word, c.isAlphanum :=
    fun _ => isAlphanum_of_mem_splitWords
  revert own
  cases splitWords text.toList with
  | nil => simp [joinCamel]
  | cons word words =>
      intro own
      rw [List.forall_mem_cons] at own
      rw [joinCamel, List.forall_mem_append]
      exact ⟨isAlphanum_of_mem_lowerWord own.1, isAlphanum_of_mem_joinPascal own.2⟩

theorem isAlphanum_of_mem_capitalizeFirst {text : String}
    (own : ∀ c ∈ text.toList, c.isAlphanum) : ∀ c ∈ (capitalizeFirst text).toList, c.isAlphanum := by
  rw [capitalizeFirst]
  split
  · simp
  · next first rest eq =>
    rw [eq, List.forall_mem_cons] at own
    rw [String.toList_ofList]
    exact List.forall_mem_cons.mpr ⟨isAlphanum_toUpper own.1, own.2⟩

/-- A name with every word capitalised starts with no small letter. -/
theorem isLower_head_pascalCase (text : String) :
    ∀ c ∈ (pascalCase text).toList.head?, c.isLower = false := by
  rw [pascalCase, String.toList_ofList]
  have filled := @ne_nil_of_mem_splitWords text.toList
  revert filled
  rcases splitWords text.toList with _ | ⟨_ | ⟨first, rest⟩, words⟩
  · simp [joinPascal]
  · simp
  · simp [joinPascal, capitalWord, Char.isLower_toUpper_eq_false]

/-- A name with every word but the first capitalised starts with no capital. -/
theorem isUpper_head_camelCase (text : String) :
    ∀ c ∈ (camelCase text).toList.head?, c.isUpper = false := by
  rw [camelCase, String.toList_ofList]
  have filled := @ne_nil_of_mem_splitWords text.toList
  revert filled
  rcases splitWords text.toList with _ | ⟨_ | ⟨first, rest⟩, words⟩
  · simp [joinCamel]
  · simp
  · simp [joinCamel, lowerWord, Char.isUpper_toLower_eq_false]

end Classwright.Text
