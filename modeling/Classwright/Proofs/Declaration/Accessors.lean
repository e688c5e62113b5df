/-
# Classwright.Proofs.Declaration.Accessors — getters and setters in Java tell the fields apart

An accessor is called after its field, with the first letter of the name as a capital.  Names of
fields start with a small letter, so nothing is lost by that.  A truth value whose name is a
question already is read by that name, unless the getter that another field has by default is called
so.  Comparing with the defaults is enough: if the other field is read by a question too, the two
getters are two names of fields.
-/

import Classwright.Backend.Java
import Classwright.Proofs.Render.MemberNaming

namespace Classwright

/-! ## Names with a capital -/

namespace Text

variable {name other text first : String} {more : List String}

theorem toLower_toUpper {c : Char} (small : c.isLower) : c.toUpper.toLower = c :=
  forall_alphanum (P := fun c => c.isLower → c.toUpper.toLower = c) (by decide +kernel)
    (by simp [Char.isAlphanum, Char.isAlpha, small]) small

/-- Names that start with small letters are told apart by what they are with a capital. -/
theorem eq_of_capitalizeFirst_eq (own : Opens Char.isLower name) (also : Opens Char.isLower other)
    (same : capitalizeFirst name = capitalizeFirst other) : name = other := by
  obtain ⟨c, rest, eq, small, _⟩ := own
  obtain ⟨d, others, eq', small', _⟩ := also
  rw [← String.toList_inj, capitalizeFirst, capitalizeFirst, eq, eq', String.toList_ofList,
    String.toList_ofList, List.cons.injEq] at same
  have letter : c = d := by rw [← toLower_toUpper small, same.1, toLower_toUpper small']
  rw [← String.toList_inj, eq, eq', letter, same.2]

theorem length_capitalizeFirst (name : String) :
    (capitalizeFirst name).toList.length = name.toList.length := by
  rw [capitalizeFirst]
  split
  · next empty => rw [empty]; rfl
  · next c rest eq => rw [eq, String.toList_ofList]; rfl

/-- A text of letters and digits begins with the first of its words. -/
theorem prefix_of_words_eq (own : ∀ c ∈ text.toList, c.isAlphanum)
    (eq : words text = first :: more) : first.toList <+: text.toList := by
  have whole : (splitWords text.toList).flatten = text.toList := by
    rw [flatten_splitWords, List.filter_eq_self.mpr own]
  rw [words, List.map_eq_cons_iff] at eq
  obtain ⟨word, others, split, rfl, _⟩ := eq
  rw [split, List.flatten_cons] at whole
  rw [String.toList_ofList, ← whole]
  exact List.prefix_append _ _

end Text

namespace Java

open Text (Opens)

/-! ## Getters of single variables -/

namespace Variable

variable {v w : Variable}

/-- The variable is a truth value whose name starts with `is` and goes on. -/
def AsksQuestion (v : Variable) : Prop :=
  v.isBoolean ∧ ∃ second more, Text.words v.name = "is" :: second :: more

theorem question?_eq_some_iff {question : String} :
    v.question? = some question ↔ v.AsksQuestion ∧ v.name = question := by
  rw [question?, AsksQuestion]
  split
  · next second more eq =>
    rw [eq]
    by_cases truth : v.isBoolean <;> simp [truth]
  · next other =>
    constructor
    · exact nofun
    · rintro ⟨⟨_, second, more, eq⟩, _⟩
      exact absurd eq (other second more)

/-- Getters by default differ if the names do: with different words in front they start with
different letters, and with the same word the names with a capital are left. -/
theorem name_eq_of_plainGetter_eq (own : Opens Char.isLower v.name)
    (also : Opens Char.isLower w.name) (same : v.plainGetter = w.plainGetter) :
    v.name = w.name := by
  refine Text.eq_of_capitalizeFirst_eq own also ?_
  rw [plainGetter, plainGetter, ← String.toList_inj, String.toList_append,
    String.toList_append] at same
  cases hv : v.isBoolean <;> cases hw : w.isBoolean <;> rw [hv, hw] at same
  · exact String.toList_inj.mp (List.append_cancel_left same)
  · exact absurd (congrArg List.head? same) (by simp)
  · exact absurd (congrArg List.head? same) (by simp)
  · exact String.toList_inj.mp (List.append_cancel_left same)

/-- No variable is called like its own getter by default. -/
theorem plainGetter_ne_name (v : Variable) : v.plainGetter ≠ v.name := by
  intro same
  have lengths := congrArg (fun text => text.toList.length) same
  rw [plainGetter, String.toList_append, List.length_append, suffix,
    Text.length_capitalizeFirst] at lengths
  split at lengths <;> simp at lengths

theorem prefix_of_asksQuestion (own : Opens Char.isLower v.name) (asks : v.AsksQuestion) :
    ['i', 's'] <+: v.name.toList := by
  obtain ⟨_, second, more, eq⟩ := asks
  have begins := Text.prefix_of_words_eq (own.isAlphanum Text.isAlpha_of_isLower) eq
  rwa [show "is".toList = ['i', 's'] from String.toList_ofList] at begins

end Variable

/-! ## Getters of all variables -/

/-- A variable is read by its name if that is a question, and not the default of another one. -/
theorem chooseGetter_eq_name {plain : List String} {v : Variable} {place : Nat}
    (asks : v.AsksQuestion) (free : v.name ∉ plain.eraseIdx place) :
    chooseGetter plain v place = v.name := by
  rw [chooseGetter, Variable.question?_eq_some_iff.mpr ⟨asks, rfl⟩]
  exact if_neg free

theorem chooseGetter_eq_plainGetter {plain : List String} {v : Variable} {place : Nat}
    (other : v.AsksQuestion → v.name ∈ plain.eraseIdx place) :
    chooseGetter plain v place = v.plainGetter := by
  rw [chooseGetter]
  split
  · next question found =>
    obtain ⟨asks, rfl⟩ := Variable.question?_eq_some_iff.mp found
    exact if_pos (other asks)
  · rfl

/-- The getter of a variable is one of two. -/
theorem chooseGetter_cases (plain : List String) (v : Variable) (place : Nat) :
    (chooseGetter plain v place = v.name ∧ v.AsksQuestion ∧ v.name ∉ plain.eraseIdx place) ∨
      chooseGetter plain v place = v.plainGetter := by
  by_cases chosen : v.AsksQuestion ∧ v.name ∉ plain.eraseIdx place
  · exact .inl ⟨chooseGetter_eq_name chosen.1 chosen.2, chosen⟩
  · exact .inr (chooseGetter_eq_plainGetter (by simpa using chosen))

/-- The variables of a class: their names start with small letters, are no keywords, and differ. -/
structure AreWellNamed (vs : List Variable) : Prop where
  opens : ∀ v ∈ vs, Opens Char.isLower v.name
  free : ∀ v ∈ vs, v.name ∉ Lexicon.Java.keywords
  distinct : (vs.map (·.name)).Nodup

namespace AreWellNamed

variable {vs : List Variable} {v : Variable}

/-- The getter of another variable by default is among those that a name is compared with. -/
theorem plainGetter_mem_eraseIdx {i j : Nat} (hj : j < vs.length) (apart : i ≠ j) :
    vs[j].plainGetter ∈ (vs.map Variable.plainGetter).eraseIdx i := by
  rw [List.mem_eraseIdx_iff_getElem]
  exact ⟨j, by simpa using hj, apart.symm, List.getElem_map _⟩

/-- Two places have two getters. -/
theorem chooseGetter_ne (named : AreWellNamed vs) {i j : Nat} (hi : i < vs.length)
    (hj : j < vs.length) (apart : i ≠ j) :
    chooseGetter (vs.map Variable.plainGetter) vs[i] i ≠
      chooseGetter (vs.map Variable.plainGetter) vs[j] j := by
  have names : vs[i].name ≠ vs[j].name := by
    intro same
    have within : (vs.map (·.name)).get ⟨i, by simpa using hi⟩ =
        (vs.map (·.name)).get ⟨j, by simpa using hj⟩ := by simpa using same
    exact apart (Fin.val_eq_of_eq (List.nodup_iff_injective_get.mp named.distinct within))
  rcases chooseGetter_cases (vs.map Variable.plainGetter) vs[i] i with ⟨own, _, free⟩ | own <;>
    rcases chooseGetter_cases (vs.map Variable.plainGetter) vs[j] j with ⟨also, _, free'⟩ | also
  · rwa [own, also]
  · -- a question against the default of another variable, which it was compared with
    rw [own, also]
    exact fun same => free (same ▸ plainGetter_mem_eraseIdx hj apart)
  · rw [own, also]
    exact fun same => free' (same ▸ plainGetter_mem_eraseIdx hi apart.symm)
  · rw [own, also]
    exact fun same => names (Variable.name_eq_of_plainGetter_eq
      (named.opens _ (List.getElem_mem hi)) (named.opens _ (List.getElem_mem hj)) same)

/-- A getter starts with `is` or `get`. -/
theorem prefix_chooseGetter (named : AreWellNamed vs) (among : v ∈ vs) (plain : List String)
    (place : Nat) :
    ['i', 's'] <+: (chooseGetter plain v place).toList ∨
      ['g', 'e', 't'] <+: (chooseGetter plain v place).toList := by
  rcases chooseGetter_cases plain v place with ⟨own, asks, _⟩ | own
  · rw [own]
    exact .inl (Variable.prefix_of_asksQuestion (named.opens v among) asks)
  · rw [own, Variable.plainGetter]
    split
    · exact .inl (by simp)
    · exact .inr (by simp)

/-- No field is called `class`, so no getter is the method that every object has. -/
theorem chooseGetter_ne_getClass (named : AreWellNamed vs) (among : v ∈ vs) (plain : List String)
    (place : Nat) : chooseGetter plain v place ≠ "getClass" := by
  have other : ¬ ['i', 's'] <+: "getClass".toList := by simp
  rcases chooseGetter_cases plain v place with ⟨own, asks, _⟩ | own
  · rw [own]
    rintro same
    exact other (same ▸ Variable.prefix_of_asksQuestion (named.opens v among) asks)
  · rw [own]
    intro same
    have word : Opens Char.isLower "class" :=
      ⟨'c', ['l', 'a', 's', 's'], by simp, by decide, by simp [Char.isAlphanum]⟩
    have suffix : v.suffix = Text.capitalizeFirst "class" := by
      have capital : "getClass" = "get" ++ Text.capitalizeFirst "class" := by decide +kernel
      rw [Variable.plainGetter, capital, ← String.toList_inj, String.toList_append,
        String.toList_append] at same
      cases truth : v.isBoolean <;> rw [truth] at same
      · exact String.toList_inj.mp (List.append_cancel_left same)
      · exact absurd (congrArg List.head? same) (by simp)
    have keyword := named.free v among
    rw [Text.eq_of_capitalizeFirst_eq (named.opens v among) word suffix] at keyword
    exact keyword (by decide)

theorem nodup_getters (named : AreWellNamed vs) : ((withGetters vs).map (·.getter)).Nodup := by
  rw [List.Nodup, List.pairwise_iff_getElem]
  intro i j hi hj less
  simp only [withGetters, List.map_map, List.length_map, List.length_zipIdx] at hi hj
  simpa [withGetters] using named.chooseGetter_ne hi hj (Nat.ne_of_lt less)

/-- Setters are called by the names with a capital. -/
theorem nodup_suffixes (named : AreWellNamed vs) : (vs.map Variable.suffix).Nodup :=
  List.pairwise_map.mpr <| (List.pairwise_map.mp named.distinct).imp_of_mem
    fun own also apart same =>
      apart (Text.eq_of_capitalizeFirst_eq (named.opens _ own) (named.opens _ also) same)

end AreWellNamed

end Java

end Classwright
