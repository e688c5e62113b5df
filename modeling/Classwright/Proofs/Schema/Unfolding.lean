/-
# Classwright.Proofs.Schema.Unfolding — classes written out in full

A class can be written out without names of other classes: wherever its fields refer to a class,
that class stands there itself, written out in the same way.  This comes to an end because following
references does.  Two classes describe the same values exactly if they are the same written out, so
this is the measure for merging classes.
-/

import Classwright.Proofs.Schema.Sound

namespace Classwright

/-! ## Types without names -/

mutual

/-- A value type in which the fields of a class stand in place of its name. -/
inductive Unfolded where
  | integer
  | float
  | string
  | boolean
  | any
  | null
  | array (item : Unfolded)
  | optional (inner : Unfolded)
  | object (fields : UnfoldedFields)
  deriving DecidableEq, Repr

/-- The fields of a class in their order. -/
inductive UnfoldedFields where
  | nil
  | cons (key : String) (type : Unfolded) (rest : UnfoldedFields)
  deriving DecidableEq, Repr

end

namespace ValueType

/-- The type with the fields of every class that it refers to. -/
def unfoldedWith (fieldsOf : String → UnfoldedFields) : ValueType → Unfolded
  | .integer => .integer
  | .float => .float
  | .string => .string
  | .boolean => .boolean
  | .any => .any
  | .null => .null
  | .array item => .array (item.unfoldedWith fieldsOf)
  | .optional inner => .optional (inner.unfoldedWith fieldsOf)
  | .reference name => .object (fieldsOf name)

variable {first second : String → UnfoldedFields}

/-- Only the classes that a type mentions matter. -/
theorem unfoldedWith_congr {type : ValueType}
    (same : ∀ name, type.Mentions name → first name = second name) :
    type.unfoldedWith first = type.unfoldedWith second := by
  induction type with
  | reference name => exact congrArg Unfolded.object (same name ⟨0, .here⟩)
  | array item ih =>
      exact congrArg Unfolded.array (ih fun name within => same name (mentions_array.mpr within))
  | optional inner ih =>
      exact congrArg Unfolded.optional
        (ih fun name within => same name (mentions_optional.mpr within))
  | _ => rfl

theorem unfoldedWith_rename (newName : String → String) (type : ValueType) :
    (type.rename newName).unfoldedWith first = type.unfoldedWith (first ∘ newName) := by
  induction type with
  | array item ih => exact congrArg Unfolded.array ih
  | optional inner ih => exact congrArg Unfolded.optional ih
  | _ => rfl

/-- A type can be told from the way it unfolds if the classes that it mentions can. -/
theorem eq_of_unfoldedWith_eq {left right : ValueType}
    (eq : left.unfoldedWith first = right.unfoldedWith first)
    (told : ∀ m n, left.Mentions m → right.Mentions n → first m = first n → m = n) :
    left = right := by
  induction left generalizing right with
  | array item ih =>
      cases right with
      | array other =>
          refine congrArg array (ih (Unfolded.array.inj eq) fun m n inLeft inRight => ?_)
          exact told m n (mentions_array.mpr inLeft) (mentions_array.mpr inRight)
      | _ => cases eq
  | optional inner ih =>
      cases right with
      | optional other =>
          refine congrArg optional (ih (Unfolded.optional.inj eq) fun m n inLeft inRight => ?_)
          exact told m n (mentions_optional.mpr inLeft) (mentions_optional.mpr inRight)
      | _ => cases eq
  | reference m =>
      cases right with
      | reference n =>
          exact congrArg reference (told m n ⟨0, .here⟩ ⟨0, .here⟩ (Unfolded.object.inj eq))
      | _ => cases eq
  | _ =>
      cases right with
      | _ => first | rfl | cases eq

end ValueType

/-! ## Classes without names -/

namespace UnfoldedFields

/-- The fields with the fields of every class that they refer to. -/
def ofFields (fieldsOf : String → UnfoldedFields) : List Field → UnfoldedFields
  | [] => .nil
  | field :: rest => .cons field.key (field.type.unfoldedWith fieldsOf) (ofFields fieldsOf rest)

variable {first second : String → UnfoldedFields}

theorem ofFields_congr {fields : List Field}
    (same : ∀ field ∈ fields, ∀ name, field.type.Mentions name → first name = second name) :
    ofFields first fields = ofFields second fields := by
  induction fields with
  | nil => rfl
  | cons field rest ih =>
      rw [List.forall_mem_cons] at same
      rw [ofFields, ofFields, ValueType.unfoldedWith_congr same.1, ih same.2]

theorem ofFields_rename (newName : String → String) (c : ClassDef) :
    ofFields first (c.rename newName).fields = ofFields (first ∘ newName) c.fields := by
  rw [ClassDef.rename]
  induction c.fields with
  | nil => rfl
  | cons field rest ih =>
      rw [List.map_cons, ofFields, ofFields, ValueType.unfoldedWith_rename, ih]

theorem eq_of_ofFields_eq {left right : List Field}
    (eq : ofFields first left = ofFields first right)
    (told : ∀ a ∈ left, ∀ b ∈ right, ∀ m n, a.type.Mentions m → b.type.Mentions n →
      first m = first n → m = n) : left = right := by
  induction left generalizing right with
  | nil =>
      cases right with
      | nil => rfl
      | cons b right => cases eq
  | cons a left ih =>
      cases right with
      | nil => cases eq
      | cons b right =>
          rw [ofFields, ofFields, cons.injEq] at eq
          obtain ⟨key, type, rest⟩ := eq
          have head : a.type = b.type := ValueType.eq_of_unfoldedWith_eq type
            (told a List.mem_cons_self b List.mem_cons_self)
          have tail : left = right := ih rest fun a inLeft b inRight =>
            told a (List.mem_cons_of_mem _ inLeft) b (List.mem_cons_of_mem _ inRight)
          obtain ⟨aKey, aType⟩ := a
          obtain ⟨bKey, bType⟩ := b
          obtain rfl : aKey = bKey := key
          obtain rfl : aType = bType := head
          rw [tail]

end UnfoldedFields

/-! ## The classes of a schema -/

namespace Schema

/-- A name, as a place from which references of the schema are followed. -/
structure Place (s : Schema) where
  name : String

instance (s : Schema) : WellFoundedRelation s.Place where
  rel next place := ClassList.RefersTo s.classes place.name next.name
  wf := InvImage.wf Place.name s.wellFounded_refersTo

/-- The class of that name, written out; nothing, if there is no such class. -/
def unfolding (s : Schema) (name : String) : UnfoldedFields :=
  match _found : s.find? name with
  | none => .nil
  | some c => .ofFields (fun next => if _ : next ∈ c.nested then s.unfolding next else .nil) c.fields
termination_by (⟨name⟩ : s.Place)
decreasing_by
  obtain ⟨among, named⟩ := find?_eq_some_iff.mp _found
  exact ⟨c, among, named, ClassDef.mem_nested_iff.mp ‹_›⟩

/-- A class unfolds into its fields with what the classes in them unfold into. -/
theorem unfolding_name {s : Schema} {c : ClassDef} (among : c ∈ s.classes) :
    s.unfolding c.name = .ofFields s.unfolding c.fields := by
  rw [unfolding]
  split
  · next missing =>
    rw [find?_name among] at missing
    cases missing
  · next d found =>
    rw [find?_name among] at found
    obtain rfl := Option.some.inj found
    refine UnfoldedFields.ofFields_congr fun field has name mentions => ?_
    exact dif_pos (ClassDef.mem_nested_iff.mpr ⟨field, has, mentions⟩)

/-- Classes with the same fields unfold alike. -/
theorem unfolding_eq_of_sameShape {s : Schema} {c d : ClassDef} (hc : c ∈ s.classes)
    (hd : d ∈ s.classes) (same : c.sameShape d) : s.unfolding c.name = s.unfolding d.name := by
  rw [unfolding_name hc, unfolding_name hd, of_decide_eq_true same]

/-- If no two classes have the same fields, then no two of them unfold alike: in two different
classes the first difference is seen after finitely many steps. -/
theorem eq_of_unfolding_eq {s : Schema}
    (apart : ∀ c ∈ s.classes, ∀ d ∈ s.classes, c.sameShape d → c = d) (name : String) :
    ∀ other, (∃ c ∈ s.classes, c.name = name) → (∃ d ∈ s.classes, d.name = other) →
      s.unfolding name = s.unfolding other → name = other := by
  induction name using s.wellFounded_refersTo.induction with
  | _ name ih =>
    rintro _ ⟨c, hc, rfl⟩ ⟨d, hd, rfl⟩ eq
    rw [unfolding_name hc, unfolding_name hd] at eq
    have fields : c.fields = d.fields := by
      refine UnfoldedFields.eq_of_ofFields_eq eq fun a inC b inD m n atM atN => ?_
      exact ih m ⟨c, hc, rfl, a, inC, atM⟩ n (s.sound.declared c hc a inC m atM)
        (s.sound.declared d hd b inD n atN)
    rw [apart c hc d hd (decide_eq_true fields)]

end Schema

end Classwright
