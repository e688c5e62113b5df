/-
# Classwright.Proofs.Json.Reader — what readers take off the front of a token list

Two statements about a reader compose along the way readers are built from each other.

* `Reads item ts value`: the reader takes exactly the tokens `ts` for the value, whatever follows.
  It is how reading is shown to undo writing.
* `Yields item holds`: whatever the tokens are, a value that is read satisfies `holds`.  It is how a
  limit on the nesting of a text becomes a limit on the nesting of what was read from it.

Neither says where a reader fails.  A record that is complete and refused all the same is therefore
described one level further up, by the outcome of its `finish` (`RecordRule.read_object`).
-/

import Classwright.Proofs.Json.Scan

namespace Classwright.Json

variable {α β σ : Type}

/-! ## Reading back -/

/-- The reader takes the tokens for the value and stops behind them, whatever stands there. -/
def Reads (item : Reader α) (ts : List Token) (value : α) : Prop :=
  ∀ rest, ∃ h, item (ts ++ rest) = .ok (value, ⟨rest, h⟩)

theorem reads_readString (text : String) : Reads readString [.string (some text)] text :=
  fun _ => ⟨Nat.lt_succ_self _, rfl⟩

theorem Reads.map {item : Reader α} {ts : List Token} {value : α} (f : α → β)
    (reads : Reads item ts value) : Reads (fun ts => (item ts).map f) ts (f value) := by
  intro rest
  obtain ⟨h, found⟩ := reads rest
  refine ⟨h, ?_⟩
  show (item _).map f = _
  rw [found]
  rfl

/-- A reader that hands everything behind a first token to another reader. -/
theorem Reads.behind {item outer : Reader α} {t : Token} {ts : List Token} {value : α}
    (hands : ∀ rest, outer (t :: rest) = (item rest).behind t) (reads : Reads item ts value) :
    Reads outer (t :: ts) value := by
  intro rest
  obtain ⟨h, found⟩ := reads rest
  refine ⟨Nat.lt_succ_of_lt h, ?_⟩
  show outer (t :: (ts ++ rest)) = _
  rw [hands, found]
  rfl

/-! ### Lists -/

theorem elements_last {item : Reader α} {ts rest : List Token} {first : α} {h}
    (found : item ts = .ok (first, ⟨.closing .square :: rest, h⟩)) :
    ∃ h', elements item ts = .ok ([first], ⟨rest, h'⟩) := by
  rw [elements, found]
  exact ⟨Nat.lt_of_succ_lt h, rfl⟩

theorem elements_more {item : Reader α} {ts more rest : List Token} {first : α} {others : List α}
    {h h'} (found : item ts = .ok (first, ⟨.comma :: more, h⟩))
    (behind : elements item more = .ok (others, ⟨rest, h'⟩)) :
    ∃ h'', elements item ts = .ok (first :: others, ⟨rest, h''⟩) := by
  rw [elements, found]
  simp only [behind]
  exact ⟨Nat.lt_trans h' (Nat.lt_of_succ_lt h), trivial⟩

theorem reads_elements {item : Reader α} {tokens : α → List Token} : ∀ {values : List α},
    values ≠ [] → (∀ value ∈ values, Reads item (tokens value) value) →
      Reads (elements item)
        (List.intercalate [.comma] (values.map tokens) ++ [.closing .square]) values
  | [], filled, _ => absurd rfl filled
  | [value], _, each => by
      intro rest
      obtain ⟨h, found⟩ := each value List.mem_cons_self (.closing .square :: rest)
      have shape : List.intercalate [.comma] ([value].map tokens) ++ [.closing .square] ++ rest =
          tokens value ++ .closing .square :: rest := by simp
      rw [shape]
      exact elements_last found
  | value :: other :: values, _, each => by
      intro rest
      have others := reads_elements (List.cons_ne_nil other values) fun v among =>
        each v (List.mem_cons_of_mem _ among)
      obtain ⟨h', behind⟩ := others rest
      obtain ⟨h, found⟩ := each value List.mem_cons_self (.comma :: _)
      have shape : List.intercalate [.comma] ((value :: other :: values).map tokens) ++
          [.closing .square] ++ rest = tokens value ++ .comma ::
            (List.intercalate [.comma] ((other :: values).map tokens) ++ [.closing .square] ++
              rest) := by simp [List.intercalate]
      rw [shape]
      exact elements_more found behind

theorem listBody_of_elements {item : Reader α} {ts : List Token} {found : List α × Shorter ts}
    (refuses : ∀ rest, ∃ e, item (.closing .square :: rest) = .error e)
    (some : elements item ts = .ok found) : listBody item ts = .ok found := by
  unfold listBody
  split
  · next rest =>
    -- the first element would have been read off the closing bracket
    obtain ⟨e, refused⟩ := refuses rest
    rw [elements, refused] at some
    cases some
  · exact some

/-- A list of values whose reader does not take a closing bracket for a value. -/
theorem reads_readList {item : Nat → Reader α} {levels : Nat} {tokens : α → List Token}
    {values : List α} (refuses : ∀ rest, ∃ e, item levels (.closing .square :: rest) = .error e)
    (each : ∀ value ∈ values, Reads (item levels) (tokens value) value) :
    Reads (readList (levels + 1) item) (listTokens (values.map tokens)) values := by
  apply Reads.behind (fun _ => rfl)
  cases values with
  | nil => exact fun rest => ⟨Nat.lt_succ_self _, rfl⟩
  | cons value values =>
      intro rest
      obtain ⟨h, found⟩ := reads_elements (List.cons_ne_nil value values) each rest
      exact ⟨h, listBody_of_elements refuses found⟩

/-! ### Objects -/

theorem entries_last {step : String → σ → Except ReadError (Reader σ)} {key : String} {s s' : σ}
    {value : Reader σ} {ts : List Token} (known : step key s = .ok value)
    (reads : Reads value ts s') :
    Reads (entries step s) (.string (some key) :: .colon :: (ts ++ [.closing .curly])) s' := by
  intro rest
  obtain ⟨h, found⟩ := reads (.closing .curly :: rest)
  have shape : Token.string (some key) :: .colon :: (ts ++ [.closing .curly]) ++ rest =
      .string (some key) :: .colon :: (ts ++ .closing .curly :: rest) := by simp
  rw [shape, entries]
  simp only [known, readColon, Read.andThen, found]
  exact ⟨by simp only [List.length_cons, List.length_append]; omega, trivial⟩

theorem entries_more {step : String → σ → Except ReadError (Reader σ)} {key : String}
    {s s' s'' : σ} {value : Reader σ} {ts more : List Token} (known : step key s = .ok value)
    (reads : Reads value ts s') (others : Reads (entries step s') more s'') :
    Reads (entries step s) (.string (some key) :: .colon :: (ts ++ .comma :: more)) s'' := by
  intro rest
  obtain ⟨h, found⟩ := reads (.comma :: (more ++ rest))
  obtain ⟨h', behind⟩ := others rest
  have shape : Token.string (some key) :: .colon :: (ts ++ .comma :: more) ++ rest =
      .string (some key) :: .colon :: (ts ++ .comma :: (more ++ rest)) := by simp
  rw [shape, entries]
  simp only [known, readColon, Read.andThen, found, behind]
  exact ⟨by simp only [List.length_cons, List.length_append] at h' ⊢; omega, trivial⟩

theorem objectBody_of_entries {step : String → σ → Except ReadError (Reader σ)} {s : σ}
    {ts : List Token} {found : σ × Shorter ts} (some : entries step s ts = .ok found) :
    objectBody step s ts = .ok found := by
  unfold objectBody
  split
  · next rest =>
    have none : entries step s (.closing .curly :: rest) = .error (.flaw .malformed) := by
      rw [entries.eq_def]
      rfl
    rw [none] at some
    cases some
  · exact some

theorem Reads.objectBody {step : String → σ → Except ReadError (Reader σ)} {s s' : σ}
    {ts : List Token} (reads : Reads (entries step s) ts s') : Reads (objectBody step s) ts s' := by
  intro rest
  obtain ⟨h, found⟩ := reads rest
  exact ⟨h, objectBody_of_entries found⟩

/-! ### Tables -/

/-- The table after further entries. -/
def insertEntries (members table : List (String × α)) : List (String × α) :=
  members.foldl (fun table member => insertEntry member.1 member.2 table) table

theorem insertEntries_cons (member : String × α) (members table : List (String × α)) :
    insertEntries (member :: members) table =
      insertEntries members (insertEntry member.1 member.2 table) := rfl

theorem perm_insertEntry {key : String} {table : List (String × α)}
    (new : key ∉ table.map Prod.fst) (value : α) :
    (insertEntry key value table).Perm ((key, value) :: table) := by
  induction table with
  | nil => rfl
  | cons entry table ih =>
      rw [List.map_cons, List.mem_cons, not_or] at new
      rw [insertEntry, if_neg new.1]
      split
      · rfl
      · exact ((ih new.2).cons entry).trans (.swap ..)

/-- Entries under different keys all stay. -/
theorem perm_insertEntries {members table : List (String × α)}
    (distinct : ((members ++ table).map Prod.fst).Nodup) :
    (insertEntries members table).Perm (members ++ table) := by
  induction members generalizing table with
  | nil => rfl
  | cons member members ih =>
      have moved : (members ++ member :: table).Perm (member :: (members ++ table)) :=
        List.perm_middle
      have distinctMoved := ((moved.map Prod.fst).nodup_iff).mpr distinct
      have new : member.1 ∉ table.map Prod.fst := by
        rw [List.map_append, List.map_cons] at distinctMoved
        exact (List.nodup_cons.mp (List.nodup_append.mp distinctMoved).2.1).1
      have inserted := (perm_insertEntry new member.2).append_left members
      exact (ih ((inserted.map Prod.fst).nodup_iff.mpr distinctMoved)).trans (inserted.trans moved)

/-- The entries of a table, one at least, are read into the table one after the other.  They are
given as their keys, their values and the tokens of these. -/
theorem reads_entries_insertEntry {item : Reader α} (table : List (String × α)) :
    ∀ {members : List (String × α × List Token)}, members ≠ [] →
      (∀ m ∈ members, Reads item m.2.2 m.2.1) →
      Reads (entries (fun key table => .ok fun ts => (item ts).map fun value =>
          insertEntry key value table) table)
        (List.intercalate [.comma] (members.map fun m => .string (some m.1) :: .colon :: m.2.2) ++
          [.closing .curly])
        (insertEntries (members.map fun m => (m.1, m.2.1)) table)
  | [], filled, _ => absurd rfl filled
  | [m], _, each => by
      have value := (each m List.mem_cons_self).map fun value => insertEntry m.1 value table
      simpa [insertEntries] using entries_last rfl value
  | m :: other :: members, _, each => by
      have value := (each m List.mem_cons_self).map fun value => insertEntry m.1 value table
      have others := reads_entries_insertEntry (insertEntry m.1 m.2.1 table)
        (List.cons_ne_nil other members) fun m among => each m (List.mem_cons_of_mem _ among)
      simpa [List.intercalate, insertEntries_cons] using entries_more rfl value others

/-- An object whose values can be read is the table of its entries. -/
theorem reads_readTable {item : Nat → Reader α} {levels : Nat}
    {members : List (String × α × List Token)}
    (each : ∀ m ∈ members, Reads (item levels) m.2.2 m.2.1) :
    Reads (readTable (levels + 1) item) (objectTokens (members.map fun m => (m.1, m.2.2)))
      (insertEntries (members.map fun m => (m.1, m.2.1)) []) := by
  rw [objectTokens, List.map_map]
  apply Reads.behind (fun _ => rfl)
  cases members with
  | nil => exact fun rest => ⟨Nat.lt_succ_self _, rfl⟩
  | cons m members =>
      exact (reads_entries_insertEntry [] (List.cons_ne_nil m members) each).objectBody

/-! ### Records -/

/-- A field is read where its key stands, unless it has been read before. -/
theorem RecordRule.step_eq {rule : RecordRule σ α} {field : FieldRule σ} {key : String} {s : σ}
    (levels : Nat) (known : rule.fields.find? (·.key = key) = some field)
    (first : field.given s = false) : rule.step levels key s = .ok (field.read levels s) := by
  rw [step, known]
  simp [first]

/-- A record whose fields can be read is what `finish` makes of them, which may be refused. -/
theorem RecordRule.read_object {rule : RecordRule σ α} {levels : Nat} {ts : List Token} {s : σ}
    (body : Reads (Json.objectBody (rule.step levels) rule.start) ts s) (rest : List Token) :
    ∃ h, rule.read (levels + 1) (.opening .curly :: (ts ++ rest)) =
      (rule.finish s).map fun value => (value, ⟨rest, h⟩) := by
  obtain ⟨h, found⟩ := body rest
  refine ⟨Nat.lt_succ_of_lt h, ?_⟩
  rw [RecordRule.read, found, Read.check]
  cases rule.finish s with
  | ok value => rfl
  | error e => rfl

theorem RecordRule.reads_object {rule : RecordRule σ α} {levels : Nat} {ts : List Token} {s : σ}
    {value : α} (body : Reads (Json.objectBody (rule.step levels) rule.start) ts s)
    (complete : rule.finish s = .ok value) :
    Reads (rule.read (levels + 1)) (.opening .curly :: ts) value := by
  intro rest
  obtain ⟨h, found⟩ := read_object body rest
  rw [complete] at found
  exact ⟨h, found⟩

/-! ### Tagged values -/

theorem reads_bareTag {bare : String → Except ReadError α}
    {keyed : String → Except ReadError (Reader α)} {tag : String} {value : α} (levels : Nat)
    (known : bare tag = .ok value) :
    Reads (readTagged levels bare keyed) [.string (some tag)] value := by
  intro rest
  refine ⟨Nat.lt_succ_self _, ?_⟩
  show readTagged levels bare keyed (.string (some tag) :: rest) = _
  rw [readTagged, known]

theorem reads_keyedTag {bare : String → Except ReadError α}
    {keyed : String → Except ReadError (Reader α)} {tag : String} {item : Reader α}
    {ts : List Token} {value : α} (levels : Nat) (known : keyed tag = .ok item)
    (reads : Reads item ts value) :
    Reads (readTagged (levels + 1) bare keyed) (objectTokens [(tag, ts)]) value := by
  rw [objectTokens_one]
  intro rest
  obtain ⟨h, found⟩ := reads (.closing .curly :: rest)
  have shape : Token.opening .curly :: .string (some tag) :: .colon :: (ts ++ [.closing .curly]) ++
      rest = .opening .curly :: .string (some tag) :: .colon :: (ts ++ .closing .curly :: rest) := by
    simp
  rw [shape, readTagged, if_neg (Nat.succ_ne_zero levels)]
  simp only [known, readColon, Read.andThen, found, readObjectEnd, Read.map, Read.behind]
  exact ⟨by simp only [List.length_cons, List.length_append]; omega, trivial⟩

/-! ### Whole texts, read back -/

theorem readText_eq {item : Reader α} {text : String} {outcome : Except ReadError α}
    (read : ∃ h, item (tokens text) = outcome.map fun value => (value, ⟨[], h⟩)) :
    readText item text = outcome := by
  obtain ⟨h, found⟩ := read
  rw [readText, found]
  cases outcome with
  | ok value => rfl
  | error e => rfl

/-! ## What can be read -/

/-- Every value that is read satisfies `holds`, whatever the tokens are. -/
def Yields (item : Reader α) (holds : α → Prop) : Prop :=
  ∀ ts value rest, item ts = .ok (value, rest) → holds value

theorem Read.map_eq_ok {ts : List Token} {found : Read α ts} {f : α → β} {value : β} {rest}
    (eq : found.map f = .ok (value, rest)) : ∃ a, found = .ok (a, rest) ∧ f a = value := by
  cases found with
  | error e => cases eq
  | ok pair =>
      cases eq
      exact ⟨pair.1, rfl, rfl⟩

theorem Read.behind_eq_ok {t : Token} {ts : List Token} {found : Read α ts} {value : α} {rest}
    (eq : found.behind t = .ok (value, rest)) : ∃ rest', found = .ok (value, rest') := by
  cases found with
  | error e => cases eq
  | ok pair =>
      cases eq
      exact ⟨pair.2, rfl⟩

theorem Read.check_eq_ok {ts : List Token} {found : Read α ts} {f : α → Except ReadError β}
    {value : β} {rest} (eq : found.check f = .ok (value, rest)) :
    ∃ a, found = .ok (a, rest) ∧ f a = .ok value := by
  cases found with
  | error e => cases eq
  | ok pair =>
      obtain ⟨a, rest'⟩ := pair
      unfold Read.check at eq
      simp only at eq
      split at eq
      · cases eq
      · next result ok =>
        cases eq
        exact ⟨a, rfl, ok⟩

theorem Read.andThen_eq_ok {ts : List Token} {found : Read α ts} {next : α → Reader β} {value : β}
    {rest} (eq : found.andThen next = .ok (value, rest)) :
    ∃ a rest' rest'', found = .ok (a, rest') ∧ next a rest'.1 = .ok (value, rest'') := by
  cases found with
  | error e => cases eq
  | ok pair =>
      obtain ⟨a, rest', h⟩ := pair
      unfold Read.andThen at eq
      simp only at eq
      split at eq
      · cases eq
      · next ok =>
        cases eq
        exact ⟨a, ⟨rest', h⟩, _, rfl, ok⟩

namespace Yields

variable {item : Reader α} {holds : α → Prop}

theorem map {f : α → β} {holdsAfter : β → Prop} (yields : Yields item holds)
    (keeps : ∀ value, holds value → holdsAfter (f value)) :
    Yields (fun ts => (item ts).map f) holdsAfter := by
  intro ts value rest eq
  obtain ⟨a, found, rfl⟩ := Read.map_eq_ok eq
  exact keeps a (yields ts a rest found)

theorem mono {weaker : α → Prop} (yields : Yields item holds)
    (implies : ∀ value, holds value → weaker value) : Yields item weaker :=
  fun ts value rest eq => implies value (yields ts value rest eq)

/-! ### Lists -/

theorem elements (yields : Yields item holds) :
    Yields (elements item) fun values => ∀ value ∈ values, holds value := by
  intro ts
  induction size : ts.length using Nat.strongRecOn generalizing ts with
  | _ n ih =>
    intro values last eq
    rw [Json.elements] at eq
    split at eq
    · cases eq
    · next first more h found =>
      split at eq
      · cases eq
      · next others behind h' others_eq =>
        cases eq
        refine List.forall_mem_cons.mpr ⟨yields ts first _ found, ?_⟩
        exact ih more.length (by simp only [List.length_cons] at h; omega) more rfl _ _ others_eq
    · next first more h found =>
      cases eq
      exact List.forall_mem_singleton.mpr (yields ts first _ found)
    · cases eq
    · cases eq

theorem listBody (yields : Yields item holds) :
    Yields (listBody item) fun values => ∀ value ∈ values, holds value := by
  intro ts values rest eq
  unfold Json.listBody at eq
  split at eq
  · cases eq
    exact List.forall_mem_nil _
  · exact yields.elements _ _ _ eq

theorem readList {item : Nat → Reader α} {levels : Nat}
    (yields : ∀ below, levels = below + 1 → Yields (item below) holds) :
    Yields (readList levels item) fun values => ∀ value ∈ values, holds value := by
  intro ts values rest eq
  unfold Json.readList at eq
  split at eq
  · split at eq
    · cases eq
    · next below =>
      obtain ⟨rest', found⟩ := Read.behind_eq_ok eq
      exact (yields below rfl).listBody _ _ _ found
  · cases eq

/-! ### Objects -/

section Entries

variable {step : String → σ → Except ReadError (Reader σ)} {invariant : σ → Prop}

/-- What every entry preserves holds behind the last one. -/
theorem entries
    (preserves : ∀ key s value, invariant s → step key s = .ok value → Yields value invariant)
    {s : σ} (start : invariant s) : Yields (entries step s) invariant := by
  intro ts
  induction size : ts.length using Nat.strongRecOn generalizing ts s with
  | _ n ih =>
    intro result last eq
    rw [Json.entries.eq_def] at eq
    split at eq
    · next key more =>
      split at eq
      · cases eq
      · next value known =>
        -- the entry has preserved the invariant, whether it was the last one or not
        have kept : ∀ {s' rest}, (readColon more).andThen (fun _ => value) = .ok (s', rest) →
            invariant s' := by
          intro s' rest found
          obtain ⟨_, rest', rest'', _, read⟩ := Read.andThen_eq_ok found
          exact preserves key s value start known _ _ _ read
        split at eq
        · cases eq
        · next s' rest h found =>
          split at eq
          · cases eq
          · next result' last' h' behind =>
            cases eq
            refine ih rest.length ?_ (kept found) rest rfl _ _ behind
            simp only [List.length_cons] at h size
            omega
        · next found =>
          cases eq
          exact kept found
        · cases eq
        · cases eq
    · cases eq

theorem objectBody
    (preserves : ∀ key s value, invariant s → step key s = .ok value → Yields value invariant)
    {s : σ} (start : invariant s) : Yields (objectBody step s) invariant := by
  intro ts result rest eq
  unfold Json.objectBody at eq
  split at eq
  · cases eq
    exact start
  · exact entries preserves start _ _ _ eq

end Entries

end Yields

namespace RecordRule

variable {rule : RecordRule σ α} {invariant : σ → Prop} {levels : Nat}

theorem yields_of_step {key : String} {s : σ} {value : Reader σ} (start : invariant s)
    (fields : ∀ field ∈ rule.fields, ∀ s, invariant s → Yields (field.read levels s) invariant)
    (eq : rule.step levels key s = .ok value) : Yields value invariant := by
  unfold step at eq
  split at eq
  · next field known =>
    split at eq
    · cases eq
    · cases eq
      exact fields field (List.mem_of_find?_eq_some known) s start
  · cases eq
    intro ts result rest read
    obtain ⟨_, _, rfl⟩ := Read.map_eq_ok read
    exact start

/-- What every field preserves holds of a record that is written as a list, cut short or not. -/
theorem yields_listFields {remaining : List (FieldRule σ)} (place : Nat) {s : σ}
    (start : invariant s)
    (fields : ∀ field ∈ remaining, ∀ s, invariant s → Yields (field.read levels s) invariant) :
    Yields (rule.listFields levels place s remaining) invariant := by
  induction remaining generalizing place s with
  | nil =>
      intro ts result rest eq
      unfold listFields listEnd at eq
      split at eq <;> cases eq
      exact start
  | cons field remaining ih =>
      intro ts result rest eq
      unfold listFields at eq
      -- the equations look at the fields and the tokens at once
      generalize all : field :: remaining = pending at eq
      split at eq
      · cases all
      · split at eq <;> cases eq
        exact start
      · cases all
        obtain ⟨s', rest', rest'', found, behind⟩ := Read.andThen_eq_ok eq
        -- the first field has no comma in front, the others have one
        have kept : invariant s' := by
          have own := fields field List.mem_cons_self s start
          split at found
          · exact own _ _ _ found
          · split at found
            · obtain ⟨_, read⟩ := Read.behind_eq_ok found
              exact own _ _ _ read
            · cases found
            · cases found
        exact ih (place + 1) kept (fun f among => fields f (List.mem_cons_of_mem _ among)) _ _ _
          behind

/-- What every field preserves and the completion of a record makes of it. -/
theorem yields_read (invariant : σ → Prop) {holds : α → Prop} (start : invariant rule.start)
    (fields : ∀ below, levels = below + 1 → ∀ field ∈ rule.fields, ∀ s, invariant s →
      Yields (field.read below s) invariant)
    (finish : ∀ s value, invariant s → rule.finish s = .ok value → holds value) :
    Yields (rule.read levels) holds := by
  intro ts value rest eq
  unfold read at eq
  split at eq
  · split at eq
    · cases eq
    · next below =>
      obtain ⟨_, found⟩ := Read.behind_eq_ok eq
      obtain ⟨s, body, complete⟩ := Read.check_eq_ok found
      refine finish s value ?_ complete
      refine Yields.objectBody (fun key s item holds known => ?_) start _ _ _ body
      exact yields_of_step holds (fields below rfl) known
  · split at eq
    · cases eq
    · next below =>
      obtain ⟨_, found⟩ := Read.behind_eq_ok eq
      obtain ⟨s, body, complete⟩ := Read.check_eq_ok found
      exact finish s value (yields_listFields 0 start (fields below rfl) _ _ _ body) complete
  · cases eq

end RecordRule

/-! ### Tagged values -/

theorem yields_readTagged {bare : String → Except ReadError α}
    {keyed : String → Except ReadError (Reader α)} {levels : Nat} {holds : α → Prop}
    (leaf : ∀ tag value, bare tag = .ok value → holds value)
    (under : levels ≠ 0 → ∀ tag item, keyed tag = .ok item → Yields item holds) :
    Yields (readTagged levels bare keyed) holds := by
  intro ts value rest eq
  unfold readTagged at eq
  split at eq
  · next tag more =>
    split at eq
    · cases eq
    · next known =>
      cases eq
      exact leaf tag value known
  · next tag more =>
    split at eq
    · cases eq
    · next room =>
      split at eq
      · cases eq
      · next item known =>
        -- in front of the item stand a bracket, the tag and a colon, and behind it the other bracket
        obtain ⟨_, first⟩ := Read.behind_eq_ok eq
        obtain ⟨_, second⟩ := Read.behind_eq_ok first
        obtain ⟨_, _, _, _, third⟩ := Read.andThen_eq_ok second
        obtain ⟨a, _, _, read, last⟩ := Read.andThen_eq_ok third
        obtain ⟨_, _, rfl⟩ := Read.map_eq_ok last
        exact under room tag item known _ _ _ read
  · split at eq <;> cases eq
  · cases eq
  · cases eq
  · cases eq

/-! ### Whole texts -/

theorem Yields.readText {item : Reader α} {holds : α → Prop} (yields : Yields item holds)
    {text : String} {value : α} (read : readText item text = .ok value) : holds value := by
  unfold Json.readText at read
  split at read
  · cases read
  · next found =>
    cases read
    exact yields _ _ _ found
  · cases read

end Classwright.Json
