/-
# Classwright.Text.NameSupply — unique names within one scope

A supply remembers the names that are taken.  The first request for a name gets it unchanged; a
request for a taken name gets the name followed by the least number from 2 on that makes it free.
What comes out depends on the requests and their order alone.

The search for a free number has no bound in its statement.  It ends because each number it passes
over uses up one taken name: the recursion drops that name from its copy, and the copy gets shorter.
-/

namespace Classwright.Text

/-- The names taken within one scope. -/
structure NameSupply where
  taken : List String
  deriving Repr

namespace NameSupply

/-- A scope in which no name is taken. -/
def empty : NameSupply := ⟨[]⟩

/-- Take names without handing them out. -/
def reserve (names : List String) (supply : NameSupply) : NameSupply :=
  ⟨names ++ supply.taken⟩

/-- The first of `base ++ number`, `base ++ (number + 1)`, … that is not among the taken names. -/
def firstFree (base : String) (taken : List String) (number : Nat) : String :=
  let candidate := base ++ Nat.repr number
  if h : candidate ∈ taken then
    firstFree base (taken.erase candidate) (number + 1)
  else
    candidate
termination_by taken.length
decreasing_by
  rw [List.length_erase_of_mem h]
  exact Nat.sub_lt (List.length_pos_of_mem h) (by decide)

/-- The name that a request for `base` gets. -/
def pick (base : String) (supply : NameSupply) : String :=
  if base ∈ supply.taken then firstFree base supply.taken 2 else base

/-- Hand out a name for `base` and take it. -/
def issue (base : String) (supply : NameSupply) : String × NameSupply :=
  let name := supply.pick base
  (name, ⟨name :: supply.taken⟩)

/-- Hand out a name for each request in turn. -/
def issueAll : List String → NameSupply → List String × NameSupply
  | [], supply => ([], supply)
  | base :: bases, supply =>
    let first := supply.issue base
    let others := issueAll bases first.2
    (first.1 :: others.1, others.2)

end NameSupply

end Classwright.Text
