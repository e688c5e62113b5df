/-
# Classwright.Proofs.Schema.Walk — a depth-first walk, start by start

The walk works off an agenda, which is how it is run but not how one thinks of it.  `Walks` tells
the same events as a derivation: a start that is new is entered, then come the events of the walk
from its successors, then it is left, and the next start follows.  Every walk has such a derivation,
and what holds of all walks is shown by induction on it.

Two such facts make the search for cycles exact.  A walk that never returns to an open node has
found every node it has closed to be the start of finite chains only; and where no edges form a
cycle, no walk ever returns to an open node.
-/

import Classwright.Schema.Walk
import Mathlib.Logic.Relation
import Mathlib.Order.WellFounded

namespace Classwright.Digraph

open Relation (TransGen)

variable {g : Digraph}

/-! ## Walks as derivations -/

/-- `Walks g seen starts events after`: having `seen` some nodes, the walk from each of the `starts`
in turn has these events, and `after` it those nodes have been seen. -/
inductive Walks (g : Digraph) : List String → List String → List Event → List String → Prop
  | done (seen : List String) : Walks g seen [] [] seen
  | again {seen starts after : List String} {events : List Event} {node : String} :
      node ∈ seen → Walks g seen starts events after →
      Walks g seen (node :: starts) (.again node :: events) after
  | outside {seen starts after : List String} {events : List Event} {node : String} :
      node ∉ seen → node ∉ g.nodes → Walks g seen starts events after →
      Walks g seen (node :: starts) events after
  | enter {seen starts between after : List String} {below events : List Event} {node : String} :
      node ∉ seen → node ∈ g.nodes → Walks g (node :: seen) (g.successors node) below between →
      Walks g between starts events after →
      Walks g seen (node :: starts) (.enter node :: (below ++ .leave node :: events)) after

/-- A walk forgets nothing. -/
theorem Walks.after_eq {seen starts after : List String} {events : List Event}
    (h : Walks g seen starts events after) : ∃ fresh, after = fresh ++ seen := by
  induction h with
  | done seen => exact ⟨[], rfl⟩
  | again _ _ ih => exact ih
  | outside _ _ _ ih => exact ih
  | @enter _ _ _ _ _ _ node _ _ _ _ ihBelow ihRest =>
      obtain ⟨first, rfl⟩ := ihBelow
      obtain ⟨second, rfl⟩ := ihRest
      exact ⟨second ++ (first ++ [node]), by simp⟩

/-- Every walk has a derivation, whatever else is on the agenda behind its starts. -/
theorem exists_walks (g : Digraph) (seen starts : List String) :
    ∃ events after, Walks g seen starts events after ∧
      ∀ agenda, g.walk seen (starts.map .start ++ agenda) = events ++ g.walk after agenda := by
  match starts with
  | [] => exact ⟨[], seen, .done seen, fun _ => rfl⟩
  | node :: starts =>
    by_cases old : node ∈ seen
    · obtain ⟨events, after, walks, eq⟩ := exists_walks g seen starts
      refine ⟨_, after, .again old walks, fun agenda => ?_⟩
      rw [List.map_cons, List.cons_append, walk, if_pos old, eq, List.cons_append]
    · by_cases known : node ∈ g.nodes
      · obtain ⟨below, between, walksBelow, eqBelow⟩ :=
          exists_walks g (node :: seen) (g.successors node)
        -- entering a node leaves fewer to be seen, both below it and behind it
        have fewer : g.unseen between < g.unseen seen := by
          obtain ⟨fresh, rfl⟩ := walksBelow.after_eq
          exact Nat.lt_of_le_of_lt (g.unseen_append_le fresh _) (g.unseen_cons_lt known old)
        obtain ⟨events, after, walks, eq⟩ := exists_walks g between starts
        refine ⟨_, after, .enter old known walksBelow walks, fun agenda => ?_⟩
        rw [List.map_cons, List.cons_append, walk, if_neg old, if_pos known, eqBelow, walk, eq]
        simp
      · obtain ⟨events, after, walks, eq⟩ := exists_walks g seen starts
        refine ⟨events, after, .outside old known walks, fun agenda => ?_⟩
        rw [List.map_cons, List.cons_append, walk, if_neg old, if_neg known, eq]
termination_by (g.unseen seen, starts.length)
decreasing_by
  · exact Prod.Lex.right _ (Nat.lt_succ_self _)
  · exact Prod.Lex.left _ _ (g.unseen_cons_lt ‹_› ‹_›)
  · exact Prod.Lex.left _ _ fewer
  · exact Prod.Lex.right _ (Nat.lt_succ_self _)

/-- The events of a walk that has seen nothing yet. -/
theorem walks_events (g : Digraph) (starts : List String) :
    ∃ after, Walks g [] starts (g.events starts) after := by
  obtain ⟨events, after, walks, eq⟩ := exists_walks g [] starts
  refine ⟨after, ?_⟩
  have := eq []
  rw [List.append_nil, walk, List.append_nil] at this
  rw [Digraph.events, this]
  exact walks

/-! ## Cycles -/

/-- There is an edge between two of the nodes. -/
def Edge (g : Digraph) (node next : String) : Prop :=
  node ∈ g.nodes ∧ next ∈ g.nodes ∧ next ∈ g.successors node

/-- The edges, turned round: what follows a node counts as smaller. -/
def Below (g : Digraph) (next node : String) : Prop := g.Edge node next

/-- If a walk does not return to an open node, then only finite chains start from the nodes that are
closed behind it and from its starts. -/
theorem Walks.acc_of_firstReturn {seen starts after : List String} {events : List Event}
    (h : Walks g seen starts events after) :
    ∀ {path : List String} {rest : List Event},
      (∀ node ∈ seen, node ∉ path → Acc g.Below node) → firstReturn path (events ++ rest) = none →
      (∀ node ∈ after, node ∉ path → Acc g.Below node) ∧
      (∀ node ∈ starts, node ∈ g.nodes → Acc g.Below node) ∧ firstReturn path rest = none := by
  induction h with
  | done seen =>
      intro path rest closed none
      exact ⟨closed, by simp, none⟩
  | @again seen starts after events node old _ ih =>
      intro path rest closed none
      have new : node ∉ path := by
        intro opened
        simp [firstReturn, opened] at none
      rw [List.cons_append, firstReturn, if_neg new] at none
      obtain ⟨later, others, none⟩ := ih closed none
      refine ⟨later, ?_, none⟩
      intro start among known
      rcases List.mem_cons.mp among with rfl | among
      · exact closed start old new
      · exact others start among known
  | @outside seen starts after events node _ unknown _ ih =>
      intro path rest closed none
      obtain ⟨later, others, none⟩ := ih closed none
      refine ⟨later, ?_, none⟩
      intro start among known
      rcases List.mem_cons.mp among with rfl | among
      · exact absurd known unknown
      · exact others start among known
  | @enter seen starts between after below events node _ _ _ _ ihBelow ihRest =>
      intro path rest closed none
      rw [List.cons_append, List.append_assoc, firstReturn] at none
      -- while its successors are walked the node is open; behind them it is closed
      have closedBelow : ∀ other ∈ node :: seen, other ∉ path ++ [node] → Acc g.Below other := by
        intro other among new
        simp only [List.mem_append, List.mem_singleton, not_or] at new
        exact closed other ((List.mem_cons.mp among).resolve_left new.2) new.1
      obtain ⟨laterBelow, successors, none⟩ := ihBelow closedBelow none
      have finite : Acc g.Below node :=
        Acc.intro node fun next edge => successors next edge.2.2 edge.2.1
      have closedRest : ∀ other ∈ between, other ∉ path → Acc g.Below other := by
        intro other among new
        by_cases same : other = node
        · exact same ▸ finite
        · exact laterBelow other among (by simp [new, same])
      rw [List.cons_append, firstReturn, List.dropLast_concat] at none
      obtain ⟨later, others, none⟩ := ihRest closedRest none
      refine ⟨later, ?_, none⟩
      intro start among known
      rcases List.mem_cons.mp among with rfl | among
      · exact finite
      · exact others start among known

/-- Where no edges form a cycle, a walk from nodes behind the open ones returns to none of them. -/
theorem Walks.firstReturn_of_acyclic {seen starts after : List String} {events : List Event}
    (h : Walks g seen starts events after) (acyclic : ∀ node, ¬ TransGen g.Edge node node) :
    ∀ {path : List String} {rest : List Event},
      (∀ opened ∈ path, ∀ start ∈ starts, start ∈ g.nodes → TransGen g.Edge opened start) →
      (∀ opened ∈ path, opened ∈ g.nodes) →
      firstReturn path (events ++ rest) = firstReturn path rest := by
  induction h with
  | done seen =>
      intro path rest _ _
      rfl
  | @again seen starts after events node _ _ ih =>
      intro path rest behind known
      -- an open node that is found again would be reached from itself
      have new : node ∉ path := by
        intro opened
        exact acyclic node (behind node opened node List.mem_cons_self (known node opened))
      rw [List.cons_append, firstReturn, if_neg new]
      exact ih (fun opened among start later => behind opened among start (.tail _ later)) known
  | @outside seen starts after events node _ _ _ ih =>
      intro path rest behind known
      exact ih (fun opened among start later => behind opened among start (.tail _ later)) known
  | @enter seen starts between after below events node _ inside _ _ ihBelow ihRest =>
      intro path rest behind known
      rw [List.cons_append, List.append_assoc, firstReturn, ihBelow, List.cons_append, firstReturn,
        List.dropLast_concat]
      · exact ihRest (fun opened among start later => behind opened among start (.tail _ later))
          known
      · intro opened among next follows knownNext
        have last : g.Edge node next := ⟨inside, knownNext, follows⟩
        rcases List.mem_append.mp among with among | among
        · exact (behind opened among node List.mem_cons_self inside).tail last
        · rw [List.mem_singleton.mp among]
          exact .single last
      · intro opened among
        rcases List.mem_append.mp among with among | among
        · exact known opened among
        · rw [List.mem_singleton.mp among]
          exact inside

/-- If the search for a cycle finds none, then only finite chains start anywhere. -/
theorem wellFounded_of_cycle? (h : g.cycle? = none) : WellFounded g.Below := by
  obtain ⟨after, walks⟩ := g.walks_events g.nodes
  rw [cycle?, ← List.append_nil (g.events g.nodes)] at h
  obtain ⟨_, starts, _⟩ := walks.acc_of_firstReturn (by simp) h
  refine ⟨fun node => ?_⟩
  by_cases known : node ∈ g.nodes
  · exact starts node known known
  · exact Acc.intro node fun next edge => absurd edge.1 known

/-- A relation whose chains are finite closes no cycle. -/
theorem not_transGen_self {α : Type} {r : α → α → Prop} (finite : WellFounded fun b a => r a b)
    (a : α) : ¬ TransGen r a a := by
  intro cycle
  exact finite.transGen.irrefl.irrefl a (Relation.transGen_swap.mpr cycle)

/-- The search for a cycle finds none exactly if there is none. -/
theorem cycle?_eq_none_iff : g.cycle? = none ↔ ∀ node, ¬ TransGen g.Edge node node := by
  constructor
  · intro h node cycle
    exact not_transGen_self (wellFounded_of_cycle? h) node cycle
  · intro acyclic
    obtain ⟨after, walks⟩ := g.walks_events g.nodes
    rw [cycle?, ← List.append_nil (g.events g.nodes)]
    exact walks.firstReturn_of_acyclic acyclic (by simp) (by simp)

end Classwright.Digraph
