/-
# Classwright.Schema.Walk — walks through a finite directed graph

A depth-first walk is written down as the list of its events: entering a node, leaving it, and
finding a node again that was entered before.  Three things are read off that one list: the order of
entering (a node before its successors), the order of leaving (a node after its successors), and the
first cycle, which shows as a node found again while it is still open.

The walk keeps an agenda of what is still to be done.  Each step either takes a task off the agenda
or enters a node for the first time, and there are only finitely many nodes to enter.
-/

namespace Classwright

/-- A finite directed graph.  A successor that is not among the nodes is ignored by every walk. -/
structure Digraph where
  nodes : List String
  successors : String → List String

namespace Digraph

/-! ## The measure -/

/-- How many nodes have not been seen. -/
def unseen (g : Digraph) (seen : List String) : Nat :=
  g.nodes.countP (· ∉ seen)

theorem unseen_cons_le (g : Digraph) (node : String) (seen : List String) :
    g.unseen (node :: seen) ≤ g.unseen seen := by
  refine List.countP_mono_left ?_
  intro other _ h
  simp only [List.mem_cons, not_or, decide_eq_true_eq] at h ⊢
  exact h.2

theorem unseen_append_le (g : Digraph) (fresh seen : List String) :
    g.unseen (fresh ++ seen) ≤ g.unseen seen := by
  induction fresh with
  | nil => exact Nat.le_refl _
  | cons node rest ih => exact Nat.le_trans (g.unseen_cons_le node (rest ++ seen)) ih

/-- Seeing a new node leaves fewer nodes unseen. -/
theorem unseen_cons_lt (g : Digraph) {node : String} {seen : List String}
    (known : node ∈ g.nodes) (new : node ∉ seen) :
    g.unseen (node :: seen) < g.unseen seen := by
  unfold unseen
  generalize g.nodes = nodes at known
  induction nodes with
  | nil => cases known
  | cons head rest ih =>
    have le : rest.countP (· ∉ node :: seen) ≤ rest.countP (· ∉ seen) :=
      unseen_cons_le ⟨rest, g.successors⟩ node seen
    by_cases here : head = node
    · subst here
      rw [List.countP_cons_of_neg (by simp), List.countP_cons_of_pos (by simpa using new)]
      omega
    · have lt := ih ((List.mem_cons.mp known).resolve_left (Ne.symm here))
      by_cases old : head ∈ seen
      · rw [List.countP_cons_of_neg (by simp [old]), List.countP_cons_of_neg (by simp [old])]
        exact lt
      · rw [List.countP_cons_of_pos (by simp [old, here]), List.countP_cons_of_pos (by simp [old])]
        omega

/-! ## Depth first -/

/-- What is still to be done. -/
inductive Task where
  /-- Visit the node, unless it was seen before. -/
  | start (node : String)
  /-- Everything below the node is done. -/
  | finish (node : String)
  deriving DecidableEq, Repr

/-- What happens on a walk. -/
inductive Event where
  /-- The node is seen for the first time. -/
  | enter (node : String)
  /-- All successors of the node have been dealt with. -/
  | leave (node : String)
  /-- The node was seen before. -/
  | again (node : String)
  deriving DecidableEq, Repr

/-- The events of the depth-first walk that works off the agenda, having `seen` some nodes. -/
def walk (g : Digraph) (seen : List String) : List Task → List Event
  | [] => []
  | .finish node :: agenda => .leave node :: g.walk seen agenda
  | .start node :: agenda =>
    if node ∈ seen then
      .again node :: g.walk seen agenda
    else if node ∈ g.nodes then
      .enter node ::
        g.walk (node :: seen) ((g.successors node).map .start ++ .finish node :: agenda)
    else
      g.walk seen agenda
termination_by agenda => (g.unseen seen, agenda.length)
decreasing_by
  · exact Prod.Lex.right _ (Nat.lt_succ_self _)
  · exact Prod.Lex.right _ (Nat.lt_succ_self _)
  · exact Prod.Lex.left _ _ (g.unseen_cons_lt ‹_› ‹_›)
  · exact Prod.Lex.right _ (Nat.lt_succ_self _)

/-- The walk from each of the starting points in turn. -/
def events (g : Digraph) (starts : List String) : List Event :=
  g.walk [] (starts.map .start)

/-- The node that an event enters. -/
def Event.entered? : Event → Option String
  | .enter node => some node
  | _ => none

/-- The node that an event leaves. -/
def Event.left? : Event → Option String
  | .leave node => some node
  | _ => none

/-- Every node that is reached, each before the nodes first reached through it. -/
def preorder (g : Digraph) (starts : List String) : List String :=
  (g.events starts).filterMap Event.entered?

/-- Every node that is reached, each after the nodes first reached through it. -/
def postorder (g : Digraph) (starts : List String) : List String :=
  (g.events starts).filterMap Event.left?

/-- The first return to a node that is still open; `path` lists the open nodes, outermost first. -/
def firstReturn (path : List String) : List Event → Option (List String)
  | [] => none
  | .enter node :: rest => firstReturn (path ++ [node]) rest
  | .leave _ :: rest => firstReturn path.dropLast rest
  | .again node :: rest =>
    if node ∈ path then some (path.dropWhile (· ≠ node) ++ [node]) else firstReturn path rest

/-- A cycle, written with its first node repeated at the end: the first that the walk from all nodes
runs into. -/
def cycle? (g : Digraph) : Option (List String) :=
  firstReturn [] (g.events g.nodes)

/-! ## Level by level -/

/-- The successors of a node that have not been seen, each once, in order. -/
def frontier (g : Digraph) (seen : List String) (node : String) : List String :=
  ((g.successors node).filter fun next => next ∈ g.nodes ∧ next ∉ seen).eraseDups

theorem mem_frontier {g : Digraph} {seen : List String} {node next : String} :
    next ∈ g.frontier seen node ↔ next ∈ g.successors node ∧ next ∈ g.nodes ∧ next ∉ seen := by
  simp [frontier]

/-- Seeing a frontier that is not empty leaves fewer nodes unseen. -/
theorem unseen_frontier_lt (g : Digraph) {seen : List String} {node next : String}
    {others : List String} (h : g.frontier seen node = next :: others) :
    g.unseen (next :: others ++ seen) < g.unseen seen := by
  have facts := mem_frontier.mp (h ▸ List.mem_cons_self : next ∈ g.frontier seen node)
  refine Nat.lt_of_le_of_lt ?_ (g.unseen_cons_lt facts.2.1 facts.2.2)
  refine List.countP_mono_left ?_
  intro other _ hOther
  simp only [List.cons_append, List.mem_cons, List.mem_append, not_or, decide_eq_true_eq]
    at hOther ⊢
  exact ⟨hOther.1, hOther.2.2⟩

/-- The nodes on the queue and all that follow from them, level by level. -/
def drain (g : Digraph) (seen : List String) : List String → List String
  | [] => []
  | node :: queue =>
    node :: g.drain (g.frontier seen node ++ seen) (queue ++ g.frontier seen node)
termination_by queue => (g.unseen seen, queue.length)
decreasing_by
  cases h : g.frontier seen node with
  | nil => simpa using Prod.Lex.right _ (Nat.lt_succ_self queue.length)
  | cons next others => exact Prod.Lex.left _ _ (g.unseen_frontier_lt h)

/-- Every node that is reached, level by level. -/
def levelOrder (g : Digraph) (starts : List String) : List String :=
  let first := starts.eraseDups
  g.drain first first

end Digraph

end Classwright
