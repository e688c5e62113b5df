/-
# Classwright.Proofs.Schema.Traversal — every order lists every class, and leaves come first

Three orders start from the roots alone: the two that a depth-first walk gives, and the one that
goes level by level.  Each of them lists every class once.

The order in which a depth-first walk leaves its nodes is topological (`Topological`): a node is
left after its successors.  When the walk leaves a node, its successors have been seen, and none of
them can still be open, because from an open node there is a chain of edges down to the current one.
-/

import Mathlib
import Classwright.Proofs.Schema.Orders

namespace Classwright

namespace Digraph

open Relation (TransGen)

variable {g : Digraph} {seen queue starts after : List String} {events : List Event}

/-! ## Level by level -/

/-- What comes out is the queue and nodes that were new, each once. -/
theorem exists_perm_drain (g : Digraph) (seen queue : List String) (distinct : seen.Nodup) :
    ∃ fresh, (g.drain seen queue).Perm (queue ++ fresh) ∧ (fresh ++ seen).Nodup ∧
      ∀ node ∈ fresh, node ∈ g.nodes := by
  fun_induction g.drain seen queue with
  | case1 seen => exact ⟨[], .refl [], distinct, by simp⟩
  | case2 seen node queue ih =>
      have apart : (g.frontier seen node ++ seen).Nodup := by
        refine List.nodup_append'.mpr ⟨ClassList.nodup_eraseDups _, distinct, ?_⟩
        exact fun next new old => (mem_frontier.mp new).2.2 old
      obtain ⟨fresh, perm, distinct, known⟩ := ih apart
      refine ⟨g.frontier seen node ++ fresh, ?_, ?_, ?_⟩
      · rw [List.append_assoc] at perm
        exact perm.cons node
      · refine List.Perm.nodup ?_ distinct
        rw [List.append_assoc]
        exact List.perm_append_comm_assoc _ _ _
      · intro next among
        rcases List.mem_append.mp among with among | among
        · exact (mem_frontier.mp among).2.1
        · exact known next among

theorem mem_drain_of_mem_queue {node : String} (waiting : node ∈ queue) :
    node ∈ g.drain seen queue := by
  fun_induction g.drain seen queue with
  | case1 seen => cases waiting
  | case2 seen head queue ih =>
      rcases List.mem_cons.mp waiting with rfl | waiting
      · exact List.mem_cons_self
      · exact List.mem_cons_of_mem head (ih (List.mem_append_left _ waiting))

/-- With a node its successors come out, if they were not seen before. -/
theorem drain_closed {node next : String} (reached : node ∈ g.drain seen queue)
    (follows : next ∈ g.successors node) (known : next ∈ g.nodes) :
    next ∈ seen ∨ next ∈ g.drain seen queue := by
  fun_induction g.drain seen queue with
  | case1 seen => cases reached
  | case2 seen head queue ih =>
      have waiting : next ∈ g.frontier seen head →
          next ∈ g.drain (g.frontier seen head ++ seen) (queue ++ g.frontier seen head) :=
        fun new => mem_drain_of_mem_queue (List.mem_append_right queue new)
      rcases List.mem_cons.mp reached with rfl | later
      · by_cases old : next ∈ seen
        · exact .inl old
        · exact .inr (List.mem_cons_of_mem _ (waiting (mem_frontier.mpr ⟨follows, known, old⟩)))
      · rcases ih later with old | out
        · rcases List.mem_append.mp old with new | old
          · exact .inr (List.mem_cons_of_mem _ (waiting new))
          · exact .inl old
        · exact .inr (List.mem_cons_of_mem _ out)

/-- From starts among the nodes, nodes come out level by level, each once. -/
theorem nodup_levelOrder (g : Digraph) (starts : List String)
    (known : ∀ start ∈ starts, start ∈ g.nodes) :
    (g.levelOrder starts).Nodup ∧ ∀ node ∈ g.levelOrder starts, node ∈ g.nodes := by
  obtain ⟨fresh, perm, distinct, inside⟩ :=
    g.exists_perm_drain starts.eraseDups starts.eraseDups (ClassList.nodup_eraseDups starts)
  refine ⟨perm.nodup_iff.mpr (List.perm_append_comm.nodup distinct), ?_⟩
  intro node out
  rcases List.mem_append.mp (perm.mem_iff.mp out) with start | new
  · exact known node (List.mem_eraseDups.mp start)
  · exact inside node new

theorem mem_levelOrder_of_mem {start : String} (among : start ∈ starts) :
    start ∈ g.levelOrder starts :=
  mem_drain_of_mem_queue (List.mem_eraseDups.mpr among)

theorem levelOrder_closed {node next : String} (reached : node ∈ g.levelOrder starts)
    (follows : next ∈ g.successors node) (known : next ∈ g.nodes) :
    next ∈ g.levelOrder starts := by
  rcases drain_closed reached follows known with start | out
  · exact mem_drain_of_mem_queue start
  · exact out

/-! ## Leaves first -/

/-- Every node of the list comes after its successors, those apart that are `done` already. -/
def Topological (g : Digraph) (done : Set String) : List String → Prop
  | [] => True
  | node :: order => (∀ next, g.Edge node next → next ∈ done) ∧
      g.Topological (insert node done) order

theorem topological_append {done : Set String} {first second : List String} :
    g.Topological done (first ++ second) ↔
      g.Topological done first ∧ g.Topological (done ∪ {node | node ∈ first}) second := by
  induction first generalizing done with
  | nil => simp [Topological]
  | cons node first ih =>
      have same : insert node done ∪ {other | other ∈ first} =
          done ∪ {other | other ∈ node :: first} := by
        ext other
        simp only [Set.mem_union, Set.mem_insert_iff, Set.mem_ofPred_eq, List.mem_cons]
        tauto
      rw [List.cons_append, Topological, Topological, ih, same, and_assoc]

/-- Wherever a node stands in the list, its successors stand before it. -/
theorem Topological.mem_before {done : Set String} {before later : List String}
    {node next : String} (sorted : g.Topological done (before ++ node :: later))
    (edge : g.Edge node next) : next ∈ done ∨ next ∈ before :=
  (topological_append.mp sorted).2.1 next edge

/-- What has been seen behind a walk was seen before it or has been left. -/
theorem Walks.seen_or_left (h : Walks g seen starts events after) {node : String}
    (reached : node ∈ after) : node ∈ seen ∨ node ∈ events.filterMap Event.left? := by
  rcases List.mem_append.mp (h.perm_after.mem_iff.mp reached) with entered | old
  · exact .inr (h.perm_left.mem_iff.mpr entered)
  · exact .inl old

/-- Where no edges form a cycle, a walk from behind the open nodes leaves its nodes in topological
order. -/
theorem Walks.topological (h : Walks g seen starts events after)
    (acyclic : ∀ node, ¬ TransGen g.Edge node node) :
    ∀ opened done : Set String, (∀ node ∈ seen, node ∈ opened ∨ node ∈ done) →
      (∀ node ∈ opened, node ∈ g.nodes) →
      (∀ node ∈ opened, ∀ start ∈ starts, start ∈ g.nodes → TransGen g.Edge node start) →
      g.Topological done (events.filterMap Event.left?) := by
  induction h with
  | done seen =>
      intro opened done _ _ _
      exact trivial
  | again _ _ ih =>
      intro opened done split known behind
      exact ih opened done split known fun node among start later =>
        behind node among start (List.mem_cons_of_mem _ later)
  | outside _ _ _ ih =>
      intro opened done split known behind
      exact ih opened done split known fun node among start later =>
        behind node among start (List.mem_cons_of_mem _ later)
  | @enter seen starts between after below events node new inside walksBelow _ ihBelow ihRest =>
      intro opened done split known behind
      have beforeNode : ∀ other ∈ opened, TransGen g.Edge other node :=
        fun other among => behind other among node List.mem_cons_self inside
      rw [filterMap_left_enter, topological_append]
      refine ⟨?_, ?_, ?_⟩
      · -- below it the node is open, too
        refine ihBelow (insert node opened) done ?_ ?_ ?_
        · intro other old
          rcases List.mem_cons.mp old with rfl | old
          · exact .inl (Set.mem_insert other opened)
          · exact (split other old).imp_left (Set.mem_insert_of_mem node)
        · intro other among
          rcases among with rfl | among
          · exact inside
          · exact known other among
        · intro other among next follows declared
          have edge : g.Edge node next := ⟨inside, declared, follows⟩
          rcases among with rfl | among
          · exact .single edge
          · exact (beforeNode other among).tail edge
      · -- a successor that is still open would close a cycle
        intro next edge
        have reached := walksBelow.starts_seen next edge.2.2 edge.2.1
        rcases walksBelow.seen_or_left reached with old | left
        · rcases List.mem_cons.mp old with rfl | old
          · exact absurd (.single edge) (acyclic next)
          · rcases split next old with among | finished
            · exact absurd ((beforeNode next among).tail edge) (acyclic next)
            · exact .inl finished
        · exact .inr left
      · refine ihRest opened _ ?_ known ?_
        · intro other reached
          rcases walksBelow.seen_or_left reached with old | left
          · rcases List.mem_cons.mp old with rfl | old
            · exact .inr (Set.mem_insert other _)
            · exact (split other old).imp_right fun finished => .inr (.inl finished)
          · exact .inr (.inr (.inr left))
        · exact fun other among start later =>
            behind other among start (List.mem_cons_of_mem _ later)

end Digraph

/-! ## Orders of a schema -/

namespace Schema

open ClassList (RefersTo names)

variable {s : Schema}

/-- Level by level from the roots come the names of all classes, each once. -/
theorem perm_levelOrder (s : Schema) : (s.graph.levelOrder s.rootNames).Perm (names s.classes) := by
  have out := s.graph.nodup_levelOrder s.rootNames fun name root => mem_nodes_of_mem_rootNames root
  refine (List.perm_ext_iff_of_nodup out.1 s.sound.distinctNames).mpr fun name => ?_
  constructor
  · exact out.2 name
  · intro declared
    obtain ⟨c, among, rfl⟩ := ClassList.mem_names.mp declared
    exact name_mem_of_closed (fun name root => Digraph.mem_levelOrder_of_mem root)
      (fun node reached next follows known => Digraph.levelOrder_closed reached follows known)
      ⟨c, among⟩

/-- Leaving classes, a walk from the roots comes to no class before those that it refers to. -/
theorem topological_postorder (s : Schema) :
    s.graph.Topological ∅ (s.graph.postorder s.rootNames) := by
  obtain ⟨after, walks⟩ := s.graph.walks_events s.rootNames
  have acyclic := (ClassList.fault?_eq_none.mp s.faultless).2.2
  refine walks.topological (Digraph.cycle?_eq_none_iff.mp acyclic) ∅ ∅ ?_ ?_ ?_
  all_goals simp

/-- Selecting classes keeps the order of their names. -/
theorem map_name_select {order : List String} (known : ∀ name ∈ order, name ∈ names s.classes) :
    (s.select order).map (·.name) = order := by
  induction order with
  | nil => rfl
  | cons name order ih =>
      obtain ⟨first, others⟩ := List.forall_mem_cons.mp known
      obtain ⟨c, among, rfl⟩ := ClassList.mem_names.mp first
      rw [select, List.filterMap_cons_some (find?_name among), List.map_cons]
      exact congrArg _ (ih others)

/-- Classes of one name are the same. -/
theorem eq_of_name_eq {c d : ClassDef} (hc : c ∈ s.classes) (hd : d ∈ s.classes)
    (same : c.name = d.name) : c = d := by
  have found := find?_name hc
  rw [same, find?_name hd] at found
  exact (Option.some.inj found).symm

/-- Where leaves come first, what a class refers to comes before it. -/
theorem mem_before_of_leavesFirst {c d : ClassDef} {before later : List ClassDef}
    (order : s.leavesFirst = before ++ c :: later) (hd : d ∈ s.classes)
    (refers : RefersTo s.classes c.name d.name) : d ∈ before := by
  have perm := perm_select s.perm_postorder
  have postorder : s.graph.postorder s.rootNames =
      before.map (·.name) ++ c.name :: later.map (·.name) := by
    calc s.graph.postorder s.rootNames
      _ = s.leavesFirst.map (·.name) :=
        (map_name_select fun name among => s.perm_postorder.mem_iff.mp among).symm
      _ = before.map (·.name) ++ c.name :: later.map (·.name) := by simp [order]
  have sorted := s.topological_postorder
  rw [postorder] at sorted
  have earlier := (sorted.mem_before (edge_graph_iff.mpr refers)).resolve_left (by simp)
  obtain ⟨e, among, same⟩ := List.mem_map.mp earlier
  have he : e ∈ s.classes := by
    refine perm.mem_iff.mp ?_
    rw [← leavesFirst, order]
    exact List.mem_append_left _ among
  rwa [← eq_of_name_eq he hd same]

/-- Each of the orders lists every class once, and in the last one a class comes after all classes
that its fields refer to. -/
theorem perm_traversals (s : Schema) :
    s.depthFirst.Perm s.classes ∧ s.breadthFirst.Perm s.classes ∧ s.leavesFirst.Perm s.classes ∧
      s.classes.Nodup ∧
      ∀ c ∈ s.classes, ∀ field ∈ c.fields, ∀ name ∈ field.type.references,
        ∃ d ∈ s.classes, d.name = name ∧
          ∀ before later, s.leavesFirst = before ++ c :: later → d ∈ before := by
  refine ⟨perm_select s.perm_preorder, perm_select s.perm_levelOrder,
    perm_select s.perm_postorder, s.sound.distinctNames.of_map _, ?_⟩
  intro c hc field has name within
  have mentions := ValueType.mem_references_iff.mp within
  obtain ⟨d, hd, rfl⟩ := s.sound.declared c hc field has name mentions
  refine ⟨d, hd, rfl, fun before later order => ?_⟩
  exact mem_before_of_leavesFirst order hd ⟨c, hc, rfl, field, has, mentions⟩

end Schema

end Classwright
