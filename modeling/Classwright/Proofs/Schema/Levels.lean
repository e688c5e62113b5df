/-
# Classwright.Proofs.Schema.Levels — how classes are discovered level by level

Level by level a class is listed when it has been discovered.  The order is therefore the order of
discoveries (`discovery`): of the places of the classes that led to the others first, and where one
class led to several, of their places among its references.  That is read off from what comes out of
the queue, which is what was on it at first and then the newcomers of all that comes out.

The distance from the roots never falls along the order.  The queue carries this (`Advancing`): it
is sorted by distance and holds at most two consecutive distances, and a chain to a node that has
not been seen passes through the queue, so the node is further away than something that waits there.
-/

import Mathlib
import Classwright.Proofs.Schema.Traversal

namespace Classwright

/-! ## Discoveries -/

section Discovery

variable {α β : Type} {successors : α → List String} {a : α} {as : List α} {name : String}

/-- Where a name is discovered: the place of the first item in the order that has it among its
successors, and its place among those. -/
def discovery (successors : α → List String) (order : List α) (name : String) : ℕ × ℕ :=
  let place := order.findIdx fun a => name ∈ successors a
  (place, ((order[place]?.map successors).getD []).idxOf name)

theorem discovery_cons_of_mem (leads : name ∈ successors a) :
    discovery successors (a :: as) name = (0, (successors a).idxOf name) := by
  simp [discovery, List.findIdx_cons, leads]

theorem discovery_cons_of_notMem (other : name ∉ successors a) :
    discovery successors (a :: as) name =
      ((discovery successors as name).1 + 1, (discovery successors as name).2) := by
  simp [discovery, List.findIdx_cons, other]

/-- Discoveries are the same among items that stand for others with the same successors. -/
theorem discovery_map {f : β → α} {others : β → List String} {bs : List β}
    (same : ∀ b ∈ bs, successors (f b) = others b) :
    discovery successors (bs.map f) name = discovery others bs name := by
  induction bs with
  | nil => rfl
  | cons b bs ih =>
      rw [List.forall_mem_cons] at same
      by_cases leads : name ∈ others b
      · rw [List.map_cons, discovery_cons_of_mem (same.1.symm ▸ leads),
          discovery_cons_of_mem leads, same.1]
      · rw [List.map_cons, discovery_cons_of_notMem (same.1.symm ▸ leads),
          discovery_cons_of_notMem leads, ih same.2]

/-- A name that some item leads to is discovered behind an item that leads to it. -/
theorem exists_discoverer (leads : ∃ a ∈ as, name ∈ successors a) :
    ∃ a, as[(discovery successors as name).1]? = some a ∧ name ∈ successors a := by
  obtain ⟨a, among, follows⟩ := leads
  have inside : as.findIdx (fun a => name ∈ successors a) < as.length :=
    List.findIdx_lt_length_of_exists ⟨a, among, decide_eq_true follows⟩
  exact ⟨_, List.getElem?_eq_getElem inside, of_decide_eq_true (List.findIdx_getElem (w := inside))⟩

end Discovery

namespace Digraph

variable {g : Digraph} {seen queue starts order : List String} {node next : String} {n : ℕ}

/-! ## Newcomers -/

/-- What the nodes in turn lead to and has not been seen by then. -/
def newcomers (g : Digraph) (seen : List String) : List String → List String
  | [] => []
  | node :: order => g.frontier seen node ++ g.newcomers (g.frontier seen node ++ seen) order

/-- What comes out is the queue and behind it the newcomers of all that comes out. -/
theorem drain_eq (g : Digraph) (seen queue : List String) :
    g.drain seen queue = queue ++ g.newcomers seen (g.drain seen queue) := by
  fun_induction g.drain seen queue with
  | case1 seen => rfl
  | case2 seen node queue ih =>
      rw [newcomers, List.cons_append, ← List.append_assoc, ← ih]

theorem mem_newcomers (new : next ∈ g.newcomers seen order) :
    next ∈ g.nodes ∧ next ∉ seen ∧ ∃ node ∈ order, next ∈ g.successors node := by
  induction order generalizing seen with
  | nil => cases new
  | cons node order ih =>
      rcases List.mem_append.mp new with new | later
      · obtain ⟨follows, known, unseen⟩ := mem_frontier.mp new
        exact ⟨known, unseen, node, List.mem_cons_self, follows⟩
      · obtain ⟨known, unseen, other, among, follows⟩ := ih later
        rw [List.mem_append, not_or] at unseen
        exact ⟨known, unseen.2, other, List.mem_cons_of_mem node among, follows⟩

/-- A list without doubles has its members at increasing places. -/
theorem pairwise_idxOf {names : List String} (distinct : names.Nodup) :
    names.Pairwise fun name other => names.idxOf name < names.idxOf other := by
  refine List.pairwise_iff_getElem.mpr fun i j hi hj earlier => ?_
  rwa [distinct.idxOf_getElem, distinct.idxOf_getElem]

theorem eraseDups_eq_self {names : List String} (distinct : names.Nodup) :
    names.eraseDups = names := by
  induction names with
  | nil => rfl
  | cons name names ih =>
      rw [List.nodup_cons] at distinct
      have others : names.filter (fun other => !other == name) = names := by
        refine List.filter_eq_self.mpr fun other among => ?_
        have apart : other ≠ name := fun same => distinct.1 (same ▸ among)
        simpa using apart
      rw [List.eraseDups_cons, others, ih distinct.2]

/-- Newcomers come in the order in which they are discovered. -/
theorem pairwise_newcomers (distinct : ∀ node, (g.successors node).Nodup)
    (seen order : List String) :
    (g.newcomers seen order).Pairwise fun name other =>
      toLex (discovery g.successors order name) < toLex (discovery g.successors order other) := by
  induction order generalizing seen with
  | nil => exact .nil
  | cons node order ih =>
      -- the first node leads to what is on its frontier, and not to any later newcomer
      have here : ∀ next ∈ g.frontier seen node, next ∈ g.successors node :=
        fun next new => (mem_frontier.mp new).1
      have elsewhere : ∀ next ∈ g.newcomers (g.frontier seen node ++ seen) order,
          next ∉ g.successors node := by
        intro next later follows
        obtain ⟨known, unseen, _⟩ := mem_newcomers later
        rw [List.mem_append, not_or] at unseen
        exact unseen.1 (mem_frontier.mpr ⟨follows, known, unseen.2⟩)
      refine List.pairwise_append.mpr ⟨?_, ?_, ?_⟩
      · have sublist : (g.frontier seen node).Sublist (g.successors node) := by
          rw [frontier, eraseDups_eq_self ((distinct node).filter _)]
          exact List.filter_sublist
        refine ((pairwise_idxOf (distinct node)).sublist sublist).imp_of_mem ?_
        intro name other first second earlier
        rw [discovery_cons_of_mem (here name first), discovery_cons_of_mem (here other second),
          Prod.Lex.toLex_lt_toLex]
        exact .inr ⟨rfl, earlier⟩
      · refine (ih (g.frontier seen node ++ seen)).imp_of_mem ?_
        intro name other first second earlier
        rw [discovery_cons_of_notMem (elsewhere name first),
          discovery_cons_of_notMem (elsewhere other second), Prod.Lex.toLex_lt_toLex]
        rw [Prod.Lex.toLex_lt_toLex] at earlier
        exact earlier.imp Nat.succ_lt_succ (And.imp_left (congrArg (· + 1)))
      · intro name first other second
        rw [discovery_cons_of_mem (here name first),
          discovery_cons_of_notMem (elsewhere other second), Prod.Lex.toLex_lt_toLex]
        exact .inl (Nat.succ_pos _)

/-! ## Distances -/

/-- A chain of `n` edges leads from one of the starts to the node. -/
inductive ReachedIn (g : Digraph) (starts : List String) : ℕ → String → Prop
  | start {node : String} (among : node ∈ starts) : ReachedIn g starts 0 node
  | next {n : ℕ} {node next : String} (reached : ReachedIn g starts n node)
      (edge : g.Edge node next) : ReachedIn g starts (n + 1) next

/-- The length of the shortest chain of edges from one of the starts to the node. -/
noncomputable def distance (g : Digraph) (starts : List String) (node : String) : ℕ :=
  sInf {n | g.ReachedIn starts n node}

theorem distance_le (reached : g.ReachedIn starts n node) : g.distance starts node ≤ n :=
  Nat.sInf_le reached

theorem reachedIn_distance (reached : g.ReachedIn starts n node) :
    g.ReachedIn starts (g.distance starts node) node := by
  have nonempty : {n | g.ReachedIn starts n node}.Nonempty := ⟨n, reached⟩
  exact Nat.sInf_mem nonempty

/-- An edge leads at most one step further. -/
theorem distance_le_succ (reached : g.ReachedIn starts n node) (edge : g.Edge node next) :
    g.distance starts next ≤ g.distance starts node + 1 :=
  distance_le (.next (reachedIn_distance reached) edge)

/-! ## The queue -/

/-- What waits on the queue was reached from the starts, and is sorted by its distance with at most
two consecutive distances in it.  The successors of what was seen and does not wait were seen. -/
structure Advancing (g : Digraph) (starts seen queue : List String) : Prop where
  known : ∀ node ∈ queue, node ∈ g.nodes
  reached : ∀ node ∈ queue, ∃ n, g.ReachedIn starts n node
  started : ∀ start ∈ starts, start ∈ seen
  closed : ∀ node ∈ seen, node ∉ queue → ∀ next, g.Edge node next → next ∈ seen
  sorted : queue.Pairwise fun node later =>
    g.distance starts node ≤ g.distance starts later ∧
      g.distance starts later ≤ g.distance starts node + 1

namespace Advancing

/-- At first the starts wait. -/
theorem start (g : Digraph) (starts : List String) (known : ∀ start ∈ starts, start ∈ g.nodes) :
    g.Advancing starts starts.eraseDups starts.eraseDups where
  known node waits := known node (List.mem_eraseDups.mp waits)
  reached node waits := ⟨0, .start (List.mem_eraseDups.mp waits)⟩
  started _ among := List.mem_eraseDups.mpr among
  closed _ old gone := absurd old gone
  sorted := by
    refine List.pairwise_of_forall_mem_list fun node first later second => ?_
    have atFirst := distance_le (g := g) (.start (List.mem_eraseDups.mp first))
    have atLater := distance_le (g := g) (.start (List.mem_eraseDups.mp second))
    omega

/-- What has not been seen is further away than something that waits. -/
theorem exists_nearer (adv : g.Advancing starts seen queue) (reached : g.ReachedIn starts n node)
    (new : node ∉ seen) : ∃ waiting ∈ queue, g.distance starts waiting < n := by
  induction reached with
  | start among => exact absurd (adv.started _ among) new
  | @next n before node reached edge ih =>
      by_cases old : before ∈ seen
      · by_cases waits : before ∈ queue
        · exact ⟨before, waits, Nat.lt_succ_of_le (distance_le reached)⟩
        · exact absurd (adv.closed before old waits node edge) new
      · obtain ⟨waiting, among, nearer⟩ := ih old
        exact ⟨waiting, among, Nat.lt_succ_of_lt nearer⟩

/-- The first that waits is not further away than the others. -/
theorem head_le (adv : g.Advancing starts seen (node :: queue)) {waiting : String}
    (waits : waiting ∈ node :: queue) : g.distance starts node ≤ g.distance starts waiting := by
  rcases List.mem_cons.mp waits with rfl | behind
  · exact Nat.le_refl _
  · exact ((List.pairwise_cons.mp adv.sorted).1 waiting behind).1

/-- What the first of the queue leads to and is new is one step further away. -/
theorem edge_of_frontier (adv : g.Advancing starts seen (node :: queue))
    (new : next ∈ g.frontier seen node) :
    g.Edge node next ∧ g.distance starts next = g.distance starts node + 1 := by
  obtain ⟨follows, known, unseen⟩ := mem_frontier.mp new
  have edge : g.Edge node next := ⟨adv.known node List.mem_cons_self, known, follows⟩
  obtain ⟨n, reached⟩ := adv.reached node List.mem_cons_self
  have most := distance_le_succ reached edge
  obtain ⟨waiting, waits, nearer⟩ :=
    adv.exists_nearer (reachedIn_distance (.next reached edge)) unseen
  have least := adv.head_le waits
  exact ⟨edge, by omega⟩

/-- Taking the first from the queue, and putting its frontier behind, leaves all that as it was. -/
theorem step (adv : g.Advancing starts seen (node :: queue)) :
    g.Advancing starts (g.frontier seen node ++ seen) (queue ++ g.frontier seen node) where
  known := by
    rw [List.forall_mem_append]
    exact ⟨fun other waits => adv.known other (List.mem_cons_of_mem node waits),
      fun next new => (mem_frontier.mp new).2.1⟩
  reached := by
    rw [List.forall_mem_append]
    refine ⟨fun other waits => adv.reached other (List.mem_cons_of_mem node waits), ?_⟩
    intro next new
    obtain ⟨n, reached⟩ := adv.reached node List.mem_cons_self
    exact ⟨n + 1, .next reached (adv.edge_of_frontier new).1⟩
  started start among := List.mem_append_right _ (adv.started start among)
  closed other old gone next edge := by
    rw [List.mem_append, not_or] at gone
    have before : other ∈ seen := (List.mem_append.mp old).resolve_left gone.2
    by_cases here : other = node
    · subst here
      by_cases unseen : next ∈ seen
      · exact List.mem_append_right _ unseen
      · exact List.mem_append_left _ (mem_frontier.mpr ⟨edge.2.2, edge.2.1, unseen⟩)
    · have passed : other ∉ node :: queue := by simp [here, gone.1]
      exact List.mem_append_right _ (adv.closed other before passed next edge)
  sorted := by
    obtain ⟨ahead, sorted⟩ := List.pairwise_cons.mp adv.sorted
    -- newcomers are one further than the node, and what waits is as far as the node or one further
    refine List.pairwise_append.mpr ⟨sorted, ?_, ?_⟩
    · refine List.pairwise_of_forall_mem_list fun next first other second => ?_
      have atNext := (adv.edge_of_frontier first).2
      have atOther := (adv.edge_of_frontier second).2
      omega
    · intro waiting waits next new
      have atWaiting := ahead waiting waits
      have atNext := (adv.edge_of_frontier new).2
      omega

/-- All that comes out was reached, and is not nearer than everything that waits. -/
theorem reached_of_mem_drain (adv : g.Advancing starts seen queue)
    (out : node ∈ g.drain seen queue) : (∃ n, g.ReachedIn starts n node) ∧
      ∃ waiting ∈ queue, g.distance starts waiting ≤ g.distance starts node := by
  fun_induction g.drain seen queue with
  | case1 seen => cases out
  | case2 seen first queue ih =>
      rcases List.mem_cons.mp out with rfl | later
      · exact ⟨adv.reached node List.mem_cons_self, node, List.mem_cons_self, Nat.le_refl _⟩
      · obtain ⟨reached, waiting, waits, nearer⟩ := ih adv.step later
        refine ⟨reached, ?_⟩
        rcases List.mem_append.mp waits with waits | new
        · exact ⟨waiting, List.mem_cons_of_mem first waits, nearer⟩
        · have further := (adv.edge_of_frontier new).2
          exact ⟨first, List.mem_cons_self, by omega⟩

/-- The distance never falls along what comes out. -/
theorem pairwise_drain (adv : g.Advancing starts seen queue) :
    (g.drain seen queue).Pairwise fun node later =>
      g.distance starts node ≤ g.distance starts later := by
  fun_induction g.drain seen queue with
  | case1 seen => exact .nil
  | case2 seen first queue ih =>
      refine List.pairwise_cons.mpr ⟨fun node later => ?_, ih adv.step⟩
      obtain ⟨_, waiting, waits, nearer⟩ := adv.step.reached_of_mem_drain later
      refine Nat.le_trans ?_ nearer
      rcases List.mem_append.mp waits with waits | new
      · exact adv.head_le (List.mem_cons_of_mem first waits)
      · have further := (adv.edge_of_frontier new).2
        omega

end Advancing

end Digraph

/-! ## Orders of a schema -/

namespace Schema

open ClassList (names)

variable {s : Schema}

theorem successors_graph {c : ClassDef} (among : c ∈ s.classes) :
    s.graph.successors c.name = c.nested := by
  show ((ClassList.find? s.classes c.name).map (·.nested)).getD [] = c.nested
  rw [show ClassList.find? s.classes c.name = some c from find?_name among]
  rfl

theorem nodup_successors (s : Schema) (name : String) : (s.graph.successors name).Nodup := by
  show ((s.find? name).map (·.nested)).getD [] |>.Nodup
  cases s.find? name with
  | none => exact .nil
  | some c => exact ClassList.nodup_eraseDups _

/-- Classes are selected by their names. -/
theorem select_map_name {classes : List ClassDef} (known : ∀ c ∈ classes, c ∈ s.classes) :
    s.select (classes.map (·.name)) = classes := by
  rw [select, List.filterMap_map]
  refine (List.filterMap_congr fun c among => ?_).trans List.filterMap_some
  exact find?_name (known c among)

theorem mem_classes_of_mem_roots {c : ClassDef} (root : c ∈ s.roots) : c ∈ s.classes :=
  (List.mem_filter.mp root).1

theorem nodup_rootNames (s : Schema) : s.rootNames.Nodup :=
  s.sound.distinctNames.sublist (List.filter_sublist.map _)

/-- The names of the classes level by level. -/
theorem map_name_breadthFirst (s : Schema) :
    s.breadthFirst.map (·.name) = s.graph.levelOrder s.rootNames :=
  map_name_select fun _ among => s.perm_levelOrder.mem_iff.mp among

theorem mem_breadthFirst_iff {c : ClassDef} : c ∈ s.breadthFirst ↔ c ∈ s.classes :=
  (perm_select s.perm_levelOrder).mem_iff

/-- The classes behind the roots, as the classes before them lead to them. -/
def newcomers (s : Schema) : List ClassDef :=
  s.select (s.graph.newcomers s.rootNames (s.graph.levelOrder s.rootNames))

theorem map_name_newcomers (s : Schema) : s.newcomers.map (·.name) =
    s.graph.newcomers s.rootNames (s.graph.levelOrder s.rootNames) :=
  map_name_select fun _ new => (Digraph.mem_newcomers new).1

theorem name_mem_of_mem_newcomers {c : ClassDef} (new : c ∈ s.newcomers) :
    c.name ∈ s.graph.newcomers s.rootNames (s.graph.levelOrder s.rootNames) := by
  rw [← map_name_newcomers]
  exact List.mem_map_of_mem new

theorem breadthFirst_eq (s : Schema) : s.breadthFirst = s.roots ++ s.newcomers := by
  have order : s.graph.levelOrder s.rootNames =
      s.rootNames ++ s.graph.newcomers s.rootNames (s.graph.levelOrder s.rootNames) := by
    rw [Digraph.levelOrder, Digraph.eraseDups_eq_self s.nodup_rootNames]
    exact s.graph.drain_eq s.rootNames s.rootNames
  have roots : s.select s.rootNames = s.roots := select_map_name fun _ => mem_classes_of_mem_roots
  rw [breadthFirst, order, select, List.filterMap_append]
  exact congrArg (· ++ s.newcomers) roots

theorem mem_newcomers_iff {c : ClassDef} :
    c ∈ s.newcomers ↔ c ∈ s.classes ∧ c ∉ s.roots := by
  have apart : c ∈ s.newcomers → c ∉ s.roots := fun new root =>
    (Digraph.mem_newcomers (name_mem_of_mem_newcomers new)).2.1 (List.mem_map_of_mem root)
  rw [← mem_breadthFirst_iff, breadthFirst_eq, List.mem_append]
  tauto

/-- Classes are discovered where their names are. -/
theorem discovery_levelOrder (s : Schema) (name : String) :
    discovery s.graph.successors (s.graph.levelOrder s.rootNames) name =
      discovery ClassDef.nested s.breadthFirst name := by
  rw [← map_name_breadthFirst]
  exact discovery_map fun c among => successors_graph (mem_breadthFirst_iff.mp among)

/-- Level by level come the roots, in the order of their declaration, and then all other classes in
the order in which they are discovered: by the place of the class that refers to them first, and by
their place among the references of that class.  Every class has a distance from the roots, and the
distance never falls along the way. -/
theorem breadthFirst_by_discovery (s : Schema) :
    ∃ others, s.breadthFirst = s.roots ++ others ∧
      (∀ c, c ∈ others ↔ c ∈ s.classes ∧ c ∉ s.roots) ∧
      (∀ c ∈ others, ∃ parent,
        s.breadthFirst[(discovery ClassDef.nested s.breadthFirst c.name).1]? = some parent ∧
          c.name ∈ parent.nested) ∧
      (others.Pairwise fun c d =>
        toLex (discovery ClassDef.nested s.breadthFirst c.name) <
          toLex (discovery ClassDef.nested s.breadthFirst d.name)) ∧
      (∀ c ∈ s.classes,
        s.graph.ReachedIn s.rootNames (s.graph.distance s.rootNames c.name) c.name) ∧
      s.breadthFirst.Pairwise fun c d =>
        s.graph.distance s.rootNames c.name ≤ s.graph.distance s.rootNames d.name := by
  have advancing := Digraph.Advancing.start s.graph s.rootNames fun _ => mem_nodes_of_mem_rootNames
  refine ⟨s.newcomers, s.breadthFirst_eq, fun c => mem_newcomers_iff, fun c new => ?_, ?_,
    fun c among => ?_, ?_⟩
  · obtain ⟨_, _, node, out, follows⟩ := Digraph.mem_newcomers (name_mem_of_mem_newcomers new)
    rw [← map_name_breadthFirst] at out
    obtain ⟨parent, listed, rfl⟩ := List.mem_map.mp out
    rw [successors_graph (mem_breadthFirst_iff.mp listed)] at follows
    exact exists_discoverer ⟨parent, listed, follows⟩
  · have sorted := Digraph.pairwise_newcomers s.nodup_successors s.rootNames
      (s.graph.levelOrder s.rootNames)
    rw [← map_name_newcomers, List.pairwise_map] at sorted
    simpa only [discovery_levelOrder] using sorted
  · have out := s.perm_levelOrder.mem_iff.mpr (ClassList.mem_names.mpr ⟨c, among, rfl⟩)
    obtain ⟨⟨n, reached⟩, _⟩ := advancing.reached_of_mem_drain out
    exact Digraph.reachedIn_distance reached
  · have sorted := advancing.pairwise_drain
    rw [← Digraph.levelOrder, ← map_name_breadthFirst, List.pairwise_map] at sorted
    exact sorted

end Schema

end Classwright
