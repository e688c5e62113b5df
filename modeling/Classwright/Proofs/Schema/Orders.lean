/-
# Classwright.Proofs.Schema.Orders — depth-first orders list every class once

A walk starts from the roots only.  That it misses no class is because the classes are finitely many
and no chain of references closes: going from a class to one that refers to it, again and again,
ends at a root.  What a walk has seen is closed under references, so from the roots it comes down to
every class.

A walk enters no node twice, and it leaves the nodes that it enters.  Both orders are therefore the
classes of the schema in another order.
-/

import Classwright.Proofs.Schema.Sound
import Classwright.Render.Backend
import Mathlib.Data.Fintype.Card
import Mathlib.Data.Set.Finite.List

namespace Classwright

/-! ## What a walk sees -/

namespace Digraph

variable {g : Digraph} {seen starts after : List String} {events : List Event}

/-- Behind a walk those nodes are seen that were seen before it and those that it has entered. -/
theorem Walks.perm_after (h : Walks g seen starts events after) :
    after.Perm (events.filterMap Event.entered? ++ seen) := by
  induction h with
  | done seen => exact .refl seen
  | again _ _ ih => exact ih
  | outside _ _ _ ih => exact ih
  | @enter seen starts between after below events node _ _ _ _ ihBelow ihRest =>
      refine (ihRest.trans (ihBelow.append_left _)).trans (List.perm_iff_count.mpr fun other => ?_)
      simp only [List.filterMap_cons, List.filterMap_append, Event.entered?, List.count_append,
        List.count_cons]
      omega

/-- No node is seen twice, so none is entered twice. -/
theorem Walks.nodup_after (h : Walks g seen starts events after) (distinct : seen.Nodup) :
    after.Nodup := by
  induction h with
  | done seen => exact distinct
  | again _ _ ih => exact ih distinct
  | outside _ _ _ ih => exact ih distinct
  | enter new _ _ _ ihBelow ihRest => exact ihRest (ihBelow (List.nodup_cons.mpr ⟨new, distinct⟩))

/-- A node is left behind everything below it. -/
theorem filterMap_left_enter (node : String) (below events : List Event) :
    (Event.enter node :: (below ++ .leave node :: events)).filterMap Event.left? =
      below.filterMap Event.left? ++ node :: events.filterMap Event.left? := by
  simp [List.filterMap_cons, Event.left?]

/-- A node is entered in front of everything below it. -/
theorem filterMap_entered_enter (node : String) (below events : List Event) :
    (Event.enter node :: (below ++ .leave node :: events)).filterMap Event.entered? =
      node :: (below.filterMap Event.entered? ++ events.filterMap Event.entered?) := by
  simp [List.filterMap_cons, Event.entered?]

/-- A walk leaves the nodes that it enters. -/
theorem Walks.perm_left (h : Walks g seen starts events after) :
    (events.filterMap Event.left?).Perm (events.filterMap Event.entered?) := by
  induction h with
  | done seen => exact .refl []
  | again _ _ ih => exact ih
  | outside _ _ _ ih => exact ih
  | @enter seen starts between after below events node _ _ _ _ ihBelow ihRest =>
      rw [filterMap_left_enter, filterMap_entered_enter]
      exact List.perm_middle.trans ((ihBelow.append ihRest).cons node)

theorem Walks.mem_after (h : Walks g seen starts events after) {node : String}
    (old : node ∈ seen) : node ∈ after := by
  obtain ⟨fresh, rfl⟩ := h.after_eq
  exact List.mem_append_right fresh old

/-- Nothing is seen but nodes of the graph. -/
theorem Walks.after_subset (h : Walks g seen starts events after)
    (known : ∀ node ∈ seen, node ∈ g.nodes) : ∀ node ∈ after, node ∈ g.nodes := by
  induction h with
  | done seen => exact known
  | again _ _ ih => exact ih known
  | outside _ _ _ ih => exact ih known
  | enter _ inside _ _ ihBelow ihRest =>
      exact ihRest (ihBelow (List.forall_mem_cons.mpr ⟨inside, known⟩))

/-- Behind a walk its starts have been seen. -/
theorem Walks.starts_seen (h : Walks g seen starts events after) :
    ∀ start ∈ starts, start ∈ g.nodes → start ∈ after := by
  induction h with
  | done seen => simp
  | again old walks ih =>
      intro start among known
      rcases List.mem_cons.mp among with rfl | among
      · exact walks.mem_after old
      · exact ih start among known
  | outside _ unknown _ ih =>
      intro start among known
      rcases List.mem_cons.mp among with rfl | among
      · exact absurd known unknown
      · exact ih start among known
  | enter _ _ walksBelow walks _ ihRest =>
      intro start among known
      rcases List.mem_cons.mp among with rfl | among
      · exact walks.mem_after (walksBelow.mem_after List.mem_cons_self)
      · exact ihRest start among known

/-- With a node that a walk has entered its successors have been seen. -/
theorem Walks.closed (h : Walks g seen starts events after) :
    ∀ node ∈ after, node ∉ seen → ∀ next ∈ g.successors node, next ∈ g.nodes → next ∈ after := by
  induction h with
  | done seen => exact fun node among new => absurd among new
  | again _ _ ih => exact ih
  | outside _ _ _ ih => exact ih
  | @enter seen starts between after below events node _ _ walksBelow walks ihBelow ihRest =>
      intro other among new next follows known
      -- `other` was entered at or below `node`, or in the rest of the walk
      by_cases earlier : other ∈ between
      · refine walks.mem_after ?_
        by_cases here : other = node
        · subst here
          exact walksBelow.starts_seen next follows known
        · exact ihBelow other earlier (by simp [here, new]) next follows known
      · exact ihRest other among earlier next follows known

end Digraph

/-! ## Orders of a schema -/

namespace Schema

open ClassList (RefersTo names)

variable {s : Schema}

theorem mem_rootNames {c : ClassDef} (among : c ∈ s.classes)
    (root : ∀ name, ¬ RefersTo s.classes name c.name) : c.name ∈ s.rootNames := by
  refine List.mem_map_of_mem (List.mem_filter.mpr ⟨among, decide_eq_true fun referenced => ?_⟩)
  obtain ⟨d, hd, nested⟩ := List.mem_flatMap.mp referenced
  exact root d.name ⟨d, hd, rfl, ClassDef.mem_nested_iff.mp nested⟩

/-- Going from classes to classes that refer to them ends, as it does the other way. -/
theorem wellFounded_referredTo (s : Schema) :
    WellFounded fun d c : { c // c ∈ s.classes } => RefersTo s.classes d.1.name c.1.name := by
  let chain (d c : { c // c ∈ s.classes }) : Prop :=
    Relation.TransGen (RefersTo s.classes) d.1.name c.1.name
  have : Finite { c // c ∈ s.classes } := (List.finite_toSet s.classes).to_subtype
  have : IsTrans _ chain := ⟨fun _ _ _ first second => first.trans second⟩
  have : Std.Irrefl chain := ⟨fun c => s.sound.acyclic c.1.name⟩
  refine Subrelation.wf ?_ (Finite.wellFounded_of_trans_of_irrefl chain)
  exact fun refers => .single refers

/-- Names that include the roots, and with each name those that it refers to, include all. -/
theorem name_mem_of_closed {reached : List String} (roots : ∀ name ∈ s.rootNames, name ∈ reached)
    (closed : ∀ node ∈ reached, ∀ next ∈ s.graph.successors node, next ∈ s.graph.nodes →
      next ∈ reached) :
    ∀ c : { c // c ∈ s.classes }, c.1.name ∈ reached := by
  intro c
  -- upwards: what refers to a class has been reached when the induction comes to the class
  induction c using s.wellFounded_referredTo.induction with
  | _ c ih =>
    by_cases root : ∀ name, ¬ RefersTo s.classes name c.1.name
    · exact roots _ (mem_rootNames c.2 root)
    · obtain ⟨name, refers⟩ := not_forall_not.mp root
      obtain ⟨d, hd, rfl, _⟩ := id refers
      have known : c.1.name ∈ s.graph.nodes := ClassList.mem_names.mpr ⟨c.1, c.2, rfl⟩
      exact closed d.name (ih ⟨d, hd⟩ refers) _ (edge_graph_iff.mpr refers).2.2 known

/-- The roots are classes. -/
theorem mem_nodes_of_mem_rootNames {name : String} (root : name ∈ s.rootNames) :
    name ∈ s.graph.nodes := by
  obtain ⟨c, among, rfl⟩ := List.mem_map.mp root
  exact ClassList.mem_names.mpr ⟨c, (List.mem_filter.mp among).1, rfl⟩

/-- A walk from the roots comes to every class. -/
theorem name_mem_after {events : List Digraph.Event} {after : List String}
    (walks : s.graph.Walks [] s.rootNames events after) :
    ∀ c : { c // c ∈ s.classes }, c.1.name ∈ after :=
  name_mem_of_closed
    (fun name root => walks.starts_seen name root (mem_nodes_of_mem_rootNames root))
    (fun node reached => walks.closed node reached List.not_mem_nil)

/-- From the roots a walk enters the names of all classes, each once. -/
theorem perm_preorder (s : Schema) : (s.graph.preorder s.rootNames).Perm (names s.classes) := by
  obtain ⟨after, walks⟩ := s.graph.walks_events s.rootNames
  have entered := walks.perm_after
  rw [List.append_nil] at entered
  refine entered.symm.trans ?_
  refine (List.perm_ext_iff_of_nodup (walks.nodup_after .nil) s.sound.distinctNames).mpr ?_
  intro name
  constructor
  · exact walks.after_subset (by simp) name
  · intro declared
    obtain ⟨c, among, rfl⟩ := ClassList.mem_names.mp declared
    exact name_mem_after walks ⟨c, among⟩

theorem perm_postorder (s : Schema) : (s.graph.postorder s.rootNames).Perm (names s.classes) := by
  obtain ⟨after, walks⟩ := s.graph.walks_events s.rootNames
  exact walks.perm_left.trans s.perm_preorder

/-- Names in any order select the classes in that order. -/
theorem perm_select {order : List String} (perm : order.Perm (names s.classes)) :
    (s.select order).Perm s.classes := by
  have all : (names s.classes).filterMap s.find? = s.classes := by
    rw [names, List.filterMap_map]
    refine (List.filterMap_congr fun c among => ?_).trans List.filterMap_some
    exact find?_name among
  have selected := perm.filterMap s.find?
  rwa [all] at selected

theorem perm_inOrder (s : Schema) (order : DeclarationOrder) :
    (s.inOrder order).Perm s.classes := by
  cases order with
  | parentsFirst => exact perm_select s.perm_preorder
  | leavesFirst => exact perm_select s.perm_postorder

end Schema

end Classwright
