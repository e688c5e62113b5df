/-
# Classwright.Proofs.Schema.Blocks — depth first, what a class leads to stands right behind it

Depth first the classes that a class leads to are listed right behind it, without those that were
listed before it.  They are its block (`blockIn`), and the block in turn is made of the references
of the class, one after the other, each with its own block behind it (`blocks`).

A walk skips what it has seen, so this needs that nothing which was seen is still unfinished.  If
the walk could come back to an open node, then what is below that node would be listed behind the
walk through it, and not in the block at hand.  But no chain of edges leads back to an open node, so
whatever is new below a node is entered on the walk through its successors.
-/

import Mathlib
import Classwright.Proofs.Schema.Levels
import Classwright.Proofs.Schema.ParentsFirst

namespace Classwright

/-! ## Blocks -/

section Blocks

variable {α β : Type} {a : α} {as placed others before rest : List α}
  {below : α → α → Prop} {block : α → List α}

open Classical in
/-- The items below the given one that do not stand before it, in their order. -/
noncomputable def blockIn [DecidableEq α] (below : α → α → Prop) (order : List α) (a : α) :
    List α :=
  order.filter fun b => below a b ∧ b ∉ order.takeWhile (· ≠ a)

theorem mem_blockIn_iff [DecidableEq α] {order : List α} {b : α} : b ∈ blockIn below order a ↔
    b ∈ order ∧ below a b ∧ b ∉ order.takeWhile (· ≠ a) := by
  simp only [blockIn, List.mem_filter, decide_eq_true_eq]

/-- The items in turn, each with its block behind it, unless it was placed before. -/
def blocks [DecidableEq α] (block : α → List α) (placed : List α) : List α → List α
  | [] => []
  | a :: as =>
    if a ∈ placed then blocks block placed as
    else a :: block a ++ blocks block (placed ++ a :: block a) as

theorem takeWhile_ne_append [DecidableEq α] (new : a ∉ before) :
    (before ++ a :: rest).takeWhile (· ≠ a) = before := by
  rw [List.takeWhile_append_of_pos, List.takeWhile_cons_of_neg (by simp), List.append_nil]
  intro b among
  exact decide_eq_true fun same => new (same ▸ among)

open Classical in
/-- Where no item stands twice, the block of an item is what is below it of all behind it. -/
theorem blockIn_append [DecidableEq α] (distinct : (before ++ a :: rest).Nodup)
    (other : ¬ below a a) :
    blockIn below (before ++ a :: rest) a = rest.filter fun b => below a b := by
  obtain ⟨_, _, apart⟩ := List.nodup_append'.mp distinct
  have new : a ∉ before := fun among => apart among List.mem_cons_self
  have none : before.filter (fun b => below a b ∧ b ∉ before) = [] :=
    List.filter_eq_nil_iff.mpr fun b among => by simp [among]
  rw [blockIn, takeWhile_ne_append new, List.filter_append, none, List.nil_append,
    List.filter_cons_of_neg (by simp [other])]
  refine List.filter_congr fun b among => ?_
  have new : b ∉ before := fun old => apart old (List.mem_cons_of_mem a among)
  simp [new]

/-- An item of a list put together from two stands in the one or in the other. -/
theorem cases_of_append_eq {first second back : List α}
    (eq : first ++ second = before ++ a :: back) :
    (∃ more, before = first ++ more ∧ second = more ++ a :: back) ∨
      ∃ more, first = before ++ a :: more ∧ back = more ++ second := by
  rcases List.append_eq_append_iff.mp eq with ⟨more, rfl, found⟩ | ⟨more, rfl, found⟩
  · exact .inl ⟨more, rfl, found⟩
  · rcases List.cons_eq_append_iff.mp found with ⟨rfl, rfl⟩ | ⟨more, rfl, rfl⟩
    · exact .inl ⟨[], by simp, rfl⟩
    · exact .inr ⟨more, rfl, rfl⟩

variable [DecidableEq α] [DecidableEq β]

theorem forall_mem_blocks {p : α → Prop} (items : ∀ a ∈ as, p a)
    (inner : ∀ a ∈ as, ∀ b ∈ block a, p b) : ∀ b ∈ blocks block placed as, p b := by
  induction as generalizing placed with
  | nil => exact List.forall_mem_nil p
  | cons a as ih =>
      rw [List.forall_mem_cons] at items inner
      rw [blocks]
      split
      · exact ih items.2 inner.2
      · rw [List.forall_mem_append, List.forall_mem_cons]
        exact ⟨⟨items.1, inner.1⟩, ih items.2 inner.2⟩

/-- Only what was placed of the items themselves counts. -/
theorem blocks_congr (same : ∀ a ∈ as, a ∈ placed ↔ a ∈ others) :
    blocks block placed as = blocks block others as := by
  induction as generalizing placed others with
  | nil => rfl
  | cons a as ih =>
      rw [List.forall_mem_cons] at same
      rw [blocks, blocks]
      by_cases old : a ∈ placed
      · rw [if_pos old, if_pos (same.1.mp old), ih same.2]
      · rw [if_neg old, if_neg (mt same.1.mpr old)]
        refine congrArg _ (ih fun b among => ?_)
        rw [List.mem_append, List.mem_append, same.2 b among]

/-- Items that are in no block, and all different, are all placed where they come up. -/
theorem blocks_eq_flatMap (distinct : as.Nodup) (new : ∀ a ∈ as, a ∉ placed)
    (apart : ∀ a ∈ as, ∀ b, a ∉ block b) :
    blocks block placed as = as.flatMap fun a => a :: block a := by
  induction as generalizing placed with
  | nil => rfl
  | cons a as ih =>
      rw [List.forall_mem_cons] at new apart
      obtain ⟨other, distinct⟩ := List.nodup_cons.mp distinct
      rw [blocks, if_neg new.1, List.flatMap_cons, ih distinct ?_ apart.2]
      intro b among
      rw [List.mem_append, List.mem_cons, not_or, not_or]
      exact ⟨new.2 b among, fun same => other (same ▸ among), apart.2 b among a⟩

/-- Blocks may be looked at through a map that tells all items apart. -/
theorem map_blocks {f : α → β} {image : β → List β} {all : List α}
    (inj : ∀ a ∈ all, ∀ b ∈ all, f a = f b → a = b) (inside : ∀ a ∈ all, ∀ b ∈ block a, b ∈ all)
    (same : ∀ a ∈ all, (block a).map f = image (f a)) (known : ∀ a ∈ as, a ∈ all)
    (old : ∀ a ∈ placed, a ∈ all) :
    (blocks block placed as).map f = blocks image (placed.map f) (as.map f) := by
  induction as generalizing placed with
  | nil => rfl
  | cons a as ih =>
      rw [List.forall_mem_cons] at known
      have placed_iff : f a ∈ placed.map f ↔ a ∈ placed := by
        refine ⟨fun among => ?_, List.mem_map_of_mem⟩
        obtain ⟨b, among, eq⟩ := List.mem_map.mp among
        exact inj b (old b among) a known.1 eq ▸ among
      rw [List.map_cons, blocks, blocks]
      by_cases here : a ∈ placed
      · rw [if_pos here, if_pos (placed_iff.mpr here), ih known.2 old]
      · have more : ∀ b ∈ placed ++ a :: block a, b ∈ all := by
          rw [List.forall_mem_append, List.forall_mem_cons]
          exact ⟨old, known.1, inside a known.1⟩
        rw [if_neg here, if_neg (mt placed_iff.mp here), List.map_append, List.map_cons,
          ih known.2 more, List.map_append, List.map_cons, same a known.1]

end Blocks

namespace Digraph

open Relation (TransGen)

variable {g : Digraph} {seen starts after before rest order : List String}
  {events below : List Event} {between : List String} {opened : Set String} {node target : String}

/-! ## What a walk enters -/

/-- What stands behind a node in the order of entering is, as far as it is below the node, what is
entered on the walk through its successors. -/
theorem Underway.blockIn_eq (u : g.Underway opened seen (node :: starts)) (inside : node ∈ g.nodes)
    (h : Walks g (node :: seen) (g.successors node) below between)
    (acyclic : ∀ node, ¬ TransGen g.Edge node node) (same : ∀ other, other ∈ seen ↔ other ∈ before)
    (eq : order = before ++ node :: (below.filterMap Event.entered? ++ rest))
    (distinct : order.Nodup) :
    blockIn (TransGen g.Edge) order node = below.filterMap Event.entered? := by
  classical
  subst eq
  obtain ⟨_, tail, apart⟩ := List.nodup_append'.mp distinct
  obtain ⟨notBehind, both⟩ := List.nodup_cons.mp tail
  have disjoint := (List.nodup_append'.mp both).2.2
  have new : ∀ other ∈ below.filterMap Event.entered? ++ rest, other ∉ node :: seen := by
    intro other behind old
    rw [List.mem_cons, same] at old
    rcases old with rfl | old
    · exact notBehind behind
    · exact apart old (List.mem_cons_of_mem node behind)
  rw [blockIn_append distinct (acyclic node), List.filter_append]
  -- what is entered below the node can be reached from it, and what comes behind that cannot
  have entered : ∀ other ∈ below.filterMap Event.entered?, TransGen g.Edge node other := by
    intro other entered
    have unseen := new other (List.mem_append_left rest entered)
    rw [List.mem_cons, not_or] at unseen
    have leads := h.leadsTo_of_reached inside unseen.2 (h.reached_of_entered entered)
    exact (Relation.reflTransGen_iff_eq_or_transGen.mp leads).resolve_left unseen.1
  have notBelow : ∀ other ∈ rest, ¬ TransGen g.Edge node other := by
    intro other behind chain
    have unseen := new other (List.mem_append_right _ behind)
    exact disjoint (u.entered_of_leadsTo inside h acyclic unseen chain.to_reflTransGen) behind
  rw [List.filter_eq_self.mpr fun other among => decide_eq_true (entered other among),
    List.filter_eq_nil_iff.mpr fun other among => by simpa using notBelow other among,
    List.append_nil]

/-- Every node that is entered has a walk through its successors, and what is entered there comes
right behind it. -/
theorem Walks.exists_below (h : Walks g seen starts events after) :
    ∀ opened front back, g.Underway opened seen starts →
      events.filterMap Event.entered? = front ++ node :: back →
      node ∈ g.nodes ∧ ∃ opened known below between starts,
        g.Underway opened known (node :: starts) ∧
        Walks g (node :: known) (g.successors node) below between ∧
        (∀ other, other ∈ known ↔ other ∈ seen ∨ other ∈ front) ∧
        below.filterMap Event.entered? <+: back := by
  induction h with
  | done seen =>
      intro opened front back _ eq
      simp at eq
  | again _ _ ih =>
      intro opened front back u eq
      exact ih opened front back u.tail eq
  | outside _ _ _ ih =>
      intro opened front back u eq
      exact ih opened front back u.tail eq
  | @enter seen starts between after below events start _ inside walksBelow _ ihBelow ihRest =>
      intro opened front back u eq
      rw [filterMap_entered_enter] at eq
      -- the node is the first start itself, or entered after that start was left, or below it
      rcases List.cons_eq_append_iff.mp eq with ⟨rfl, here⟩ | ⟨first, rfl, tail⟩
      · obtain ⟨rfl, rfl⟩ := List.cons.inj here
        exact ⟨inside, opened, seen, below, between, starts, u, walksBelow, by simp,
          List.prefix_append _ _⟩
      · rcases cases_of_append_eq tail with ⟨more, rfl, later⟩ | ⟨more, earlier, rfl⟩
        · obtain ⟨listed, above, known, inner, last, others, v, walks, same, within⟩ :=
            ihRest opened more back (u.leave inside walksBelow) later
          refine ⟨listed, above, known, inner, last, others, v, walks, fun other => ?_, within⟩
          rw [same, walksBelow.perm_after.mem_iff]
          simp only [List.mem_append, List.mem_cons]
          tauto
        · obtain ⟨listed, above, known, inner, last, others, v, walks, same, within⟩ :=
            ihBelow _ first more (u.enter inside) earlier
          refine ⟨listed, above, known, inner, last, others, v, walks, fun other => ?_,
            within.trans (List.prefix_append _ _)⟩
          rw [same]
          simp only [List.mem_cons]
          tauto

/-- A walk enters its starts in turn, each with its block behind it. -/
theorem Walks.eq_blocks (h : Walks g seen starts events after)
    (acyclic : ∀ node, ¬ TransGen g.Edge node node) (distinct : order.Nodup) :
    ∀ opened before rest, g.Underway opened seen starts →
      (∀ start ∈ starts, start ∈ g.nodes) → (∀ other, other ∈ seen ↔ other ∈ before) →
      order = before ++ (events.filterMap Event.entered? ++ rest) →
      events.filterMap Event.entered? = blocks (blockIn (TransGen g.Edge) order) before starts := by
  induction h with
  | done seen =>
      intro opened before rest _ _ _ _
      rfl
  | again old _ ih =>
      intro opened before rest u known same eq
      rw [blocks, if_pos ((same _).mp old)]
      exact ih opened before rest u.tail (List.forall_mem_cons.mp known).2 same eq
  | outside _ unknown _ _ =>
      intro opened before rest _ known _ _
      exact absurd (List.forall_mem_cons.mp known).1 unknown
  | @enter seen starts between after below events node new inside walksBelow _ _ ihRest =>
      intro opened before rest u known same eq
      rw [filterMap_entered_enter] at eq ⊢
      have whole : order = before ++ node :: (below.filterMap Event.entered? ++
          (events.filterMap Event.entered? ++ rest)) := by
        rw [eq, List.cons_append, List.append_assoc]
      have own := u.blockIn_eq inside walksBelow acyclic same whole distinct
      have others := ihRest opened (before ++ node :: below.filterMap Event.entered?) rest
        (u.leave inside walksBelow) (List.forall_mem_cons.mp known).2 (fun other => ?_) ?_
      · rw [blocks, if_neg (mt (same node).mpr new), own, ← others, List.cons_append]
      · rw [walksBelow.perm_after.mem_iff]
        simp only [List.mem_append, List.mem_cons, same]
        tauto
      · rw [whole]
        simp

end Digraph

/-! ## Orders of a schema -/

namespace Schema

open Relation (TransGen)
open ClassList (RefersTo names)

variable {s : Schema} {c : ClassDef}

/-- The classes that chains of references lead to from the class and that are not listed before it,
in the order in which they are listed. -/
noncomputable def block (s : Schema) (c : ClassDef) : List ClassDef :=
  blockIn (fun c d => TransGen (RefersTo s.classes) c.name d.name) s.depthFirst c

theorem edge_graph (s : Schema) : s.graph.Edge = RefersTo s.classes :=
  funext₂ fun _ _ => propext edge_graph_iff

theorem acyclic_graph (s : Schema) : ∀ node, ¬ TransGen s.graph.Edge node node := by
  rw [edge_graph]
  exact s.sound.acyclic

theorem mem_depthFirst_iff : c ∈ s.depthFirst ↔ c ∈ s.classes :=
  (perm_select s.perm_preorder).mem_iff

theorem map_name_depthFirst (s : Schema) :
    s.depthFirst.map (·.name) = s.graph.preorder s.rootNames :=
  map_name_select fun _ among => s.perm_preorder.mem_iff.mp among

theorem nodup_preorder (s : Schema) : (s.graph.preorder s.rootNames).Nodup :=
  s.perm_preorder.nodup_iff.mpr s.sound.distinctNames

theorem nodup_depthFirst (s : Schema) : s.depthFirst.Nodup := by
  refine List.Nodup.of_map (·.name) ?_
  rw [map_name_depthFirst]
  exact s.nodup_preorder

/-- Lists of classes are the same if the names are. -/
theorem eq_of_map_name_eq {first second : List ClassDef} (hFirst : ∀ c ∈ first, c ∈ s.classes)
    (hSecond : ∀ c ∈ second, c ∈ s.classes)
    (same : first.map (·.name) = second.map (·.name)) : first = second := by
  rw [← select_map_name hFirst, same, select_map_name hSecond]

theorem mem_classes_of_mem_block {d : ClassDef} (inner : d ∈ s.block c) : d ∈ s.classes :=
  mem_depthFirst_iff.mp (mem_blockIn_iff.mp inner).1

/-- No class refers to a root, so a root is in no block. -/
theorem root_notMem_block {root : ClassDef} (among : root ∈ s.roots) : root ∉ s.block c := by
  intro inner
  obtain ⟨_, chain, _⟩ := mem_blockIn_iff.mp inner
  obtain ⟨name, _, refers⟩ := Relation.TransGen.tail'_iff.mp chain
  exact not_refersTo_root (List.mem_map_of_mem among) refers

theorem mem_block_iff {before later : List ClassDef} {d : ClassDef}
    (order : s.depthFirst = before ++ c :: later) : d ∈ s.block c ↔
      d ∈ s.classes ∧ TransGen (RefersTo s.classes) c.name d.name ∧ d ∉ before := by
  have distinct := s.nodup_depthFirst
  rw [order] at distinct
  have new : c ∉ before := fun among =>
    (List.nodup_append'.mp distinct).2.2 among List.mem_cons_self
  rw [block, mem_blockIn_iff, mem_depthFirst_iff, order, takeWhile_ne_append new]

/-- The names in a block are the block of the name. -/
theorem map_name_block (among : c ∈ s.classes) : (s.block c).map (·.name) =
    blockIn (TransGen s.graph.Edge) (s.graph.preorder s.rootNames) c.name := by
  classical
  obtain ⟨before, later, order⟩ := List.append_of_mem (mem_depthFirst_iff.mpr among)
  have distinct := s.nodup_preorder
  rw [← map_name_depthFirst, order, List.map_append, List.map_cons] at distinct
  have distinctClasses := s.nodup_depthFirst
  rw [order] at distinctClasses
  rw [← map_name_depthFirst, block, order, List.map_append, List.map_cons,
    blockIn_append distinct (s.acyclic_graph c.name),
    blockIn_append distinctClasses (s.sound.acyclic c.name), edge_graph, List.filter_map]
  rfl

/-- What a walk through the roots or through the references of a class lists are the classes with
their blocks. -/
theorem eq_blocks_of_map_name {inner placed classes : List ClassDef}
    (listed : ∀ c ∈ inner, c ∈ s.classes) (old : ∀ c ∈ placed, c ∈ s.classes)
    (known : ∀ c ∈ classes, c ∈ s.classes)
    (same : inner.map (·.name) =
      blocks (blockIn (TransGen s.graph.Edge) (s.graph.preorder s.rootNames))
        (placed.map (·.name)) (classes.map (·.name))) :
    inner = blocks s.block placed classes := by
  refine eq_of_map_name_eq listed ?_ (same.trans ?_)
  · exact forall_mem_blocks known fun c _ d => mem_classes_of_mem_block
  · exact (map_blocks (fun c hc d hd => eq_of_name_eq hc hd)
      (fun c _ d => mem_classes_of_mem_block) (fun c => map_name_block) known old).symm

theorem nested_subset_nodes (among : c ∈ s.classes) : ∀ name ∈ c.nested, name ∈ s.graph.nodes := by
  intro name within
  obtain ⟨field, has, mentions⟩ := ClassDef.mem_nested_iff.mp within
  exact ClassList.mem_names.mpr (s.sound.declared c among field has name mentions)

/-- In a schema the blocks of names are made of the blocks of the names that a class refers to, and
stand right behind the name. -/
theorem blockIn_preorder {before later : List String} (among : c ∈ s.classes)
    (order : s.graph.preorder s.rootNames = before ++ c.name :: later) :
    blockIn (TransGen s.graph.Edge) (s.graph.preorder s.rootNames) c.name <+: later ∧
      blockIn (TransGen s.graph.Edge) (s.graph.preorder s.rootNames) c.name =
        blocks (blockIn (TransGen s.graph.Edge) (s.graph.preorder s.rootNames))
          before c.nested := by
  obtain ⟨after, walks⟩ := s.graph.walks_events s.rootNames
  obtain ⟨inside, opened, known, below, between, starts, u, walksBelow, same, rest, rfl⟩ :=
    walks.exists_below ∅ before later ⟨by simp, by simp⟩ order
  have seen : ∀ other, other ∈ known ↔ other ∈ before := by simpa using same
  have own := u.blockIn_eq inside walksBelow s.acyclic_graph seen order s.nodup_preorder
  have parts := walksBelow.eq_blocks s.acyclic_graph s.nodup_preorder _ (before ++ [c.name]) rest
    (u.enter inside) (successors_graph among ▸ nested_subset_nodes among) (by simp [seen, or_comm])
    (by rw [order]; simp)
  rw [own]
  refine ⟨List.prefix_append _ _, parts.trans ?_⟩
  rw [successors_graph among]
  refine blocks_congr fun name within => ?_
  -- no class refers to itself
  have apart : name ≠ c.name := by
    rintro rfl
    have edge : s.graph.Edge c.name c.name :=
      ⟨inside, inside, (successors_graph among).symm ▸ within⟩
    exact s.acyclic_graph c.name (.single edge)
  simp [apart]

/-- Depth first each class is followed right away by its block: by the classes that it leads to and
that were not listed before it.  The block consists of its references in turn, each with its own
block behind it, without those that were listed before the class or in the part of an earlier
reference.  The whole order is the roots with their blocks. -/
theorem depthFirst_in_blocks (s : Schema) :
    (∀ before c later, s.depthFirst = before ++ c :: later →
      (∀ d, d ∈ s.block c ↔
        d ∈ s.classes ∧ TransGen (RefersTo s.classes) c.name d.name ∧ d ∉ before) ∧
      s.block c <+: later ∧ s.block c = blocks s.block before (s.select c.nested)) ∧
    s.depthFirst = s.roots.flatMap fun root => root :: s.block root := by
  constructor
  · intro before c later order
    have listed : ∀ d ∈ before ++ c :: later, d ∈ s.classes := fun d among =>
      mem_depthFirst_iff.mp (order ▸ among)
    rw [List.forall_mem_append, List.forall_mem_cons] at listed
    obtain ⟨hBefore, hc, hLater⟩ := listed
    have split : s.graph.preorder s.rootNames =
        before.map (·.name) ++ c.name :: later.map (·.name) := by
      rw [← map_name_depthFirst, order, List.map_append, List.map_cons]
    obtain ⟨⟨rest, behind⟩, parts⟩ := blockIn_preorder hc split
    rw [← map_name_block hc] at behind
    refine ⟨fun d => mem_block_iff order, ⟨s.select rest, ?_⟩, ?_⟩
    · rw [← select_map_name hLater, ← behind, select, select, List.filterMap_append]
      exact congrArg (· ++ s.select rest) (select_map_name fun d => mem_classes_of_mem_block).symm
    · refine eq_blocks_of_map_name (fun d => mem_classes_of_mem_block) hBefore ?_ ?_
      · intro d among
        obtain ⟨name, _, found⟩ := List.mem_filterMap.mp among
        exact (find?_eq_some_iff.mp found).1
      · rw [map_name_block hc, map_name_select (nested_subset_nodes hc), ← parts]
  · have whole : s.depthFirst = blocks s.block [] s.roots := by
      obtain ⟨after, walks⟩ := s.graph.walks_events s.rootNames
      refine eq_blocks_of_map_name (fun c => mem_depthFirst_iff.mp) (List.forall_mem_nil _)
        (fun c => mem_classes_of_mem_roots) ?_
      rw [map_name_depthFirst]
      exact walks.eq_blocks s.acyclic_graph s.nodup_preorder ∅ [] [] ⟨by simp, by simp⟩
        (fun _ => mem_nodes_of_mem_rootNames) (by simp) (List.append_nil _).symm
    exact whole.trans (blocks_eq_flatMap (.of_map _ s.nodup_rootNames) (by simp)
      fun root among c => root_notMem_block among)

/-- A shipment refers to a customer, but its block is empty, since the customer of the order was
listed before. -/
theorem depthFirst_in_blocks_shortcut :
    ∃ order customer shipment, shortcut.depthFirst = [order, customer] ++ shipment :: [] ∧
      shipment.nested = [customer.name] ∧ shortcut.block shipment = [] := by
  have listed : shortcut.depthFirst = [_, _] ++ _ :: [] := inOrder_shortcut
  obtain ⟨_, inner, _⟩ := (depthFirst_in_blocks shortcut).1 [_, _] _ [] listed
  exact ⟨_, _, _, listed, by cbv, List.prefix_nil.mp inner⟩

end Schema

end Classwright
