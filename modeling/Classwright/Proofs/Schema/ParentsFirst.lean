/-
# Classwright.Proofs.Schema.ParentsFirst — how far classes come before those that they refer to

From the roots down a class is listed when the walk first comes to it, so some class that refers to
it has been listed before.  That need not be every class that refers to it.  Where a class is
referred to from several places, a chain of references may come to it while another one that refers
to it is still ahead: the class has been overtaken (`Overtakes`).

Going down from the roots, the first reference that leads to the class decides.  If it does not lead
to the other one at all, the class comes first; if it does, the question is the same one level
further down.  The proof compares this with what a walk enters.  A node that is walked through leads
only to nodes that have been seen behind it, because no chain of edges leads back to an open node.
-/

import Classwright.Proofs.Schema.Traversal

namespace Classwright

namespace Digraph

open Relation (ReflTransGen TransGen)

variable {g : Digraph} {seen starts after order : List String} {events : List Event}
  {opened : Set String} {node start target child parent : String}

/-! ## Being overtaken -/

/-- There is a chain of edges, maybe of none, from the one node to the other. -/
def LeadsTo (g : Digraph) (node target : String) : Prop := ReflTransGen g.Edge node target

/-- Going down from the starts, one comes to `child` without having come to `parent`. -/
inductive Overtakes (g : Digraph) (child parent : String) : List String → Prop
  | past {start : String} {starts : List String} (leads : g.LeadsTo start child)
      (misses : ¬ g.LeadsTo start parent) : Overtakes g child parent (start :: starts)
  | down {start : String} {starts : List String} (leads : g.LeadsTo start parent)
      (above : start ≠ parent) (ahead : Overtakes g child parent (g.successors start)) :
      Overtakes g child parent (start :: starts)
  | later {start : String} {starts : List String} (misses : ¬ g.LeadsTo start child)
      (ahead : Overtakes g child parent starts) : Overtakes g child parent (start :: starts)

theorem LeadsTo.mem_nodes (leads : g.LeadsTo node target) (known : target ∈ g.nodes) :
    node ∈ g.nodes := by
  rcases Relation.ReflTransGen.cases_head leads with rfl | ⟨_, edge, _⟩
  · exact known
  · exact edge.1

section Edge

variable (edge : g.Edge parent child)

include edge

/-- A start that does not lead to the child makes no difference. -/
theorem overtakes_cons_of_misses (misses : ¬ g.LeadsTo start child) :
    g.Overtakes child parent (start :: starts) ↔ g.Overtakes child parent starts := by
  constructor
  · intro overtakes
    cases overtakes with
    | past leads => exact absurd leads misses
    | down leads => exact absurd (leads.tail edge) misses
    | later _ ahead => exact ahead
  · exact .later misses

/-- A start that leads to both of them leaves it to its successors. -/
theorem overtakes_cons_of_above (leads : g.LeadsTo start parent) (above : start ≠ parent) :
    g.Overtakes child parent (start :: starts) ↔
      g.Overtakes child parent (g.successors start) := by
  constructor
  · intro overtakes
    cases overtakes with
    | past _ misses => exact absurd leads misses
    | down _ _ ahead => exact ahead
    | later misses => exact absurd (leads.tail edge) misses
  · exact .down leads above

theorem not_overtakes_parent : ¬ g.Overtakes child parent (parent :: starts) := by
  intro overtakes
  cases overtakes with
  | past _ misses => exact misses .refl
  | down _ above => exact above rfl
  | later misses => exact misses (.single edge)

end Edge

/-- The list comes to `child`, and not to `parent` before it. -/
def Ahead (child parent : String) : List String → Prop
  | [] => False
  | node :: order => node = child ∨ node ≠ parent ∧ Ahead child parent order

theorem ahead_append {first second : List String} : Ahead child parent (first ++ second) ↔
    Ahead child parent first ∨ parent ∉ first ∧ Ahead child parent second := by
  induction first with
  | nil => simp [Ahead]
  | cons node first ih =>
      rw [List.cons_append, Ahead, Ahead, ih, List.mem_cons, not_or, ne_comm]
      tauto

theorem Ahead.mem (ahead : Ahead child parent order) : child ∈ order := by
  induction order with
  | nil => exact ahead.elim
  | cons node order ih =>
      rcases ahead with rfl | ⟨_, ahead⟩
      · exact List.mem_cons_self
      · exact List.mem_cons_of_mem node (ih ahead)

theorem ahead_of_mem (among : child ∈ order) (absent : parent ∉ order) :
    Ahead child parent order := by
  obtain ⟨before, later, rfl⟩ := List.append_of_mem among
  rw [List.mem_append, not_or] at absent
  exact ahead_append.mpr (.inr ⟨absent.1, .inl rfl⟩)

/-- Where no node is listed twice, a node is ahead exactly if the other one is not before it. -/
theorem ahead_iff_of_nodup {before later : List String}
    (distinct : (before ++ child :: later).Nodup) :
    Ahead child parent (before ++ child :: later) ↔ parent ∉ before := by
  have new : child ∉ before := fun among =>
    (List.nodup_append'.mp distinct).2.2 among List.mem_cons_self
  rw [ahead_append, Ahead]
  constructor
  · rintro (ahead | ⟨absent, _⟩)
    · exact absurd ahead.mem new
    · exact absent
  · exact fun absent => .inr ⟨absent, .inl rfl⟩

/-! ## What a walk comes to -/

/-- Every node that a walk has come to was seen before, or one of the starts leads to it. -/
theorem Walks.seen_or_leadsTo (h : Walks g seen starts events after) (reached : target ∈ after) :
    target ∈ seen ∨ ∃ start ∈ starts, start ∈ g.nodes ∧ g.LeadsTo start target := by
  induction h with
  | done seen => exact .inl reached
  | again _ _ ih =>
      exact (ih reached).imp_right fun ⟨start, among, leads⟩ =>
        ⟨start, List.mem_cons_of_mem _ among, leads⟩
  | outside _ _ _ ih =>
      exact (ih reached).imp_right fun ⟨start, among, leads⟩ =>
        ⟨start, List.mem_cons_of_mem _ among, leads⟩
  | @enter seen starts between after below events node _ inside _ _ ihBelow ihRest =>
      rcases ihRest reached with reached | ⟨start, among, leads⟩
      · rcases ihBelow reached with old | ⟨next, follows, known, leads⟩
        · rcases List.mem_cons.mp old with rfl | old
          · exact .inr ⟨target, List.mem_cons_self, inside, .refl⟩
          · exact .inl old
        · exact .inr ⟨node, List.mem_cons_self, inside, .head ⟨inside, known, follows⟩ leads⟩
      · exact .inr ⟨start, List.mem_cons_of_mem node among, leads⟩

/-- Every node that a walk enters is one of its starts or has an edge from one entered before. -/
theorem Walks.start_or_edge (h : Walks g seen starts events after) :
    ∀ before later, events.filterMap Event.entered? = before ++ target :: later →
      target ∈ g.nodes ∧ (target ∈ starts ∨ ∃ node ∈ before, g.Edge node target) := by
  induction h with
  | done seen =>
      intro before later eq
      simp at eq
  | again _ _ ih =>
      intro before later eq
      exact (ih before later eq).imp_right (Or.imp_left (List.mem_cons_of_mem _))
  | outside _ _ _ ih =>
      intro before later eq
      exact (ih before later eq).imp_right (Or.imp_left (List.mem_cons_of_mem _))
  | @enter seen starts between after below events node _ inside _ _ ihBelow ihRest =>
      intro before later eq
      rw [filterMap_entered_enter] at eq
      rcases List.cons_eq_append_iff.mp eq with ⟨rfl, here⟩ | ⟨front, rfl, rest⟩
      · obtain rfl := (List.cons.inj here).1
        exact ⟨inside, .inl List.mem_cons_self⟩
      · -- what comes before the target in the rest of the walk comes before it here as well
        have inRest {first : List String}
            (eq : events.filterMap Event.entered? = first ++ target :: later)
            (within : ∀ other ∈ first, other ∈ front) : target ∈ g.nodes ∧
              (target ∈ node :: starts ∨ ∃ other ∈ node :: front, g.Edge other target) := by
          obtain ⟨known, start | ⟨other, among, edge⟩⟩ := ihRest first later eq
          · exact ⟨known, .inl (List.mem_cons_of_mem node start)⟩
          · exact ⟨known, .inr ⟨other, List.mem_cons_of_mem node (within other among), edge⟩⟩
        rcases List.append_eq_append_iff.mp rest with ⟨more, rfl, found⟩ | ⟨more, found, tail⟩
        · exact inRest found fun other among => List.mem_append_right _ among
        · rcases List.cons_eq_append_iff.mp tail with ⟨rfl, here⟩ | ⟨more, rfl, _⟩
          · exact @inRest [] here nofun
          · obtain ⟨known, follows | ⟨other, among, edge⟩⟩ := ihBelow front more found
            · exact ⟨known, .inr ⟨node, List.mem_cons_self, inside, known, follows⟩⟩
            · exact ⟨known, .inr ⟨other, List.mem_cons_of_mem node among, edge⟩⟩

/-- Before a walk from the starts: open nodes are above all of them, and behind each of the other
nodes that were seen its successors were seen. -/
structure Underway (g : Digraph) (opened : Set String) (seen starts : List String) : Prop where
  above : ∀ node ∈ opened, ∀ start ∈ starts, start ∈ g.nodes → TransGen g.Edge node start
  closed : ∀ node ∈ seen, node ∉ opened → ∀ next, g.Edge node next → next ∈ seen

namespace Underway

theorem tail (u : g.Underway opened seen (node :: starts)) : g.Underway opened seen starts where
  above other among start later := u.above other among start (List.mem_cons_of_mem node later)
  closed := u.closed

/-- A node that is entered is open while its successors are walked through. -/
theorem enter (u : g.Underway opened seen (node :: starts)) (inside : node ∈ g.nodes) :
    g.Underway (insert node opened) (node :: seen) (g.successors node) where
  above other among next follows known := by
    have edge : g.Edge node next := ⟨inside, known, follows⟩
    rcases among with rfl | among
    · exact .single edge
    · exact (u.above other among node List.mem_cons_self inside).tail edge
  closed other old shut next edge := by
    rw [Set.mem_insert_iff, not_or] at shut
    have before : other ∈ seen := (List.mem_cons.mp old).resolve_left shut.1
    exact List.mem_cons_of_mem node (u.closed other before shut.2 next edge)

/-- Behind a walk the same holds of all that has been seen by then. -/
theorem closed_after (u : g.Underway opened seen starts) (h : Walks g seen starts events after) :
    ∀ node ∈ after, node ∉ opened → ∀ next, g.Edge node next → next ∈ after := by
  intro node reached shut next edge
  by_cases old : node ∈ seen
  · exact h.mem_after (u.closed node old shut next edge)
  · exact h.closed node reached old next edge.2.2 edge.2.1

/-- When all below a node has been walked through, the walk is back where it was. -/
theorem leave {between : List String} {below : List Event}
    (u : g.Underway opened seen (node :: starts)) (inside : node ∈ g.nodes)
    (h : Walks g (node :: seen) (g.successors node) below between) :
    g.Underway opened between starts where
  above := u.tail.above
  closed other reached shut next edge := by
    by_cases here : other = node
    · subst here
      exact h.starts_seen next edge.2.2 edge.2.1
    · refine (u.enter inside).closed_after h other reached ?_ next edge
      rw [Set.mem_insert_iff, not_or]
      exact ⟨here, shut⟩

/-- A start that has been seen leads only to nodes that have been seen, since it leads to no open
one. -/
theorem mem_of_leadsTo (u : g.Underway opened seen starts)
    (acyclic : ∀ node, ¬ TransGen g.Edge node node) (among : start ∈ starts)
    (known : start ∈ g.nodes) (old : start ∈ seen) (leads : g.LeadsTo start target) :
    target ∈ seen := by
  induction leads with
  | refl => exact old
  | @tail between next leads edge ih =>
      refine u.closed between ih (fun open_ => ?_) next edge
      exact acyclic between ((u.above between open_ start among known).trans_left leads)

end Underway

/-- What a new node leads to is entered below it, unless it is the node or was seen before. -/
theorem Underway.entered_of_leadsTo {between : List String} {below : List Event}
    (u : g.Underway opened seen (node :: starts)) (inside : node ∈ g.nodes)
    (h : Walks g (node :: seen) (g.successors node) below between)
    (acyclic : ∀ node, ¬ TransGen g.Edge node node) (new : target ∉ node :: seen)
    (leads : g.LeadsTo node target) : target ∈ below.filterMap Event.entered? := by
  have back : g.Underway opened between [node] := by
    refine ⟨fun other among start here => ?_, (u.leave inside h).closed⟩
    obtain rfl := List.mem_singleton.mp here
    exact u.above other among start List.mem_cons_self
  have reached : target ∈ between :=
    back.mem_of_leadsTo acyclic (List.mem_singleton_self node) inside
      (h.mem_after List.mem_cons_self) leads
  exact (List.mem_append.mp (h.perm_after.mem_iff.mp reached)).resolve_right new

/-- What is entered below a node is something that the node leads to. -/
theorem Walks.leadsTo_of_reached {between : List String} {below : List Event}
    (h : Walks g (node :: seen) (g.successors node) below between) (inside : node ∈ g.nodes)
    (new : target ∉ seen) (reached : target ∈ between) : g.LeadsTo node target := by
  rcases h.seen_or_leadsTo reached with old | ⟨next, follows, known, leads⟩
  · rcases List.mem_cons.mp old with rfl | old
    · exact .refl
    · exact absurd old new
  · exact .head ⟨inside, known, follows⟩ leads

theorem Walks.reached_of_entered (h : Walks g seen starts events after)
    (entered : target ∈ events.filterMap Event.entered?) : target ∈ after :=
  h.perm_after.mem_iff.mpr (List.mem_append_left seen entered)

/-- What a node does not lead to is neither the node nor entered below it. -/
theorem Walks.notMem_of_misses {between : List String} {below : List Event}
    (h : Walks g (node :: seen) (g.successors node) below between) (inside : node ∈ g.nodes)
    (new : target ∉ seen) (misses : ¬ g.LeadsTo node target) :
    node ≠ target ∧ target ∉ below.filterMap Event.entered? ∧ target ∉ between := by
  have unreached : target ∉ between := fun reached =>
    misses (h.leadsTo_of_reached inside new reached)
  refine ⟨?_, fun entered => unreached (h.reached_of_entered entered), unreached⟩
  rintro rfl
  exact misses .refl

/-- A walk comes to a node before it comes to one with an edge to it exactly if the node overtakes
the other one. -/
theorem Walks.ahead_iff (h : Walks g seen starts events after)
    (acyclic : ∀ node, ¬ TransGen g.Edge node node) (edge : g.Edge parent child) :
    ∀ opened, g.Underway opened seen starts → parent ∉ seen → child ∉ seen →
      (Ahead child parent (events.filterMap Event.entered?) ↔ g.Overtakes child parent starts) := by
  induction h with
  | done seen =>
      intro opened _ _ _
      exact iff_of_false id nofun
  | @again seen starts after events node old _ ih =>
      intro opened u newParent newChild
      have misses : ¬ g.LeadsTo node child := fun leads =>
        newChild (u.mem_of_leadsTo acyclic List.mem_cons_self (leads.mem_nodes edge.2.1) old leads)
      rw [overtakes_cons_of_misses edge misses]
      exact ih opened u.tail newParent newChild
  | @outside seen starts after events node _ unknown _ ih =>
      intro opened u newParent newChild
      have misses : ¬ g.LeadsTo node child := fun leads => unknown (leads.mem_nodes edge.2.1)
      rw [overtakes_cons_of_misses edge misses]
      exact ih opened u.tail newParent newChild
  | @enter seen starts between after below events node new inside walksBelow _ ihBelow ihRest =>
      intro opened u newParent newChild
      rw [filterMap_entered_enter, Ahead, ahead_append]
      by_cases leadsChild : g.LeadsTo node child
      · by_cases here : node = child
        · -- the child itself is entered, and it does not lead back to the parent
          subst here
          have misses : ¬ g.LeadsTo node parent := fun leads => acyclic node (.tail' leads edge)
          exact iff_of_true (.inl rfl) (.past leadsChild misses)
        · have newBelow : child ∉ node :: seen := by simp [Ne.symm here, newChild]
          have enteredChild := u.entered_of_leadsTo inside walksBelow acyclic newBelow leadsChild
          by_cases leadsParent : g.LeadsTo node parent
          · by_cases parentHere : node = parent
            · subst parentHere
              exact iff_of_false (by simp [here]) (not_overtakes_parent edge)
            · -- both are entered below the node, so what is behind it does not count
              have parentBelow : parent ∉ node :: seen := by simp [Ne.symm parentHere, newParent]
              have enteredParent :=
                u.entered_of_leadsTo inside walksBelow acyclic parentBelow leadsParent
              rw [overtakes_cons_of_above edge leadsParent parentHere,
                ← ihBelow _ (u.enter inside) parentBelow newBelow]
              simp only [here, parentHere, enteredParent, false_or, true_and, not_true, false_and,
                or_false, ne_eq, not_false_eq_true]
          · -- below the node there is the child and not the parent
            obtain ⟨apart, absent, _⟩ := walksBelow.notMem_of_misses inside newParent leadsParent
            refine iff_of_true (.inr ⟨apart, .inl ?_⟩) (.past leadsChild leadsParent)
            exact ahead_of_mem enteredChild absent
      · -- neither of the two is below the node
        have leadsParent : ¬ g.LeadsTo node parent := fun leads => leadsChild (leads.tail edge)
        obtain ⟨notChild, childBelow, childLater⟩ :=
          walksBelow.notMem_of_misses inside newChild leadsChild
        obtain ⟨notParent, parentBelow, parentLater⟩ :=
          walksBelow.notMem_of_misses inside newParent leadsParent
        have noneBelow : ¬ Ahead child parent (below.filterMap Event.entered?) :=
          mt Ahead.mem childBelow
        rw [overtakes_cons_of_misses edge leadsChild,
          ← ihRest opened (u.leave inside walksBelow) parentLater childLater]
        simp only [notChild, notParent, noneBelow, parentBelow, false_or, true_and, ne_eq,
          not_false_eq_true]

end Digraph

/-! ## Orders of a schema -/

namespace Schema

open ClassList (RefersTo)

variable {s : Schema} {c d : ClassDef}

/-- No class refers to a root. -/
theorem not_refersTo_root {name root : String} (among : root ∈ s.rootNames) :
    ¬ RefersTo s.classes name root := by
  rintro ⟨c, hc, -, field, has, mentions⟩
  obtain ⟨d, hd, rfl⟩ := List.mem_map.mp among
  have unreferenced := of_decide_eq_true (List.mem_filter.mp hd).2
  have nested := ClassDef.mem_nested_iff.mpr ⟨field, has, mentions⟩
  exact unreferenced (List.mem_flatMap.mpr ⟨c, hc, nested⟩)

/-- From the roots down, a class that others refer to comes after one of them.  It comes after a
given one of them exactly if it does not overtake it. -/
theorem parentsFirst_unless_overtaken (hc : c ∈ s.classes) (hd : d ∈ s.classes)
    (refers : RefersTo s.classes c.name d.name) :
    d ∈ s.inOrder .parentsFirst ∧
      ∀ before later, s.inOrder .parentsFirst = before ++ d :: later →
        (∃ e ∈ before, RefersTo s.classes e.name d.name) ∧
        (c ∈ before ↔ ¬ s.graph.Overtakes d.name c.name s.rootNames) := by
  have perm : (s.inOrder .parentsFirst).Perm s.classes := s.perm_inOrder .parentsFirst
  refine ⟨perm.mem_iff.mpr hd, fun before later order => ?_⟩
  have names : s.graph.preorder s.rootNames =
      before.map (·.name) ++ d.name :: later.map (·.name) := by
    calc s.graph.preorder s.rootNames
      _ = (s.inOrder .parentsFirst).map (·.name) :=
        (map_name_select fun name among => s.perm_preorder.mem_iff.mp among).symm
      _ = before.map (·.name) ++ d.name :: later.map (·.name) := by simp [order]
  have inside : ∀ e ∈ before, e ∈ s.classes := by
    intro e among
    refine perm.mem_iff.mp ?_
    rw [order]
    exact List.mem_append_left _ among
  obtain ⟨after, walks⟩ := s.graph.walks_events s.rootNames
  constructor
  · -- the class is no root, so the walk came to it along a reference
    obtain ⟨_, root | ⟨name, among, edge⟩⟩ := walks.start_or_edge _ _ names
    · exact absurd refers (not_refersTo_root root)
    · obtain ⟨e, within, rfl⟩ := List.mem_map.mp among
      exact ⟨e, within, edge_graph_iff.mp edge⟩
  · have acyclic := Digraph.cycle?_eq_none_iff.mp (ClassList.fault?_eq_none.mp s.faultless).2.2
    have distinct : (before.map (·.name) ++ d.name :: later.map (·.name)).Nodup :=
      names ▸ s.perm_preorder.nodup_iff.mpr s.sound.distinctNames
    have ahead : Digraph.Ahead d.name c.name (s.graph.preorder s.rootNames) ↔
        s.graph.Overtakes d.name c.name s.rootNames :=
      walks.ahead_iff acyclic (edge_graph_iff.mpr refers) ∅ ⟨by simp, by simp⟩ (by simp) (by simp)
    rw [← ahead, names, Digraph.ahead_iff_of_nodup distinct, not_not]
    constructor
    · exact List.mem_map_of_mem
    · intro among
      obtain ⟨e, within, same⟩ := List.mem_map.mp among
      exact eq_of_name_eq (inside e within) hc same ▸ within

/-- Orders with their shipments, both of which refer to customers, the orders directly as well. -/
def shortcut : Schema where
  classes := [
    ⟨"Order", [⟨"customer", .reference "Customer"⟩, ⟨"shipment", .reference "Shipment"⟩]⟩,
    ⟨"Shipment", [⟨"recipient", .reference "Customer"⟩]⟩,
    ⟨"Customer", [⟨"name", .string⟩]⟩]
  faultless := ClassList.fault?_eq_none.mpr ⟨by decide, by decide, by cbv⟩

theorem inOrder_shortcut : shortcut.inOrder .parentsFirst =
    [⟨"Order", [⟨"customer", .reference "Customer"⟩, ⟨"shipment", .reference "Shipment"⟩]⟩,
      ⟨"Customer", [⟨"name", .string⟩]⟩,
      ⟨"Shipment", [⟨"recipient", .reference "Customer"⟩]⟩] := by
  cbv

theorem refersTo_shortcut : RefersTo shortcut.classes "Order" "Customer" ∧
    RefersTo shortcut.classes "Shipment" "Customer" :=
  ⟨⟨_, .head _, rfl, _, .head _, 0, .here⟩, ⟨_, .tail _ (.head _), rfl, _, .head _, 0, .here⟩⟩

/-- The order comes before its customer, which overtakes the shipment. -/
theorem parentsFirst_unless_overtaken_shortcut :
    ¬ shortcut.graph.Overtakes "Customer" "Order" shortcut.rootNames ∧
      shortcut.graph.Overtakes "Customer" "Shipment" shortcut.rootNames := by
  obtain ⟨_, order⟩ := parentsFirst_unless_overtaken (s := shortcut) (.head _)
    (.tail _ (.tail _ (.head _))) refersTo_shortcut.1
  obtain ⟨_, shipment⟩ := parentsFirst_unless_overtaken (s := shortcut) (.tail _ (.head _))
    (.tail _ (.tail _ (.head _))) refersTo_shortcut.2
  refine ⟨(order [_] [_] inOrder_shortcut).2.mp (.head _), ?_⟩
  exact not_not.mp (mt (shipment [_] [_] inOrder_shortcut).2.mpr (by decide))

/-- A shipment comes after the customer that it refers to, although parents should be first. -/
theorem parentsFirst_overtaken_shipment :
    ∃ shipment ∈ shortcut.classes, ∃ customer ∈ shortcut.classes,
      RefersTo shortcut.classes shipment.name customer.name ∧
      ∃ before later, shortcut.inOrder .parentsFirst = before ++ customer :: later ∧
        shipment ∉ before ∧ shipment ∈ later :=
  ⟨_, .tail _ (.head _), _, .tail _ (.tail _ (.head _)), refersTo_shortcut.2, [_], [_],
    inOrder_shortcut, by decide, .head _⟩

end Schema

end Classwright
