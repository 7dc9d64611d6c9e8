import Mathlib.Data.List.Infix
import Mathlib.Logic.Relation
import StagedCompiler.Proofs.Module.Canonical
import StagedCompiler.Proofs.Module.WellFormed

/-!
# The walk over a module and the numbers it gives

A walk over an arena keeps the nodes that are still to be listed on a stack (`StackWalk`).  On an arena
with a cycle it does not end.  In a verified module it ends, and the order in which it lists the nodes
is the preorder (`Verified.stackWalk_preorder`, `StackWalk.unique`).  The walk that passes use lists each
node with the parent that it comes from (`LinkWalk`); it lists the same nodes in the same order.

* `ListsOnce` says what such an order is: all that the root reaches, each node once, in front of its
  children, and the nodes below a node next to each other.
* `Renumbers` says what compaction makes of it: every node gets its place in the order as its number.
* `SameTree` compares two modules node by node, whatever the numbers are.  Two verified modules are
  compacted to equal modules exactly if their roots stand for the same tree.

That every child has a place in the order comes from verification: a verified module holds a tree with
distinct numbers, so no node is listed twice and no child is missing from the table of new numbers.
-/

namespace StagedCompiler.Module

/-! ## The walk with a stack -/

/-- From a stack of nodes an order is listed: the topmost node is taken off the stack and listed, and
its children are put on the stack, the first one on top. -/
inductive StackWalk (m : Module) : List NodeId → List NodeId → Prop
  | done : StackWalk m [] []
  | next {id : NodeId} {stack order : List NodeId} :
    StackWalk m (m.childrenOf id ++ stack) order → StackWalk m (id :: stack) (id :: order)

/-- The same walk, in which a node on the stack has the parent that put it there with it. -/
inductive LinkWalk (m : Module) :
    List (NodeId × Option NodeId) → List (NodeId × Option NodeId) → Prop
  | done : LinkWalk m [] []
  | next {id : NodeId} {parent : Option NodeId} {stack order : List (NodeId × Option NodeId)} :
    LinkWalk m ((m.childrenOf id).map (fun c => (c, some id)) ++ stack) order →
    LinkWalk m ((id, parent) :: stack) ((id, parent) :: order)

/-- A node is another one or reached from it through lists of children. -/
abbrev Below (m : Module) : NodeId → NodeId → Prop :=
  Relation.ReflTransGen fun parent child => child ∈ m.childrenOf parent

/-- What the walk lists from a node on until it is done with everything below the node. -/
def span (m : Module) (id : NodeId) : List NodeId := m.visit m.size id

/-- An order lists what the root reaches. -/
structure ListsOnce (m : Module) (order : List NodeId) : Prop where
  walk : ∀ other, m.StackWalk [m.root] other ↔ other = order
  once : order.Nodup
  reached : ∀ id, id ∈ order ↔ m.Reachable id
  parentFirst : ∀ parent child, m.Reachable parent → child ∈ m.childrenOf parent →
    order.idxOf parent < order.idxOf child
  contiguous : ∀ id, m.Reachable id → m.span id <:+: order
  inOrder : ∀ id, m.Reachable id → m.span id = id :: (m.childrenOf id).flatMap m.span
  below : ∀ id, m.Reachable id → ∀ i, i ∈ m.span id ↔ m.Below id i

/-- Pairs list what the root reaches, each node with the node that has it as a child. -/
structure ListsLinks (m : Module) (links : List (NodeId × Option NodeId)) : Prop where
  walk : ∀ other, m.LinkWalk [(m.root, none)] other ↔ other = links
  nodes : links.map Prod.fst = m.preorder
  root : ∀ id, (id, none) ∈ links ↔ id = m.root
  edge : ∀ id parent, (id, some parent) ∈ links ↔ m.Reachable parent ∧ id ∈ m.childrenOf parent

/-- The nodes of `m'` are the nodes of `m` that an order lists, numbered by their places in it. -/
structure Renumbers (m m' : Module) (order : List NodeId) : Prop where
  root : m'.root = 0
  size : m'.size = order.length
  consecutive : m'.preorder = List.range order.length
  node : ∀ i old, order[i]? = some old → ∃ n n', m.get? old = some n ∧ m'.get? i = some n' ∧
    n'.kind = n.kind ∧ n'.descriptor = n.descriptor ∧ n'.ty = n.ty ∧
    List.Forall₂ (fun j c => order[j]? = some c) n'.children n.children

/-- Two nodes, each of its own module, stand for the same tree. -/
inductive SameTree (m m' : Module) : NodeId → NodeId → Prop
  | node {i i' : NodeId} {n n' : Node} :
    m.get? i = some n → m'.get? i' = some n' →
    n.kind = n'.kind → n.descriptor = n'.descriptor → n.ty = n'.ty →
    n.children.length = n'.children.length →
    (∀ (k : Nat) (c c' : NodeId), n.children[k]? = some c → n'.children[k]? = some c' →
      SameTree m m' c c') →
    SameTree m m' i i'

section Walk

variable {m : Module}

/-- A walk lists at most one order. -/
theorem StackWalk.unique {stack order order' : List NodeId} (one : m.StackWalk stack order)
    (other : m.StackWalk stack order') : order = order' := by
  induction one generalizing order' with
  | done =>
      cases other
      rfl
  | next _ ih =>
      cases other with
      | next later => rw [ih later]

/-- A walk with parents lists one list only. -/
theorem LinkWalk.unique {stack order order' : List (NodeId × Option NodeId)}
    (one : m.LinkWalk stack order) (other : m.LinkWalk stack order') : order = order' := by
  induction one generalizing order' with
  | done =>
      cases other
      rfl
  | next _ ih =>
      cases other with
      | next later => rw [ih later]

/-- Without the parents a walk lists the same nodes. -/
theorem LinkWalk.stackWalk {stack order : List (NodeId × Option NodeId)}
    (walk : m.LinkWalk stack order) : m.StackWalk (stack.map Prod.fst) (order.map Prod.fst) := by
  induction walk with
  | done => exact .done
  | @next id parent stack order _ ih =>
      rw [List.map_append, List.map_map] at ih
      exact .next (by simpa [Function.comp_def] using ih)

/-- A held tree on top of the stack is listed, and then the walk goes on with the rest. -/
theorem Holds.linkWalk {t : Numbered} {stack order : List (NodeId × Option NodeId)}
    (held : Holds m t) (parent : Option NodeId) (rest : m.LinkWalk stack order) :
    m.LinkWalk ((t.id, parent) :: stack) (t.links parent ++ order) := by
  induction held generalizing parent stack order with
  | @node i k d ty cs here below ih =>
      have children : m.childrenOf i = cs.map Numbered.id := (Holds.node here below).childrenOf_id
      -- the children are walked one after another, each with the later ones below it on the stack
      have forest : m.LinkWalk ((cs.map Numbered.id).map (fun c => (c, some i)) ++ stack)
          (cs.flatMap (Numbered.links (some i)) ++ order) := by
        clear here children
        induction cs with
        | nil => exact rest
        | cons c later more =>
            rw [List.forall_mem_cons] at below ih
            rw [List.flatMap_cons, List.append_assoc]
            exact ih.1 (some i) (more below.2 ih.2)
      rw [Numbered.links_node, Numbered.id_node]
      apply LinkWalk.next
      rw [children]
      exact forest

/-- On every arena the pairs list what the preorder lists. -/
theorem map_fst_visitWithParents (m : Module) (depth : Nat) (parent : Option NodeId) (id : NodeId) :
    (m.visitWithParents depth parent id).map Prod.fst = m.visit depth id := by
  induction depth generalizing parent id with
  | zero => rfl
  | succ depth ih =>
      rw [visitWithParents, visit, List.map_cons, List.map_flatMap]
      congr 1
      exact List.flatMap_congr fun c _ => ih (some id) c

/-- The walk with parents lists the numbers of the plain walk. -/
theorem map_fst_preorderWithParents (m : Module) :
    m.preorderWithParents.map Prod.fst = m.preorder :=
  map_fst_visitWithParents m m.size none m.root

/-- The postorder is the walk with parents, read backwards and without the parents. -/
theorem postorder_eq (m : Module) : m.postorder = m.preorderWithParents.reverse.map Prod.fst := by
  rw [List.map_reverse, map_fst_preorderWithParents, postorder]

end Walk

/-! ## Parts of a tree in the list of its numbers -/

namespace Numbered

/-- The numbers of a part stand next to each other. -/
theorem ids_infix_of_mem_subtrees {s t : Numbered} (member : s ∈ t.subtrees) : s.ids <:+: t.ids := by
  induction t with
  | node i k d ty cs ih =>
      rw [subtrees_node, List.mem_cons, List.mem_flatMap] at member
      obtain rfl | ⟨c, inside, part⟩ := member
      · exact List.infix_rfl
      · obtain ⟨before, after, rfl⟩ := List.append_of_mem inside
        have child : c.ids <:+: (before ++ c :: after).flatMap ids :=
          ⟨before.flatMap ids, after.flatMap ids, by simp⟩
        rw [ids_node]
        exact (ih c inside part).trans (child.trans (List.suffix_cons i _).isInfix)

/-- The pairs of a tree: its top, and every other number with the number above it. -/
theorem mem_links_iff {t : Numbered} {parent : Option NodeId} {link : NodeId × Option NodeId} :
    link ∈ t.links parent ↔
      link = (t.id, parent) ∨ ∃ s ∈ t.subtrees, ∃ c ∈ s.children, link = (c.id, some s.id) := by
  induction t generalizing parent with
  | node i k d ty cs ih =>
      rw [links_node, List.mem_cons, List.mem_flatMap, subtrees_node]
      refine or_congr_right ?_
      constructor
      · rintro ⟨c, inside, among⟩
        rcases (ih c inside).mp among with rfl | ⟨s, part, b, below, rfl⟩
        · exact ⟨_, List.mem_cons_self, c, inside, rfl⟩
        · refine ⟨s, List.mem_cons_of_mem _ ?_, b, below, rfl⟩
          exact List.mem_flatMap.mpr ⟨c, inside, part⟩
      · rintro ⟨s, part, b, below, rfl⟩
        rw [List.mem_cons, List.mem_flatMap] at part
        rcases part with rfl | ⟨c, inside, part⟩
        · exact ⟨b, below, (ih b below).mpr (Or.inl rfl)⟩
        · exact ⟨c, inside, (ih c inside).mpr (Or.inr ⟨s, part, b, below, rfl⟩)⟩

/-- The number of a part stands in front of the numbers below it. -/
theorem idxOf_lt_idxOf {s t : Numbered} {i : NodeId} (nodup : t.ids.Nodup) (member : s ∈ t.subtrees)
    (lower : i ∈ s.lower) : t.ids.idxOf s.id < t.ids.idxOf i := by
  obtain ⟨before, after, split⟩ := ids_infix_of_mem_subtrees member
  have whole : t.ids = before ++ (s.id :: (s.lower ++ after)) := by
    rw [← split, ids_eq_cons, List.append_assoc, List.cons_append]
  rw [whole, List.nodup_append, List.nodup_cons] at nodup
  obtain ⟨-, ⟨fresh, -⟩, apart⟩ := nodup
  have later : i ∈ s.lower ++ after := List.mem_append_left _ lower
  have parent : s.id ∉ before := fun early => apart s.id early s.id List.mem_cons_self rfl
  have child : i ∉ before := fun early => apart i early i (List.mem_cons_of_mem _ later) rfl
  have differ : s.id ≠ i := fun same => fresh (same ▸ later)
  rw [whole, List.idxOf_append_of_notMem parent, List.idxOf_append_of_notMem child,
    List.idxOf_cons_self, List.idxOf_cons_ne _ differ]
  omega

end Numbered

namespace Holds

variable {m : Module} {s t : Numbered}

/-- What is reached from the top of a held tree are its numbers. -/
theorem below_iff (held : Holds m s) (i : NodeId) : m.Below s.id i ↔ i ∈ s.ids := by
  constructor
  · intro below
    induction below with
    | refl => exact s.id_mem_ids
    | @tail parent child _ edge ih =>
        obtain ⟨u, part, rfl⟩ := List.mem_map.mp ih
        rw [(held.subtree part).childrenOf_id] at edge
        obtain ⟨c, inside, rfl⟩ := List.mem_map.mp edge
        have child := Numbered.mem_subtrees_of_mem_children inside
        exact List.mem_map_of_mem (Numbered.subtrees_trans child part)
  · intro member
    induction held with
    | @node j k d ty cs here below ih =>
        rw [Numbered.ids_node, List.mem_cons, List.mem_flatMap] at member
        obtain rfl | ⟨c, inside, lower⟩ := member
        · exact Relation.ReflTransGen.refl
        · apply Relation.ReflTransGen.head _ (ih c inside lower)
          rw [(Holds.node here below).childrenOf_id]
          exact List.mem_map_of_mem inside

/-- What is listed below a node are the numbers of the tree that hangs there. -/
theorem span_eq (held : Holds m s) (nodup : s.ids.Nodup) : m.span s.id = s.ids :=
  held.visit_eq (Nat.le_succ_of_le (held.length_ids_le nodup))

end Holds

/-- What can be reached is the root and what is below it. -/
theorem reachable_iff_below (m : Module) (id : NodeId) : m.Reachable id ↔ m.Below m.root id := by
  constructor
  · intro reached
    induction reached with
    | root => exact Relation.ReflTransGen.refl
    | child _ edge ih => exact ih.tail edge
  · intro below
    induction below with
    | refl => exact Reachable.root
    | tail _ edge ih => exact ih.child edge

/-! ## The order of a verified module -/

namespace Verified

variable {m : Module} {descriptors : Descriptor.Table} {t : Numbered}
  (verified : m.Verified descriptors t)
include verified

theorem preorder_eq_ids : m.preorder = t.ids :=
  verified.held.preorder_eq verified.root verified.nodup

/-- What can be reached are the numbers of the tree. -/
theorem reachable_iff (id : NodeId) : m.Reachable id ↔ id ∈ t.ids := by
  rw [reachable_iff_below, ← verified.root, verified.held.below_iff]

/-- What the root reaches are the numbers of parts of the tree. -/
theorem exists_part {id : NodeId} (reached : m.Reachable id) :
    ∃ s ∈ t.subtrees, s.id = id ∧ Holds m s ∧ s.ids.Nodup := by
  obtain ⟨s, part, same⟩ := List.mem_map.mp ((verified.reachable_iff id).mp reached)
  exact ⟨s, part, same, verified.held.subtree part,
    Numbered.nodup_ids_of_mem_subtrees part verified.nodup⟩

theorem preorderWithParents_eq_links : m.preorderWithParents = t.links none :=
  verified.held.preorderWithParents_eq verified.root verified.nodup

/-- The walk with parents runs through the stack as it should. -/
theorem linkWalk_preorderWithParents : m.LinkWalk [(m.root, none)] m.preorderWithParents := by
  have walk := verified.held.linkWalk none LinkWalk.done
  rwa [List.append_nil, verified.root, ← verified.preorderWithParents_eq_links] at walk

/-- So does the plain walk. -/
theorem stackWalk_preorder : m.StackWalk [m.root] m.preorder := by
  rw [← map_fst_preorderWithParents]
  exact verified.linkWalk_preorderWithParents.stackWalk

/-- The pairs that passes go over are those that the walk with a stack lists. -/
theorem listsLinks : m.ListsLinks m.preorderWithParents where
  walk other := by
    constructor
    · intro walked
      exact walked.unique verified.linkWalk_preorderWithParents
    · intro same
      rw [same]
      exact verified.linkWalk_preorderWithParents
  nodes := map_fst_preorderWithParents m
  root id := by
    rw [verified.preorderWithParents_eq_links, Numbered.mem_links_iff, verified.root]
    simp
  edge id parent := by
    rw [verified.preorderWithParents_eq_links, Numbered.mem_links_iff]
    constructor
    · rintro (none | ⟨s, part, c, below, same⟩)
      · cases none
      · cases same
        rw [verified.reachable_iff, (verified.held.subtree part).childrenOf_id]
        exact ⟨List.mem_map_of_mem part, List.mem_map_of_mem below⟩
    · rintro ⟨reached, edge⟩
      obtain ⟨s, part, rfl, held, -⟩ := verified.exists_part reached
      rw [held.childrenOf_id] at edge
      obtain ⟨c, below, rfl⟩ := List.mem_map.mp edge
      exact Or.inr ⟨s, part, c, below, rfl⟩

/-- The preorder lists what the root reaches. -/
theorem listsOnce : m.ListsOnce m.preorder where
  walk other := by
    constructor
    · intro walked
      exact walked.unique verified.stackWalk_preorder
    · intro same
      rw [same]
      exact verified.stackWalk_preorder
  once := by
    rw [verified.preorder_eq_ids]
    exact verified.nodup
  reached id := by
    rw [verified.preorder_eq_ids, verified.reachable_iff]
  parentFirst parent child reached edge := by
    obtain ⟨s, part, rfl, held, -⟩ := verified.exists_part reached
    rw [held.childrenOf_id] at edge
    obtain ⟨c, inside, rfl⟩ := List.mem_map.mp edge
    rw [verified.preorder_eq_ids]
    apply Numbered.idxOf_lt_idxOf verified.nodup part
    exact List.mem_flatMap.mpr ⟨c, inside, c.id_mem_ids⟩
  contiguous id reached := by
    obtain ⟨s, part, rfl, held, nodup⟩ := verified.exists_part reached
    rw [held.span_eq nodup, verified.preorder_eq_ids]
    exact Numbered.ids_infix_of_mem_subtrees part
  inOrder id reached := by
    obtain ⟨s, part, rfl, held, nodup⟩ := verified.exists_part reached
    have spans : s.children.flatMap (fun c => m.span c.id) = s.lower := by
      apply List.flatMap_congr
      intro c inside
      have inner := Numbered.mem_subtrees_of_mem_children inside
      exact (held.child inside).span_eq (Numbered.nodup_ids_of_mem_subtrees inner nodup)
    rw [held.span_eq nodup, held.childrenOf_id, List.flatMap_map, spans, Numbered.ids_eq_cons]
  below id reached i := by
    obtain ⟨s, part, rfl, held, nodup⟩ := verified.exists_part reached
    rw [held.span_eq nodup, held.below_iff]

/-! ## The numbers that compaction gives -/

/-- A node of the compacted module is the part of the tree at that place, with places as numbers. -/
theorem get?_compacted (i : NodeId) :
    m.compacted.get? i = t.subtrees[i]?.map fun s => (s.relabel t.place).top := by
  rw [verified.held.compacted_nodes verified.root verified.nodup, Module.get?,
    List.getElem?_toArray, List.getElem?_map]

theorem size_compacted : m.compacted.size = m.preorder.length := by
  rw [verified.compacted_eq, Outline.size_toModule, verified.preorder_eq_ids, Numbered.length_ids]

/-- Compaction numbers the nodes by their places in the preorder. -/
theorem renumbers : m.Renumbers m.compacted m.preorder where
  root := rfl
  size := verified.size_compacted
  consecutive := by
    rw [← verified.size_compacted, verified.compacted_eq, Outline.preorder_toModule]
  node i old listed := by
    rw [verified.preorder_eq_ids, Numbered.ids, List.getElem?_map, Option.map_eq_some_iff] at listed
    obtain ⟨s, place, rfl⟩ := listed
    have part : s ∈ t.subtrees := List.mem_of_getElem? place
    have held := verified.held.subtree part
    have moved : m.compacted.get? i = some (s.relabel t.place).top := by
      rw [verified.get?_compacted, place, Option.map_some]
    rw [Numbered.top_relabel] at moved
    refine ⟨s.top, _, held.get?_id, moved, rfl, rfl, rfl, ?_⟩
    rw [List.forall₂_map_left_iff, List.forall₂_same, verified.preorder_eq_ids]
    intro c inside
    have child : m.Below s.id c := by
      apply Relation.ReflTransGen.single
      rwa [childrenOf_eq held.get?_id]
    have reached : c ∈ t.ids :=
      Numbered.ids_subset_of_mem_subtrees part ((held.below_iff c).mp child)
    exact List.getElem?_idxOf reached

/-- A compacted module is compacted to itself. -/
theorem compact_compacted : m.compacted.compact = .ok m.compacted := by
  have again : m.compacted.compacted = m.compacted := by
    rw [verified.compacted.compacted_eq, Numbered.outline_relabel, ← verified.compacted_eq]
  rw [verified.compacted.compact_eq, again]

end Verified

/-! ## Modules with the same tree -/

section SameTree

variable {m m' : Module} {s t : Numbered}

/-- Nodes with the same tree below them have the same outline, by recursion on one of the trees. -/
theorem SameTree.outline_eq (same : SameTree m m' s.id t.id) (held : Holds m s) (held' : Holds m' t) :
    s.outline = t.outline := by
  induction s generalizing t with
  | node i k d ty cs ih =>
      obtain ⟨i', k', d', ty', cs'⟩ := t
      obtain ⟨here, here', kinds, descriptors, types, lengths, children⟩ := same
      obtain rfl := Option.some.inj (here.symm.trans held.get?_id)
      obtain rfl := Option.some.inj (here'.symm.trans held'.get?_id)
      obtain rfl : k = k' := kinds
      obtain rfl : d = d' := descriptors
      obtain rfl : ty = ty' := types
      rw [Numbered.top_node, Numbered.top_node, List.length_map, List.length_map] at lengths
      rw [Numbered.outline_node, Numbered.outline_node]
      congr 1
      apply List.ext_getElem
      · rw [List.length_map, List.length_map, lengths]
      · intro n inside inside'
        rw [List.length_map] at inside inside'
        rw [List.getElem_map, List.getElem_map]
        have member : cs[n] ∈ cs := List.getElem_mem inside
        have member' : cs'[n] ∈ cs' := List.getElem_mem inside'
        apply ih cs[n] member _ (held.child member) (held'.child member')
        apply children n <;> simp [inside, inside']

/-- Nodes with one outline have the same tree below them. -/
theorem SameTree.of_outline_eq (outlines : s.outline = t.outline) (held : Holds m s)
    (held' : Holds m' t) : SameTree m m' s.id t.id := by
  induction s generalizing t with
  | node i k d ty cs ih =>
      obtain ⟨i', k', d', ty', cs'⟩ := t
      rw [Numbered.outline_node, Numbered.outline_node, Outline.node.injEq] at outlines
      obtain ⟨kinds, descriptors, types, below⟩ := outlines
      have lengths := congrArg List.length below
      rw [List.length_map, List.length_map] at lengths
      refine .node held.get?_id held'.get?_id kinds descriptors types (by simpa using lengths) ?_
      intro n c c' first second
      rw [Numbered.top_node, List.getElem?_map, Option.map_eq_some_iff] at first second
      obtain ⟨u, at_n, rfl⟩ := first
      obtain ⟨u', at_n', rfl⟩ := second
      have member : u ∈ cs := List.mem_of_getElem? at_n
      have member' : u' ∈ cs' := List.mem_of_getElem? at_n'
      apply ih u member _ (held.child member) (held'.child member')
      have both := congrArg (·[n]?) below
      simpa [at_n, at_n'] using both

/-- Verified modules are compacted to one module if their roots stand for the same tree. -/
theorem Verified.compacted_eq_iff {descriptors descriptors' : Descriptor.Table}
    (verified : m.Verified descriptors s) (verified' : m'.Verified descriptors' t) :
    m'.compacted = m.compacted ↔ SameTree m m' m.root m'.root := by
  rw [verified.compacted_eq, verified'.compacted_eq, ← verified.root, ← verified'.root]
  constructor
  · intro same
    exact SameTree.of_outline_eq (Outline.toModule_injective same).symm verified.held verified'.held
  · intro same
    rw [same.outline_eq verified.held verified'.held]

end SameTree

/-- The preorder of a verified module lists what the root reaches, each node once, and compaction
numbers the nodes by their places in it.  The compacted module is verified and compacted to itself, and
it is what every verified module with the same tree is compacted to, and no other. -/
theorem compact_canonical {m : Module} {descriptors : Descriptor.Table}
    (verified : m.verify descriptors = .ok ()) :
    m.ListsOnce m.preorder ∧
      ∃ m', m.compact = .ok m' ∧ m.Renumbers m' m.preorder ∧ m'.verify descriptors = .ok () ∧
        m'.compact = .ok m' ∧
        ∀ (other : Module) descriptors', other.verify descriptors' = .ok () →
          (other.compact = .ok m' ↔ SameTree m other m.root other.root) := by
  obtain ⟨t, verified⟩ := verify_eq_ok_iff.mp verified
  have accepted : m.compacted.verify descriptors = .ok () :=
    verify_eq_ok_iff.mpr ⟨_, verified.compacted⟩
  refine ⟨verified.listsOnce, m.compacted, verified.compact_eq, verified.renumbers, accepted,
    verified.compact_compacted, ?_⟩
  intro other descriptors' verified'
  obtain ⟨t', verified'⟩ := verify_eq_ok_iff.mp verified'
  rw [verified'.compact_eq, Except.ok.injEq]
  exact verified.compacted_eq_iff verified'

/-- The walk with parents lists every node that the root of a verified module reaches with the one node
that has it as a child, and the postorder is this walk read backwards. -/
theorem preorderWithParents_lists {m : Module} {descriptors : Descriptor.Table}
    (verified : m.verify descriptors = .ok ()) :
    m.ListsLinks m.preorderWithParents ∧
      m.postorder = m.preorderWithParents.reverse.map Prod.fst := by
  obtain ⟨_, verified⟩ := verify_eq_ok_iff.mp verified
  exact ⟨verified.listsLinks, postorder_eq m⟩

/-- A function whose parts stand behind the module in any order, and a constant that was detached. -/
def strewn : Module :=
  ⟨#[{ kind := .constant (.int 7), ty := .int }, { kind := .block },
    { kind := .file "main", children := [4] }, { kind := .module "main", children := [2] },
    { kind := .function "f", children := [5, 1], descriptor := some 0 },
    { kind := .param "x", descriptor := some 1, ty := .int }], 3⟩

/-- The same function, numbered in the order of the walk. -/
def gathered : Module :=
  ⟨#[{ kind := .module "main", children := [1] }, { kind := .file "main", children := [2] },
    { kind := .function "f", children := [3, 4], descriptor := some 0 },
    { kind := .param "x", descriptor := some 1, ty := .int }, { kind := .block }], 0⟩

/-- Two arenas that hold one tree at other numbers and among nodes that cannot be reached. -/
theorem compact_canonical_strewn :
    let table : Descriptor.Table :=
      ⟨#[{ name := "f", kind := .function, origin := .source 0 },
        { name := "x", kind := .param, origin := .source 0 }]⟩
    strewn.verify table = .ok () ∧ strewn.ListsOnce [3, 2, 4, 5, 1] ∧
      strewn.compact = .ok gathered ∧ strewn.Renumbers gathered [3, 2, 4, 5, 1] ∧
      gathered.verify table = .ok () ∧ SameTree strewn gathered 3 0 := by
  intro table
  have accepted : strewn.verify table = .ok () := by rfl
  have walk : strewn.preorder = [3, 2, 4, 5, 1] := by rfl
  obtain ⟨lists, m', compacted, renumbers, verified, again, tree⟩ := compact_canonical accepted
  have same : strewn.compact = .ok gathered := by rfl
  obtain rfl : gathered = m' := Except.ok.inj (same.symm.trans compacted)
  rw [walk] at lists renumbers
  exact ⟨accepted, lists, same, renumbers, verified, (tree gathered table verified).mp again⟩

end StagedCompiler.Module
