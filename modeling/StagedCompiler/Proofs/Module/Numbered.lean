import Mathlib.Data.List.Nodup
import Mathlib.Data.List.Perm.Subperm
import StagedCompiler.Module.Outline

/-!
# Outlines in an arena

A module names the children of a node by number, so what a node stands for has to be read off the
arena.  A `Numbered` outline is an outline together with the numbers that its nodes have there, and
`Holds m t` says that the arena of `m` has every node of `t` where `t` says it is.

* A held outline is kept by every change of the arena outside its numbers (`Holds.of_agree`).
* An arena may grow, and change at some of the old numbers, without touching what is held elsewhere
  (`Grown.holds`).
* If its numbers are distinct there are at most as many as nodes (`Holds.length_ids_le`), so the
  bounded walks list exactly its numbers (`Holds.preorder_eq`, `Holds.preorderWithParents_eq`).
* `readOutline` reads the outline below a node off the arena (`Holds.outline?_eq`).
-/

namespace StagedCompiler.Module

/-- An outline whose nodes have numbers. -/
inductive Numbered : Type where
  | node (id : NodeId) (kind : Kind) (descriptor : Option DescriptorId) (ty : Ty)
      (children : List Numbered)

namespace Numbered

/-- The number of the topmost node. -/
def id : Numbered → NodeId
  | .node id _ _ _ _ => id

/-- The kind of the topmost node. -/
def kind : Numbered → Kind
  | .node _ kind _ _ _ => kind

/-- What is below the topmost node. -/
def children : Numbered → List Numbered
  | .node _ _ _ _ children => children

/-- The topmost node as an arena has it. -/
def top : Numbered → Node
  | .node _ kind descriptor ty children => ⟨kind, children.map id, descriptor, ty⟩

@[simp] theorem id_node {i : NodeId} {k : Kind} {d : Option DescriptorId} {ty : Ty}
    {cs : List Numbered} : (node i k d ty cs).id = i := rfl

@[simp] theorem kind_node {i : NodeId} {k : Kind} {d : Option DescriptorId} {ty : Ty}
    {cs : List Numbered} : (node i k d ty cs).kind = k := rfl

@[simp] theorem children_node {i : NodeId} {k : Kind} {d : Option DescriptorId} {ty : Ty}
    {cs : List Numbered} : (node i k d ty cs).children = cs := rfl

@[simp] theorem top_node {i : NodeId} {k : Kind} {d : Option DescriptorId} {ty : Ty}
    {cs : List Numbered} : (node i k d ty cs).top = ⟨k, cs.map id, d, ty⟩ := rfl

/-- Induction with the hypothesis for every child. -/
@[induction_eliminator]
theorem induct {motive : Numbered → Prop}
    (node : ∀ id kind descriptor ty children, (∀ c ∈ children, motive c) →
      motive (.node id kind descriptor ty children)) (t : Numbered) : motive t :=
  @Numbered.rec motive (fun cs => ∀ c ∈ cs, motive c)
    (fun id kind descriptor ty children below => node id kind descriptor ty children below)
    (fun c none => absurd none List.not_mem_nil)
    (fun _ _ first rest c member => by
      rcases List.mem_cons.mp member with rfl | later
      · exact first
      · exact rest c later) t

mutual

/-- The outline without the numbers. -/
def outline : Numbered → Outline
  | .node _ kind descriptor ty children => .node kind descriptor ty (outlines children)

/-- Outlines without their numbers. -/
def outlines : List Numbered → List Outline
  | [] => []
  | t :: rest => t.outline :: outlines rest

end

/-- The outlines of several trees are those of the single ones. -/
theorem outlines_eq_map (ts : List Numbered) : outlines ts = ts.map outline := by
  induction ts with
  | nil => rfl
  | cons t rest ih => rw [outlines, ih, List.map_cons]

@[simp] theorem outline_node {i : NodeId} {k : Kind} {d : Option DescriptorId} {ty : Ty}
    {cs : List Numbered} : (node i k d ty cs).outline = .node k d ty (cs.map outline) := by
  rw [outline, outlines_eq_map]

mutual

/-- An outline and everything below it, parents first and children in order. -/
def subtrees : Numbered → List Numbered
  | .node id kind descriptor ty children =>
    .node id kind descriptor ty children :: subtreesAll children

/-- Outlines and everything below them, one after another. -/
def subtreesAll : List Numbered → List Numbered
  | [] => []
  | t :: rest => t.subtrees ++ subtreesAll rest

end

theorem subtreesAll_eq_flatMap (ts : List Numbered) : subtreesAll ts = ts.flatMap subtrees := by
  induction ts with
  | nil => rfl
  | cons t rest ih => rw [subtreesAll, ih, List.flatMap_cons]

@[simp] theorem subtrees_node {i : NodeId} {k : Kind} {d : Option DescriptorId} {ty : Ty}
    {cs : List Numbered} :
    (node i k d ty cs).subtrees = node i k d ty cs :: cs.flatMap subtrees := by
  rw [subtrees, subtreesAll_eq_flatMap]

/-- The numbers of an outline, parents first and children in order. -/
def ids (t : Numbered) : List NodeId := t.subtrees.map id

@[simp] theorem ids_node {i : NodeId} {k : Kind} {d : Option DescriptorId} {ty : Ty}
    {cs : List Numbered} : (node i k d ty cs).ids = i :: cs.flatMap ids := by
  rw [ids, subtrees_node, List.map_cons, List.map_flatMap]
  rfl

theorem self_mem_subtrees (t : Numbered) : t ∈ t.subtrees := by
  cases t with
  | node i k d ty cs => simp

theorem id_mem_ids (t : Numbered) : t.id ∈ t.ids :=
  List.mem_map_of_mem t.self_mem_subtrees

theorem ids_ne_nil (t : Numbered) : t.ids ≠ [] :=
  List.ne_nil_of_mem t.id_mem_ids

/-- What is below a part of an outline is part of the outline. -/
theorem subtrees_trans {s t u : Numbered} (inner : s ∈ t.subtrees) (outer : t ∈ u.subtrees) :
    s ∈ u.subtrees := by
  induction u with
  | node i k d ty cs ih =>
      rw [subtrees_node, List.mem_cons, List.mem_flatMap] at outer
      rcases outer with rfl | ⟨c, member, outer⟩
      · exact inner
      · rw [subtrees_node, List.mem_cons, List.mem_flatMap]
        exact Or.inr ⟨c, member, ih c member outer⟩

/-- A child is a subtree. -/
theorem mem_subtrees_of_mem_children {s t : Numbered} (member : s ∈ t.children) :
    s ∈ t.subtrees := by
  cases t with
  | node i k d ty cs =>
      rw [subtrees_node, List.mem_cons, List.mem_flatMap]
      exact Or.inr ⟨s, member, s.self_mem_subtrees⟩

/-- A subtree has no numbers but those of the tree. -/
theorem ids_subset_of_mem_subtrees {s t : Numbered} (member : s ∈ t.subtrees) :
    s.ids ⊆ t.ids := by
  intro i mem
  obtain ⟨u, inside, rfl⟩ := List.mem_map.mp mem
  exact List.mem_map_of_mem (subtrees_trans inside member)

/-- The numbers of a part stand in the list of all numbers. -/
theorem ids_sublist_of_mem {c : Numbered} {cs : List Numbered} (member : c ∈ cs) :
    c.ids.Sublist (cs.flatMap ids) := by
  obtain ⟨before, after, rfl⟩ := List.append_of_mem member
  rw [List.flatMap_append, List.flatMap_cons]
  exact (List.sublist_append_left _ _).trans (List.sublist_append_right _ _)

theorem nodup_ids_of_mem {c : Numbered} {cs : List Numbered} (member : c ∈ cs)
    (nodup : (cs.flatMap ids).Nodup) : c.ids.Nodup :=
  nodup.sublist (ids_sublist_of_mem member)

/-- Every part of an outline with distinct numbers has distinct numbers. -/
theorem nodup_ids_of_mem_subtrees {s t : Numbered} (member : s ∈ t.subtrees)
    (nodup : t.ids.Nodup) : s.ids.Nodup := by
  induction t with
  | node i k d ty cs ih =>
      rw [subtrees_node, List.mem_cons, List.mem_flatMap] at member
      rcases member with rfl | ⟨c, inside, member⟩
      · exact nodup
      · rw [ids_node, List.nodup_cons] at nodup
        exact ih c inside member (nodup_ids_of_mem inside nodup.2)

theorem length_ids_le_of_mem {c : Numbered} {cs : List Numbered} (member : c ∈ cs) :
    c.ids.length ≤ (cs.flatMap ids).length :=
  (ids_sublist_of_mem member).length_le

/-- Trees without numbers are no trees, as each has one at the top. -/
theorem eq_nil_of_length_flatMap_ids (cs : List Numbered) (empty : (cs.flatMap ids).length ≤ 0) :
    cs = [] := by
  cases cs with
  | nil => rfl
  | cons c rest =>
      have first := length_ids_le_of_mem (List.mem_cons_self (a := c) (l := rest))
      have positive := List.length_pos_of_ne_nil c.ids_ne_nil
      omega

mutual

/-- The numbers of an outline, each with the number of the parent. -/
def links (parent : Option NodeId) : Numbered → List (NodeId × Option NodeId)
  | .node id _ _ _ children => (id, parent) :: linksAll (some id) children

/-- The numbers of outlines below one parent. -/
def linksAll (parent : Option NodeId) : List Numbered → List (NodeId × Option NodeId)
  | [] => []
  | t :: rest => t.links parent ++ linksAll parent rest

end

theorem linksAll_eq_flatMap (parent : Option NodeId) (ts : List Numbered) :
    linksAll parent ts = ts.flatMap (links parent) := by
  induction ts with
  | nil => rfl
  | cons t rest ih => rw [linksAll, ih, List.flatMap_cons]

@[simp] theorem links_node {i : NodeId} {k : Kind} {d : Option DescriptorId} {ty : Ty}
    {cs : List Numbered} (parent : Option NodeId) :
    (node i k d ty cs).links parent = (i, parent) :: cs.flatMap (links (some i)) := by
  rw [links, linksAll_eq_flatMap]

end Numbered

open Numbered (ids_node subtrees_node links_node outline_node length_ids_le_of_mem
  eq_nil_of_length_flatMap_ids)

/-- The arena of a module has the nodes of an outline at their numbers. -/
inductive Holds (m : Module) : Numbered → Prop
  | node {id : NodeId} {kind : Kind} {descriptor : Option DescriptorId} {ty : Ty}
      {children : List Numbered} :
    m.get? id = some ⟨kind, children.map Numbered.id, descriptor, ty⟩ →
    (∀ c ∈ children, Holds m c) → Holds m (.node id kind descriptor ty children)

namespace Holds

variable {m m' : Module} {s t : Numbered}

/-- A tree that is held has its topmost node in the arena. -/
theorem get?_id (held : Holds m t) : m.get? t.id = some t.top := by
  cases held with
  | node here _ => exact here

theorem node_id (held : Holds m t) : m.node t.id = .ok t.top := by
  rw [Module.node, held.get?_id]

theorem kind?_id (held : Holds m t) : m.kind? t.id = some t.kind := by
  cases held with
  | node here _ =>
      rw [Module.kind?, Numbered.id_node, here]
      rfl

/-- The children of a node that is held are those of the tree. -/
theorem childrenOf_id (held : Holds m t) : m.childrenOf t.id = t.children.map Numbered.id := by
  cases held with
  | node here _ =>
      rw [Module.childrenOf, Numbered.id_node, here]
      rfl

/-- With a tree its children are held, and so are all its subtrees. -/
theorem child (held : Holds m t) {c : Numbered} (member : c ∈ t.children) : Holds m c := by
  cases held with
  | node _ below => exact below c member

theorem subtree (held : Holds m t) (member : s ∈ t.subtrees) : Holds m s := by
  induction held with
  | @node i k d ty cs here below ih =>
      rw [subtrees_node, List.mem_cons, List.mem_flatMap] at member
      rcases member with rfl | ⟨c, inside, member⟩
      · exact .node here below
      · exact ih c inside member

/-- Only the nodes of an outline matter for whether it is held. -/
theorem of_agree (held : Holds m t) (agree : ∀ i ∈ t.ids, m'.get? i = m.get? i) :
    Holds m' t := by
  induction held with
  | @node i k d ty cs here _ ih =>
      refine .node ((agree i ?_).trans here) fun c member => ih c member fun j inside => ?_
      · rw [ids_node]
        exact List.mem_cons_self
      · apply agree
        rw [ids_node, List.mem_cons, List.mem_flatMap]
        exact Or.inr ⟨c, member, inside⟩

/-- All numbers of a tree that is held are in the arena. -/
theorem lt_size (held : Holds m t) {i : NodeId} (member : i ∈ t.ids) : i < m.size := by
  obtain ⟨s, inside, rfl⟩ := List.mem_map.mp member
  have here := (held.subtree inside).get?_id
  rw [Module.get?] at here
  exact (Array.getElem?_eq_some_iff.mp here).1

/-- Distinct numbers are at most as many as the nodes of the arena. -/
theorem length_ids_le (held : Holds m t) (nodup : t.ids.Nodup) : t.ids.length ≤ m.size := by
  have bounded : t.ids ⊆ List.range m.size :=
    fun i member => List.mem_range.mpr (held.lt_size member)
  simpa only [List.length_range] using (List.subperm_of_subset nodup bounded).length_le

end Holds

/-! ## Arenas that grow -/

theorem size_push (m : Module) (n : Node) : (m.push n).size = m.size + 1 :=
  Array.size_push n

theorem get?_push (m : Module) (n : Node) (i : NodeId) :
    (m.push n).get? i = if i = m.size then some n else m.get? i :=
  Array.getElem?_push

/-- `m'` is `m` with changes at the given numbers and with new nodes. -/
structure Grown (ids : List NodeId) (m m' : Module) : Prop where
  root : m'.root = m.root
  size : m.size ≤ m'.size
  frame : ∀ i, i < m.size → i ∉ ids → m'.get? i = m.get? i

namespace Grown

variable {ids jds : List NodeId} {m m' m'' : Module}

theorem refl (ids : List NodeId) (m : Module) : Grown ids m m :=
  ⟨rfl, Nat.le_refl _, fun _ _ _ => rfl⟩

theorem mono (grown : Grown ids m m') (subset : ids ⊆ jds) : Grown jds m m' :=
  ⟨grown.root, grown.size,
    fun i bound outside => grown.frame i bound fun inside => outside (subset inside)⟩

theorem trans (first : Grown ids m m') (second : Grown ids m' m'') : Grown ids m m'' :=
  ⟨second.root.trans first.root, Nat.le_trans first.size second.size,
    fun i bound outside =>
      (second.frame i (Nat.lt_of_lt_of_le bound first.size) outside).trans
        (first.frame i bound outside)⟩

/-- What is held elsewhere stays held. -/
theorem holds {t : Numbered} (grown : Grown ids m m') (held : Holds m t)
    (apart : ∀ i ∈ t.ids, i ∉ ids) : Holds m' t :=
  held.of_agree fun i member => grown.frame i (held.lt_size member) (apart i member)

/-- A node that is not among the changed ones stays what it is. -/
theorem get?_eq {i : NodeId} {n : Node} (grown : Grown ids m m') (here : m.get? i = some n)
    (outside : i ∉ ids) : m'.get? i = some n := by
  have bound : i < m.size := (Array.getElem?_eq_some_iff.mp here).1
  rw [grown.frame i bound outside, here]

/-- A new node changes none of those that are there. -/
theorem push (m : Module) (n : Node) : Grown [] m (m.push n) where
  root := rfl
  size := by
    rw [size_push]
    exact Nat.le_succ m.size
  frame i bound _ := by rw [get?_push, if_neg (Nat.ne_of_lt bound)]

end Grown

/-! ## Walks -/

namespace Holds

variable {m : Module} {t : Numbered}

/-- A walk that may go down far enough lists the numbers of the outline. -/
theorem visit_eq (held : Holds m t) {depth : Nat} (enough : t.ids.length ≤ depth + 1) :
    m.visit depth t.id = t.ids := by
  induction held generalizing depth with
  | @node i k d ty cs here below ih =>
      rw [ids_node, List.length_cons] at enough
      cases depth with
      | zero =>
          obtain rfl := eq_nil_of_length_flatMap_ids cs (by omega)
          rfl
      | succ depth =>
          have step : m.childrenOf i = cs.map Numbered.id := (Holds.node here below).childrenOf_id
          rw [Numbered.id_node, Module.visit, step, List.flatMap_map, ids_node]
          congr 1
          apply List.flatMap_congr
          intro c member
          have shorter := length_ids_le_of_mem member
          exact ih c member (by omega)

/-- The walk from the root lists the numbers of the tree that hangs there. -/
theorem preorder_eq (held : Holds m t) (root : t.id = m.root) (nodup : t.ids.Nodup) :
    m.preorder = t.ids := by
  rw [Module.preorder, ← root]
  exact held.visit_eq (Nat.le_succ_of_le (held.length_ids_le nodup))

/-- The walk with parents lists each number with the one above it, if it may go deep enough. -/
theorem visitWithParents_eq (held : Holds m t) (parent : Option NodeId) {depth : Nat}
    (enough : t.ids.length ≤ depth + 1) :
    m.visitWithParents depth parent t.id = t.links parent := by
  induction held generalizing depth parent with
  | @node i k d ty cs here below ih =>
      rw [ids_node, List.length_cons] at enough
      cases depth with
      | zero =>
          obtain rfl := eq_nil_of_length_flatMap_ids cs (by omega)
          rfl
      | succ depth =>
          have step : m.childrenOf i = cs.map Numbered.id := (Holds.node here below).childrenOf_id
          rw [Numbered.id_node, Module.visitWithParents, step, List.flatMap_map, links_node]
          congr 1
          apply List.flatMap_congr
          intro c member
          have shorter := length_ids_le_of_mem member
          exact ih c member (some i) (by omega)

/-- From the root this is the list of all links of the tree. -/
theorem preorderWithParents_eq (held : Holds m t) (root : t.id = m.root) (nodup : t.ids.Nodup) :
    m.preorderWithParents = t.links none := by
  rw [Module.preorderWithParents, ← root]
  exact held.visitWithParents_eq none (Nat.le_succ_of_le (held.length_ids_le nodup))

end Holds

/-! ## Reading an outline off the arena -/

/-- The outline below a node, if the arena has it down to a depth. -/
def readOutline (m : Module) : Nat → NodeId → Option Outline
  | 0, _ => none
  | depth + 1, id => do
    let n ← m.get? id
    let children ← n.children.mapM (m.readOutline depth)
    pure (.node n.kind n.descriptor n.ty children)

/-- The outline below a node. -/
def outline? (m : Module) (id : NodeId) : Option Outline := m.readOutline m.size id

/-- A partial map that is defined on all elements is a map. -/
theorem mapM_eq_some_map {α β : Type} {f : α → Option β} {g : α → β} {as : List α}
    (each : ∀ a ∈ as, f a = some (g a)) : as.mapM f = some (as.map g) := by
  induction as with
  | nil => rfl
  | cons a rest ih =>
      rw [List.mapM_cons, each a List.mem_cons_self,
        ih fun b member => each b (List.mem_cons_of_mem _ member)]
      rfl

namespace Holds

variable {m : Module} {t : Numbered}

/-- Reading from the arena gives the outline of the tree, if it may go deep enough. -/
theorem readOutline_eq (held : Holds m t) {depth : Nat} (enough : t.ids.length ≤ depth) :
    m.readOutline depth t.id = some t.outline := by
  induction held generalizing depth with
  | @node i k d ty cs here below ih =>
      rw [ids_node, List.length_cons] at enough
      obtain ⟨depth, rfl⟩ := Nat.exists_eq_add_of_lt (show 0 < depth by omega)
      have each : ∀ c ∈ cs, m.readOutline (0 + depth) c.id = some c.outline := by
        intro c member
        have shorter := length_ids_le_of_mem member
        exact ih c member (by omega)
      rw [readOutline, Numbered.id_node, here, outline_node]
      simp only [Option.bind_eq_bind, Option.bind_some, List.mapM_map]
      rw [mapM_eq_some_map (f := m.readOutline (0 + depth) ∘ Numbered.id) each]
      rfl

/-- What is held is what is read. -/
theorem outline?_eq (held : Holds m t) (nodup : t.ids.Nodup) :
    m.outline? t.id = some t.outline :=
  held.readOutline_eq (held.length_ids_le nodup)

end Holds

end StagedCompiler.Module
