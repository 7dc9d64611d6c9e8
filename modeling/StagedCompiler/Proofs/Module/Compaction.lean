import StagedCompiler.Proofs.Module.Functions

/-!
# Compaction

Compaction gives every node that the root reaches its place in the walk as its new number.  On the
held outline it is a `relabel`, which changes no outline: a verified module can be compacted, the
result is verified by the relabelled outline (`Verified.compacted`), and its functions are those of
the module (`Verified.compact_agree`).
-/

namespace StagedCompiler.Module

namespace Numbered

mutual

/-- The outline with other numbers. -/
def relabel (f : NodeId → NodeId) : Numbered → Numbered
  | .node id kind descriptor ty children => .node (f id) kind descriptor ty (relabelAll f children)

/-- Outlines with other numbers. -/
def relabelAll (f : NodeId → NodeId) : List Numbered → List Numbered
  | [] => []
  | t :: rest => t.relabel f :: relabelAll f rest

end

variable {f : NodeId → NodeId}

theorem relabelAll_eq_map (ts : List Numbered) : relabelAll f ts = ts.map (relabel f) := by
  induction ts with
  | nil => rfl
  | cons t rest ih => rw [relabelAll, ih, List.map_cons]

@[simp] theorem relabel_node {i : NodeId} {k : Kind} {d : Option DescriptorId} {ty : Ty}
    {cs : List Numbered} : (node i k d ty cs).relabel f = node (f i) k d ty (cs.map (relabel f)) := by
  rw [relabel, relabelAll_eq_map]

@[simp] theorem id_relabel (t : Numbered) : (t.relabel f).id = f t.id := by
  cases t with
  | node i k d ty cs => rw [relabel_node]; rfl

@[simp] theorem kind_relabel (t : Numbered) : (t.relabel f).kind = t.kind := by
  cases t with
  | node i k d ty cs => rw [relabel_node]; rfl

/-- The topmost node gets the new numbers of its children. -/
theorem top_relabel (t : Numbered) :
    (t.relabel f).top = { t.top with children := t.top.children.map f } := by
  cases t with
  | node i k d ty cs =>
      rw [relabel_node, top_node, top_node, List.map_map, List.map_map]
      congr 1
      exact List.map_congr_left fun c _ => c.id_relabel

@[simp] theorem outline_relabel (t : Numbered) : (t.relabel f).outline = t.outline := by
  induction t with
  | node i k d ty cs ih =>
      rw [relabel_node, outline_node, outline_node, List.map_map]
      congr 1
      exact List.map_congr_left fun c member => ih c member

/-- The subtrees are those with new numbers, in the same order. -/
theorem subtrees_relabel (t : Numbered) : (t.relabel f).subtrees = t.subtrees.map (relabel f) := by
  induction t with
  | node i k d ty cs ih =>
      rw [subtrees_node, List.map_cons, relabel_node, subtrees_node, List.flatMap_map,
        List.map_flatMap]
      congr 1
      exact List.flatMap_congr fun c member => ih c member

theorem ids_relabel (t : Numbered) : (t.relabel f).ids = t.ids.map f := by
  rw [ids, ids, subtrees_relabel, List.map_map, List.map_map]
  exact List.map_congr_left fun s _ => s.id_relabel

/-- So are the functions. -/
theorem functions_relabel (t : Numbered) :
    (t.relabel f).functions = t.functions.map (relabel f) := by
  rw [functions, functions, subtrees_relabel, List.filter_map]
  congr 1
  exact List.filter_congr fun s _ => by rw [Function.comp_apply, kind_relabel]

end Numbered

/-! ## The table of new numbers -/

/-- One number of an order after another is given its new number. -/
def number (table : Array (Option NodeId)) (entry : NodeId × Nat) : Array (Option NodeId) :=
  table.setIfInBounds entry.1 (some entry.2)

/-- A number of the list gets its place in the list, and every other one stays as it was. -/
theorem getElem?_foldl_number {order : List NodeId} (nodup : order.Nodup) (first : Nat)
    (table : Array (Option NodeId)) (i : NodeId) (bound : i < table.size) :
    ((order.zipIdx first).foldl number table)[i]? =
      if i ∈ order then some (some (first + order.idxOf i)) else table[i]? := by
  induction order generalizing first table with
  | nil => simp
  | cons old rest ih =>
      rw [List.nodup_cons] at nodup
      have room : i < (number table (old, first)).size := by
        rw [number, Array.size_setIfInBounds]
        exact bound
      rw [List.zipIdx_cons, List.foldl_cons, ih nodup.2 (first + 1) _ room]
      by_cases same : i = old
      · subst same
        rw [if_neg nodup.1, if_pos List.mem_cons_self, List.idxOf_cons_self, number,
          Array.getElem?_setIfInBounds_self_of_lt bound]
        rfl
      · by_cases later : i ∈ rest
        · rw [if_pos later, if_pos (List.mem_cons_of_mem _ later),
            List.idxOf_cons_ne _ (Ne.symm same)]
          congr 2
          omega
        · rw [if_neg later, if_neg (by simp [same, later]), number,
            Array.getElem?_setIfInBounds_ne (Ne.symm same)]

/-- The table of new numbers says of each number where it stands in the list. -/
theorem getElem?_renumbering {size : Nat} {order : List NodeId} (nodup : order.Nodup) {i : NodeId}
    (member : i ∈ order) (bound : i < size) :
    (renumbering size order)[i]? = some (some (order.idxOf i)) := by
  refine (getElem?_foldl_number nodup 0 (Array.replicate size none) i ?_).trans ?_
  · rw [Array.size_replicate]
    exact bound
  · rw [if_pos member, Nat.zero_add]

/-! ## The compacted module -/

/-- The place of a number in the walk over an outline. -/
def Numbered.place (t : Numbered) (i : NodeId) : NodeId := t.ids.idxOf i

namespace Holds

variable {m : Module} {s t : Numbered}

/-- The nodes of a compacted module are those of the tree in the order of the walk, with places for
numbers. -/
theorem compacted_nodes (held : Holds m t) (root : t.id = m.root) (nodup : t.ids.Nodup) :
    m.compacted = ⟨(t.subtrees.map fun s => (s.relabel t.place).top).toArray, 0⟩ := by
  have each : ∀ s ∈ t.subtrees,
      (m.get? s.id).map (fun n => ({ n with
        children := n.children.filterMap fun c => ((renumbering m.size t.ids)[c]?).join } : Node)) =
        some (s.relabel t.place).top := by
    intro s member
    have children : ∀ c ∈ s.top.children,
        ((renumbering m.size t.ids)[c]?).join = some (t.place c) := by
      intro c below
      rcases s with ⟨i, k, d, ty, cs⟩
      obtain ⟨child, inside, rfl⟩ := List.mem_map.mp below
      have reached : child.id ∈ t.ids :=
        Numbered.ids_subset_of_mem_subtrees member
          (Numbered.ids_subset_of_mem_subtrees
            (Numbered.mem_subtrees_of_mem_children (t := .node i k d ty cs) inside)
            child.id_mem_ids)
      rw [getElem?_renumbering nodup reached (held.lt_size reached)]
      rfl
    rw [(held.subtree member).get?_id, Option.map_some, Numbered.top_relabel,
      List.filterMap_congr children, List.filterMap_eq_map']
  rw [compacted, renumbered, held.preorder_eq root nodup]
  congr 2
  rw [Numbered.ids, List.filterMap_map]
  refine (List.filterMap_congr each).trans ?_
  rw [List.filterMap_eq_map']

/-- The compacted module holds the outline under its new numbers. -/
theorem compacted (held : Holds m t) (root : t.id = m.root) (nodup : t.ids.Nodup)
    (member : s ∈ t.subtrees) : Holds m.compacted (s.relabel t.place) := by
  have here : ∀ s ∈ t.subtrees, m.compacted.get? (t.place s.id) = some (s.relabel t.place).top := by
    intro s member
    obtain ⟨n, bound, at_n⟩ := List.mem_iff_getElem.mp member
    have place : t.place s.id = n := by
      have inside : n < t.ids.length := by
        rw [Numbered.ids, List.length_map]
        exact bound
      have listed : t.ids.get ⟨n, inside⟩ = s.id := by
        simp [Numbered.ids, at_n]
      rw [Numbered.place, ← listed]
      exact nodup.idxOf_getElem n inside
    rw [held.compacted_nodes root nodup, Module.get?, place]
    simp [bound, at_n]
  induction s with
  | node i k d ty cs ih =>
      have top := here _ member
      rw [Numbered.relabel_node] at top ⊢
      refine .node top fun c inside => ?_
      obtain ⟨b, below, rfl⟩ := List.mem_map.mp inside
      refine ih b below (Numbered.subtrees_trans ?_ member)
      exact Numbered.mem_subtrees_of_mem_children (t := .node i k d ty cs) below

/-- The walk over a held outline meets no number out of range, so compaction goes through. -/
theorem compact_eq (held : Holds m t) (root : t.id = m.root) (nodup : t.ids.Nodup) :
    m.compact = .ok m.compacted := by
  have present : m.firstMissing? m.preorder = none := by
    rw [firstMissing?, held.preorder_eq root nodup, List.find?_eq_none]
    intro i member
    obtain ⟨s, part, rfl⟩ := List.mem_map.mp member
    rw [(held.subtree part).get?_id]
    simp
  rw [compact, present]

end Holds

namespace Verified

variable {m : Module} {descriptors : Descriptor.Table} {t : Numbered}

theorem compact_eq (verified : m.Verified descriptors t) : m.compact = .ok m.compacted :=
  verified.held.compact_eq verified.root verified.nodup

/-- The compacted module is verified by the relabelled outline. -/
theorem compacted (verified : m.Verified descriptors t) :
    m.compacted.Verified descriptors (t.relabel t.place) where
  held := verified.held.compacted verified.root verified.nodup t.self_mem_subtrees
  root := by
    rw [Numbered.id_relabel, Numbered.place, t.ids_eq_cons]
    exact List.idxOf_cons_self
  nodup := by
    rw [Numbered.ids_relabel]
    refine verified.nodup.map_on fun i member j _ same => ?_
    exact (List.idxOf_inj member).mp same
  shaped := by
    rw [Numbered.outline_relabel]
    exact verified.shaped
  isModule := by
    rw [Numbered.kind_relabel]
    exact verified.isModule

/-- Compaction keeps the functions of a module and their meaning. -/
theorem compact_agree (verified : m.Verified descriptors t) :
    Agree m m.compacted (t.functions.map Numbered.id)
      ((t.functions.map (Numbered.relabel t.place)).map Numbered.id) :=
  verified.agree verified.compacted t.functions_relabel (fun s _ => s.kind_relabel)
    fun s _ oracle env => by rw [Numbered.outline_relabel]

end Verified

end StagedCompiler.Module
