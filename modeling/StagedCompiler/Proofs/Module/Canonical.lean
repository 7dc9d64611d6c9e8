import StagedCompiler.Proofs.Module.Compaction
import StagedCompiler.Proofs.Module.Layout

/-!
# Compaction lays out the outline

A numbered outline is determined by its outline and the list of its numbers.  Compaction numbers the
nodes in the order of the walk, and so does the layout of an outline, so a verified module is compacted
to the layout of the outline that it holds (`Verified.compacted_eq`).  What a compacted module is thus
depends on the outline alone, and it is numbered without gaps (`preorder_toModule`).
-/

namespace StagedCompiler.Module

namespace Numbered

/-- A tree has as many numbers as its outline has nodes. -/
theorem length_ids (t : Numbered) : t.ids.length = t.outline.size := by
  induction t with
  | node i k d ty cs ih =>
      have below : (cs.flatMap ids).length = Outline.sizeAll (cs.map outline) := by
        induction cs with
        | nil => rfl
        | cons c rest more =>
            rw [List.forall_mem_cons] at ih
            rw [List.flatMap_cons, List.length_append, ih.1, more ih.2, List.map_cons,
              Outline.sizeAll]
      rw [ids_node, outline_node, List.length_cons, Outline.size, below, Nat.add_comm]

/-- Lists of outlines with equal numbers are equal if their members are. -/
theorem map_eq_of_flatMap_ids {cs ds : List Numbered}
    (each : ∀ c ∈ cs, ∀ d : Numbered, c.outline = d.outline → c.ids = d.ids → c = d)
    (outlines : cs.map outline = ds.map outline) (numbers : cs.flatMap ids = ds.flatMap ids) :
    cs = ds := by
  induction cs generalizing ds with
  | nil => exact (List.map_eq_nil_iff.mp outlines.symm).symm
  | cons c rest ih =>
      rw [List.forall_mem_cons] at each
      obtain ⟨d, later, rfl, first, others⟩ := List.map_eq_cons_iff.mp outlines.symm
      have length : c.ids.length = d.ids.length := by rw [length_ids, length_ids, first]
      rw [List.flatMap_cons, List.flatMap_cons] at numbers
      obtain ⟨here, there⟩ := List.append_inj numbers length
      rw [each.1 d first.symm here, ih each.2 others.symm there]

/-- An outline and its numbers determine the numbered outline. -/
theorem eq_of_outline_of_ids {s t : Numbered} (outlines : s.outline = t.outline)
    (numbers : s.ids = t.ids) : s = t := by
  induction s generalizing t with
  | node i k d ty cs ih =>
      rcases t with ⟨j, k', d', ty', ds⟩
      rw [outline_node, outline_node, Outline.node.injEq] at outlines
      obtain ⟨rfl, rfl, rfl, outlines⟩ := outlines
      rw [ids_node, ids_node] at numbers
      obtain ⟨rfl, below⟩ := List.cons.inj numbers
      rw [map_eq_of_flatMap_ids (fun c member d => ih c member) outlines below]

end Numbered

namespace Outline

mutual

/-- The nodes of a laid out outline are the tops of its parts. -/
theorem tops_number (id : NodeId) :
    ∀ o : Outline, (o.number id).subtrees.map Numbered.top = o.layOut id
  | .node k d ty cs => by
      rw [number, Numbered.subtrees_node, List.map_cons, Numbered.top_node, numberAll_ids, layOut,
        List.map_flatMap, tops_numberAll]

theorem tops_numberAll (next : NodeId) :
    ∀ os : List Outline,
      ((numberAll next os).flatMap fun t => t.subtrees.map Numbered.top) = layOutAll next os
  | [] => rfl
  | o :: rest => by
      rw [numberAll, List.flatMap_cons, tops_number, tops_numberAll, layOutAll]

end

theorem size_toModule (o : Outline) : o.toModule.size = o.size := by
  rw [Module.size, toModule, List.size_toArray, length_layOut]

/-- A laid out module is numbered in the order of the walk. -/
theorem preorder_toModule (o : Outline) : o.toModule.preorder = List.range o.toModule.size := by
  have nodup : (o.number 0).ids.Nodup := by
    rw [ids_number]
    exact List.nodup_range'
  rw [(holds_toModule o).preorder_eq (id_number 0 o) nodup, ids_number, size_toModule,
    List.range_eq_range']

/-- The layout of an outline is read back as the outline. -/
theorem outline?_toModule (o : Outline) : o.toModule.outline? o.toModule.root = some o := by
  have nodup : (o.number 0).ids.Nodup := by
    rw [ids_number]
    exact List.nodup_range'
  have held := (holds_toModule o).outline?_eq nodup
  rwa [id_number, outline_number] at held

/-- Different outlines are laid out differently. -/
theorem toModule_injective {o o' : Outline} (same : o.toModule = o'.toModule) : o = o' := by
  have both := outline?_toModule o
  rw [same, outline?_toModule o'] at both
  exact (Option.some.inj both).symm

end Outline

/-- Putting every number of an outline at its place in the walk is laying the outline out. -/
theorem Numbered.relabel_place {t : Numbered} (nodup : t.ids.Nodup) :
    t.relabel t.place = t.outline.number 0 := by
  refine eq_of_outline_of_ids ?_ ?_
  · rw [outline_relabel, Outline.outline_number]
  · rw [ids_relabel, Outline.ids_number, ← length_ids, ← List.range_eq_range']
    refine List.ext_getElem (by simp) fun n bound bound' => ?_
    rw [List.getElem_map, List.getElem_range]
    exact nodup.idxOf_getElem n _

/-- A module that holds an outline below its root is compacted to the layout of the outline. -/
theorem Holds.compacted_eq {m : Module} {t : Numbered} (held : Holds m t) (root : t.id = m.root)
    (nodup : t.ids.Nodup) : m.compacted = t.outline.toModule := by
  have tops : (t.subtrees.map fun s => (s.relabel t.place).top) =
      (t.relabel t.place).subtrees.map Numbered.top := by
    rw [Numbered.subtrees_relabel, List.map_map]
    rfl
  rw [held.compacted_nodes root nodup, tops, Numbered.relabel_place nodup, Outline.tops_number]
  rfl

/-- A verified module is compacted to the layout of its outline. -/
theorem Verified.compacted_eq {m : Module} {descriptors : Descriptor.Table} {t : Numbered}
    (verified : m.Verified descriptors t) : m.compacted = t.outline.toModule :=
  verified.held.compacted_eq verified.root verified.nodup

end StagedCompiler.Module
