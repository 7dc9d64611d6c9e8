import StagedCompiler.Proofs.Module.Verification

/-!
# Laying out an outline

`Outline.toModule` numbers the nodes of an outline in the order of the walk.  The arena that it makes
holds the outline under these numbers (`holds_toModule`), so a well-shaped outline of a module makes a
module that verification accepts (`toModule_verified`).
-/

namespace StagedCompiler.Module

namespace Outline

mutual

/-- The outline with the numbers that it is laid out under. -/
def number (id : NodeId) : Outline → Numbered
  | .node kind descriptor ty children => .node id kind descriptor ty (numberAll (id + 1) children)

/-- Outlines with the numbers that they are laid out under, one after another. -/
def numberAll (next : NodeId) : List Outline → List Numbered
  | [] => []
  | o :: rest => o.number next :: numberAll (next + o.size) rest

end

theorem id_number (id : NodeId) (o : Outline) : (o.number id).id = id := by
  cases o with
  | node k d ty cs => rfl

/-- Several trees get the numbers at which each of them begins. -/
theorem numberAll_ids (next : NodeId) (os : List Outline) :
    (numberAll next os).map Numbered.id = numbers next os := by
  induction os generalizing next with
  | nil => rfl
  | cons o rest ih => rw [numberAll, List.map_cons, id_number, ih, numbers]

mutual

/-- Numbers change nothing of the outline, by recursion on it. -/
theorem outline_number (id : NodeId) : ∀ o : Outline, (o.number id).outline = o
  | .node k d ty cs => by
      rw [number, Numbered.outline_node, outline_numberAll]

theorem outline_numberAll (next : NodeId) :
    ∀ os : List Outline, (numberAll next os).map Numbered.outline = os
  | [] => rfl
  | o :: rest => by
      rw [numberAll, List.map_cons, outline_number, outline_numberAll]

end

mutual

/-- The numbers of a tree are consecutive, by recursion on it. -/
theorem ids_number (id : NodeId) : ∀ o : Outline, (o.number id).ids = List.range' id o.size
  | .node k d ty cs => by
      rw [number, Numbered.ids_node, ids_numberAll, size, Nat.add_comm 1, List.range'_succ]

theorem ids_numberAll (next : NodeId) :
    ∀ os : List Outline, (numberAll next os).flatMap Numbered.ids = List.range' next (sizeAll os)
  | [] => rfl
  | o :: rest => by
      rw [numberAll, List.flatMap_cons, ids_number, ids_numberAll, sizeAll, List.range'_append_1]

end

mutual

/-- There are as many nodes as the outline has. -/
theorem length_layOut (id : NodeId) : ∀ o : Outline, (o.layOut id).length = o.size
  | .node k d ty cs => by
      rw [layOut, List.length_cons, length_layOutAll, size, Nat.add_comm]

theorem length_layOutAll (next : NodeId) :
    ∀ os : List Outline, (layOutAll next os).length = sizeAll os
  | [] => rfl
  | o :: rest => by
      rw [layOutAll, List.length_append, length_layOut, length_layOutAll, sizeAll]

end

end Outline

open Outline

/-- The arena has the given nodes from a number on. -/
def Segment (m : Module) (first : NodeId) (ns : List Node) : Prop :=
  ∃ before after, m.nodes.toList = before ++ ns ++ after ∧ before.length = first

theorem Segment.get? {m : Module} {first : NodeId} {n : Node} {ns : List Node}
    (segment : Segment m first (n :: ns)) : m.get? first = some n := by
  obtain ⟨before, after, nodes, rfl⟩ := segment
  rw [Module.get?, ← Array.getElem?_toList, nodes, List.append_assoc, List.getElem?_append_right
    (Nat.le_refl _), Nat.sub_self]
  rfl

theorem Segment.left {m : Module} {first : NodeId} {ns ms : List Node}
    (segment : Segment m first (ns ++ ms)) : Segment m first ns := by
  obtain ⟨before, after, nodes, start⟩ := segment
  exact ⟨before, ms ++ after, by rw [nodes]; simp, start⟩

/-- The second part of a segment begins where the first one ends. -/
theorem Segment.right {m : Module} {first : NodeId} {ns ms : List Node}
    (segment : Segment m first (ns ++ ms)) : Segment m (first + ns.length) ms := by
  obtain ⟨before, after, nodes, rfl⟩ := segment
  exact ⟨before ++ ns, after, by rw [nodes]; simp, List.length_append⟩

mutual

/-- An arena with the nodes of an outline one after another holds the outline with these numbers. -/
theorem holds_number {m : Module} (id : NodeId) :
    ∀ o : Outline, Segment m id (o.layOut id) → Holds m (o.number id)
  | .node k d ty cs, segment => by
      rw [layOut] at segment
      have below : Segment m (id + 1) (layOutAll (id + 1) cs) :=
        @Segment.right m id [_] _ segment
      refine .node ?_ (holds_numberAll (id + 1) cs below)
      rw [numberAll_ids]
      exact segment.get?

theorem holds_numberAll {m : Module} (next : NodeId) :
    ∀ os : List Outline, Segment m next (layOutAll next os) → ∀ t ∈ numberAll next os, Holds m t
  | [], _ => by simp [numberAll]
  | o :: rest, segment => by
      rw [layOutAll] at segment
      have later := segment.right
      rw [length_layOut] at later
      rw [numberAll, List.forall_mem_cons]
      exact ⟨holds_number next o segment.left, holds_numberAll (next + o.size) rest later⟩

end

theorem holds_toModule (o : Outline) : Holds o.toModule (o.number 0) :=
  holds_number 0 o ⟨[], [], by simp [toModule], rfl⟩

/-- A well-shaped outline of a module makes a verified module. -/
theorem toModule_verified {o : Outline} {descriptors : Descriptor.Table}
    (shaped : o.WellShaped descriptors) (isModule : ∃ name, o.kind = .module name) :
    o.toModule.Verified descriptors (o.number 0) where
  held := holds_toModule o
  root := id_number 0 o
  nodup := by
    rw [ids_number]
    exact List.nodup_range'
  shaped := by
    rw [outline_number]
    exact shaped
  isModule := by
    obtain ⟨name, kind⟩ := isModule
    refine ⟨name, ?_⟩
    rw [← Numbered.kind_outline, outline_number, kind]

end StagedCompiler.Module
