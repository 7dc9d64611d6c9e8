import StagedCompiler.Lowering.HostPasses
import StagedCompiler.Proofs.Module.Verification

/-!
# Sweeps over an arena as changes of a tree

A pass goes over the numbers of a module in an order that it computes before it changes anything.
What it does to the tree that the arena holds is a `Rule`: the new kind and the new children of a
node, given those that it has.  `Numbered.rebuild` applies a rule at every node of a tree.

A pass whose single step `Obeys` a rule turns a held tree into the rebuilt one.  This holds for
sweeps with children first (`sweep_reverse_ids`) and, if the rule does not mind whether the children
have been rebuilt, for sweeps with parents first (`sweep_ids`).  Both keep every part of the tree in
its rebuilt form, also the parts that the rule detaches.
-/

namespace StagedCompiler.Lowering

open StagedCompiler.Module

/-- `m'` is `m` with changes at the given numbers only. -/
structure EditedAt (ids : List NodeId) (m m' : Module) : Prop where
  root : m'.root = m.root
  size : m'.size = m.size
  frame : ∀ i, i ∉ ids → m'.get? i = m.get? i

namespace EditedAt

variable {ids jds : List NodeId} {m m' m'' : Module}

theorem refl (ids : List NodeId) (m : Module) : EditedAt ids m m := ⟨rfl, rfl, fun _ _ => rfl⟩

theorem mono (edited : EditedAt ids m m') (subset : ids ⊆ jds) : EditedAt jds m m' :=
  ⟨edited.root, edited.size, fun i outside => edited.frame i fun inside => outside (subset inside)⟩

/-- Edits in sequence are made at the numbers of both. -/
theorem trans (first : EditedAt ids m m') (second : EditedAt ids m' m'') : EditedAt ids m m'' :=
  ⟨second.root.trans first.root, second.size.trans first.size,
    fun i outside => (second.frame i outside).trans (first.frame i outside)⟩

/-- What is held elsewhere stays held. -/
theorem holds {t : Numbered} (edited : EditedAt ids m m') (held : Holds m t)
    (apart : ∀ i ∈ t.ids, i ∉ ids) : Holds m' t :=
  held.of_agree fun i member => edited.frame i (apart i member)

end EditedAt

theorem get?_update (m : Module) (id i : NodeId) (f : Node → Node) :
    (m.update id f).get? i = if i = id then (m.get? id).map f else m.get? i := by
  unfold Module.update Module.get?
  simp only
  rw [Array.getElem?_modify]
  by_cases same : id = i
  · rw [if_pos same, if_pos same.symm, same]
  · rw [if_neg same, if_neg (Ne.symm same)]

/-- To update a node is an edit at its number. -/
theorem update_editedAt (m : Module) (id : NodeId) (f : Node → Node) :
    EditedAt [id] m (m.update id f) := by
  refine ⟨rfl, Array.size_modify, fun i outside => ?_⟩
  rw [get?_update, if_neg fun same => outside (List.mem_singleton.mpr same)]

/-! ## Sweeping -/

/-- A sweep over two lists is one over the first and then one over the second, if the first ends well.
-/
theorem sweep_append {α : Type} {step : Module → α → Except OutOfRange Module} {xs : List α}
    {m m' : Module} (first : sweep step xs m = { module := m' }) (ys : List α) :
    sweep step (xs ++ ys) m = sweep step ys m' := by
  induction xs generalizing m with
  | nil =>
      obtain rfl : m = m' := congrArg Extension.PassResult.module first
      rfl
  | cons x xs ih =>
      rw [List.cons_append, sweep]
      rw [sweep] at first
      cases stepped : step m x with
      | ok next =>
          rw [stepped] at first
          exact ih first
      | error e =>
          rw [stepped] at first
          cases first

theorem sweep_singleton {α : Type} {step : Module → α → Except OutOfRange Module} {x : α}
    {m m' : Module} (stepped : step m x = .ok m') : sweep step [x] m = { module := m' } := by
  rw [sweep, stepped]
  rfl

/-- A sweep of steps that change nothing changes nothing. -/
theorem sweep_idle {α : Type} {step : Module → α → Except OutOfRange Module} {xs : List α}
    {m : Module} (idle : ∀ x ∈ xs, step m x = .ok m) : sweep step xs m = { module := m } := by
  induction xs with
  | nil => rfl
  | cons x rest ih =>
      rw [sweep, idle x List.mem_cons_self]
      exact ih fun y member => idle y (List.mem_cons_of_mem _ member)

/-! ## Rules -/

/-- The new kind and the new children of a node with a kind and children. -/
abbrev Rule : Type := Kind → List Numbered → Kind × List Numbered

end Lowering

namespace Module.Numbered

mutual

/-- The tree with a rule applied at every node, children first. -/
def rebuild (rule : Lowering.Rule) : Numbered → Numbered
  | .node id kind descriptor ty children =>
    let changed := rule kind (rebuildAll rule children)
    .node id changed.1 descriptor ty changed.2

/-- Trees with a rule applied at every node. -/
def rebuildAll (rule : Lowering.Rule) : List Numbered → List Numbered
  | [] => []
  | t :: rest => t.rebuild rule :: rebuildAll rule rest

end

variable {rule : Lowering.Rule}

theorem rebuildAll_eq_map (ts : List Numbered) : rebuildAll rule ts = ts.map (rebuild rule) := by
  induction ts with
  | nil => rfl
  | cons t rest ih => rw [rebuildAll, ih, List.map_cons]

/-- A tree is rebuilt from its rebuilt children by the rule. -/
theorem rebuild_node {i : NodeId} {k : Kind} {d : Option DescriptorId} {ty : Ty}
    {cs : List Numbered} :
    (node i k d ty cs).rebuild rule =
      node i (rule k (cs.map (rebuild rule))).1 d ty (rule k (cs.map (rebuild rule))).2 := by
  rw [rebuild, rebuildAll_eq_map]

@[simp] theorem id_rebuild (t : Numbered) : (t.rebuild rule).id = t.id := by
  cases t with
  | node i k d ty cs => rw [rebuild_node]; rfl

theorem map_id_rebuild (cs : List Numbered) : (cs.map (rebuild rule)).map id = cs.map id := by
  rw [List.map_map]
  exact List.map_congr_left fun c _ => c.id_rebuild

end Module.Numbered

namespace Lowering

open StagedCompiler.Module

/-- A rule selects from what is below a node: what it keeps it keeps as it is and in order. -/
structure Rule.Selects (rule : Rule) : Prop where
  parts : ∀ k cs, ∀ t ∈ (rule k cs).2, ∃ c ∈ cs, t ∈ c.subtrees
  ids : ∀ k cs, ((rule k cs).2.flatMap Numbered.ids).Sublist (cs.flatMap Numbered.ids)

/-- A single step of a pass does to a held node what a rule says, and nothing else. -/
def Obeys (step : Module → NodeId → Except OutOfRange Module) (rule : Rule) : Prop :=
  ∀ {m : Module} {id : NodeId} {k : Kind} {d : Option DescriptorId} {ty : Ty}
    {cs : List Numbered}, Holds m (.node id k d ty cs) →
    ∃ m', step m id = .ok m' ∧ EditedAt [id] m m' ∧
      m'.get? id = some ⟨(rule k cs).1, (rule k cs).2.map Numbered.id, d, ty⟩

/-- A sweep rebuilds all parts of some trees and changes nothing outside them. -/
def Rebuilds (step : Module → NodeId → Except OutOfRange Module) (rule : Rule)
    (order : List NodeId) (ts : List Numbered) (m : Module) : Prop :=
  ∃ m', sweep step order m = { module := m' } ∧ EditedAt (ts.flatMap Numbered.ids) m m' ∧
    ∀ t ∈ ts, ∀ s ∈ t.subtrees, Holds m' (s.rebuild rule)

section Simulation

variable {step : Module → NodeId → Except OutOfRange Module} {rule : Rule}

/-- A rebuilt tree has some of the numbers of the tree, in order. -/
theorem Rule.Selects.sublist_ids_rebuild (selects : rule.Selects) (t : Numbered) :
    (t.rebuild rule).ids.Sublist t.ids := by
  induction t with
  | node i k d ty cs ih =>
      rw [Numbered.rebuild_node, Numbered.ids_node, Numbered.ids_node]
      refine ((selects.ids k (cs.map (Numbered.rebuild rule))).trans ?_).cons_cons i
      clear selects
      induction cs with
      | nil => exact List.Sublist.refl []
      | cons c rest more =>
          rw [List.map_cons, List.flatMap_cons, List.flatMap_cons]
          exact (ih c List.mem_cons_self).append
            (more fun b member => ih b (List.mem_cons_of_mem _ member))

/-- Sweeps over trees that have no number in common follow one another. -/
theorem Rebuilds.append (selects : rule.Selects) {xs ys : List NodeId} {A B C : List Numbered}
    {m : Module} (first : Rebuilds step rule xs A m)
    (second : ∀ m', EditedAt (A.flatMap Numbered.ids) m m' → Rebuilds step rule ys B m')
    (apart : ∀ i ∈ A.flatMap Numbered.ids, i ∉ B.flatMap Numbered.ids)
    (cover : ∀ t, t ∈ C ↔ t ∈ A ∨ t ∈ B) : Rebuilds step rule (xs ++ ys) C m := by
  obtain ⟨m₁, swept₁, edited₁, held₁⟩ := first
  obtain ⟨m₂, swept₂, edited₂, held₂⟩ := second m₁ edited₁
  have left : A.flatMap Numbered.ids ⊆ C.flatMap Numbered.ids := by
    intro i member
    obtain ⟨t, inA, inside⟩ := List.mem_flatMap.mp member
    exact List.mem_flatMap.mpr ⟨t, (cover t).mpr (Or.inl inA), inside⟩
  have right : B.flatMap Numbered.ids ⊆ C.flatMap Numbered.ids := by
    intro i member
    obtain ⟨t, inB, inside⟩ := List.mem_flatMap.mp member
    exact List.mem_flatMap.mpr ⟨t, (cover t).mpr (Or.inr inB), inside⟩
  refine ⟨m₂, (sweep_append swept₁ ys).trans swept₂,
    (edited₁.mono left).trans (edited₂.mono right), fun t member s part => ?_⟩
  rcases (cover t).mp member with inA | inB
  · refine edited₂.holds (held₁ t inA s part) fun i inside => apart i ?_
    refine List.mem_flatMap.mpr ⟨t, inA, Numbered.ids_subset_of_mem_subtrees part ?_⟩
    exact (selects.sublist_ids_rebuild s).subset inside
  · exact held₂ t inB s part

/-- What one step does to the topmost node of a tree whose other parts are rebuilt. -/
theorem Obeys.step_top (obeys : Obeys step rule) (selects : rule.Selects) {m : Module}
    {id : NodeId} {k : Kind} {d : Option DescriptorId} {ty : Ty} {cs : List Numbered}
    (here : m.get? id = some ⟨k, cs.map Numbered.id, d, ty⟩)
    (held : ∀ c ∈ cs, Holds m (c.rebuild rule)) (fresh : id ∉ cs.flatMap Numbered.ids) :
    ∃ m', step m id = .ok m' ∧ EditedAt [id] m m' ∧
      Holds m' ((Numbered.node id k d ty cs).rebuild rule) := by
  have whole : Holds m (.node id k d ty (cs.map (Numbered.rebuild rule))) := by
    refine .node (here.trans ?_) fun c member => ?_
    · rw [Numbered.map_id_rebuild]
    · obtain ⟨b, inside, rfl⟩ := List.mem_map.mp member
      exact held b inside
  obtain ⟨m', stepped, edited, top⟩ := obeys whole
  refine ⟨m', stepped, edited, ?_⟩
  rw [Numbered.rebuild_node]
  refine .node top fun c member => ?_
  obtain ⟨b', inside', part⟩ := selects.parts _ _ c member
  obtain ⟨b, inside, rfl⟩ := List.mem_map.mp inside'
  refine edited.holds ((held b inside).subtree part) fun i mem same => fresh ?_
  rw [List.mem_singleton] at same
  subst same
  exact List.mem_flatMap.mpr ⟨b, inside, (selects.sublist_ids_rebuild b).subset
    (Numbered.ids_subset_of_mem_subtrees part mem)⟩

/-- Trees that have no number in common are rebuilt one after another, the last one first. -/
theorem Rebuilds.forest_reverse (selects : rule.Selects) {ts : List Numbered}
    (each : ∀ t ∈ ts, ∀ {m : Module}, Holds m t → t.ids.Nodup →
      Rebuilds step rule t.ids.reverse [t] m) {m : Module} (held : ∀ t ∈ ts, Holds m t)
    (nodup : (ts.flatMap Numbered.ids).Nodup) :
    Rebuilds step rule (ts.flatMap Numbered.ids).reverse ts m := by
  induction ts with
  | nil => exact ⟨m, rfl, EditedAt.refl _ m, by simp⟩
  | cons t rest ih =>
      rw [List.flatMap_cons, List.nodup_append] at nodup
      rw [List.flatMap_cons, List.reverse_append]
      have first : Rebuilds step rule (rest.flatMap Numbered.ids).reverse rest m :=
        ih (fun s member => each s (List.mem_cons_of_mem _ member))
          (fun s member => held s (List.mem_cons_of_mem _ member)) nodup.2.1
      refine first.append selects (B := [t]) (fun m' edited => ?_) (fun i member other => ?_)
        (fun s => by rw [List.mem_cons, List.mem_singleton, or_comm])
      · exact each t List.mem_cons_self (edited.holds (held t List.mem_cons_self)
          fun i member other => nodup.2.2 i member i other rfl) nodup.1
      · rw [List.flatMap_singleton] at other
        exact nodup.2.2 i other i member rfl

/-- Trees that have no number in common are rebuilt one after another, the first one first. -/
theorem Rebuilds.forest (selects : rule.Selects) {ts : List Numbered}
    (each : ∀ t ∈ ts, ∀ {m : Module}, Holds m t → t.ids.Nodup →
      Rebuilds step rule t.ids [t] m) {m : Module} (held : ∀ t ∈ ts, Holds m t)
    (nodup : (ts.flatMap Numbered.ids).Nodup) :
    Rebuilds step rule (ts.flatMap Numbered.ids) ts m := by
  induction ts generalizing m with
  | nil => exact ⟨m, rfl, EditedAt.refl _ m, by simp⟩
  | cons t rest ih =>
      rw [List.flatMap_cons, List.nodup_append] at nodup
      rw [List.flatMap_cons]
      have first : Rebuilds step rule t.ids [t] m :=
        each t List.mem_cons_self (held t List.mem_cons_self) nodup.1
      refine first.append selects (B := rest) (fun m' edited => ?_) (fun i member other => ?_)
        (fun s => by rw [List.mem_cons, List.mem_singleton])
      · rw [List.flatMap_singleton] at edited
        exact ih (fun s member => each s (List.mem_cons_of_mem _ member))
          (fun s member => edited.holds (held s (List.mem_cons_of_mem _ member))
            fun i inside other =>
              nodup.2.2 i other i (List.mem_flatMap.mpr ⟨s, member, inside⟩) rfl) nodup.2.1
      · rw [List.flatMap_singleton] at member
        exact nodup.2.2 i member i other rfl

/-- A sweep with children first rebuilds a held tree. -/
theorem sweep_reverse_ids (obeys : Obeys step rule) (selects : rule.Selects) {t : Numbered}
    {m : Module} (held : Holds m t) (nodup : t.ids.Nodup) :
    Rebuilds step rule t.ids.reverse [t] m := by
  induction t generalizing m with
  | node id k d ty cs ih =>
      rw [Numbered.ids_node, List.nodup_cons] at nodup
      obtain ⟨fresh, nodup⟩ := nodup
      obtain ⟨m₁, swept, edited, parts⟩ :=
        Rebuilds.forest_reverse selects ih (fun t member => held.child member) nodup
      have here : m₁.get? id = some ⟨k, cs.map Numbered.id, d, ty⟩ :=
        (edited.frame id fresh).trans held.get?_id
      obtain ⟨m₂, stepped, edited₂, top⟩ := obeys.step_top selects here
        (fun c member => parts c member c c.self_mem_subtrees) fresh
      rw [Numbered.ids_node, List.reverse_cons]
      refine ⟨m₂, (sweep_append swept [id]).trans (sweep_singleton stepped), ?_, ?_⟩
      · rw [List.flatMap_singleton, Numbered.ids_node]
        exact (edited.mono (List.subset_cons_self _ _)).trans (edited₂.mono (by simp))
      · intro t single s part
        rw [List.mem_singleton.mp single, Numbered.subtrees_node, List.mem_cons,
          List.mem_flatMap] at part
        rcases part with rfl | ⟨c, member, part⟩
        · exact top
        · refine edited₂.holds (parts c member s part) fun i inside same => fresh ?_
          rw [List.mem_singleton] at same
          subst same
          exact List.mem_flatMap.mpr ⟨c, member, Numbered.ids_subset_of_mem_subtrees part
            ((selects.sublist_ids_rebuild s).subset inside)⟩

/-- A sweep with parents first rebuilds a held tree, if the rule picks among the children and picks
the same ones whether or not they have been rebuilt. -/
theorem sweep_ids (obeys : Obeys step rule) (selects : rule.Selects)
    (picks : ∀ k cs, (rule k cs).2 ⊆ cs)
    (stable : ∀ k cs, rule k (cs.map (Numbered.rebuild rule)) =
      ((rule k cs).1, (rule k cs).2.map (Numbered.rebuild rule)))
    {t : Numbered} {m : Module} (held : Holds m t) (nodup : t.ids.Nodup) :
    Rebuilds step rule t.ids [t] m := by
  induction t generalizing m with
  | node id k d ty cs ih =>
      rw [Numbered.ids_node, List.nodup_cons] at nodup
      obtain ⟨fresh, nodup⟩ := nodup
      obtain ⟨m₁, stepped, edited, top⟩ := obeys held
      have below : ∀ c ∈ cs, Holds m₁ c := fun c member =>
        edited.holds (held.child member) fun i inside same => fresh (by
          rw [List.mem_singleton] at same
          exact same ▸ List.mem_flatMap.mpr ⟨c, member, inside⟩)
      obtain ⟨m₂, swept, edited₂, parts⟩ := Rebuilds.forest selects ih below nodup
      have whole : Holds m₂ ((Numbered.node id k d ty cs).rebuild rule) := by
        rw [Numbered.rebuild_node, stable]
        refine .node ((edited₂.frame id fresh).trans ?_) fun c member => ?_
        · rw [top, Numbered.map_id_rebuild]
        · obtain ⟨b, inside, rfl⟩ := List.mem_map.mp member
          exact parts b (picks k cs inside) b b.self_mem_subtrees
      rw [Numbered.ids_node, ← List.singleton_append]
      refine ⟨m₂, (sweep_append (sweep_singleton stepped) _).trans swept, ?_, ?_⟩
      · rw [List.flatMap_singleton, Numbered.ids_node]
        exact (edited.mono (by simp)).trans (edited₂.mono (List.subset_cons_self _ _))
      · intro t single s part
        rw [List.mem_singleton.mp single, Numbered.subtrees_node, List.mem_cons,
          List.mem_flatMap] at part
        rcases part with rfl | ⟨c, member, part⟩
        · exact whole
        · exact parts c member s part

end Simulation

end Lowering

end StagedCompiler
