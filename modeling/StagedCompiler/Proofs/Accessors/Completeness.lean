import StagedCompiler.Proofs.Accessors.Simulation

/-!
# When the accessor pass is complete

The pass turns a verified module into a verified one that holds the rewritten outline
(`lowerAccessors_rewrites`).  `lowerAccessors_complete_iff` says for which modules it leaves no call of
an accessor behind: those in which no accessor is called on the result of another accessor.  For these
and no others a second run changes nothing; for all others it finishes the work.

`nestedReads` is a module of the other kind.
-/

namespace StagedCompiler.Accessors

open StagedCompiler.Module StagedCompiler.Lowering

/-- Nothing that the root reaches calls an accessor. -/
def Complete (descriptors : Descriptor.Table) (m : Module) : Prop :=
  ∀ id ∈ m.preorder, ∀ n, m.get? id = some n → subject? descriptors n = none

/-- No call of an accessor that the root reaches has such a call as its argument. -/
def Unnested (descriptors : Descriptor.Table) (m : Module) : Prop :=
  ∀ id ∈ m.preorder, ∀ n, m.get? id = some n → (subject? descriptors n).isSome = true →
    ∀ c ∈ n.children, ∀ n', m.get? c = some n' → subject? descriptors n' = none

section Verified

variable {descriptors : Descriptor.Table} {m : Module} {t : Numbered}

theorem complete_iff (verified : m.Verified descriptors t) :
    Complete descriptors m ↔ Lowered descriptors t.outline := by
  rw [Lowered, Numbered.everywhere_outline_iff, Complete,
    verified.held.preorder_eq verified.root verified.nodup, Numbered.ids, List.forall_mem_map]
  refine forall₂_congr fun s part => ?_
  rw [(verified.held.subtree part).get?_id, ← subject?_top]
  simp

theorem unnested_iff (verified : m.Verified descriptors t) :
    Unnested descriptors m ↔ Flat descriptors t.outline := by
  rw [Flat, Numbered.everywhere_outline_iff, Unnested,
    verified.held.preorder_eq verified.root verified.nodup, Numbered.ids, List.forall_mem_map]
  refine forall₂_congr fun s part => ?_
  have held := verified.held.subtree part
  have children : (∀ c ∈ s.top.children, ∀ n', m.get? c = some n' → subject? descriptors n' = none) ↔
      ∀ c ∈ s.outline.children, reads? descriptors c = none := by
    have numbers : s.top.children = s.children.map Numbered.id := by
      rcases s with ⟨i, k, d, ty, cs⟩
      rfl
    rw [numbers, Numbered.children_outline, List.forall_mem_map, List.forall_mem_map]
    refine forall₂_congr fun c member => ?_
    rw [(held.child member).get?_id, ← subject?_top]
    simp
  rw [held.get?_id, ← subject?_top, ← children]
  simp

end Verified

/-! ## The pass on a verified module -/

section Run

variable {context : Extension.PassContext} {m : Module} {t : Numbered}

/-- The pass leaves a verified module that holds the rewritten outline. -/
theorem lowerAccessors_rewrites (verified : m.Verified context.descriptors t)
    (known : SubjectsKnown context.descriptors) :
    ∃ m' t', lowerAccessors.run context m = { module := m' } ∧
      m'.Verified context.descriptors t' ∧
      t'.outline = rewritten context.descriptors false t.outline := by
  obtain ⟨name, isModule⟩ := verified.isModule
  rcases t with ⟨i, k, d, ty, cs⟩
  obtain rfl : k = .module name := isModule
  have held := verified.held
  have here : m.get? i = some ⟨.module name, cs.map Numbered.id, d, ty⟩ := held.get?_id
  have nodup := verified.nodup
  rw [Numbered.ids_node, List.nodup_cons] at nodup
  obtain ⟨m', news, _, swept, grown, top, made, _, _⟩ :=
    sweep_children (fun c _ => sweep_links c) (fun c member => held.child member) nodup.2 nodup.1
      here [] rfl (by simp)
  have bound : i < m.size := held.lt_size (Numbered.id_mem_ids _)
  have rule : rewritten context.descriptors false
      (Numbered.node i (.module name) d ty cs).outline =
        .node (.module name) d ty
          ((cs.map Numbered.outline).map (rewritten context.descriptors false)) := by
    rw [Numbered.outline_node]
    exact rewritten_of_stays (Or.inr rfl)
  have made := made.wrap top rule (Nat.le_refl _) (Or.inl rfl) (made.not_mem bound nodup.1)
  have outline := made.outlines
  rw [List.map_singleton, List.map_singleton, List.singleton_inj] at outline
  refine ⟨m', .node i (.module name) d ty news, ?_, ⟨?_, ?_, ?_, ?_, name, rfl⟩, outline⟩
  · show sweep (lowerCall context.descriptors) m.preorderWithParents m = _
    have first : sweep (lowerCall context.descriptors) [(i, none)] m = { module := m } :=
      sweep_singleton rfl
    rw [held.preorderWithParents_eq verified.root verified.nodup, Numbered.links_node,
      ← List.singleton_append, sweep_append first]
    exact swept
  · exact made.held _ List.mem_cons_self
  · exact verified.root.trans grown.root.symm
  · simpa only [List.flatMap_singleton] using made.nodup
  · rw [outline]
    exact wellShaped_rewritten known verified.shaped false

theorem mem_links {p : Option NodeId} {pair : NodeId × Option NodeId} (member : pair ∈ t.links p) :
    ∃ s ∈ t.subtrees, pair.1 = s.id := by
  induction t generalizing p with
  | node i k d ty cs ih =>
      rw [Numbered.links_node, List.mem_cons, List.mem_flatMap] at member
      rcases member with rfl | ⟨c, among, member⟩
      · exact ⟨_, Numbered.self_mem_subtrees _, rfl⟩
      · obtain ⟨s, part, same⟩ := ih c among member
        refine ⟨s, ?_, same⟩
        rw [Numbered.subtrees_node]
        exact List.mem_cons_of_mem _ (List.mem_flatMap.mpr ⟨c, among, part⟩)

/-- The pass does nothing if there is nothing to do. -/
theorem lowerAccessors_idle (verified : m.Verified context.descriptors t)
    (lowered : Lowered context.descriptors t.outline) :
    lowerAccessors.run context m = { module := m } := by
  show sweep (lowerCall context.descriptors) m.preorderWithParents m = _
  rw [verified.held.preorderWithParents_eq verified.root verified.nodup]
  refine sweep_idle fun pair member => ?_
  rcases pair with ⟨i, parent⟩
  obtain ⟨s, part, same⟩ := mem_links member
  obtain rfl : i = s.id := same
  cases parent with
  | none => rfl
  | some parent =>
      exact lowerCall_of_stays (verified.held.subtree part)
        ((Numbered.everywhere_outline_iff t).mp lowered s part)

end Run

/-- The pass leaves a verified module.  No call of an accessor is left exactly if the pass began with
none that is the argument of another one, and for no other modules is the pass idempotent; two runs
are always enough. -/
theorem lowerAccessors_complete_iff (context : Extension.PassContext) (m : Module)
    (verified : m.verify context.descriptors = .ok ())
    (known : SubjectsKnown context.descriptors) :
    ∃ m' m'', lowerAccessors.run context m = { module := m' } ∧
      lowerAccessors.run context m' = { module := m'' } ∧
      m'.verify context.descriptors = .ok () ∧ m''.verify context.descriptors = .ok () ∧
      (Complete context.descriptors m' ↔ Unnested context.descriptors m) ∧
      (m'' = m' ↔ Unnested context.descriptors m) ∧
      (m''.outline? m''.root = m'.outline? m'.root ↔ Unnested context.descriptors m) ∧
      Complete context.descriptors m'' := by
  obtain ⟨t, verified⟩ := verify_eq_ok_iff.mp verified
  obtain ⟨m', t', ran, verified', outline'⟩ := lowerAccessors_rewrites verified known
  obtain ⟨m'', t'', ran', verified'', outline''⟩ := lowerAccessors_rewrites verified' known
  have complete : Complete context.descriptors m' ↔ Unnested context.descriptors m := by
    rw [complete_iff verified', unnested_iff verified, outline', lowered_rewritten_iff]
    simp
  have complete'' : Complete context.descriptors m'' := by
    rw [complete_iff verified'', outline'', lowered_rewritten_iff]
    exact ⟨outline' ▸ flat_rewritten _ _, fun sheltered => (by cases sheltered)⟩
  have idle (unnested : Unnested context.descriptors m) : m'' = m' := by
    have again := lowerAccessors_idle verified' ((complete_iff verified').mp (complete.mpr unnested))
    exact congrArg Extension.PassResult.module (ran'.symm.trans again)
  have busy (same : m''.outline? m''.root = m'.outline? m'.root) :
      Unnested context.descriptors m := by
    rw [← verified''.root, ← verified'.root, verified''.held.outline?_eq verified''.nodup,
      verified'.held.outline?_eq verified'.nodup, Option.some.injEq] at same
    rw [← complete, complete_iff verified', ← same]
    exact (complete_iff verified'').mp complete''
  refine ⟨m', m'', ran, ran', verify_eq_ok_iff.mpr ⟨_, verified'⟩,
    verify_eq_ok_iff.mpr ⟨_, verified''⟩, complete, ⟨fun same => busy ?_, idle⟩,
    ⟨busy, fun unnested => ?_⟩, complete''⟩
  · rw [same]
  · rw [idle unnested]

/-- Two classes, one with a field of the other, a function with a parameter, and the accessors of both
fields. -/
def nestedTable : Descriptor.Table :=
  ⟨#[{ name := "Inner", kind := .cls, params := [⟨"value", .int⟩], ty := .cls 0,
        origin := .source 0 },
      { name := "value", kind := .field, ty := .int, container := some 0, origin := .source 1 },
      { name := "Outer", kind := .cls, params := [⟨"inner", .cls 0⟩], ty := .cls 2,
        origin := .source 2 },
      { name := "inner", kind := .field, ty := .cls 0, container := some 2, origin := .source 3 },
      { name := "read", kind := .function, params := [⟨"o", .cls 2⟩], ty := .int,
        origin := .source 4 },
      { name := "o", kind := .param, ty := .cls 2, container := some 4, origin := .source 5 },
      accessor "get_inner" 3 { name := "inner", kind := .field, ty := .cls 0, origin := .source 3 } 2,
      accessor "get_value" 1 { name := "value", kind := .field, ty := .int, origin := .source 1 } 0]⟩

/-- A function that reads a field of a field. -/
def nestedReads : Module :=
  (Outline.node (.module "main") none .unit [
    .node (.file "main") none .unit [
      .node (.function "read") (some 4) .int [
        .node (.param "o") (some 5) (.cls 2) [],
        .node .block none .unit [
          .node .ret none .unit [
            .node .call (some 7) .int [
              .node .call (some 6) (.cls 0) [
                .node .localRef (some 5) (.cls 2) []]]]]]]]).toModule

theorem nestedTable_subjectsKnown : SubjectsKnown nestedTable := by
  intro i entry field found origin
  have bound : i < 8 := (Array.getElem?_eq_some_iff.mp found).1
  have origins : ∀ j < 8, ∀ entry ∈ nestedTable.get? j,
      entry.origin = .source j ∨ entry.origin = .synthetic extensionId (some 1) ∨
        entry.origin = .synthetic extensionId (some 3) := by decide
  rcases origins i bound entry found with source | value | inner
  · rw [source] at origin
    cases origin
  · rw [value] at origin
    cases origin
    rfl
  · rw [inner] at origin
    cases origin
    rfl

theorem lowerAccessors_complete_iff_nestedReads :
    nestedReads.verify nestedTable = .ok () ∧ SubjectsKnown nestedTable ∧
      ∃ m' m'', lowerAccessors.run ⟨nestedTable, "", .native⟩ nestedReads = { module := m' } ∧
        lowerAccessors.run ⟨nestedTable, "", .native⟩ m' = { module := m'' } ∧
        (Complete nestedTable m' ↔ Unnested nestedTable nestedReads) ∧ Complete nestedTable m'' := by
  refine ⟨by rfl, nestedTable_subjectsKnown, ?_⟩
  obtain ⟨m', m'', ran, ran', _, _, complete, _, _, complete'⟩ :=
    lowerAccessors_complete_iff ⟨nestedTable, "", .native⟩ nestedReads (by rfl)
      nestedTable_subjectsKnown
  exact ⟨m', m'', ran, ran', complete, complete'⟩

/-- The pass leaves the inner of two accessor calls behind, and a second run changes the module. -/
theorem lowerAccessors_incomplete_on_nestedReads :
    nestedReads.verify nestedTable = .ok () ∧ SubjectsKnown nestedTable ∧
      ¬ Complete nestedTable (lowerAccessors.run ⟨nestedTable, "", .native⟩ nestedReads).module ∧
      (lowerAccessors.run ⟨nestedTable, "", .native⟩
        (lowerAccessors.run ⟨nestedTable, "", .native⟩ nestedReads).module).module.preorder ≠
        (lowerAccessors.run ⟨nestedTable, "", .native⟩ nestedReads).module.preorder := by
  refine ⟨by rfl, nestedTable_subjectsKnown, fun complete => ?_, by decide⟩
  exact absurd (complete 7 (by decide) _ rfl) (by decide)

end StagedCompiler.Accessors
