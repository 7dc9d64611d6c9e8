import StagedCompiler.Proofs.Lowering.Faithful
import StagedCompiler.Proofs.Module.Compaction

/-!
# Host lowering keeps the meaning of functions

A sweep that rebuilds the outline of a verified module by a faithful rule leaves a verified module
with the same functions (`Rebuilds.verified`).  The host passes are such sweeps: folding and flattening
go over the children first, pruning over the parents first.  Together with compaction,
`lowering_keeps_functions` says that each of them keeps the requests and the end of every function.
-/

namespace StagedCompiler.Lowering

open StagedCompiler.Module

namespace Rule.Faithful

variable {rule : Rule}

theorem isOuter_kind_rebuild (faithful : rule.Faithful) (t : Numbered) :
    (t.rebuild rule).kind.isOuter = t.kind.isOuter := by
  rcases faithful.kind_rebuild t with same | ⟨expression, expression'⟩
  · rw [same]
  · have inner : ∀ k : Kind, k.isExpression = true → k.isOuter = false := by
      intro k is
      cases k <;> first | rfl | cases is
    rw [inner _ expression, inner _ expression']

theorem rebuild_outer (faithful : rule.Faithful) {i : NodeId} {k : Kind}
    {d : Option DescriptorId} {ty : Ty} {cs : List Numbered} (outer : k.isOuter = true) :
    (Numbered.node i k d ty cs).rebuild rule =
      .node i k d ty (cs.map (Numbered.rebuild rule)) := by
  have statement : k.isStatement = false := by
    cases k <;> first | rfl | cases outer
  have expression : k.isExpression = false := by
    cases k <;> first | rfl | cases outer
  rw [Numbered.rebuild_node, faithful.inert k _ statement expression]

/-- The functions of a rebuilt tree are the rebuilt functions. -/
theorem functions_rebuild (faithful : rule.Faithful) {descriptors : Descriptor.Table}
    {t : Numbered} (shaped : t.outline.WellShaped descriptors) :
    (t.rebuild rule).functions = t.functions.map (Numbered.rebuild rule) := by
  induction t with
  | node i k d ty cs ih =>
      cases outer : k.isOuter with
      | false =>
          rw [Numbered.functions_eq_nil shaped outer,
            Numbered.functions_eq_nil (faithful.rebuild shaped).1
              ((faithful.isOuter_kind_rebuild _).trans outer)]
          rfl
      | true =>
          have below : cs.flatMap (fun c => (c.rebuild rule).functions) =
              cs.flatMap (fun c => c.functions.map (Numbered.rebuild rule)) := by
            apply List.flatMap_congr
            intro c member
            exact ih c member ((Numbered.wellShaped_node_iff.mp shaped).2.2 c member)
          rw [Numbered.functions_node, List.map_append, List.map_flatMap,
            faithful.rebuild_outer outer, Numbered.functions_node, List.flatMap_map, below]
          congr 1
          cases k.isFunction with
          | false => rfl
          | true => rw [if_pos rfl, if_pos rfl, List.map_singleton, faithful.rebuild_outer outer]

end Rule.Faithful

section Passes

variable {m : Module} {descriptors : Descriptor.Table} {t : Numbered}

/-- A sweep by a faithful rule leaves a verified module with the same functions. -/
theorem Rebuilds.verified {step : Module → NodeId → Except OutOfRange Module} {rule : Rule}
    {order : List NodeId} (rebuilds : Rebuilds step rule order [t] m) (faithful : rule.Faithful)
    (verified : m.Verified descriptors t) :
    ∃ m', sweep step order m = { module := m' } ∧ m'.Verified descriptors (t.rebuild rule) ∧
      Agree m m' (t.functions.map Numbered.id) (t.functions.map Numbered.id) := by
  obtain ⟨m', swept, edited, held⟩ := rebuilds
  have verified' : m'.Verified descriptors (t.rebuild rule) := by
    refine ⟨held t List.mem_cons_self t t.self_mem_subtrees, ?_, ?_,
      (faithful.rebuild verified.shaped).1, ?_⟩
    · rw [Numbered.id_rebuild, verified.root, edited.root]
    · exact verified.nodup.sublist (faithful.toSelects.sublist_ids_rebuild t)
    · obtain ⟨name, isModule⟩ := verified.isModule
      rcases faithful.kind_rebuild t with same | ⟨expression, _⟩
      · exact ⟨name, same.trans isModule⟩
      · rw [isModule] at expression
        cases expression
  have agree := verified.agree verified' (faithful.functions_rebuild verified.shaped) ?_ ?_
  · rw [Numbered.map_id_rebuild] at agree
    exact ⟨m', swept, verified', agree⟩
  · intro s member
    have isFunction := (Numbered.mem_functions.mp member).2
    have other : ∀ k : Kind, k.isFunction = true → k.isExpression = false := by
      intro k is
      cases k <;> first | rfl | cases is
    rcases faithful.kind_rebuild s with same | ⟨expression, _⟩
    · exact same
    · rw [other _ isFunction] at expression
      cases expression
  · intro s member oracle env
    have part := (Numbered.mem_functions.mp member).1
    exact (faithful.rebuild (verified.shaped.subtree part)).2.runFunction oracle env

variable (verified : m.Verified descriptors t) (context : Extension.PassContext)
include verified

theorem foldConstants_rebuilds :
    ∃ m', foldConstants.run context m = { module := m' } ∧
      m'.Verified descriptors (t.rebuild foldRule) ∧
      Agree m m' (t.functions.map Numbered.id) (t.functions.map Numbered.id) := by
  have order : m.postorder = t.ids.reverse := by
    rw [postorder, verified.held.preorder_eq verified.root verified.nodup]
  show ∃ m', sweep foldNode m.postorder m = _ ∧ _
  rw [order]
  exact (sweep_reverse_ids foldNode_obeys foldRule_selects verified.held verified.nodup).verified
    foldRule_faithful verified

theorem flattenBlocks_rebuilds :
    ∃ m', flattenBlocks.run context m = { module := m' } ∧
      m'.Verified descriptors (t.rebuild flattenRule) ∧
      Agree m m' (t.functions.map Numbered.id) (t.functions.map Numbered.id) := by
  have order : m.postorder = t.ids.reverse := by
    rw [postorder, verified.held.preorder_eq verified.root verified.nodup]
  show ∃ m', sweep flattenNode m.postorder m = _ ∧ _
  rw [order]
  exact (sweep_reverse_ids flattenNode_obeys flattenRule_selects verified.held
    verified.nodup).verified flattenRule_faithful verified

theorem eliminateDeadCode_rebuilds :
    ∃ m', eliminateDeadCode.run context m = { module := m' } ∧
      m'.Verified descriptors (t.rebuild pruneRule) ∧
      Agree m m' (t.functions.map Numbered.id) (t.functions.map Numbered.id) := by
  have order : m.preorder = t.ids := verified.held.preorder_eq verified.root verified.nodup
  show ∃ m', sweep pruneNode m.preorder m = _ ∧ _
  rw [order]
  exact (sweep_ids pruneNode_obeys pruneRule_selects pruneRule_picks pruneRule_stable
    verified.held verified.nodup).verified pruneRule_faithful verified

end Passes

/-- Each host pass, and compaction, turns a verified module into a verified one whose functions, in
all surroundings and for all values of the parameters, make the same requests and end the same way. -/
theorem lowering_keeps_functions {m : Module} {descriptors : Descriptor.Table}
    (verified : m.verify descriptors = .ok ()) :
    (∀ pass ∈ [foldConstants, eliminateDeadCode, flattenBlocks], ∀ context, ∃ m' functions,
      pass.run context m = { module := m' } ∧ m'.verify descriptors = .ok () ∧
        Agree m m' functions functions) ∧
    ∃ m' functions functions', m.compact = .ok m' ∧ m'.verify descriptors = .ok () ∧
      Agree m m' functions functions' := by
  obtain ⟨t, verified⟩ := verify_eq_ok_iff.mp verified
  refine ⟨fun pass member context => ?_, ?_⟩
  · have rebuilt : ∃ m' rule, pass.run context m = { module := m' } ∧
        m'.Verified descriptors (t.rebuild rule) ∧
        Agree m m' (t.functions.map Numbered.id) (t.functions.map Numbered.id) := by
      simp only [List.mem_cons, List.not_mem_nil, or_false] at member
      rcases member with rfl | rfl | rfl
      · obtain ⟨m', result⟩ := foldConstants_rebuilds verified context
        exact ⟨m', _, result⟩
      · obtain ⟨m', result⟩ := eliminateDeadCode_rebuilds verified context
        exact ⟨m', _, result⟩
      · obtain ⟨m', result⟩ := flattenBlocks_rebuilds verified context
        exact ⟨m', _, result⟩
    obtain ⟨m', rule, ran, verified', agree⟩ := rebuilt
    exact ⟨m', _, ran, verify_eq_ok_iff.mpr ⟨_, verified'⟩, agree⟩
  · exact ⟨m.compacted, _, _, verified.compact_eq,
      verify_eq_ok_iff.mpr ⟨_, verified.compacted⟩, verified.compact_agree⟩

/-- A function with a division that has no 64-bit result and can not be folded, in a nested block
with a dead statement behind it. -/
def leastByMinusOne : Module :=
  (Outline.node (.module "limits") none .unit [
    .node (.file "limits") none .unit [
      .node (.function "least") (some 0) .unit [
        .node .block none .unit [
          .node .block none .unit [
            .node .ret none .unit [
              .node (.binary .div) none .int [
                .node (.constant (.int Int64.minValue)) none .int [],
                .node (.binary .sub) none .int [
                  .node (.constant (.int 1)) none .int [],
                  .node (.constant (.int 2)) none .int []]]]],
          .node .eval none .unit [.node (.constant (.int 0)) none .int []]]]]]).toModule

theorem lowering_keeps_functions_leastByMinusOne :
    leastByMinusOne.verify ⟨#[{ name := "least", kind := .function, origin := .source 0 }]⟩ =
      .ok () ∧
    (∀ pass ∈ [foldConstants, eliminateDeadCode, flattenBlocks], ∀ context, ∃ m' functions,
      pass.run context leastByMinusOne = { module := m' } ∧
        m'.verify ⟨#[{ name := "least", kind := .function, origin := .source 0 }]⟩ = .ok () ∧
        Agree leastByMinusOne m' functions functions) ∧
    ∃ m' functions functions', leastByMinusOne.compact = .ok m' ∧
      m'.verify ⟨#[{ name := "least", kind := .function, origin := .source 0 }]⟩ = .ok () ∧
      Agree leastByMinusOne m' functions functions' :=
  ⟨by rfl, lowering_keeps_functions (by rfl)⟩

end StagedCompiler.Lowering
