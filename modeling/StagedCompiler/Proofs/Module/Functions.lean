import StagedCompiler.Proofs.Module.Meaning
import StagedCompiler.Proofs.Module.Shape

/-!
# The functions of a module

The functions that a walk over a module finds are those parts of the held outline that are functions
(`Holds.functions_eq`), and a run of one of them is a run of its outline (`Holds.run_eq`).  In a
well-shaped outline functions stand in files only (`functions_eq_nil`, `functions_eq_items`).

`Agree m m'` says that two modules have the same functions with the same meaning.
-/

namespace StagedCompiler.Module

open Outline (ChildrenFit WellShaped)

/-- Nodes that may have functions at or below them. -/
def Kind.isOuter : Kind → Bool
  | .module _ | .file _ | .function _ => true
  | _ => false

namespace Numbered

/-- The parts of an outline that are functions. -/
def functions (t : Numbered) : List Numbered := t.subtrees.filter (·.kind.isFunction)

theorem functions_node {i : NodeId} {k : Kind} {d : Option DescriptorId} {ty : Ty}
    {cs : List Numbered} :
    (node i k d ty cs).functions =
      (if k.isFunction then [node i k d ty cs] else []) ++ cs.flatMap functions := by
  rw [functions, subtrees_node, List.filter_cons, List.filter_flatMap, kind_node]
  cases k.isFunction <;> rfl

theorem mem_functions {s t : Numbered} :
    s ∈ t.functions ↔ s ∈ t.subtrees ∧ s.kind.isFunction = true :=
  List.mem_filter

/-- Below a node that is no module, file or function there are no such nodes. -/
theorem isOuter_children {k : Kind} {ks : List Kind} (inner : k.isOuter = false)
    (fits : ChildrenFit k ks) : ∀ k' ∈ ks, k'.isOuter = false := by
  have field : ∀ k' : Kind, k'.isField = true → k'.isOuter = false := by
    intro k' is
    cases k' <;> first | rfl | cases is
  have statement : ∀ k' : Kind, k'.isStatement = true → k'.isOuter = false := by
    intro k' is
    cases k' <;> first | rfl | cases is
  have expression : ∀ k' : Kind, k'.isExpression = true → k'.isOuter = false := by
    intro k' is
    cases k' <;> first | rfl | cases is
  intro k' member
  cases k with
  | module name | file name | function name => cases inner
  | cls name => exact field k' (fits k' member)
  | block => exact statement k' (fits k' member)
  | call => exact expression k' (fits k' member)
  | letBind name | eval | ret | fieldGet | binary op => exact expression k' (fits.2 k' member)
  | field name | param name | localRef | constant value =>
      have empty : ks = [] := fits
      rw [empty] at member
      cases member

/-- Functions stand in files only. -/
theorem functions_eq_nil {descriptors : Descriptor.Table} {t : Numbered}
    (shaped : t.outline.WellShaped descriptors) (inner : t.kind.isOuter = false) :
    t.functions = [] := by
  induction t with
  | node i k d ty cs ih =>
      rw [outline_node] at shaped
      cases shaped with
      | node _ fits below =>
          have each : ∀ c ∈ cs, c.functions = [] := by
            intro c member
            have among : c.kind ∈ (cs.map outline).map Outline.kind := by
              rw [List.map_map, ← c.kind_outline]
              exact List.mem_map_of_mem member
            exact ih c member (below _ (List.mem_map_of_mem member))
              (isOuter_children inner fits _ among)
          have other : k.isFunction = false := by
            cases k <;> first | rfl | cases inner
          rw [functions_node, other, List.flatMap_eq_nil_iff.mpr each]
          rfl

/-- An item is a function or holds none. -/
theorem functions_item {descriptors : Descriptor.Table} {t : Numbered}
    (shaped : t.outline.WellShaped descriptors) (item : t.kind.isItem = true) :
    t.functions = if t.kind.isFunction then [t] else [] := by
  cases t with
  | node i k d ty cs =>
      cases k with
      | cls name => exact functions_eq_nil shaped rfl
      | function name =>
          obtain ⟨_, fits, below⟩ := wellShaped_node_iff.mp shaped
          have inner : ∀ c ∈ cs, c.functions = [] := by
            intro c member
            refine functions_eq_nil (below c member) ?_
            obtain ⟨params, split, isParam⟩ := fits
            have among : c.kind ∈ params ++ [.block] := split ▸ List.mem_map_of_mem member
            rcases List.mem_append.mp among with param | block
            · have param := isParam _ param
              revert param
              cases c.kind <;> simp [Kind.isParam, Kind.isOuter]
            · rw [List.mem_singleton.mp block]
              rfl
          rw [functions_node, List.flatMap_eq_nil_iff.mpr inner]
          rfl
      | _ => cases item

/-- The functions of a module are among the items of its files. -/
theorem functions_eq_items {descriptors : Descriptor.Table} {t : Numbered}
    (shaped : t.outline.WellShaped descriptors) (isModule : ∃ name, t.kind = .module name) :
    t.functions = (t.children.flatMap children).filter (·.kind.isFunction) := by
  have singles : ∀ cs : List Numbered, (cs.flatMap fun c => if c.kind.isFunction then [c] else []) =
      cs.filter (·.kind.isFunction) := by
    intro cs
    induction cs with
    | nil => rfl
    | cons c rest ih =>
        rw [List.flatMap_cons, ih, List.filter_cons]
        cases c.kind.isFunction <;> rfl
  have files : ∀ file : Numbered, file.outline.WellShaped descriptors → file.kind.isFile = true →
      file.functions = file.children.filter (·.kind.isFunction) := by
    intro file shaped isFile
    cases file with
    | node i k d ty cs =>
        obtain ⟨_, fits, below⟩ := wellShaped_node_iff.mp shaped
        cases k with
        | file name =>
            rw [functions_node, children_node, ← singles]
            refine List.flatMap_congr fun c member => ?_
            exact functions_item (below c member) (fits _ (List.mem_map_of_mem member))
        | _ => cases isFile
  cases t with
  | node i k d ty cs =>
      obtain ⟨name, rfl⟩ : ∃ name, k = .module name := isModule
      obtain ⟨_, fits, below⟩ := wellShaped_node_iff.mp shaped
      rw [functions_node, children_node, List.filter_flatMap]
      refine List.flatMap_congr fun c member => ?_
      exact files c (below c member) (fits _ (List.mem_map_of_mem member))

end Numbered

/-- A test that always answers keeps what it answers `true` for. -/
theorem filterAuxM_eq_ok {ε α : Type} {f : α → Except ε Bool} {p : α → Bool} {as : List α}
    (each : ∀ a ∈ as, f a = .ok (p a)) (acc : List α) :
    as.filterAuxM f acc = .ok ((as.filter p).reverse ++ acc) := by
  induction as generalizing acc with
  | nil => rfl
  | cons a rest ih =>
      rw [List.filterAuxM, each a List.mem_cons_self]
      refine (ih (fun b member => each b (List.mem_cons_of_mem _ member)) _).trans ?_
      rw [List.filter_cons]
      cases p a <;> simp

theorem filterM_eq_ok {ε α : Type} {f : α → Except ε Bool} {p : α → Bool} {as : List α}
    (each : ∀ a ∈ as, f a = .ok (p a)) : as.filterM f = .ok (as.filter p) := by
  rw [List.filterM, filterAuxM_eq_ok each]
  simp [bind, Except.bind, pure, Except.pure]

namespace Holds

variable {m : Module} {s t : Numbered}

/-- The functions that the root reaches are those of the held outline. -/
theorem functions_eq (held : Holds m t) (root : t.id = m.root) (nodup : t.ids.Nodup) :
    m.functions = .ok (t.functions.map Numbered.id) := by
  have each : ∀ i ∈ t.subtrees.map Numbered.id,
      (do pure (← m.node i).kind.isFunction : Except OutOfRange Bool) =
        .ok (((m.kind? i).map Kind.isFunction).getD false) := by
    intro i member
    obtain ⟨s, part, rfl⟩ := List.mem_map.mp member
    rw [(held.subtree part).node_id, (held.subtree part).kind?_id]
    cases s with
    | node i k d ty cs => rfl
  rw [Module.functions, held.preorder_eq root nodup, Numbered.ids, filterM_eq_ok each,
    Numbered.functions, List.filter_map]
  congr 2
  apply List.filter_congr
  intro s part
  rw [Function.comp_apply, (held.subtree part).kind?_id]
  rfl

/-- A run of a part of a held outline. -/
theorem run_eq (held : Holds m s) (nodup : s.ids.Nodup) (oracle : Oracle) (env : Env) :
    m.run s.id oracle env = some ((s.outline.runFunction oracle env).run.run []) := by
  rw [Module.run, held.outline?_eq nodup]
  rfl

end Holds

/-- Two modules have the same functions, one by one in the order of the walk: with the same names,
and for all surroundings and arguments with the same requests and the same end. -/
def Agree (m m' : Module) (fs fs' : List NodeId) : Prop :=
  m.functions = .ok fs ∧ m'.functions = .ok fs' ∧
    List.Forall₂ (fun f f' => m.kind? f = m'.kind? f' ∧ ∀ oracle env, ∃ outcome,
      m.run f oracle env = some outcome ∧ m'.run f' oracle env = some outcome) fs fs'

/-- Modules agree if the functions of their outlines do. -/
theorem Verified.agree {m m' : Module} {descriptors : Descriptor.Table} {t t' : Numbered}
    (verified : m.Verified descriptors t) (verified' : m'.Verified descriptors t')
    {change : Numbered → Numbered} (functions : t'.functions = t.functions.map change)
    (kinds : ∀ s ∈ t.functions, (change s).kind = s.kind)
    (same : ∀ s ∈ t.functions, ∀ oracle env,
      s.outline.runFunction oracle env = (change s).outline.runFunction oracle env) :
    Agree m m' (t.functions.map Numbered.id) ((t.functions.map change).map Numbered.id) := by
  refine ⟨verified.held.functions_eq verified.root verified.nodup, ?_, ?_⟩
  · rw [verified'.held.functions_eq verified'.root verified'.nodup, functions]
  · rw [List.map_map, List.forall₂_map_left_iff, List.forall₂_map_right_iff, List.forall₂_same]
    intro s member
    have part := (Numbered.mem_functions.mp member).1
    have part' : change s ∈ t'.subtrees :=
      (Numbered.mem_functions.mp (functions ▸ List.mem_map_of_mem member)).1
    have held := verified.held.subtree part
    have held' := verified'.held.subtree part'
    refine ⟨?_, fun oracle env => ⟨_, held.run_eq ?_ oracle env, ?_⟩⟩
    · rw [Function.comp_apply, held.kind?_id, held'.kind?_id, kinds s member]
    · exact Numbered.nodup_ids_of_mem_subtrees part verified.nodup
    · rw [Function.comp_apply, same s member]
      exact held'.run_eq (Numbered.nodup_ids_of_mem_subtrees part' verified'.nodup) oracle env

end StagedCompiler.Module
