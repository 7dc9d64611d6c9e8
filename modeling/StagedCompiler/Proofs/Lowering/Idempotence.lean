import StagedCompiler.Proofs.Lowering.NormalForms
import StagedCompiler.Proofs.Lowering.PlanRuns
import StagedCompiler.Proofs.Lowering.Preservation

/-!
# Running the host's plan again

The host's plan for a bundle folds constants; a second run changes nothing.  The native plan folds,
prunes and then flattens, and flattening can put statements behind a return that pruning did not see:
the plan calls itself idempotent, and a second run removes them.  What it leaves behind then is in the
normal form of all passes, so a third run changes nothing.

`hostPlan_settles` says this of every verified module, with the exact condition on the result of the
first run, and one on the module itself, for the second run to change nothing.  `returnInside` is a
module that the second run changes.
-/

namespace StagedCompiler.Module

/-- Only the last statement of a block that the root reaches is a return. -/
def ReturnsLast (m : Module) : Prop :=
  ∀ id ∈ m.preorder, m.kind? id = some .block →
    ∀ c ∈ (m.childrenOf id).dropLast, m.kind? c ≠ some .ret

/-- No block that stands in a block that the root reaches holds a return. -/
def InnerReturnFree (m : Module) : Prop :=
  ∀ id ∈ m.preorder, m.kind? id = some .block →
    ∀ c ∈ m.childrenOf id, m.kind? c = some .block → ∀ r ∈ m.childrenOf c, m.kind? r ≠ some .ret

section Arena

variable {m : Module} {descriptors : Descriptor.Table} {t : Numbered}
  (verified : m.Verified descriptors t)
include verified

theorem Verified.forall_preorder_iff {p : NodeId → Prop} :
    (∀ id ∈ m.preorder, p id) ↔ ∀ s ∈ t.subtrees, p s.id := by
  rw [verified.held.preorder_eq verified.root verified.nodup, Numbered.ids, List.forall_mem_map]

theorem Verified.returnsLast_iff :
    m.ReturnsLast ↔ t.outline.Everywhere Outline.ReturnsLast := by
  unfold ReturnsLast
  rw [verified.forall_preorder_iff, Numbered.everywhere_outline_iff]
  refine forall₂_congr fun s part => ?_
  have held := verified.held.subtree part
  have kinds : ∀ c ∈ s.children.dropLast, m.kind? c.id = some c.kind := fun c member =>
    (held.child (List.dropLast_subset _ member)).kind?_id
  rw [held.kind?_id, held.childrenOf_id, ← List.map_dropLast, List.forall_mem_map,
    Lowering.returnsLast_iff, Option.some.injEq]
  refine forall_congr' fun _ => forall₂_congr fun c member => ?_
  rw [kinds c member, ne_eq, Option.some.injEq]

theorem Verified.innerReturnFree_iff :
    m.InnerReturnFree ↔ t.outline.Everywhere Outline.InnerReturnFree := by
  unfold InnerReturnFree
  rw [verified.forall_preorder_iff, Numbered.everywhere_outline_iff]
  refine forall₂_congr fun s part => ?_
  have held := verified.held.subtree part
  unfold Outline.InnerReturnFree
  rw [held.kind?_id, held.childrenOf_id, List.forall_mem_map, Numbered.kind_outline,
    Numbered.children_outline, List.forall_mem_map, Option.some.injEq]
  refine forall_congr' fun _ => forall₂_congr fun c member => ?_
  have child := held.child member
  rw [child.kind?_id, child.childrenOf_id, List.forall_mem_map, Numbered.kind_outline,
    Numbered.children_outline, List.forall_mem_map, Option.some.injEq]
  refine forall_congr' fun _ => forall₂_congr fun r deeper => ?_
  rw [(child.child deeper).kind?_id, ne_eq, Option.some.injEq, Numbered.kind_outline]

/-- A compacted module is verified by the numbers of the layout of its outline. -/
theorem Verified.toModule : t.outline.toModule.Verified descriptors (t.outline.number 0) := by
  have compacted := verified.compacted
  rwa [verified.compacted_eq, Numbered.relabel_place verified.nodup] at compacted

end Arena

end StagedCompiler.Module

namespace StagedCompiler.Lowering

open StagedCompiler.Module
open Outline (Everywhere)

/-! ## The host's plan -/

/-- The plan of the host alone: its passes for the target, in order. -/
def hostPlan (target : Target) : Plan :=
  ⟨target, (hostPasses target).map fun pass => ⟨Registry.hostPlugin ++ "/" ++ pass.name, pass⟩⟩

theorem build_host (target : Target) :
    Plan.build target Registry.host = .ok (hostPlan target) := by
  have none : Plan.placedPasses Registry.host = [] := by
    simp [Plan.placedPasses, Registry.loweringPasses, Registry.extensionsFor, Registry.host,
      Registry.push, Registry.empty, Registry.Record.point, Extension.point]
  unfold Plan.build
  simp only [none]
  cases target <;> rfl

theorem hostPlan_isIdempotent (target : Target) : (hostPlan target).isIdempotent = true := by
  cases target <;> rfl

/-- What the host's passes make of a tree. -/
def hostRebuild : Target → Numbered → Numbered
  | .native, t => ((t.rebuild foldRule).rebuild pruneRule).rebuild flattenRule
  | .bundle, t => t.rebuild foldRule

/-- The host's plan takes every verified module to the layout of the rebuilt outline. -/
theorem hostPlan_run {m : Module} {descriptors : Descriptor.Table} {t : Numbered}
    (verified : m.Verified descriptors t) (target : Target) :
    (hostPlan target).run m descriptors = (.ok (), (hostRebuild target t).outline.toModule) ∧
      (hostRebuild target t).outline.toModule.Verified descriptors
        ((hostRebuild target t).outline.number 0) := by
  have accepted : ∀ {m' : Module} {u : Numbered}, m'.Verified descriptors u →
      m'.verify descriptors = .ok () := fun done => verify_eq_ok_iff.mpr ⟨_, done⟩
  have passes : ∃ last,
      Plan.PassesAll target descriptors (hostPlan target).steps m last ∧
        last.Verified descriptors (hostRebuild target t) := by
    cases target with
    | native =>
        obtain ⟨m₁, ran₁, folded, -⟩ := foldConstants_rebuilds verified
          ⟨descriptors, "host/fold-constants", .native⟩
        obtain ⟨m₂, ran₂, pruned, -⟩ := eliminateDeadCode_rebuilds folded
          ⟨descriptors, "host/eliminate-dead-code", .native⟩
        obtain ⟨m₃, ran₃, flattened, -⟩ := flattenBlocks_rebuilds pruned
          ⟨descriptors, "host/flatten-blocks", .native⟩
        exact ⟨m₃, .cons ⟨ran₁, accepted folded⟩ (.cons ⟨ran₂, accepted pruned⟩
          (.cons ⟨ran₃, accepted flattened⟩ .nil)), flattened⟩
    | bundle =>
        obtain ⟨m₁, ran₁, folded, -⟩ := foldConstants_rebuilds verified
          ⟨descriptors, "host/fold-constants", .bundle⟩
        exact ⟨m₁, .cons ⟨ran₁, accepted folded⟩ .nil, folded⟩
  obtain ⟨last, passes, done⟩ := passes
  refine ⟨?_, done.toModule⟩
  rw [Plan.run_of_passesAll passes, done.compacted_eq]

/-! ## What a second run does -/

section Rebuilt

variable {t : Numbered}

theorem native_normal (t : Numbered) :
    (hostRebuild .native t).outline.Everywhere Outline.Folded ∧
      (hostRebuild .native t).outline.Everywhere Outline.Effective ∧
      (hostRebuild .native t).outline.Everywhere Outline.Flat := by
  have folded := pruneRule_onBlocks.folded pruneRule_selects (fold_folded t)
  have effective := (prune_pruned (t.rebuild foldRule)).imp fun _ pruned => pruned.1
  exact ⟨flattenRule_onBlocks.folded flattenRule_selects folded, flatten_effective effective,
    flatten_flat _⟩

/-- Of a folded and flat tree the native passes only prune. -/
theorem native_eq_prune (folded : t.outline.Everywhere Outline.Folded)
    (flat : t.outline.Everywhere Outline.Flat) : hostRebuild .native t = t.rebuild pruneRule := by
  have fold : t.rebuild foldRule = t :=
    ((everywhere_iff_settled settledAt_foldRule_iff t).mp folded).rebuild_eq
  have flatten : (t.rebuild pruneRule).rebuild flattenRule = t.rebuild pruneRule := by
    apply Settled.rebuild_eq
    intro s part
    exact settledAt_flattenRule s ((Numbered.everywhere_outline_iff _).mp (prune_flat flat) s part)
  rw [hostRebuild, fold, flatten]

theorem prune_eq_self (effective : t.outline.Everywhere Outline.Effective)
    (last : t.outline.Everywhere Outline.ReturnsLast) : t.rebuild pruneRule = t := by
  rw [Numbered.everywhere_outline_iff] at effective last
  apply Settled.rebuild_eq
  intro s part
  exact (settledAt_pruneRule_iff s).mpr ⟨effective s part, last s part⟩

/-- The native passes leave returns last if no inner block of the tree holds one. -/
theorem native_returnsLast (free : t.outline.Everywhere Outline.InnerReturnFree) :
    (hostRebuild .native t).outline.Everywhere Outline.ReturnsLast := by
  have pruned := (prune_pruned (t.rebuild foldRule)).imp fun _ done => done.2
  have freeFolded := foldRule_thins.innerReturnFree foldRule_selects free
  have freePruned := pruneRule_thins.innerReturnFree pruneRule_selects freeFolded
  exact flatten_returnsLast freePruned pruned

end Rebuilt

/-- The outline that a run of the host's plan leaves behind, given the outline that it starts with
under the numbers of its layout. -/
def hostOutline (target : Target) (o : Outline) : Outline :=
  (hostRebuild target (o.number 0)).outline

/-- On the result of a bundle run the plan changes nothing. -/
theorem hostOutline_bundle (t : Numbered) :
    hostOutline .bundle (hostRebuild .bundle t).outline = (hostRebuild .bundle t).outline := by
  have folded : ((hostRebuild .bundle t).outline.number 0).outline.Everywhere Outline.Folded := by
    rw [Outline.outline_number]
    exact fold_folded t
  have settled := (everywhere_iff_settled settledAt_foldRule_iff _).mp folded
  unfold hostOutline
  rw [hostRebuild, settled.rebuild_eq, Outline.outline_number]

section Native

variable {o : Outline}

theorem hostOutline_native (folded : o.Everywhere Outline.Folded)
    (flat : o.Everywhere Outline.Flat) :
    hostOutline .native o = ((o.number 0).rebuild pruneRule).outline := by
  unfold hostOutline
  rw [native_eq_prune (by rwa [Outline.outline_number]) (by rwa [Outline.outline_number])]

/-- The second native run changes nothing exactly if no statement stands behind a return. -/
theorem hostOutline_native_eq_self_iff (folded : o.Everywhere Outline.Folded)
    (effective : o.Everywhere Outline.Effective) (flat : o.Everywhere Outline.Flat) :
    hostOutline .native o = o ↔ o.Everywhere Outline.ReturnsLast := by
  rw [hostOutline_native folded flat]
  constructor
  · intro same
    have last := (prune_pruned (o.number 0)).imp fun _ done => done.2
    rwa [same] at last
  · intro last
    rw [prune_eq_self (by rwa [Outline.outline_number]) (by rwa [Outline.outline_number]),
      Outline.outline_number]

/-- What the second native run leaves behind is in the normal form of all passes. -/
theorem hostOutline_native_twice (folded : o.Everywhere Outline.Folded)
    (flat : o.Everywhere Outline.Flat) :
    hostOutline .native (hostOutline .native o) = hostOutline .native o := by
  have foldedNumbered : (o.number 0).outline.Everywhere Outline.Folded := by
    rwa [Outline.outline_number]
  have flatNumbered : (o.number 0).outline.Everywhere Outline.Flat := by
    rwa [Outline.outline_number]
  have pruned := prune_pruned (o.number 0)
  rw [hostOutline_native folded flat]
  rw [hostOutline_native_eq_self_iff
    (pruneRule_onBlocks.folded pruneRule_selects foldedNumbered)
    (pruned.imp fun _ done => done.1) (prune_flat flatNumbered)]
  exact pruned.imp fun _ done => done.2

end Native

/-- The host's plan, which calls itself idempotent, succeeds on every verified module and again on
what it leaves behind.  The second run changes nothing for a bundle, and for the native target exactly
if no block that the first run left behind has a statement behind a return; it is enough that no block
that stands in a block of the module holds a return.  The third run changes nothing. -/
theorem hostPlan_settles (target : Target) {m : Module} {descriptors : Descriptor.Table}
    (verified : m.verify descriptors = .ok ()) :
    ∃ plan m₁ m₂ m₃, Plan.build target Registry.host = .ok plan ∧ plan.isIdempotent = true ∧
      plan.run m descriptors = (.ok (), m₁) ∧ plan.run m₁ descriptors = (.ok (), m₂) ∧
      plan.run m₂ descriptors = (.ok (), m₃) ∧
      (m₂ = m₁ ↔ target = .bundle ∨ m₁.ReturnsLast) ∧ (m.InnerReturnFree → m₂ = m₁) ∧ m₃ = m₂ := by
  obtain ⟨t, verified⟩ := verify_eq_ok_iff.mp verified
  obtain ⟨ran₁, verified₁⟩ := hostPlan_run verified target
  obtain ⟨ran₂, verified₂⟩ := hostPlan_run verified₁ target
  obtain ⟨ran₃, -⟩ := hostPlan_run verified₂ target
  -- Each run lays out the outline that the passes make, so modules can be compared by outlines.
  refine ⟨hostPlan target, _, _, _, build_host target, hostPlan_isIdempotent target, ran₁, ran₂, ran₃,
    ?_, ?_, ?_⟩
  · have same : (hostOutline target (hostRebuild target t).outline).toModule =
        (hostRebuild target t).outline.toModule ↔
        hostOutline target (hostRebuild target t).outline = (hostRebuild target t).outline :=
      ⟨Outline.toModule_injective, congrArg Outline.toModule⟩
    refine same.trans ?_
    rw [verified₁.returnsLast_iff, Outline.outline_number]
    cases target with
    | bundle => simp [hostOutline_bundle]
    | native =>
        obtain ⟨folded, effective, flat⟩ := native_normal t
        simp [hostOutline_native_eq_self_iff folded effective flat]
  · intro free
    refine congrArg Outline.toModule ?_
    show hostOutline target (hostRebuild target t).outline = _
    cases target with
    | bundle => exact hostOutline_bundle t
    | native =>
        obtain ⟨folded, effective, flat⟩ := native_normal t
        rw [hostOutline_native_eq_self_iff folded effective flat]
        exact native_returnsLast (verified.innerReturnFree_iff.mp free)
  · refine congrArg Outline.toModule ?_
    show hostOutline target (hostOutline target (hostRebuild target t).outline) =
      hostOutline target (hostRebuild target t).outline
    cases target with
    | bundle => rw [hostOutline_bundle, hostOutline_bundle]
    | native =>
        obtain ⟨folded, -, flat⟩ := native_normal t
        exact hostOutline_native_twice folded flat

/-- A function that returns from an inner block in front of a call of itself. -/
def returnInside : Module :=
  (Outline.node (.module "main") none .unit [
    .node (.file "main") none .unit [
      .node (.function "f") (some 0) .unit [
        .node .block none .unit [
          .node .block none .unit [.node .ret none .unit []],
          .node .eval none .unit [.node .call (some 0) .unit []]]]]]).toModule

/-- The descriptor of the function of `returnInside`. -/
def returnInsideTable : Descriptor.Table :=
  ⟨#[{ name := "f", kind := .function, origin := .source 0 }]⟩

theorem hostPlan_settles_returnInside :
    returnInside.verify returnInsideTable = .ok () ∧
      ∃ plan m₁ m₂ m₃, Plan.build .native Registry.host = .ok plan ∧ plan.isIdempotent = true ∧
        plan.run returnInside returnInsideTable = (.ok (), m₁) ∧
        plan.run m₁ returnInsideTable = (.ok (), m₂) ∧
        plan.run m₂ returnInsideTable = (.ok (), m₃) ∧ (m₂ = m₁ ↔ m₁.ReturnsLast) ∧ m₃ = m₂ := by
  have verified : returnInside.verify returnInsideTable = .ok () := by decide +kernel
  obtain ⟨plan, m₁, m₂, m₃, built, idempotent, ran₁, ran₂, ran₃, same, -, third⟩ :=
    hostPlan_settles .native verified
  exact ⟨verified, plan, m₁, m₂, m₃, built, idempotent, ran₁, ran₂, ran₃, by simpa using same, third⟩

/-- The native plan calls itself idempotent and changes what it left behind. -/
theorem native_run_again_changes_returnInside :
    returnInside.verify returnInsideTable = .ok () ∧
      ∃ plan m₁ m₂, Plan.build .native Registry.host = .ok plan ∧ plan.isIdempotent = true ∧
        plan.run returnInside returnInsideTable = (.ok (), m₁) ∧
        plan.run m₁ returnInsideTable = (.ok (), m₂) ∧ m₂ ≠ m₁ := by
  refine ⟨by decide +kernel, hostPlan .native, _, _, build_host .native, by rfl,
    Prod.ext ?_ rfl, Prod.ext ?_ rfl, ?_⟩
  · decide +kernel
  · decide +kernel
  · decide +kernel

end StagedCompiler.Lowering
