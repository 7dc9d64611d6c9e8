import StagedCompiler.Proofs.Lowering.NormalForms
import StagedCompiler.Proofs.Lowering.Preservation
import StagedCompiler.Proofs.Module.Traversal

/-!
# One run of a host pass is enough

A host pass goes over the nodes once, in an order that is fixed before the first change.  Folding and
flattening go over children first, so what they make of a node is made of finished children; pruning
goes over parents first, and the order still lists the blocks that it detaches on the way.  For a
verified module one run therefore reaches what the pass is after, for nests of any depth.

* `OperationsFolded`, `StatementsEffective`, `ReturnsAtEnd` and `BlocksFlat` say this of what the root
  reaches, node by node.
* `Flattens m m'` says what flattening makes of `m`: the statements of a block are those of no block
  that were nested in it, from left to right (`Unnested`), and no other node is changed.
* A sweep that meets settled nodes only changes nothing (`Obeys.sweep_settled`), so a second run leaves
  the whole arena as it is, what has been detached included.
-/

namespace StagedCompiler.Module

open StagedCompiler.Lowering (fold?)

/-- No operation that the root reaches has two constants as operands that it can be evaluated on. -/
def OperationsFolded (m : Module) : Prop :=
  ∀ id op l r a b, m.Reachable id → m.kind? id = some (.binary op) → m.childrenOf id = [l, r] →
    m.kind? l = some (.constant a) → m.kind? r = some (.constant b) → fold? op a b = none

/-- No block that the root reaches has a statement that evaluates a constant or a local. -/
def StatementsEffective (m : Module) : Prop :=
  ∀ id, m.Reachable id → m.kind? id = some .block →
    ∀ s ∈ m.childrenOf id, m.kind? s = some .eval →
      ∀ e ∈ m.childrenOf s, m.kind? e ≠ some .localRef ∧ ∀ c, m.kind? e ≠ some (.constant c)

/-- Of the children of a node that the root reaches only the last is a return. -/
def ReturnsAtEnd (m : Module) : Prop :=
  ∀ id, m.Reachable id → ∀ s ∈ (m.childrenOf id).dropLast, m.kind? s ≠ some .ret

/-- No block that the root reaches has a block as a statement. -/
def BlocksFlat (m : Module) : Prop :=
  ∀ id, m.Reachable id → m.kind? id = some .block →
    ∀ s ∈ m.childrenOf id, m.kind? s ≠ some .block

/-- The statements of a list that are no blocks, with those nested in a block in the place of the
block. -/
inductive Unnested (m : Module) : List NodeId → List NodeId → Prop
  | nil : Unnested m [] []
  | block {s : NodeId} {rest inner later : List NodeId} :
    m.kind? s = some .block → Unnested m (m.childrenOf s) inner → Unnested m rest later →
    Unnested m (s :: rest) (inner ++ later)
  | statement {s : NodeId} {kind : Kind} {rest later : List NodeId} :
    m.kind? s = some kind → kind ≠ .block → Unnested m rest later →
    Unnested m (s :: rest) (s :: later)

/-- `m'` has the nodes of `m`, with the statements of blocks unnested. -/
structure Flattens (m m' : Module) : Prop where
  others : ∀ id, m.kind? id ≠ some .block → m'.get? id = m.get? id
  blocks : ∀ id n, m.Reachable id → m.get? id = some n → n.kind = .block →
    ∃ statements, m'.get? id = some { n with children := statements } ∧
      m.Unnested n.children statements
  bodies : ∃ functions, m.functions = .ok functions ∧ m'.functions = .ok functions ∧
    ∀ f ∈ functions, ∃ params body,
      m.childrenOf f = params ++ [body] ∧ m'.childrenOf f = params ++ [body] ∧
      m.kind? body = some .block ∧ m.Unnested (m.childrenOf body) (m'.childrenOf body)

/-- Arenas with the same root and the same nodes are equal. -/
theorem eq_of_get?_eq {m m' : Module} (root : m'.root = m.root) (nodes : ∀ i, m'.get? i = m.get? i) :
    m' = m := by
  obtain ⟨arena, top⟩ := m
  obtain ⟨arena', top'⟩ := m'
  obtain rfl : top' = top := root
  congr 1
  exact Array.ext_getElem? nodes

/-- Returns stand in blocks only. -/
theorem ret_notMem_of_childrenFit {kind : Kind} {below : List Kind} (other : kind ≠ .block)
    (fits : Outline.ChildrenFit kind below) : Kind.ret ∉ below := by
  intro member
  cases kind with
  | block => exact other rfl
  | module name | file name | cls name | call => cases fits _ member
  | letBind name | eval | fieldGet | ret | binary op => cases fits.2 _ member
  | field name | param name | localRef | constant value =>
      have empty : below = [] := fits
      rw [empty] at member
      cases member
  | function name =>
      obtain ⟨params, rfl, allowed⟩ := fits
      obtain inside | last := List.mem_append.mp member
      · cases allowed _ inside
      · cases List.mem_singleton.mp last

/-- An evaluation has one operand. -/
theorem Numbered.exists_operand {descriptors : Descriptor.Table} {s : Numbered}
    (shaped : s.outline.WellShaped descriptors) (evaluates : s.kind = .eval) :
    ∃ u, s.children = [u] := by
  obtain ⟨i, k, d, ty, cs⟩ := s
  obtain rfl : k = .eval := evaluates
  obtain ⟨-, fits, -⟩ := Numbered.wellShaped_node_iff.mp shaped
  have single := fits.1
  rwa [List.length_map, List.length_eq_one_iff] at single

/-- A function ends in a block. -/
theorem Numbered.exists_body {descriptors : Descriptor.Table} {s : Numbered}
    (shaped : s.outline.WellShaped descriptors) (isFunction : s.kind.isFunction = true) :
    ∃ params body, s.children = params ++ [body] ∧ body.kind = .block := by
  obtain ⟨i, k, d, ty, cs⟩ := s
  obtain ⟨-, fits, -⟩ := Numbered.wellShaped_node_iff.mp shaped
  cases k with
  | function name =>
      obtain ⟨kinds, split, -⟩ := fits
      obtain ⟨params, last, rfl, -, ending⟩ := List.map_eq_append_iff.mp split
      obtain ⟨body, rfl, block⟩ := List.map_eq_singleton_iff.mp ending
      exact ⟨params, body, rfl, block⟩
  | _ => cases isFunction

end StagedCompiler.Module

namespace StagedCompiler.Lowering

open StagedCompiler.Module
open Outline (Folded Effective Flat Everywhere)

/-! ## Sweeps over settled nodes -/

section Settled

variable {step : Module → NodeId → Except OutOfRange Module} {rule : Rule} {m : Module}
  {s t : Numbered}

/-- A step that has nothing left to do at a node changes no node. -/
theorem Obeys.step_settled (obeys : Obeys step rule) (held : Holds m s)
    (settled : SettledAt rule s) : step m s.id = .ok m := by
  obtain ⟨i, k, d, ty, cs⟩ := s
  obtain ⟨m', stepped, edited, top⟩ := obeys held
  have same : rule k cs = (k, cs) := settled
  rw [same] at top
  have unchanged : m' = m := by
    apply eq_of_get?_eq edited.root
    intro j
    by_cases here : j = i
    · rw [here, top]
      exact held.get?_id.symm
    · exact edited.frame j (by simpa using here)
  rw [Numbered.id_node, stepped, unchanged]

/-- A sweep over the nodes of a settled tree changes no node. -/
theorem Obeys.sweep_settled (obeys : Obeys step rule) (held : Holds m t) (settled : Settled rule t)
    {order : List NodeId} (inside : order ⊆ t.ids) : sweep step order m = { module := m } := by
  apply sweep_idle
  intro i member
  obtain ⟨s, part, rfl⟩ := List.mem_map.mp (inside member)
  exact obeys.step_settled (held.subtree part) (settled s part)

theorem settled_foldRule (folded : t.outline.Everywhere Folded) : Settled foldRule t :=
  (everywhere_iff_settled settledAt_foldRule_iff t).mp folded

theorem settled_pruneRule
    (pruned : t.outline.Everywhere fun o => o.Effective ∧ o.ReturnsLast) : Settled pruneRule t :=
  (everywhere_iff_settled settledAt_pruneRule_iff t).mp pruned

theorem settled_flattenRule (flat : t.outline.Everywhere Flat) : Settled flattenRule t := by
  intro s part
  exact settledAt_flattenRule s ((Numbered.everywhere_outline_iff t).mp flat s part)

end Settled

/-! ## Normal forms in the arena -/

section Arena

variable {m : Module} {descriptors : Descriptor.Table} {t : Numbered}
  (verified : m.Verified descriptors t)
include verified

/-- Where the tree is folded, so are all operations of the module that can be reached. -/
theorem operationsFolded (folded : t.outline.Everywhere Folded) : m.OperationsFolded := by
  intro id op l r a b reached kind children left right
  obtain ⟨s, part, rfl, held, -⟩ := verified.exists_part reached
  rw [held.kind?_id, Option.some.injEq] at kind
  rw [held.childrenOf_id] at children
  obtain ⟨u, rest, below, rfl, tail⟩ := List.map_eq_cons_iff.mp children
  obtain ⟨v, rfl, rfl⟩ := List.map_eq_singleton_iff.mp tail
  rw [(held.child (c := u) (by simp [below])).kind?_id, Option.some.injEq] at left
  rw [(held.child (c := v) (by simp [below])).kind?_id, Option.some.injEq] at right
  apply (Numbered.everywhere_outline_iff t).mp folded s part op a b
  · rw [Numbered.kind_outline, kind]
  · rw [Numbered.children_outline, Numbered.kinds_outlines, below]
    simp [left, right]

/-- Where the tree has no statement without effect, the module has none. -/
theorem statementsEffective (effective : t.outline.Everywhere Effective) :
    m.StatementsEffective := by
  intro id reached kind x member evaluates e operand
  obtain ⟨s, part, rfl, held, -⟩ := verified.exists_part reached
  rw [held.kind?_id, Option.some.injEq] at kind
  rw [held.childrenOf_id] at member
  obtain ⟨c, inside, rfl⟩ := List.mem_map.mp member
  have child := held.child inside
  rw [child.kind?_id, Option.some.injEq] at evaluates
  -- an evaluation has one operand, so the one at hand is the first, which purity looks at
  have inner := Numbered.mem_subtrees_of_mem_children inside
  obtain ⟨u, only⟩ := Numbered.exists_operand
    (verified.shaped.subtree (Numbered.subtrees_trans inner part)) evaluates
  rw [child.childrenOf_id, only, List.map_singleton, List.mem_singleton] at operand
  have impure : ¬ c.outline.PureEval := by
    apply (Numbered.everywhere_outline_iff t).mp effective s part
    · rw [Numbered.kind_outline, kind]
    · rw [Numbered.children_outline]
      exact List.mem_map_of_mem inside
  have atom : ¬ (u.kind = .localRef ∨ ∃ value, u.kind = .constant value) := by
    intro atom
    apply impure
    refine ⟨by rw [Numbered.kind_outline, evaluates], u.outline, [], ?_, ?_⟩
    · rw [Numbered.children_outline, only, List.map_singleton]
    · rwa [Numbered.kind_outline]
  rw [operand, (child.child (c := u) (by simp [only])).kind?_id, ne_eq, Option.some.injEq]
  simpa [not_or] using atom

/-- Where nothing stands behind a return in the tree, nothing does in the module. -/
theorem returnsAtEnd (last : t.outline.Everywhere Outline.ReturnsLast) : m.ReturnsAtEnd := by
  intro id reached x member
  obtain ⟨s, part, rfl, held, -⟩ := verified.exists_part reached
  rw [held.childrenOf_id, ← List.map_dropLast] at member
  obtain ⟨c, inside, rfl⟩ := List.mem_map.mp member
  have among : c ∈ s.children := List.dropLast_subset _ inside
  rw [(held.child among).kind?_id, ne_eq, Option.some.injEq]
  by_cases block : s.kind = .block
  · have ends := (Numbered.everywhere_outline_iff t).mp last s part
    exact (returnsLast_iff s).mp ends block c inside
  · have shaped := verified.shaped.subtree part
    obtain ⟨i, k, d, ty, cs⟩ := s
    obtain ⟨-, fits, -⟩ := Numbered.wellShaped_node_iff.mp shaped
    intro returns
    apply ret_notMem_of_childrenFit block fits
    rw [← returns]
    exact List.mem_map_of_mem among

/-- Where the tree is flat, so are all blocks of the module that can be reached. -/
theorem blocksFlat (flat : t.outline.Everywhere Flat) : m.BlocksFlat := by
  intro id reached kind x member
  obtain ⟨s, part, rfl, held, -⟩ := verified.exists_part reached
  rw [held.kind?_id, Option.some.injEq] at kind
  rw [held.childrenOf_id] at member
  obtain ⟨c, inside, rfl⟩ := List.mem_map.mp member
  rw [(held.child inside).kind?_id, ne_eq, Option.some.injEq, ← Numbered.kind_outline]
  apply (Numbered.everywhere_outline_iff t).mp flat s part
  · rw [Numbered.kind_outline, kind]
  · rw [Numbered.children_outline]
    exact List.mem_map_of_mem inside

end Arena

/-! ## What flattening makes of the statements of a block -/

section Flattening

variable {m m' : Module} {descriptors : Descriptor.Table} {s t : Numbered}

/-- Statements are flattened to what was nested in them if each of them is. -/
theorem unnested_of_each {cs : List Numbered}
    (each : ∀ c ∈ cs, ∀ {rest later : List NodeId}, m.Unnested rest later →
      m.Unnested (c.id :: rest) ((spliced (c.rebuild flattenRule)).map Numbered.id ++ later)) :
    m.Unnested (cs.map Numbered.id)
      (((cs.map (Numbered.rebuild flattenRule)).flatMap spliced).map Numbered.id) := by
  induction cs with
  | nil => exact Unnested.nil
  | cons c rest ih =>
      rw [List.forall_mem_cons] at each
      rw [List.map_cons, List.map_cons, List.flatMap_cons, List.map_append]
      exact each.1 (ih each.2)

/-- A statement in front of others is flattened to what was nested in it. -/
theorem unnested_flatten (held : Holds m t) {rest later : List NodeId}
    (others : m.Unnested rest later) :
    m.Unnested (t.id :: rest)
      ((spliced (t.rebuild flattenRule)).map Numbered.id ++ later) := by
  -- the induction is on the nest: what stands in a block has been unnested when the block is opened
  induction held generalizing rest later with
  | @node i k d ty cs here below ih =>
      have whole := Holds.node here below
      rw [spliced, flattenRule_onBlocks.kind_rebuild]
      by_cases block : k = .block
      · subst block
        rw [if_pos (by simp), Numbered.rebuild_node, Numbered.children_node, flattenRule_block]
        apply Unnested.block whole.kind?_id _ others
        rw [whole.childrenOf_id]
        exact unnested_of_each ih
      · rw [if_neg (by simpa using block), List.map_singleton, Numbered.id_rebuild]
        exact Unnested.statement whole.kind?_id block others

variable (verified : m.Verified descriptors t)
  (held' : ∀ s ∈ t.subtrees, Holds m' (s.rebuild flattenRule))
include verified held'

/-- A block has what was nested in its statements. -/
theorem flattened_block (part : s ∈ t.subtrees) (block : s.kind = .block) :
    ∃ statements, m'.get? s.id = some { s.top with children := statements } ∧
      m.Unnested s.top.children statements := by
  have held := verified.held.subtree part
  have here := (held' s part).get?_id
  obtain ⟨i, k, d, ty, cs⟩ := s
  obtain rfl : k = .block := block
  rw [Numbered.rebuild_node, flattenRule_block] at here
  exact ⟨_, here, unnested_of_each fun c member => unnested_flatten (held.child member)⟩

/-- A node that is no block is what it was. -/
theorem flattened_other (edited : EditedAt t.ids m m') (i : NodeId) (other : m.kind? i ≠ some .block) :
    m'.get? i = m.get? i := by
  by_cases inside : i ∈ t.ids
  · obtain ⟨s, part, rfl⟩ := List.mem_map.mp inside
    have held := verified.held.subtree part
    have here := (held' s part).get?_id
    rw [held.kind?_id, ne_eq, Option.some.injEq] at other
    rw [Numbered.id_rebuild] at here
    rw [here, held.get?_id]
    obtain ⟨i, k, d, ty, cs⟩ := s
    rw [Numbered.kind_node] at other
    rw [Numbered.rebuild_node, flattenRule_of_ne other, Numbered.top_node, Numbered.top_node,
      Numbered.map_id_rebuild]
  · exact edited.frame i inside

/-- Flattening unnests the statements of blocks, function bodies among them, and does nothing else. -/
theorem flattens (edited : EditedAt t.ids m m')
    (agree : Agree m m' (t.functions.map Numbered.id) (t.functions.map Numbered.id)) :
    m.Flattens m' where
  others := flattened_other verified held' edited
  blocks := by
    intro id n reached here block
    obtain ⟨s, part, rfl, held, -⟩ := verified.exists_part reached
    obtain rfl := Option.some.inj (here.symm.trans held.get?_id)
    exact flattened_block verified held' part (by cases s; exact block)
  bodies := by
    refine ⟨_, agree.1, agree.2.1, fun f member => ?_⟩
    obtain ⟨s, isFunction, rfl⟩ := List.mem_map.mp member
    obtain ⟨part, isFunction⟩ := Numbered.mem_functions.mp isFunction
    have held := verified.held.subtree part
    obtain ⟨params, body, children, block⟩ :=
      Numbered.exists_body (verified.shaped.subtree part) isFunction
    have child : body ∈ s.children := by simp [children]
    have inner := Numbered.subtrees_trans (Numbered.mem_subtrees_of_mem_children child) part
    have kept : m'.get? s.id = m.get? s.id := by
      apply flattened_other verified held' edited
      rw [held.kind?_id, ne_eq, Option.some.injEq]
      intro same
      rw [same] at isFunction
      cases isFunction
    have before : m.childrenOf s.id = params.map Numbered.id ++ [body.id] := by
      rw [held.childrenOf_id, children, List.map_append, List.map_singleton]
    have after : m'.childrenOf s.id = params.map Numbered.id ++ [body.id] := by
      rw [← before, Module.childrenOf, Module.childrenOf, kept]
    obtain ⟨statements, here, unnested⟩ := flattened_block verified held' inner block
    refine ⟨params.map Numbered.id, body.id, before, after, ?_, ?_⟩
    · rw [(held.child child).kind?_id, block]
    · rw [childrenOf_eq (held.child child).get?_id, childrenOf_eq here]
      exact unnested

end Flattening

/-! ## One run and a second one -/

/-- A pass succeeds on a module in all surroundings.  What it leaves behind is verified and as asked
for, and a second run changes no node of it. -/
def Settles (pass : Extension.Pass) (descriptors : Descriptor.Table) (m : Module)
    (asked : Module → Prop) : Prop :=
  ∀ context, ∃ m', pass.run context m = { module := m' } ∧ m'.verify descriptors = .ok () ∧
    asked m' ∧ ∀ context', pass.run context' m' = { module := m' }

section Passes

variable {m : Module} {descriptors : Descriptor.Table} {t : Numbered}
  (verified : m.Verified descriptors t)
include verified

theorem preorder_subset : m.preorder ⊆ t.ids := by
  rw [verified.preorder_eq_ids]
  exact List.Subset.refl _

theorem postorder_subset : m.postorder ⊆ t.ids := by
  intro i member
  exact preorder_subset verified (List.mem_reverse.mp member)

/-- Folding leaves a module with nothing to fold, and a second run changes nothing. -/
theorem foldConstants_settles : Settles foldConstants descriptors m OperationsFolded := by
  intro context
  obtain ⟨m', ran, verified', -⟩ := foldConstants_rebuilds verified context
  have folded := fold_folded t
  refine ⟨m', ran, verify_eq_ok_iff.mpr ⟨_, verified'⟩, operationsFolded verified' folded, ?_⟩
  intro context'
  exact foldNode_obeys.sweep_settled verified'.held (settled_foldRule folded)
    (postorder_subset verified')

/-- After the removal of dead code there is none, and a second run changes nothing. -/
theorem eliminateDeadCode_settles :
    Settles eliminateDeadCode descriptors m
      fun m' => m'.StatementsEffective ∧ m'.ReturnsAtEnd := by
  intro context
  obtain ⟨m', ran, verified', -⟩ := eliminateDeadCode_rebuilds verified context
  have pruned := prune_pruned t
  have effective := statementsEffective verified' (pruned.imp fun _ done => done.1)
  have last := returnsAtEnd verified' (pruned.imp fun _ done => done.2)
  refine ⟨m', ran, verify_eq_ok_iff.mpr ⟨_, verified'⟩, ⟨effective, last⟩, ?_⟩
  intro context'
  exact pruneNode_obeys.sweep_settled verified'.held (settled_pruneRule pruned)
    (preorder_subset verified')

/-- After flattening there are no blocks in blocks, statements keep their order, and a second run
changes nothing. -/
theorem flattenBlocks_settles :
    Settles flattenBlocks descriptors m fun m' => m'.BlocksFlat ∧ m.Flattens m' := by
  intro context
  obtain ⟨m', ran, verified', agree⟩ := flattenBlocks_rebuilds verified context
  -- the sweep leaves every part of the tree rebuilt, also those that the result has detached
  obtain ⟨m'', swept, edited, held'⟩ :=
    sweep_reverse_ids flattenNode_obeys flattenRule_selects verified.held verified.nodup
  rw [← verified.preorder_eq_ids] at swept
  obtain rfl : m' = m'' := congrArg Extension.PassResult.module (ran.symm.trans swept)
  rw [List.flatMap_singleton] at edited
  have flat := flatten_flat t
  have flattened := flattens verified (held' t List.mem_cons_self) edited agree
  refine ⟨m', ran, verify_eq_ok_iff.mpr ⟨_, verified'⟩, ⟨blocksFlat verified' flat, flattened⟩, ?_⟩
  intro context'
  exact flattenNode_obeys.sweep_settled verified'.held (settled_flattenRule flat)
    (postorder_subset verified')

end Passes

/-- On every verified module each host pass reaches in one run what it is after, and a second run
changes no node.  Folding leaves no operation on constants that has a value, pruning no statement
without effect and none behind a return, and flattening no block in a block. -/
theorem hostPasses_settle {m : Module} {descriptors : Descriptor.Table}
    (verified : m.verify descriptors = .ok ()) :
    Settles foldConstants descriptors m OperationsFolded ∧
      Settles eliminateDeadCode descriptors m
        (fun m' => m'.StatementsEffective ∧ m'.ReturnsAtEnd) ∧
      Settles flattenBlocks descriptors m (fun m' => m'.BlocksFlat ∧ m.Flattens m') := by
  obtain ⟨t, verified⟩ := verify_eq_ok_iff.mp verified
  exact ⟨foldConstants_settles verified, eliminateDeadCode_settles verified,
    flattenBlocks_settles verified⟩

/-- A function with a call and an evaluation of a constant in two nested blocks, and a return of a sum
of a constant and a product behind them, in front of a statement that is not reached. -/
def nestedCall : Module :=
  (Outline.node (.module "main") none .unit [
    .node (.file "main") none .unit [
      .node (.function "f") (some 0) .int [
        .node .block none .unit [
          .node .block none .unit [
            .node .block none .unit [.node .eval none .unit [.node .call (some 0) .int []]],
            .node .eval none .unit [.node (.constant (.int 1)) none .int []]],
          .node .ret none .unit [
            .node (.binary .add) none .int [
              .node (.constant (.int 2)) none .int [],
              .node (.binary .mul) none .int [
                .node (.constant (.int 3)) none .int [],
                .node (.constant (.int 4)) none .int []]]],
          .node .eval none .unit [.node .call (some 0) .int []]]]]]).toModule

/-- A call in a block in a block, which all three passes leave in place. -/
theorem hostPasses_settle_nestedCall :
    let table : Descriptor.Table := ⟨#[{ name := "f", kind := .function, origin := .source 0 }]⟩
    nestedCall.verify table = .ok () ∧
      Settles foldConstants table nestedCall OperationsFolded ∧
      Settles eliminateDeadCode table nestedCall
        (fun m' => m'.StatementsEffective ∧ m'.ReturnsAtEnd) ∧
      Settles flattenBlocks table nestedCall
        (fun m' => m'.BlocksFlat ∧ nestedCall.Flattens m') := by
  intro table
  have accepted : nestedCall.verify table = .ok () := by rfl
  exact ⟨accepted, hostPasses_settle accepted⟩

end StagedCompiler.Lowering
