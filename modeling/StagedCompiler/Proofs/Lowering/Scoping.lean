import StagedCompiler.Proofs.Lowering.Idempotence

/-!
# Scopes in outlines

A module refers to locals by descriptor.  An outline is scoped if names would do: wherever a local is
used, the latest local of its name is that very local (`Visible`).  `ScopedFunction` says this of a
function whose statements stand in one block, which is how functions are built.

The host passes leave such functions scoped (`rebuild_scopedFunction`): what they drop is used
nowhere, and they never move a statement over a declaration.  So a verified module of scoped functions
goes through the whole native plan, and its functions are scoped behind it (`native_run`).
-/

namespace StagedCompiler.Module.Outline

/-- Names with the descriptors that they stand for, the latest first. -/
abbrev Names : Type := List (String × DescriptorId)

/-- A use of a local means the latest local of its name. -/
def Visible (D : Descriptor.Table) (scope : Names) : Outline → Prop
  | .node .localRef d _ _ =>
    ∃ i entry, d = some i ∧ D.get? i = some entry ∧ scope.lookup entry.name = some i
  | _ => True

/-- All uses of locals in expressions are visible. -/
def ScopedValues (D : Descriptor.Table) (scope : Names) (values : List Outline) : Prop :=
  ∀ e ∈ values, e.Everywhere (Visible D scope)

/-- Statements without blocks, in each of which the uses of locals are visible. -/
inductive ScopedStmts (D : Descriptor.Table) : Names → List Outline → Prop
  | nil {scope : Names} : ScopedStmts D scope []
  | letBind {scope : Names} {name : String} {i : DescriptorId} {entry : Descriptor} {ty : Ty}
      {values rest : List Outline} :
    D.get? i = some entry → ScopedValues D scope values →
    ScopedStmts D ((entry.name, i) :: scope) rest →
    ScopedStmts D scope (.node (.letBind name) (some i) ty values :: rest)
  | ret {scope : Names} {d : Option DescriptorId} {ty : Ty} {values rest : List Outline} :
    ScopedValues D scope values → ScopedStmts D scope rest →
    ScopedStmts D scope (.node .ret d ty values :: rest)
  | eval {scope : Names} {d : Option DescriptorId} {ty : Ty} {values rest : List Outline} :
    ScopedValues D scope values → ScopedStmts D scope rest →
    ScopedStmts D scope (.node .eval d ty values :: rest)

/-- A parameter with its descriptor. -/
inductive IsParam (D : Descriptor.Table) : Outline → String × DescriptorId → Prop
  | mk {name : String} {i : DescriptorId} {ty : Ty} {entry : Descriptor} : D.get? i = some entry →
    IsParam D (.node (.param name) (some i) ty []) (entry.name, i)

/-- A function whose statements are in one block and are scoped behind its parameters. -/
inductive ScopedFunction (D : Descriptor.Table) : Outline → Prop
  | mk {name : String} {d d' : Option DescriptorId} {ty ty' : Ty} {params stmts : List Outline}
      {scope : Names} :
    List.Forall₂ (IsParam D) params scope → ScopedStmts D scope.reverse stmts →
    ScopedFunction D (.node (.function name) d ty (params ++ [.node .block d' ty' stmts]))

end StagedCompiler.Module.Outline

namespace StagedCompiler.Lowering

open StagedCompiler.Module
open Outline (Names Visible ScopedValues ScopedStmts IsParam ScopedFunction)

variable {D : Descriptor.Table} {rule : Rule}

/-- A rule that leaves scopes alone: it turns nodes into constants at most, and changes no statements
but blocks. -/
structure Rule.Scopes (rule : Rule) : Prop where
  kinds : ∀ k cs, (rule k cs).1 = k ∨ ∃ c, (rule k cs).1 = .constant c
  stmts : ∀ k cs, k.isStatement = true → k ≠ .block → rule k cs = (k, cs)
  block : ∀ cs, (rule .block cs).1 = .block
  kept : ∀ {D scope cs}, ScopedStmts D scope (cs.map Numbered.outline) →
    ScopedStmts D scope ((rule .block cs).2.map Numbered.outline)

theorem visible_of_kind {scope : Names} {k k' : Kind} {d : Option DescriptorId} {ty : Ty}
    {cs cs' : List Outline} (kinds : k' = k ∨ ∃ c, k' = .constant c)
    (visible : Visible D scope (.node k d ty cs)) : Visible D scope (.node k' d ty cs') := by
  rcases kinds with rfl | ⟨c, rfl⟩
  · cases k' <;> exact visible
  · exact trivial

/-- Uses of locals stay visible. -/
theorem rebuild_visible (scopes : rule.Scopes) (selects : rule.Selects) {scope : Names}
    {t : Numbered} (visible : t.outline.Everywhere (Visible D scope)) :
    (t.rebuild rule).outline.Everywhere (Visible D scope) := by
  induction t with
  | node i k d ty cs ih =>
      rw [Numbered.outline_node, Outline.everywhere_node_iff, List.forall_mem_map] at visible
      rw [Numbered.rebuild_node, Numbered.outline_node, Outline.everywhere_node_iff,
        List.forall_mem_map]
      refine ⟨visible_of_kind (scopes.kinds k _) visible.1, fun s member => ?_⟩
      obtain ⟨c', inside, part⟩ := selects.parts k _ s member
      obtain ⟨c, among, rfl⟩ := List.mem_map.mp inside
      have whole := ih c among (visible.2 c among)
      rw [Numbered.everywhere_outline_iff] at whole ⊢
      exact fun u below => whole u (Numbered.subtrees_trans below part)

theorem rebuild_scopedValues (scopes : rule.Scopes) (selects : rule.Selects) {scope : Names}
    {values : List Numbered} (inScope : ScopedValues D scope (values.map Numbered.outline)) :
    ScopedValues D scope ((values.map (Numbered.rebuild rule)).map Numbered.outline) := by
  unfold ScopedValues at inScope ⊢
  rw [List.forall_mem_map] at inScope
  rw [List.forall_mem_map, List.forall_mem_map]
  exact fun e member => rebuild_visible scopes selects (inScope e member)

theorem rebuild_stmt (scopes : rule.Scopes) {i : NodeId} {k : Kind} {d : Option DescriptorId}
    {ty : Ty} {cs : List Numbered} (statement : k.isStatement = true) (other : k ≠ .block) :
    (Numbered.node i k d ty cs).rebuild rule =
      .node i k d ty (cs.map (Numbered.rebuild rule)) := by
  rw [Numbered.rebuild_node, scopes.stmts k _ statement other]

/-- Statements stay scoped when their values are rebuilt. -/
theorem rebuild_scopedStmts (scopes : rule.Scopes) (selects : rule.Selects) {cs : List Numbered}
    {scope : Names} (inScope : ScopedStmts D scope (cs.map Numbered.outline)) :
    ScopedStmts D scope ((cs.map (Numbered.rebuild rule)).map Numbered.outline) := by
  induction cs generalizing scope with
  | nil => exact .nil
  | cons c rest ih =>
      rcases c with ⟨i, k, d, ty, values⟩
      rw [List.map_cons, Numbered.outline_node] at inScope
      rw [List.map_cons, List.map_cons]
      cases inScope with
      | letBind entry visible later =>
          rw [rebuild_stmt scopes rfl (by simp), Numbered.outline_node]
          exact .letBind entry (rebuild_scopedValues scopes selects visible) (ih later)
      | ret visible later =>
          rw [rebuild_stmt scopes rfl (by simp), Numbered.outline_node]
          exact .ret (rebuild_scopedValues scopes selects visible) (ih later)
      | eval visible later =>
          rw [rebuild_stmt scopes rfl (by simp), Numbered.outline_node]
          exact .eval (rebuild_scopedValues scopes selects visible) (ih later)

theorem rebuild_params (faithful : rule.Faithful) {ps : List Numbered} {scope : Names}
    (params : List.Forall₂ (IsParam D) (ps.map Numbered.outline) scope) :
    List.Forall₂ (IsParam D) ((ps.map (Numbered.rebuild rule)).map Numbered.outline) scope := by
  rw [List.forall₂_map_left_iff] at params
  rw [List.forall₂_map_left_iff, List.forall₂_map_left_iff]
  refine params.imp fun p entry param => ?_
  rcases p with ⟨i, k, d, ty, cs⟩
  rw [Numbered.outline_node] at param
  generalize below : cs.map Numbered.outline = os at param
  cases param with
  | @mk name j ty entry found =>
      obtain rfl := List.map_eq_nil_iff.mp below
      rw [Numbered.rebuild_node, faithful.inert _ _ rfl rfl]
      exact .mk found

/-- The parts of a numbered function that is scoped. -/
theorem scopedFunction_parts {t : Numbered} (inScope : ScopedFunction D t.outline) :
    ∃ i name d ty ps j d' ty' ss scope,
      t = .node i (.function name) d ty (ps ++ [.node j .block d' ty' ss]) ∧
      List.Forall₂ (IsParam D) (ps.map Numbered.outline) scope ∧
      ScopedStmts D scope.reverse (ss.map Numbered.outline) := by
  rcases t with ⟨i, k, d, ty, cs⟩
  rw [Numbered.outline_node] at inScope
  generalize below : cs.map Numbered.outline = os at inScope
  cases inScope with
  | @mk name _ d' _ ty' params stmts scope isParam inScope =>
      obtain ⟨ps, bs, rfl, rfl, last⟩ := List.map_eq_append_iff.mp below
      obtain ⟨b, rfl, block⟩ := List.map_eq_singleton_iff.mp last
      rcases b with ⟨j, k, e, ty'', ss⟩
      rw [Numbered.outline_node, Outline.node.injEq] at block
      obtain ⟨rfl, rfl, rfl, rfl⟩ := block
      exact ⟨i, name, d, ty, ps, j, _, _, ss, scope, rfl, isParam, inScope⟩

/-- A rebuilt function has the rebuilt parameters and a block. -/
theorem outline_rebuild_function (scopes : rule.Scopes) (faithful : rule.Faithful) {i j : NodeId}
    {name : String} {d d' : Option DescriptorId} {ty ty' : Ty} {ps ss : List Numbered} :
    ((Numbered.node i (.function name) d ty (ps ++ [.node j .block d' ty' ss])).rebuild
        rule).outline =
      .node (.function name) d ty ((ps.map (Numbered.rebuild rule)).map Numbered.outline ++
        [.node .block d' ty'
          ((rule .block (ss.map (Numbered.rebuild rule))).2.map Numbered.outline)]) := by
  rw [faithful.rebuild_outer rfl, Numbered.outline_node, List.map_append, List.map_append,
    List.map_singleton, List.map_singleton, Numbered.rebuild_node, Numbered.outline_node,
    scopes.block]

/-- A function stays scoped. -/
theorem rebuild_scopedFunction (scopes : rule.Scopes) (faithful : rule.Faithful) {t : Numbered}
    (inScope : ScopedFunction D t.outline) : ScopedFunction D (t.rebuild rule).outline := by
  obtain ⟨i, name, d, ty, ps, j, d', ty', ss, scope, rfl, isParam, inScope⟩ :=
    scopedFunction_parts inScope
  rw [outline_rebuild_function scopes faithful]
  exact .mk (rebuild_params faithful isParam)
    (scopes.kept (rebuild_scopedStmts scopes faithful.toSelects inScope))

/-! ## The host rules -/

theorem foldRule_scopes : Rule.Scopes foldRule where
  kinds k cs := by
    cases stays : folded? k cs with
    | none => exact Or.inl (by rw [foldRule_of_none stays])
    | some value => exact Or.inr ⟨value, by rw [foldRule_of_some stays]⟩
  stmts k cs statement _ := by
    refine foldRule_of_none (folded?_eq_none fun op l r is => ?_)
    rw [is] at statement
    cases statement
  block cs := rfl
  kept inScope := inScope

/-- The statements that pruning keeps are scoped: of what it drops before a return nothing declares a
local. -/
theorem kept_scopedStmts {cs : List Numbered} {scope : Names}
    (inScope : ScopedStmts D scope (cs.map Numbered.outline)) :
    ScopedStmts D scope ((kept cs).map Numbered.outline) := by
  induction cs generalizing scope with
  | nil => exact .nil
  | cons c rest ih =>
      rcases c with ⟨i, k, d, ty, values⟩
      rw [List.map_cons, Numbered.outline_node] at inScope
      rw [kept]
      cases inScope with
      | letBind entry visible later =>
          rw [if_neg (by simp [isPure]), if_neg (by simp), List.map_cons, Numbered.outline_node]
          exact .letBind entry visible (ih later)
      | ret visible later =>
          rw [if_neg (by simp [isPure]), if_pos (by simp), List.map_singleton, Numbered.outline_node]
          exact .ret visible .nil
      | eval visible later =>
          split
          · exact ih later
          · rw [if_neg (by simp), List.map_cons, Numbered.outline_node]
            exact .eval visible (ih later)

theorem pruneRule_scopes : Rule.Scopes pruneRule where
  kinds k cs := by
    by_cases block : k = .block
    · rw [block, pruneRule_block]
      exact Or.inl rfl
    · rw [pruneRule_of_ne block]
      exact Or.inl rfl
  stmts k cs _ other := pruneRule_of_ne other cs
  block cs := rfl
  kept inScope := kept_scopedStmts inScope

/-- There are no blocks to splice among scoped statements. -/
theorem flatMap_spliced {cs : List Numbered} {scope : Names}
    (inScope : ScopedStmts D scope (cs.map Numbered.outline)) : cs.flatMap spliced = cs := by
  induction cs generalizing scope with
  | nil => rfl
  | cons c rest ih =>
      rcases c with ⟨i, k, d, ty, values⟩
      rw [List.map_cons, Numbered.outline_node] at inScope
      rw [List.flatMap_cons, spliced]
      cases inScope with
      | letBind _ _ later =>
          rw [if_neg (by simp), ih later]
          rfl
      | ret _ later =>
          rw [if_neg (by simp), ih later]
          rfl
      | eval _ later =>
          rw [if_neg (by simp), ih later]
          rfl

theorem flattenRule_scopes : Rule.Scopes flattenRule where
  kinds k cs := by
    by_cases block : k = .block
    · rw [block, flattenRule_block]
      exact Or.inl rfl
    · rw [flattenRule_of_ne block]
      exact Or.inl rfl
  stmts k cs _ other := flattenRule_of_ne other cs
  block cs := rfl
  kept inScope := by
    rw [flattenRule_block, flatMap_spliced inScope]
    exact inScope

/-! ## The native plan -/

/-- All functions of an outline are scoped. -/
def AllScoped (D : Descriptor.Table) (t : Numbered) : Prop :=
  ∀ f ∈ t.functions, ScopedFunction D f.outline

/-- A module that is verified and whose functions are scoped. -/
def Sound (D : Descriptor.Table) (m : Module) : Prop :=
  ∃ t, m.Verified D t ∧ AllScoped D t

/-- The functions of a lowered tree are the lowered functions. -/
theorem functions_hostRebuild {t : Numbered} (shaped : t.outline.WellShaped D) :
    (hostRebuild .native t).functions = t.functions.map (hostRebuild .native) := by
  have folded := (foldRule_faithful.rebuild shaped).1
  have pruned := (pruneRule_faithful.rebuild folded).1
  rw [hostRebuild, flattenRule_faithful.functions_rebuild pruned,
    pruneRule_faithful.functions_rebuild folded, foldRule_faithful.functions_rebuild shaped,
    List.map_map, List.map_map]
  rfl

theorem nodup_hostRebuild {t : Numbered} (nodup : t.ids.Nodup) :
    (hostRebuild .native t).ids.Nodup := by
  have folded := nodup.sublist (foldRule_selects.sublist_ids_rebuild t)
  have pruned := folded.sublist (pruneRule_selects.sublist_ids_rebuild _)
  exact pruned.sublist (flattenRule_selects.sublist_ids_rebuild _)

/-- The functions that the native plan leaves behind are the lowered functions with new numbers. -/
theorem functions_number_hostRebuild {t : Numbered} (shaped : t.outline.WellShaped D)
    (nodup : t.ids.Nodup) :
    ((hostRebuild .native t).outline.number 0).functions =
      t.functions.map fun f => (hostRebuild .native f).relabel (hostRebuild .native t).place := by
  rw [← Numbered.relabel_place (nodup_hostRebuild nodup), Numbered.functions_relabel,
    functions_hostRebuild shaped, List.map_map]
  rfl

/-- The host passes leave a function scoped. -/
theorem hostRebuild_scopedFunction {f : Numbered} (inScope : ScopedFunction D f.outline) :
    ScopedFunction D (hostRebuild .native f).outline := by
  have folded := rebuild_scopedFunction foldRule_scopes foldRule_faithful inScope
  have pruned := rebuild_scopedFunction pruneRule_scopes pruneRule_faithful folded
  exact rebuild_scopedFunction flattenRule_scopes flattenRule_faithful pruned

/-- All functions that the native plan leaves behind are scoped. -/
theorem hostRebuild_allScoped {t : Numbered} (shaped : t.outline.WellShaped D)
    (nodup : t.ids.Nodup) (all : AllScoped D t) :
    AllScoped D ((hostRebuild .native t).outline.number 0) := by
  intro f member
  rw [functions_number_hostRebuild shaped nodup] at member
  obtain ⟨g, among, rfl⟩ := List.mem_map.mp member
  rw [Numbered.outline_relabel]
  exact hostRebuild_scopedFunction (all g among)

/-- The native plan takes every sound module to a sound one. -/
theorem native_run {m : Module} (sound : Sound D m) :
    ∃ plan m', Plan.build .native Registry.host = .ok plan ∧ plan.run m D = (.ok (), m') ∧
      Sound D m' := by
  obtain ⟨t, verified, all⟩ := sound
  obtain ⟨ran, lowered⟩ := hostPlan_run verified .native
  exact ⟨_, _, build_host .native, ran, _, lowered,
    hostRebuild_allScoped verified.shaped verified.nodup all⟩

end StagedCompiler.Lowering
