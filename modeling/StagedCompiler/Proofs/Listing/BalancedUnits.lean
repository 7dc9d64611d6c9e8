import StagedCompiler.Proofs.Analysis.NotedUnits
import StagedCompiler.Proofs.Listing.Balance
import StagedCompiler.Proofs.Listing.Correctness

/-!
# Units whose code is balanced

The native plan keeps functions tidy (`hostRebuild_tidyFunction`): folding turns no call into something
else, pruning keeps a return at the end of a body that has one there, and there are no blocks to
flatten.  So of an accepted unit the code of every function that is tidy in the module of the unit is
balanced, and of the lowered functions exactly that of the tidy ones (`native_listing_balanced_iff`).

Acceptance does not ask for tidy functions.  The unit `storeOfNothing` is accepted, and its code stores
a value that no instruction has put on the stack.
-/

namespace StagedCompiler.Listing

open StagedCompiler.Module (Kind Outline Numbered)
open StagedCompiler.Module.Outline (ScopedStmts)

/-- The body of a function is tidy. -/
def TidyFunction (o : Outline) : Prop :=
  ∃ body, o.children.getLast? = some body ∧ Tidy o.ty body

/-- Scoped statements have no blocks among them. -/
theorem statementsAll_eq_self {D : Descriptor.Table} {scope : Outline.Names} {stmts : List Outline}
    (inScope : ScopedStmts D scope stmts) : statementsAll stmts = stmts := by
  induction inScope with
  | nil => rfl
  | letBind _ _ _ ih => exact congrArg (_ :: ·) ih
  | ret _ _ ih => exact congrArg (_ :: ·) ih
  | eval _ _ ih => exact congrArg (_ :: ·) ih

theorem tidy_block_iff {result ty : Ty} {d : Option DescriptorId} {D : Descriptor.Table}
    {scope : Outline.Names} {stmts : List Numbered}
    (inScope : ScopedStmts D scope (stmts.map Numbered.outline)) :
    Tidy result (.node .block d ty (stmts.map Numbered.outline)) ↔
      (∀ s ∈ stmts, StmtTidy result s.outline) ∧
        ((∃ last, stmts.getLast? = some last ∧ last.kind = .ret) ∨ result = .unit) := by
  have same : statements (.node .block d ty (stmts.map Numbered.outline)) =
      stmts.map Numbered.outline := by
    rw [statements, statementsAll_eq_self inScope]
  have ending : endsInReturnOf (.node .block d ty (stmts.map Numbered.outline)) = true ↔
      ∃ last, stmts.getLast? = some last ∧ last.kind = .ret := by
    rw [endsInReturnOf, Outline.children, List.getLast?_map]
    cases stmts.getLast? with
    | none => simp
    | some last => simp
  constructor
  · intro tidy
    refine ⟨?_, tidy.ending.imp_left ending.mp⟩
    have each := tidy.statements
    rwa [same, List.forall_mem_map] at each
  · intro given
    refine ⟨?_, given.2.imp_left ending.mpr⟩
    rw [same, List.forall_mem_map]
    exact given.1

end StagedCompiler.Listing

namespace StagedCompiler.Lowering

open StagedCompiler.Module
open Listing (leaves Filled StmtTidy Tidy TidyFunction operands_shaped tidy_block_iff)
open Outline (Names ScopedStmts ScopedFunction WellShaped)

variable {D : Descriptor.Table} {rule : Rule}

/-- A rule that keeps functions tidy: it turns no call into something else, and of the statements of a
body it keeps some, and a return at the end if there is one. -/
structure Rule.Tidies (rule : Rule) : Prop extends rule.Scopes where
  expressions : ∀ k cs, k.isExpression = true →
    rule k cs = (k, cs) ∨ k ≠ .call ∧ ∃ c, rule k cs = (.constant c, [])
  picks : ∀ {D scope cs}, ScopedStmts D scope (cs.map Numbered.outline) →
    (rule .block cs).2 ⊆ cs
  returns : ∀ {D scope cs}, ScopedStmts D scope (cs.map Numbered.outline) →
    (∃ last, cs.getLast? = some last ∧ last.kind = .ret) →
    ∃ last, (rule .block cs).2.getLast? = some last ∧ last.kind = .ret

namespace Rule.Tidies

/-- An expression leaves a value behind as before. -/
theorem rebuild_leaves (tidies : rule.Tidies) {t : Numbered}
    (expression : t.kind.isExpression = true) :
    leaves (t.rebuild rule).outline = leaves t.outline := by
  rcases t with ⟨i, k, d, ty, cs⟩
  rw [Numbered.rebuild_node, Numbered.outline_node, Numbered.outline_node]
  rcases tidies.expressions k (cs.map (Numbered.rebuild rule)) expression with
    same | ⟨other, c, folded⟩
  · rw [same]
    rfl
  · have plain : (k == Kind.call) = false := beq_eq_false_iff_ne.mpr other
    rw [folded]
    simp [leaves, Outline.kind, plain]

/-- An expression stays filled. -/
theorem rebuild_filled (tidies : rule.Tidies) {t : Numbered} (shaped : t.outline.WellShaped D)
    (expression : t.kind.isExpression = true) (filled : Filled t.outline) :
    Filled (t.rebuild rule).outline := by
  induction t with
  | node i k d ty cs ih =>
      rw [Numbered.outline_node] at shaped filled
      have operands := operands_shaped (.inl expression) shaped
      rw [List.forall_mem_map] at operands
      rw [Numbered.rebuild_node, Numbered.outline_node]
      rcases tidies.expressions k (cs.map (Numbered.rebuild rule)) expression with
        same | ⟨_, c, folded⟩
      · rw [same]
        cases filled with
        | node leave filled =>
            rw [List.forall_mem_map] at leave filled
            refine .node ?_ ?_
            · rw [List.forall_mem_map, List.forall_mem_map]
              intro c member
              have inner := (operands c member).2
              rw [Numbered.kind_outline] at inner
              rw [tidies.rebuild_leaves inner]
              exact leave c member
            · rw [List.forall_mem_map, List.forall_mem_map]
              intro c member
              obtain ⟨below, inner⟩ := operands c member
              rw [Numbered.kind_outline] at inner
              exact ih c member below inner (filled c member)
      · rw [folded]
        exact .node (by simp) (by simp)

/-- A statement stays tidy. -/
theorem rebuild_stmtTidy (tidies : rule.Tidies) {result : Ty} {t : Numbered}
    (shaped : t.outline.WellShaped D) (tidy : StmtTidy result t.outline) :
    StmtTidy result (t.rebuild rule).outline := by
  rcases t with ⟨i, k, d, ty, cs⟩
  rw [Numbered.outline_node] at shaped tidy
  -- The value of a statement is an expression, so it is rebuilt as one.
  have value : ∀ c ∈ cs, k.isStatement = true → k ≠ .block →
      leaves (c.rebuild rule).outline = leaves c.outline ∧
        (Filled c.outline → Filled (c.rebuild rule).outline) := by
    intro c member statement simple
    obtain ⟨below, inner⟩ := operands_shaped (.inr ⟨statement, simple⟩) shaped _
      (List.mem_map_of_mem member)
    rw [Numbered.kind_outline] at inner
    exact ⟨tidies.rebuild_leaves inner, tidies.rebuild_filled below inner⟩
  generalize parts : cs.map Numbered.outline = os at tidy
  cases tidy with
  | letBind filled leave =>
      obtain ⟨c, rfl, rfl⟩ := List.map_eq_singleton_iff.mp parts
      obtain ⟨same, keeps⟩ := value c List.mem_cons_self rfl (by simp)
      rw [rebuild_stmt tidies.toScopes rfl (by simp), Numbered.outline_node]
      exact .letBind (keeps filled) (same.trans leave)
  | eval filled leave =>
      obtain ⟨c, rfl, rfl⟩ := List.map_eq_singleton_iff.mp parts
      obtain ⟨same, keeps⟩ := value c List.mem_cons_self rfl (by simp)
      rw [rebuild_stmt tidies.toScopes rfl (by simp), Numbered.outline_node]
      exact .eval (keeps filled) (same ▸ leave)
  | leave unit =>
      obtain rfl := List.map_eq_nil_iff.mp parts
      rw [rebuild_stmt tidies.toScopes rfl (by simp), Numbered.outline_node]
      exact .leave unit
  | ret filled leave =>
      obtain ⟨c, rfl, rfl⟩ := List.map_eq_singleton_iff.mp parts
      obtain ⟨same, keeps⟩ := value c List.mem_cons_self rfl (by simp)
      rw [rebuild_stmt tidies.toScopes rfl (by simp), Numbered.outline_node]
      exact .ret (keeps filled) (same ▸ leave)

/-- The last of rebuilt statements is a return if the last statement is one. -/
theorem getLast?_rebuild (tidies : rule.Tidies) {cs : List Numbered}
    (returns : ∃ last, cs.getLast? = some last ∧ last.kind = .ret) :
    ∃ last, (cs.map (Numbered.rebuild rule)).getLast? = some last ∧ last.kind = .ret := by
  obtain ⟨⟨i, k, d, ty, values⟩, last, rfl⟩ := returns
  refine ⟨_, by rw [List.getLast?_map, last]; rfl, ?_⟩
  rw [rebuild_stmt tidies.toScopes rfl (by simp)]
  rfl

/-- A function stays tidy. -/
theorem rebuild_tidyFunction (tidies : rule.Tidies) (faithful : rule.Faithful) {t : Numbered}
    (shaped : t.outline.WellShaped D) (inScope : ScopedFunction D t.outline)
    (tidy : TidyFunction t.outline) : TidyFunction (t.rebuild rule).outline := by
  obtain ⟨i, name, d, ty, ps, j, d', ty', ss, scope, rfl, _, inScope⟩ :=
    scopedFunction_parts inScope
  have stmtsShaped : ∀ s ∈ ss, s.outline.WellShaped D := fun s member =>
    (Numbered.wellShaped_node_iff.mp ((Numbered.wellShaped_node_iff.mp shaped).2.2 _
      (List.mem_append_right _ List.mem_cons_self))).2.2 s member
  obtain ⟨body, found, tidy⟩ := tidy
  rw [Numbered.outline_node, List.map_append, List.map_singleton, Outline.children,
    List.getLast?_concat, Option.some.injEq, Numbered.outline_node] at found
  subst found
  rw [Numbered.outline_node] at tidy
  obtain ⟨each, ending⟩ := (tidy_block_iff inScope).mp tidy
  have rebuilt := rebuild_scopedStmts tidies.toScopes faithful.toSelects inScope
  rw [outline_rebuild_function tidies.toScopes faithful]
  refine ⟨_, List.getLast?_concat, (tidy_block_iff (tidies.kept rebuilt)).mpr ⟨?_, ?_⟩⟩
  · intro s member
    obtain ⟨c, among, rfl⟩ := List.mem_map.mp (tidies.picks rebuilt member)
    exact tidies.rebuild_stmtTidy (stmtsShaped c among) (each c among)
  · exact ending.imp_left fun returns =>
      tidies.returns rebuilt (tidies.getLast?_rebuild returns)

end Rule.Tidies

/-! ## The host rules -/

theorem foldRule_tidies : Rule.Tidies foldRule where
  toScopes := foldRule_scopes
  expressions k cs _ := by
    cases folds : folded? k cs with
    | none => exact .inl (foldRule_of_none folds)
    | some value =>
        obtain ⟨op, l, r, a, b, rfl, _⟩ := folded?_eq_some folds
        exact .inr ⟨by simp, value, foldRule_of_some folds⟩
  picks _ := List.Subset.refl _
  returns _ last := last

theorem getLast?_kept {cs : List Numbered}
    (returns : ∃ last, cs.getLast? = some last ∧ last.kind = .ret) :
    ∃ last, (kept cs).getLast? = some last ∧ last.kind = .ret := by
  obtain ⟨last, found, isReturn⟩ := returns
  induction cs with
  | nil => cases found
  | cons c rest ih =>
      cases rest with
      | nil =>
          obtain rfl := Option.some.inj found
          rcases c with ⟨i, k, d, ty, values⟩
          obtain rfl : k = .ret := isReturn
          exact ⟨_, rfl, rfl⟩
      | cons next later =>
          rw [List.getLast?_cons_cons] at found
          obtain ⟨last', found', isReturn'⟩ := ih found
          rw [kept]
          split
          · exact ⟨last', found', isReturn'⟩
          · split
            · next is => exact ⟨c, rfl, beq_iff_eq.mp is⟩
            · refine ⟨last', ?_, isReturn'⟩
              rw [List.getLast?_cons, found', Option.getD_some]

theorem pruneRule_tidies : Rule.Tidies pruneRule where
  toScopes := pruneRule_scopes
  expressions k cs expression := by
    refine .inl (pruneRule_of_ne (fun block => ?_) cs)
    rw [block] at expression
    cases expression
  picks _ := (kept_sublist _).subset
  returns _ last := getLast?_kept last

theorem flattenRule_tidies : Rule.Tidies flattenRule where
  toScopes := flattenRule_scopes
  expressions k cs expression := by
    refine .inl (flattenRule_of_ne (fun block => ?_) cs)
    rw [block] at expression
    cases expression
  picks inScope := by
    rw [flattenRule_block, flatMap_spliced inScope]
    exact List.Subset.refl _
  returns inScope last := by
    rw [flattenRule_block, flatMap_spliced inScope]
    exact last

/-- The native plan keeps functions tidy. -/
theorem hostRebuild_tidyFunction {f : Numbered} (shaped : f.outline.WellShaped D)
    (inScope : ScopedFunction D f.outline) (tidy : TidyFunction f.outline) :
    TidyFunction (hostRebuild .native f).outline := by
  have folded := foldRule_tidies.rebuild_tidyFunction foldRule_faithful shaped inScope tidy
  have foldedScope := rebuild_scopedFunction foldRule_scopes foldRule_faithful inScope
  have foldedShape := (foldRule_faithful.rebuild shaped).1
  have pruned := pruneRule_tidies.rebuild_tidyFunction pruneRule_faithful foldedShape foldedScope
    folded
  exact flattenRule_tidies.rebuild_tidyFunction flattenRule_faithful
    (pruneRule_faithful.rebuild foldedShape).1
    (rebuild_scopedFunction pruneRule_scopes pruneRule_faithful foldedScope) pruned

end StagedCompiler.Lowering

namespace StagedCompiler.Listing

open Analysis (accept? accept?_eq_some)
open StagedCompiler.Module (Outline Numbered)

variable {m : Module} {D : Descriptor.Table}

/-! ## Accepted units -/

/-- The code of a function of a listing is that of a body in a module, and the function of the module
has a result type. -/
structure Emits (m : Module) (D : Descriptor.Table) (f : NodeId) (g : Function) (result : Ty)
    (body : Outline) : Prop where
  outline : ∃ d parts, m.outline? f = some (.node (.function g.name) d result parts) ∧
    parts.getLast? = some body
  code : (bodyLines D result body).map Line.instruction = g.code

/-- The code of a function of a listing is balanced exactly if the function of the module is tidy. -/
def BalancedIffTidy (m : Module) (D : Descriptor.Table) (f : NodeId) (g : Function) : Prop :=
  ∃ result body, Emits m D f g result body ∧ (Balanced D result body ↔ Tidy result body)

/-- A function of a module is tidy. -/
def TidyAt (m : Module) (f : NodeId) : Prop := ∃ o, m.outline? f = some o ∧ TidyFunction o

/-- The functions of a verified module have the outlines that they have in its tree. -/
theorem outline?_function {t f : Numbered} (verified : m.Verified D t) (listed : f ∈ t.functions) :
    m.outline? f.id = some f.outline := by
  have part := (Numbered.mem_functions.mp listed).1
  exact (verified.held.subtree part).outline?_eq
    (Numbered.nodup_ids_of_mem_subtrees part verified.nodup)

theorem tidyAt_iff {t f : Numbered} (verified : m.Verified D t) (listed : f ∈ t.functions) :
    TidyAt m f.id ↔ TidyFunction f.outline := by
  rw [TidyAt, outline?_function verified listed]
  simp

/-- A function of a module is listed with the code of its body, which is balanced exactly if the body is
tidy. -/
theorem function_balanced_iff {t f : Numbered} (verified : m.Verified D t)
    (listed : f ∈ t.functions) :
    ∃ g, (itemListingOf D f.outline).function? = some g ∧ BalancedIffTidy m D f.id g := by
  have outlined := outline?_function verified listed
  obtain ⟨part, isFunction⟩ := Numbered.mem_functions.mp listed
  have shaped := verified.shaped.subtree part
  rcases f with ⟨i, k, d, ty, cs⟩
  cases k with
  | function name =>
      rw [Numbered.outline_node] at outlined shaped ⊢
      generalize cs.map Numbered.outline = parts at outlined shaped ⊢
      cases shaped with
      | node _ fits below =>
          obtain ⟨params, kinds, _⟩ := fits
          obtain ⟨front, back, rfl, _, last⟩ := List.map_eq_append_iff.mp kinds
          obtain ⟨body, rfl, block⟩ := List.map_eq_singleton_iff.mp last
          have shaped := below body (List.mem_append_right _ List.mem_cons_self)
          refine ⟨⟨name, (front.map (memberListingOf D)).map (·.name), bodyCodeOf D body⟩, ?_, ty,
            body, ⟨⟨d, _, outlined, List.getLast?_concat⟩, bodyLines_code ty body⟩,
            balanced_iff shaped block⟩
          rw [itemListingOf, Item.function?, List.dropLast_concat, List.getLast?_concat]
          rfl
  | _ => cases isFunction

/-- A unit that the host alone accepts has a native listing.  The code of a function in it is balanced
exactly if the lowered function is tidy, for which it is enough that the function is tidy in the module
of the unit. -/
theorem native_listing_balanced_iff {draft : Source.Draft} {unit : String} {tree : Tree}
    {log : Diagnostic.Log} {analysis : Analysis} (assembled : draft.assemble unit = .ok tree)
    (accepted : (analyze tree Registry.host log).outcome = .ok (.accepted analysis)) :
    ∃ plan built m listing origins functions,
      Lowering.Plan.build .native Registry.host = .ok plan ∧
      Module.ofTree tree analysis.bindings analysis.descriptors = .ok built ∧
      plan.run built analysis.descriptors = (.ok (), m) ∧
      ofModule m analysis.descriptors = .ok listing ∧
      built.functions = .ok origins ∧ m.functions = .ok functions ∧
      List.Forall₂ (BalancedIffTidy m analysis.descriptors) functions listing.functions ∧
      List.Forall₂ (fun f f' => TidyAt built f → TidyAt m f') origins functions := by
  have numbers := Source.assemble_numbers assembled
  obtain ⟨silent, rfl⟩ := Analysis.accepted_run accepted
  obtain ⟨built, constructed, t, verified, all⟩ := Module.ofTree_sound numbers silent
  obtain ⟨ran, lowered⟩ := Lowering.hostPlan_run verified .native
  obtain ⟨listing, functions, listed, among, balanced⟩ :=
    forall₂_functions lowered fun _ member => function_balanced_iff lowered member
  refine ⟨_, built, _, listing, _, functions, Lowering.build_host .native, constructed, ran, listed,
    verified.held.functions_eq verified.root verified.nodup, among, balanced, ?_⟩
  have same := lowered.held.functions_eq lowered.root lowered.nodup
  obtain rfl := Except.ok.inj (among.symm.trans same)
  have renumbered := Lowering.functions_number_hostRebuild verified.shaped verified.nodup
  rw [renumbered, List.map_map, List.forall₂_map_left_iff, List.forall₂_map_right_iff,
    List.forall₂_same]
  intro f member tidy
  have member' := renumbered ▸ List.mem_map_of_mem member
  rw [Function.comp_apply, tidyAt_iff lowered member', Numbered.outline_relabel]
  exact Lowering.hostRebuild_tidyFunction
    (verified.shaped.subtree (Numbered.mem_functions.mp member).1) (all f member)
    ((tidyAt_iff verified member).mp tidy)

theorem native_listing_balanced_iff_divideByNext : ∃ tree analysis,
    divideByNext.assemble "unit" = .ok tree ∧
    (analyze tree Registry.host .empty).outcome = .ok (.accepted analysis) ∧
    ∃ plan built m listing origins functions,
      Lowering.Plan.build .native Registry.host = .ok plan ∧
      Module.ofTree tree analysis.bindings analysis.descriptors = .ok built ∧
      plan.run built analysis.descriptors = (.ok (), m) ∧
      ofModule m analysis.descriptors = .ok listing ∧
      built.functions = .ok origins ∧ m.functions = .ok functions ∧
      List.Forall₂ (BalancedIffTidy m analysis.descriptors) functions listing.functions ∧
      List.Forall₂ (fun f f' => TidyAt built f → TidyAt m f') origins functions := by
  have assembled : divideByNext.assemble "unit" = .ok _ := rfl
  have numbers := Source.assemble_numbers assembled
  have silent := Resolution.run_silent_iff.mpr (divideByNext_wellFormed assembled)
  have accepted := (Analysis.accepted_iff numbers).mpr ⟨silent, rfl⟩
  exact ⟨_, _, assembled, accepted, native_listing_balanced_iff assembled accepted⟩

/-- `quiet()` binds the value of a call that has none. -/
def storeOfNothing : Source.Draft where
  items := [.function () "quiet" [] [] none
    [.letBind () "x" none (.call () "print" [.str () "a"])]]

/-- Whether the only function of a unit has the given native code and this takes a value from an empty
stack. -/
def underflows (d : Source.Draft) (unit : String) (code : List Instruction) : Bool :=
  match accept? Registry.host d unit with
  | none => false
  | some (tree, analysis) =>
    match Module.ofTree tree analysis.bindings analysis.descriptors with
    | .error _ => false
    | .ok built =>
      match (Lowering.hostPlan .native).run built analysis.descriptors with
      | (.error _, _) => false
      | (.ok (), m) =>
        match ofModule m analysis.descriptors, m.functions with
        | .ok listing, .ok [f] =>
          match listing.functions, m.outline? f with
          | [g], some (.node (.function name) _ result [body]) =>
            decide (name = g.name ∧ g.code = code ∧
              (bodyLines analysis.descriptors result body).map Line.instruction = g.code ∧
              depthBehind (bodyLines analysis.descriptors result body) 0 = none)
          | _, _ => false
        | _, _ => false

/-- The unit is accepted, and its code stores a value that is not on the stack: the call before the
store has type unit. -/
theorem storeOfNothing_unbalanced : ∃ tree analysis plan built m listing f g result body,
    storeOfNothing.assemble "unit" = .ok tree ∧
    (analyze tree Registry.host .empty).outcome = .ok (.accepted analysis) ∧
    Lowering.Plan.build .native Registry.host = .ok plan ∧
    Module.ofTree tree analysis.bindings analysis.descriptors = .ok built ∧
    plan.run built analysis.descriptors = (.ok (), m) ∧
    ofModule m analysis.descriptors = .ok listing ∧
    m.functions = .ok [f] ∧ listing.functions = [g] ∧
    g.code = [.push (.str "a"), .call "print" 1, .store "x", .ret] ∧
    Emits m analysis.descriptors f g result body ∧ ¬ Balanced analysis.descriptors result body := by
  have ran : underflows storeOfNothing "unit"
      [.push (.str "a"), .call "print" 1, .store "x", .ret] = true := by
    decide +kernel
  unfold underflows at ran
  split at ran <;> try cases ran
  rename_i tree analysis accepted
  obtain ⟨assembled, accepted⟩ := accept?_eq_some accepted
  split at ran <;> try cases ran
  rename_i built constructed
  split at ran <;> try cases ran
  rename_i m lowered
  split at ran <;> try cases ran
  rename_i listing f listed functions
  split at ran <;> try cases ran
  rename_i g name d result body among outlined
  obtain ⟨rfl, code, lines, empty⟩ := of_decide_eq_true ran
  refine ⟨tree, analysis, _, built, m, listing, f, g, result, body, assembled, accepted,
    Lowering.build_host .native, constructed, lowered, listed, functions, among, code,
    ⟨⟨d, [body], outlined, rfl⟩, lines⟩, fun balanced => ?_⟩
  rw [Balanced, empty] at balanced
  cases balanced.2

end StagedCompiler.Listing
