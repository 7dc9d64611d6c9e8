import StagedCompiler.Proofs.Lowering.HostRules
import StagedCompiler.Proofs.Module.Equivalence
import StagedCompiler.Proofs.Module.Shape

/-!
# Rules that keep shape and meaning

A rule is `Faithful` if applying it at one node of a well-shaped tree keeps the shape and the meaning
of that node.  Both then carry over to the whole tree (`Faithful.rebuild`): the kinds of the children
change only from one expression to another, which no parent minds, and a node keeps its meaning if
what is below it does.  The three host rules are faithful.
-/

namespace StagedCompiler.Lowering

open StagedCompiler.Module
open Outline (DescriptorFits ChildrenFit WellShaped Alike)

/-- A rule that keeps the shape and the meaning of every well-shaped node. -/
structure Rule.Faithful (rule : Rule) : Prop extends rule.Selects where
  inert : ∀ k cs, k.isStatement = false → k.isExpression = false → rule k cs = (k, cs)
  standsFor : ∀ k cs, Kind.StandsFor k (rule k cs).1
  fits : ∀ {descriptors i k d ty cs},
    (Numbered.node i k d ty cs).outline.WellShaped descriptors →
    DescriptorFits descriptors (rule k cs).1 d ∧
      ChildrenFit (rule k cs).1 ((rule k cs).2.map Numbered.kind)
  alike : ∀ {descriptors i k d ty cs},
    (Numbered.node i k d ty cs).outline.WellShaped descriptors →
    Alike (Numbered.node i k d ty cs).outline
      (Numbered.node i (rule k cs).1 d ty (rule k cs).2).outline

namespace Rule.Faithful

variable {rule : Rule}

theorem kind_rebuild (faithful : rule.Faithful) (t : Numbered) :
    Kind.StandsFor t.kind (t.rebuild rule).kind := by
  cases t with
  | node i k d ty cs =>
      rw [Numbered.rebuild_node]
      exact faithful.standsFor k _

/-- A faithful rule keeps the shape and the meaning of a whole tree. -/
theorem rebuild (faithful : rule.Faithful) {descriptors : Descriptor.Table} {t : Numbered}
    (shaped : t.outline.WellShaped descriptors) :
    (t.rebuild rule).outline.WellShaped descriptors ∧
      Alike t.outline (t.rebuild rule).outline := by
  induction t with
  | node i k d ty cs ih =>
      obtain ⟨described, fits, below⟩ := Numbered.wellShaped_node_iff.mp shaped
      have kinds : List.Forall₂ Kind.StandsFor (cs.map Numbered.kind)
          ((cs.map (Numbered.rebuild rule)).map Numbered.kind) := by
        rw [List.map_map, List.forall₂_map_left_iff, List.forall₂_map_right_iff,
          List.forall₂_same]
        exact fun c _ => faithful.kind_rebuild c
      have middle : (Numbered.node i k d ty (cs.map (Numbered.rebuild rule))).outline.WellShaped
          descriptors := by
        refine Numbered.wellShaped_node_iff.mpr ⟨described, fits.of_standsFor kinds, ?_⟩
        intro c member
        obtain ⟨b, inside, rfl⟩ := List.mem_map.mp member
        exact (ih b inside (below b inside)).1
      have same : Alike (Numbered.node i k d ty cs).outline
          (Numbered.node i k d ty (cs.map (Numbered.rebuild rule))).outline := by
        rw [Numbered.outline_node, Numbered.outline_node]
        apply Alike.node
        rw [List.map_map, List.forall₂_map_left_iff, List.forall₂_map_right_iff,
          List.forall₂_same]
        exact fun c member => (ih c member (below c member)).2
      rw [Numbered.rebuild_node]
      refine ⟨Numbered.wellShaped_node_iff.mpr
        ⟨(faithful.fits middle).1, (faithful.fits middle).2, ?_⟩, same.trans (faithful.alike middle)⟩
      intro c member
      obtain ⟨b, inside, part⟩ := faithful.parts _ _ c member
      exact ((Numbered.wellShaped_node_iff.mp middle).2.2 b inside).subtree part

end Rule.Faithful

/-! ## Folding -/

/-- A number that fits into a word is computed exactly. -/
theorem exactly_of_word? {n : Int} {w : Int64} (fits : word? n = some w) :
    exactly n = .ok (.int w) := by
  unfold word? at fits
  split at fits
  · rename_i range
    obtain rfl := Option.some.inj fits
    have least : Int64.minValue.toInt = -9223372036854775808 := by decide
    have greatest : Int64.maxValue.toInt = 9223372036854775807 := by decide
    rw [least, greatest] at range
    rw [exactly, if_pos range]
  · cases fits

/-- An operation on integers that is computed at compile time has that result at run time. -/
theorem apply_of_evaluate? {op : Operator} {a b : Int64} {value : Constant}
    (computed : op.evaluate? a b = some value) :
    op.apply (.constant (.int a)) (.constant (.int b)) = .ok (.constant value) := by
  cases op with
  | add | sub | mul =>
      obtain ⟨w, fits, rfl⟩ := Option.map_eq_some_iff.mp computed
      exact exactly_of_word? fits
  | div =>
      simp only [Operator.evaluate?] at computed
      split at computed
      · cases computed
      · rename_i nonzero
        obtain ⟨w, fits, rfl⟩ := Option.map_eq_some_iff.mp computed
        simp only [Operator.apply, if_neg nonzero]
        exact exactly_of_word? fits
  | lt =>
      obtain rfl := Option.some.inj computed
      rfl
  | eq =>
      obtain rfl := Option.some.inj computed
      simp [Operator.apply, Datum.bool, Bool.beq_eq_decide_eq]

/-- What is computed at compile time is what is computed at run time. -/
theorem apply_of_fold? {op : Operator} {a b value : Constant} (folded : fold? op a b = some value) :
    op.apply (.constant a) (.constant b) = .ok (.constant value) := by
  unfold fold? at folded
  split at folded
  · rename_i eq
    subst eq
    obtain rfl := Option.some.inj folded
    have same : decide (a = b) = (a == b) := by
      rw [Bool.eq_iff_iff, decide_eq_true_iff, beq_iff_eq]
    simp [Operator.apply, Datum.bool, same]
  · split at folded
    · exact apply_of_evaluate? folded
    · cases folded

/-- What is folded is an operation on two constants. -/
theorem folded?_eq_some {k : Kind} {cs : List Numbered} {value : Constant}
    (folded : folded? k cs = some value) :
    ∃ op l r a b, k = .binary op ∧ cs = [l, r] ∧ l.kind = .constant a ∧ r.kind = .constant b ∧
      fold? op a b = some value := by
  have constant : ∀ (t : Numbered) (c : Constant), constant? t.top = some c → t.kind = .constant c := by
    intro t c found
    rcases t with ⟨i, k, d, ty, cs⟩
    cases k with
    | constant value =>
        obtain rfl := Option.some.inj found
        rfl
    | _ => cases found
  unfold folded? at folded
  split at folded
  · rename_i op l r
    obtain ⟨a, left, folded⟩ := Option.bind_eq_some_iff.mp folded
    obtain ⟨b, right, folded⟩ := Option.bind_eq_some_iff.mp folded
    exact ⟨op, l, r, a, b, rfl, rfl, constant l a left, constant r b right, folded⟩
  · cases folded

theorem evaluate_constant {t : Numbered} {c : Constant} (kind : t.kind = .constant c)
    (oracle : Oracle) (env : Env) : t.outline.evaluate oracle env = pure (.constant c) := by
  rcases t with ⟨i, k, d, ty, cs⟩
  obtain rfl : k = .constant c := kind
  rw [Numbered.outline_node]
  rfl

/-- A folded operation gives the value that it would have given, and what would overflow is not folded.
-/
theorem foldRule_faithful : Rule.Faithful foldRule where
  toSelects := foldRule_selects
  inert k cs _ expression := by
    refine foldRule_of_none (folded?_eq_none ?_)
    intro op l r same
    subst same
    cases expression
  standsFor k cs := by
    cases folded : folded? k cs with
    | none => exact Or.inl (by rw [foldRule_of_none folded])
    | some value =>
        obtain ⟨op, l, r, a, b, rfl, rfl, _⟩ := folded?_eq_some folded
        exact Or.inr ⟨rfl, by rw [foldRule_of_some folded]; rfl⟩
  fits {descriptors i k d ty cs} shaped := by
    cases folded : folded? k cs with
    | none =>
        rw [foldRule_of_none folded]
        exact ⟨(Numbered.wellShaped_node_iff.mp shaped).1, (Numbered.wellShaped_node_iff.mp shaped).2.1⟩
    | some value =>
        rw [foldRule_of_some folded]
        exact ⟨fun needed => (by cases needed), rfl⟩
  alike {descriptors i k d ty cs} shaped := by
    cases folded : folded? k cs with
    | none =>
        rw [foldRule_of_none folded]
        exact Alike.refl _
    | some value =>
        obtain ⟨op, l, r, a, b, rfl, rfl, left, right, result⟩ := folded?_eq_some folded
        rw [foldRule_of_some folded, Numbered.outline_node, Numbered.outline_node]
        refine ⟨fun oracle env => ?_, fun oracle env => rfl, fun oracle env => rfl⟩
        simp only [List.map_cons, List.map_nil, Outline.evaluate, evaluate_constant left,
          evaluate_constant right, pure_bind, apply_of_fold? result]
        rfl

/-! ## Pruning -/

/-- A pure evaluation does nothing. -/
theorem execute_of_isPure {descriptors : Descriptor.Table} {s : Numbered} (is : isPure s = true)
    (shaped : s.outline.WellShaped descriptors) (oracle : Oracle) (env : Env) :
    s.outline.execute oracle env = pure (.next env) := by
  rcases s with ⟨i, k, d, ty, cs⟩
  obtain ⟨_, fits, below⟩ := Numbered.wellShaped_node_iff.mp shaped
  unfold isPure at is
  split at is
  · rename_i e rest kind children
    obtain rfl : k = .eval := kind
    obtain rfl : cs = e :: rest := children
    have single : rest = [] := by simpa using fits.1
    subst single
    have value : ∃ v, e.outline.evaluate oracle env = pure v := by
      rcases e with ⟨j, k', d', ty', cs'⟩
      obtain ⟨described, _⟩ := Numbered.wellShaped_node_iff.mp (below _ List.mem_cons_self)
      rw [Numbered.outline_node]
      cases k' with
      | constant c => exact ⟨_, rfl⟩
      | localRef =>
          obtain ⟨target, rfl, _⟩ := described rfl
          exact ⟨_, rfl⟩
      | _ => cases is
    obtain ⟨v, value⟩ := value
    rw [Numbered.outline_node]
    simp only [List.map_cons, List.map_nil, Outline.execute, value, pure_bind]
  · cases is

/-- Nothing runs behind a return. -/
theorem executeAll_of_ret {descriptors : Descriptor.Table} {s : Numbered} (is : s.kind = .ret)
    (shaped : s.outline.WellShaped descriptors) (oracle : Oracle) (env : Env)
    (rest : List Outline) :
    Outline.executeAll oracle env (s.outline :: rest) =
      Outline.executeAll oracle env [s.outline] := by
  rcases s with ⟨i, k, d, ty, cs⟩
  obtain rfl : k = .ret := is
  obtain ⟨_, fits, _⟩ := Numbered.wellShaped_node_iff.mp shaped
  rw [Numbered.outline_node]
  match cs, fits.1 with
  | [], _ => rfl
  | [e], _ => simp [Outline.executeAll, Outline.execute]

/-- What is not kept of a block has no effect or is never reached. -/
theorem executeAll_kept {descriptors : Descriptor.Table} {cs : List Numbered}
    (shaped : ∀ c ∈ cs, c.outline.WellShaped descriptors) (oracle : Oracle) (env : Env) :
    Outline.executeAll oracle env (cs.map Numbered.outline) =
      Outline.executeAll oracle env ((kept cs).map Numbered.outline) := by
  induction cs generalizing env with
  | nil => rfl
  | cons s rest ih =>
      have first := shaped s List.mem_cons_self
      have more := fun env => ih (fun c member => shaped c (List.mem_cons_of_mem _ member)) env
      rw [kept, List.map_cons]
      split
      · rename_i is
        rw [Outline.executeAll, execute_of_isPure is first, pure_bind]
        exact more env
      · split
        · rename_i is
          rw [executeAll_of_ret (by simpa using is) first, List.map_singleton]
        · rw [List.map_cons, Outline.executeAll, Outline.executeAll]
          congr 1
          funext flow
          cases flow with
          | next env => exact more env
          | returned v => rfl

/-- A block without its dead code does what it did. -/
theorem pruneRule_faithful : Rule.Faithful pruneRule where
  toSelects := pruneRule_selects
  inert k cs statement _ := by
    apply pruneRule_of_ne
    intro same
    subst same
    cases statement
  standsFor k cs := by
    by_cases block : k = .block
    · subst block
      exact Or.inl rfl
    · exact Or.inl (by rw [pruneRule_of_ne block])
  fits {descriptors i k d ty cs} shaped := by
    obtain ⟨described, fits, _⟩ := Numbered.wellShaped_node_iff.mp shaped
    by_cases block : k = .block
    · subst block
      refine ⟨described, fun k member => fits k ?_⟩
      exact ((kept_sublist cs).map Numbered.kind).subset member
    · rw [pruneRule_of_ne block]
      exact ⟨described, fits⟩
  alike {descriptors i k d ty cs} shaped := by
    by_cases block : k = .block
    · subst block
      rw [pruneRule_block, Numbered.outline_node, Numbered.outline_node]
      exact ⟨fun _ _ => rfl,
        executeAll_kept (Numbered.wellShaped_node_iff.mp shaped).2.2, fun _ _ => rfl⟩
    · rw [pruneRule_of_ne block]
      exact Alike.refl _

/-! ## Flattening -/

/-- What runs behind a statement, given how control left it. -/
theorem executeAll_append (oracle : Oracle) (env : Env) (xs ys : List Outline) :
    Outline.executeAll oracle env (xs ++ ys) = (do
      match ← Outline.executeAll oracle env xs with
      | .next env => Outline.executeAll oracle env ys
      | .returned v => pure (.returned v)) := by
  induction xs generalizing env with
  | nil => simp [Outline.executeAll]
  | cons x xs ih =>
      rw [List.cons_append, Outline.executeAll, Outline.executeAll, bind_assoc]
      congr 1
      funext flow
      cases flow with
      | next env => exact ih env
      | returned v => simp

/-- A block in a block does what its statements do. -/
theorem executeAll_spliced (oracle : Oracle) (env : Env) (s : Numbered) :
    Outline.executeAll oracle env ((spliced s).map Numbered.outline) =
      Outline.executeAll oracle env [s.outline] := by
  have single : ∀ o : Outline, Outline.executeAll oracle env [o] = o.execute oracle env := by
    intro o
    rw [Outline.executeAll]
    conv_rhs => rw [← bind_pure (o.execute oracle env)]
    congr 1
    funext flow
    cases flow <;> rfl
  unfold spliced
  split
  · rename_i block
    rcases s with ⟨i, k, d, ty, cs⟩
    obtain rfl : k = .block := by simpa using block
    rw [single, Numbered.outline_node]
    rfl
  · rfl

theorem executeAll_flatMap_spliced (oracle : Oracle) (env : Env) (cs : List Numbered) :
    Outline.executeAll oracle env (cs.map Numbered.outline) =
      Outline.executeAll oracle env ((cs.flatMap spliced).map Numbered.outline) := by
  induction cs generalizing env with
  | nil => rfl
  | cons s rest ih =>
      rw [List.flatMap_cons, List.map_append, List.map_cons, ← List.singleton_append,
        executeAll_append, executeAll_append, executeAll_spliced]
      congr 1
      funext flow
      cases flow with
      | next env => exact ih env
      | returned v => rfl

/-- A flattened block does what it did. -/
theorem flattenRule_faithful : Rule.Faithful flattenRule where
  toSelects := flattenRule_selects
  inert k cs statement _ := by
    apply flattenRule_of_ne
    intro same
    subst same
    cases statement
  standsFor k cs := by
    by_cases block : k = .block
    · subst block
      exact Or.inl rfl
    · exact Or.inl (by rw [flattenRule_of_ne block])
  fits {descriptors i k d ty cs} shaped := by
    obtain ⟨described, fits, below⟩ := Numbered.wellShaped_node_iff.mp shaped
    by_cases block : k = .block
    · subst block
      refine ⟨described, fun k member => ?_⟩
      obtain ⟨t, inside, rfl⟩ := List.mem_map.mp member
      obtain ⟨c, among, part⟩ := List.mem_flatMap.mp inside
      unfold spliced at part
      split at part
      · rename_i nested
        rcases c with ⟨j, k', d', ty', cs'⟩
        obtain rfl : k' = .block := by simpa using nested
        exact (Numbered.wellShaped_node_iff.mp (below _ among)).2.1 _ (List.mem_map_of_mem part)
      · rw [List.mem_singleton.mp part]
        exact fits _ (List.mem_map_of_mem among)
    · rw [flattenRule_of_ne block]
      exact ⟨described, fits⟩
  alike {descriptors i k d ty cs} _ := by
    by_cases block : k = .block
    · subst block
      rw [flattenRule_block, Numbered.outline_node, Numbered.outline_node]
      exact ⟨fun _ _ => rfl, fun oracle env => executeAll_flatMap_spliced oracle env cs,
        fun _ _ => rfl⟩
    · rw [flattenRule_of_ne block]
      exact Alike.refl _

end StagedCompiler.Lowering
