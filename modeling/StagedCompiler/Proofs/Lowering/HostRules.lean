import Mathlib.Data.List.Flatten
import StagedCompiler.Proofs.Lowering.Sweep

/-!
# The host passes as rules

What each host pass does to a node of the tree.

* `foldRule` replaces an operation on constants by its value.
* `pruneRule` keeps of a block the statements up to the first return, without pure evaluations.
* `flattenRule` puts the statements of nested blocks in the places of the blocks.

Each rule selects from what is below the node, and the single step of the pass obeys it.
-/

namespace StagedCompiler.Lowering

open StagedCompiler.Module

/-- The value of an operation whose operands are constants. -/
def folded? : Kind → List Numbered → Option Constant
  | .binary op, [l, r] => do
    let a ← constant? l.top
    let b ← constant? r.top
    fold? op a b
  | _, _ => none

/-- Replace an operation on constants by its value. -/
def foldRule : Rule := fun k cs =>
  match folded? k cs with
  | some value => (.constant value, [])
  | none => (k, cs)

/-- Whether a statement evaluates a constant or a local. -/
def isPure (t : Numbered) : Bool :=
  match t.kind, t.children with
  | .eval, e :: _ =>
    match e.kind with
    | .constant _ | .localRef => true
    | _ => false
  | _, _ => false

/-- The statements up to the first return, without pure evaluations. -/
def kept : List Numbered → List Numbered
  | [] => []
  | s :: rest =>
    if isPure s then kept rest
    else if s.kind == .ret then [s]
    else s :: kept rest

/-- Keep of a block what can be reached and has an effect. -/
def pruneRule : Rule
  | .block, cs => (.block, kept cs)
  | k, cs => (k, cs)

/-- The statements that stand for a statement: those of a block, or itself. -/
def spliced (s : Numbered) : List Numbered :=
  if s.kind == .block then s.children else [s]

/-- Put the statements of nested blocks in the places of the blocks. -/
def flattenRule : Rule
  | .block, cs => (.block, cs.flatMap spliced)
  | k, cs => (k, cs)

/-! ## What the rules keep -/

/-- A rule that leaves a node as it is, or selects from below a block or an operation. -/
theorem Rule.Selects.of_cases {rule : Rule}
    (each : ∀ k cs, rule k cs = (k, cs) ∨
      (∀ t ∈ (rule k cs).2, ∃ c ∈ cs, t ∈ c.subtrees) ∧
        ((rule k cs).2.flatMap Numbered.ids).Sublist (cs.flatMap Numbered.ids)) :
    rule.Selects := by
  constructor
  · intro k cs t member
    rcases each k cs with same | ⟨parts, _⟩
    · rw [same] at member
      exact ⟨t, member, t.self_mem_subtrees⟩
    · exact parts t member
  · intro k cs
    rcases each k cs with same | ⟨_, sublist⟩
    · rw [same]
    · exact sublist

theorem foldRule_of_some {k : Kind} {cs : List Numbered} {value : Constant}
    (folded : folded? k cs = some value) : foldRule k cs = (.constant value, []) := by
  rw [foldRule, folded]

theorem foldRule_of_none {k : Kind} {cs : List Numbered} (stays : folded? k cs = none) :
    foldRule k cs = (k, cs) := by
  rw [foldRule, stays]

/-- Nothing but an operation on two operands is folded. -/
theorem folded?_eq_none {k : Kind} {cs : List Numbered}
    (other : ∀ op l r, k = .binary op → cs ≠ [l, r]) : folded? k cs = none := by
  unfold folded?
  split
  · rename_i op l r
    exact absurd rfl (other op l r rfl)
  · rfl

/-- Folding keeps some of the children or none. -/
theorem foldRule_selects : Rule.Selects foldRule := by
  refine .of_cases fun k cs => ?_
  cases folded : folded? k cs with
  | none => exact Or.inl (foldRule_of_none folded)
  | some value =>
      rw [foldRule_of_some folded]
      exact Or.inr ⟨by simp, List.nil_sublist _⟩

/-- What is kept of a block are some of its statements, in order. -/
theorem kept_sublist (cs : List Numbered) : (kept cs).Sublist cs := by
  induction cs with
  | nil => exact List.Sublist.refl []
  | cons s rest ih =>
      rw [kept]
      split
      · exact ih.cons s
      · split
        · exact (List.nil_sublist rest).cons_cons s
        · exact ih.cons_cons s

theorem pruneRule_block (cs : List Numbered) : pruneRule .block cs = (.block, kept cs) := rfl

/-- Only blocks lose statements, and only blocks are flattened. -/
theorem pruneRule_of_ne {k : Kind} (other : k ≠ .block) (cs : List Numbered) :
    pruneRule k cs = (k, cs) := by
  unfold pruneRule
  split
  · exact absurd rfl other
  · rfl

theorem flattenRule_block (cs : List Numbered) :
    flattenRule .block cs = (.block, cs.flatMap spliced) := rfl

theorem flattenRule_of_ne {k : Kind} (other : k ≠ .block) (cs : List Numbered) :
    flattenRule k cs = (k, cs) := by
  unfold flattenRule
  split
  · exact absurd rfl other
  · rfl

theorem pruneRule_selects : Rule.Selects pruneRule := by
  refine .of_cases fun k cs => ?_
  by_cases block : k = .block
  · subst block
    refine Or.inr ⟨fun t member => ?_, (kept_sublist cs).flatMap _⟩
    exact ⟨t, (kept_sublist cs).subset member, t.self_mem_subtrees⟩
  · exact Or.inl (pruneRule_of_ne block cs)

/-- What is spliced in comes from the statement itself. -/
theorem spliced_parts {s t : Numbered} (member : t ∈ spliced s) : t ∈ s.subtrees := by
  unfold spliced at member
  split at member
  · exact Numbered.mem_subtrees_of_mem_children member
  · rw [List.mem_singleton.mp member]
    exact s.self_mem_subtrees

/-- Splicing lists the numbers of a statement at most once and in order. -/
theorem flatMap_ids_spliced (s : Numbered) :
    ((spliced s).flatMap Numbered.ids).Sublist s.ids := by
  unfold spliced
  split
  · rw [s.ids_eq_cons]
    exact List.sublist_cons_self _ _
  · rw [List.flatMap_singleton]

/-- Flattening lists the parts of a block in order. -/
theorem flattenRule_selects : Rule.Selects flattenRule := by
  refine .of_cases fun k cs => ?_
  by_cases block : k = .block
  · subst block
    refine Or.inr ⟨fun t member => ?_, ?_⟩
    · obtain ⟨c, inside, part⟩ := List.mem_flatMap.mp member
      exact ⟨c, inside, spliced_parts part⟩
    · rw [flattenRule_block, List.flatMap_assoc]
      exact List.Sublist.flatMap_right cs fun c _ => flatMap_ids_spliced c
  · exact Or.inl (flattenRule_of_ne block cs)

/-! ## The single steps obey the rules -/

section Steps

variable {m : Module} {id : NodeId} {t : Numbered}

/-- A node that is held can be edited. -/
theorem edit_holds (held : Holds m t) (f : Node → Node) : m.edit t.id f = .ok (m.update t.id f) := by
  rw [Module.edit, held.node_id]
  rfl

/-- An edit of a held node has the effect on that node and no other. -/
theorem edited_top (held : Holds m t) (f : Node → Node) :
    EditedAt [t.id] m (m.update t.id f) ∧ (m.update t.id f).get? t.id = some (f t.top) := by
  refine ⟨update_editedAt m t.id f, ?_⟩
  rw [get?_update, if_pos rfl, held.get?_id]
  rfl

theorem operation?_eq_none {k : Kind} {cs : List Numbered} {d : Option DescriptorId} {ty : Ty}
    (other : ∀ op l r, k = .binary op → cs ≠ [l, r]) :
    operation? ⟨k, cs.map Numbered.id, d, ty⟩ = none := by
  unfold operation?
  split
  · rename_i op lhs rhs kind children
    obtain ⟨l, rest, rfl, _, tail⟩ := List.map_eq_cons_iff.mp children
    obtain ⟨r, rfl, _⟩ := List.map_eq_singleton_iff.mp tail
    exact absurd rfl (other op l r kind)
  · rfl

/-- On a node that is held, the step of the pass does what the rule says. -/
theorem foldNode_eq {k : Kind} {d : Option DescriptorId} {ty : Ty} {cs : List Numbered}
    (held : Holds m (.node id k d ty cs)) :
    foldNode m id = match folded? k cs with
      | some value => .ok (m.update id fun n => { n with kind := .constant value, children := [] })
      | none => .ok m := by
  have here : m.node id = .ok ⟨k, cs.map Numbered.id, d, ty⟩ := held.node_id
  rw [foldNode, here]
  simp only [bind, Except.bind]
  by_cases shape : ∃ op l r, k = .binary op ∧ cs = [l, r]
  · obtain ⟨op, l, r, rfl, rfl⟩ := shape
    have left := (held.child (c := l) (by simp)).node_id
    have right := (held.child (c := r) (by simp)).node_id
    simp only [operation?, folded?, List.map_cons, List.map_nil, left, right]
    cases constant? l.top with
    | none => rfl
    | some a =>
        cases constant? r.top with
        | none => rfl
        | some b =>
            simp only [Option.bind_eq_bind, Option.bind_some]
            cases fold? op a b with
            | none => rfl
            | some value => exact edit_holds held _
  · have other : ∀ op l r, k = .binary op → cs ≠ [l, r] :=
      fun op l r kind children => shape ⟨op, l, r, kind, children⟩
    rw [operation?_eq_none other, folded?_eq_none other]
    rfl

/-- So the pass obeys its rule. -/
theorem foldNode_obeys : Obeys foldNode foldRule := by
  intro m id k d ty cs held
  have eq := foldNode_eq held
  cases folded : folded? k cs with
  | none =>
      rw [folded] at eq
      rw [foldRule_of_none folded]
      exact ⟨m, eq, EditedAt.refl _ m, held.get?_id⟩
  | some value =>
      rw [folded] at eq
      rw [foldRule_of_some folded]
      exact ⟨_, eq, edited_top held _⟩

/-- The pass sees of a statement that is held what the rule sees of the tree. -/
theorem isPureEval_eq (held : Holds m t) : isPureEval m t.top = .ok (isPure t) := by
  rcases t with ⟨i, k, d, ty, cs⟩
  cases k with
  | eval =>
      cases cs with
      | nil => rfl
      | cons e rest =>
          have first := (held.child (c := e) (by simp)).node_id
          simp only [isPureEval, isPure, Numbered.top_node, List.map_cons, Numbered.kind_node,
            Numbered.children_node, first, bind, Except.bind]
          rcases e with ⟨j, kind, d', ty', cs'⟩
          cases kind <;> rfl
  | module | file | cls | field | function | param | block | letBind | ret | call | fieldGet
  | localRef | constant | binary => rfl

/-- The pass keeps the statements that the rule keeps. -/
theorem keptStatements_eq {cs : List Numbered} (held : ∀ c ∈ cs, Holds m c) :
    keptStatements m (cs.map Numbered.id) = .ok ((kept cs).map Numbered.id) := by
  induction cs with
  | nil => rfl
  | cons s rest ih =>
      have first := held s List.mem_cons_self
      have more := ih fun c member => held c (List.mem_cons_of_mem _ member)
      have kind : s.top.kind = s.kind := by cases s; rfl
      rw [List.map_cons, keptStatements, kept]
      simp only [first.node_id, isPureEval_eq first, more, kind, bind, Except.bind]
      cases isPure s with
      | true => rfl
      | false =>
          cases s.kind == .ret with
          | true => rfl
          | false => rfl

theorem pruneNode_obeys : Obeys pruneNode pruneRule := by
  intro m id k d ty cs held
  have here : m.node id = .ok ⟨k, cs.map Numbered.id, d, ty⟩ := held.node_id
  rw [pruneNode, here]
  simp only [bind, Except.bind]
  by_cases block : k = .block
  · subst block
    have below : ∀ c ∈ cs, Holds m c := fun c member => held.child member
    rw [if_pos (by simp), keptStatements_eq below, pruneRule_block]
    exact ⟨_, edit_holds held _, edited_top held _⟩
  · rw [if_neg (by simpa using block), pruneRule_of_ne block]
    exact ⟨m, rfl, EditedAt.refl _ m, held.get?_id⟩

/-- The pass splices in the statements that the rule splices in. -/
theorem splicedStatements_eq {cs : List Numbered} (held : ∀ c ∈ cs, Holds m c) :
    splicedStatements m (cs.map Numbered.id) = .ok ((cs.flatMap spliced).map Numbered.id) := by
  induction cs with
  | nil => rfl
  | cons s rest ih =>
      have first := held s List.mem_cons_self
      have more := ih fun c member => held c (List.mem_cons_of_mem _ member)
      rw [List.map_cons, splicedStatements, List.flatMap_cons, List.map_append]
      simp only [first.node_id, more, bind, Except.bind, pure, Except.pure, Except.ok.injEq]
      rcases s with ⟨i, k, d, ty, below⟩
      cases block : k == .block <;> simp [spliced, block]

theorem flattenNode_obeys : Obeys flattenNode flattenRule := by
  intro m id k d ty cs held
  have here : m.node id = .ok ⟨k, cs.map Numbered.id, d, ty⟩ := held.node_id
  rw [flattenNode, here]
  simp only [bind, Except.bind]
  by_cases block : k = .block
  · subst block
    have below : ∀ c ∈ cs, Holds m c := fun c member => held.child member
    rw [if_pos (by simp), splicedStatements_eq below, flattenRule_block]
    exact ⟨_, edit_holds held _, edited_top held _⟩
  · rw [if_neg (by simpa using block), flattenRule_of_ne block]
    exact ⟨m, rfl, EditedAt.refl _ m, held.get?_id⟩

end Steps

/-! ## Pruning does not mind the order -/

theorem kind_rebuild_pruneRule (t : Numbered) : (t.rebuild pruneRule).kind = t.kind := by
  rcases t with ⟨i, k, d, ty, cs⟩
  rw [Numbered.rebuild_node]
  by_cases block : k = .block
  · subst block
    rfl
  · rw [pruneRule_of_ne block]
    rfl

/-- To remove dead code does not make a statement do more or less. -/
theorem isPure_rebuild_pruneRule (t : Numbered) : isPure (t.rebuild pruneRule) = isPure t := by
  rcases t with ⟨i, k, d, ty, cs⟩
  by_cases eval : k = .eval
  · subst eval
    rw [Numbered.rebuild_node, pruneRule_of_ne (by simp)]
    cases cs with
    | nil => rfl
    | cons e rest => simp only [isPure, Numbered.kind_node, Numbered.children_node, List.map_cons,
        kind_rebuild_pruneRule]
  · have other : ∀ u : Numbered, u.kind = k → isPure u = false := by
      intro u kind
      unfold isPure
      rw [kind]
      split
      · exact absurd rfl eval
      · rfl
    rw [other _ (kind_rebuild_pruneRule _), other _ rfl]

/-- So the same statements are kept before and after. -/
theorem kept_map_rebuild (cs : List Numbered) :
    kept (cs.map (Numbered.rebuild pruneRule)) = (kept cs).map (Numbered.rebuild pruneRule) := by
  induction cs with
  | nil => rfl
  | cons s rest ih =>
      rw [List.map_cons, kept, kept, isPure_rebuild_pruneRule, kind_rebuild_pruneRule, ih]
      split
      · rfl
      · split <;> rfl

/-- Whether dead code is removed in the parts of a block first makes no difference. -/
theorem pruneRule_stable (k : Kind) (cs : List Numbered) :
    pruneRule k (cs.map (Numbered.rebuild pruneRule)) =
      ((pruneRule k cs).1, (pruneRule k cs).2.map (Numbered.rebuild pruneRule)) := by
  by_cases block : k = .block
  · subst block
    rw [pruneRule_block, pruneRule_block, kept_map_rebuild]
  · rw [pruneRule_of_ne block, pruneRule_of_ne block]

theorem pruneRule_picks (k : Kind) (cs : List Numbered) : (pruneRule k cs).2 ⊆ cs := by
  by_cases block : k = .block
  · subst block
    exact (kept_sublist cs).subset
  · rw [pruneRule_of_ne block]
    exact List.Subset.refl cs

end StagedCompiler.Lowering
