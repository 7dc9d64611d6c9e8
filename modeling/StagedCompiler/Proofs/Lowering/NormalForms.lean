import StagedCompiler.Proofs.Lowering.Faithful

/-!
# Normal forms of the host passes

What each host pass is after, said of an outline without the pass.

* `Folded`: no operation has two constants as operands that it can be evaluated on.
* `Effective` and `ReturnsLast`: a block holds no evaluation of a constant or of a local, and a return
  is its last statement.
* `Flat`: a block holds no block.

A rule that has nothing left to do anywhere changes nothing (`Settled.rebuild_eq`), and a node is
settled for a host rule exactly if it has the normal form of the pass.  A pass reaches its normal form
in one run (`rebuild_settled`).  Folding and flattening are kept by what comes behind them; that
returns come last is not kept by flattening, unless no block that stands in a block holds a return
(`flatten_returnsLast`).
-/

namespace StagedCompiler.Module.Outline

open StagedCompiler.Lowering (fold?)

/-- The operation of a node cannot be evaluated. -/
def Folded (o : Outline) : Prop :=
  ∀ op a b, o.kind = .binary op → o.children.map kind = [.constant a, .constant b] →
    fold? op a b = none

/-- A statement that evaluates a constant or a local. -/
def PureEval (o : Outline) : Prop :=
  o.kind = .eval ∧ ∃ e rest, o.children = e :: rest ∧ (e.kind = .localRef ∨ ∃ c, e.kind = .constant c)

/-- A block holds no evaluation of a constant or of a local. -/
def Effective (o : Outline) : Prop :=
  o.kind = .block → ∀ s ∈ o.children, ¬ s.PureEval

/-- Only the last statement of a block is a return. -/
def ReturnsLast (o : Outline) : Prop :=
  o.kind = .block → ∀ s ∈ o.children.dropLast, s.kind ≠ .ret

/-- A block holds no block. -/
def Flat (o : Outline) : Prop :=
  o.kind = .block → ∀ s ∈ o.children, s.kind ≠ .block

/-- The blocks in a block hold no return. -/
def InnerReturnFree (o : Outline) : Prop :=
  o.kind = .block → ∀ s ∈ o.children, s.kind = .block → ∀ r ∈ s.children, r.kind ≠ .ret

theorem Everywhere.imp {p q : Outline → Prop} (imp : ∀ o, p o → q o) {o : Outline}
    (whole : o.Everywhere p) : o.Everywhere q := by
  induction whole with
  | node here _ ih => exact .node (imp _ here) ih

end StagedCompiler.Module.Outline

namespace StagedCompiler.Lowering

open StagedCompiler.Module
open Outline (Folded PureEval Effective ReturnsLast Flat InnerReturnFree Everywhere)

/-! ## Settled trees -/

/-- A rule changes nothing at a node. -/
def SettledAt (rule : Rule) (t : Numbered) : Prop :=
  rule t.kind t.children = (t.kind, t.children)

/-- A rule changes nothing at any node of a tree. -/
def Settled (rule : Rule) (t : Numbered) : Prop :=
  ∀ s ∈ t.subtrees, SettledAt rule s

section Settled

variable {rule : Rule} {i : NodeId} {k : Kind} {d : Option DescriptorId} {ty : Ty}
  {cs : List Numbered} {s t : Numbered}

/-- A tree is settled if the rule leaves its topmost node alone and its children are settled. -/
theorem settled_node_iff :
    Settled rule (.node i k d ty cs) ↔ rule k cs = (k, cs) ∧ ∀ c ∈ cs, Settled rule c := by
  unfold Settled
  rw [Numbered.subtrees_node, List.forall_mem_cons]
  refine and_congr_right fun _ => ?_
  constructor
  · intro below c member s part
    exact below s (List.mem_flatMap.mpr ⟨c, member, part⟩)
  · intro below s member
    obtain ⟨c, inside, part⟩ := List.mem_flatMap.mp member
    exact below c inside s part

/-- A rule with nothing left to do changes nothing. -/
theorem Settled.rebuild_eq (settled : Settled rule t) : t.rebuild rule = t := by
  induction t with
  | node i k d ty cs ih =>
      obtain ⟨here, below⟩ := settled_node_iff.mp settled
      have same : cs.map (Numbered.rebuild rule) = cs :=
        calc cs.map (Numbered.rebuild rule)
          _ = cs.map fun c => c := List.map_congr_left fun c member => ih c member (below c member)
          _ = cs := List.map_id' cs
      rw [Numbered.rebuild_node, same, here]

/-- The parts of a rebuilt tree are rebuilt parts. -/
theorem mem_subtrees_rebuild (selects : rule.Selects) (member : s ∈ (t.rebuild rule).subtrees) :
    ∃ c ∈ t.subtrees, s = c.rebuild rule := by
  induction t with
  | node i k d ty cs ih =>
      have whole : (Numbered.node i k d ty cs).rebuild rule =
          .node i (rule k (cs.map (Numbered.rebuild rule))).1 d ty
            (rule k (cs.map (Numbered.rebuild rule))).2 := Numbered.rebuild_node
      rw [whole, Numbered.subtrees_node, List.mem_cons, List.mem_flatMap] at member
      rcases member with rfl | ⟨u, inside, part⟩
      · exact ⟨_, Numbered.self_mem_subtrees _, whole.symm⟩
      · obtain ⟨c', among, below⟩ := selects.parts k _ u inside
        obtain ⟨c, old, rfl⟩ := List.mem_map.mp among
        obtain ⟨b, found, same⟩ := ih c old (Numbered.subtrees_trans part below)
        refine ⟨b, ?_, same⟩
        rw [Numbered.subtrees_node, List.mem_cons, List.mem_flatMap]
        exact Or.inr ⟨c, old, found⟩

/-- A rule that has nothing left to do at a node whose children are settled settles whole trees. -/
theorem rebuild_settled (selects : rule.Selects)
    (stable : ∀ k cs, (∀ c ∈ cs, Settled rule c) →
      rule (rule k cs).1 (rule k cs).2 = rule k cs) (t : Numbered) :
    Settled rule (t.rebuild rule) := by
  induction t with
  | node i k d ty cs ih =>
      have below : ∀ c ∈ cs.map (Numbered.rebuild rule), Settled rule c := by
        rw [List.forall_mem_map]
        exact ih
      rw [Numbered.rebuild_node, settled_node_iff]
      refine ⟨stable k _ below, fun c member s part => ?_⟩
      obtain ⟨b, inside, deeper⟩ := selects.parts k _ c member
      exact below b inside s (Numbered.subtrees_trans part deeper)

/-- A property of outlines that holds of every settled node holds everywhere in a settled tree. -/
theorem everywhere_iff_settled {p : Outline → Prop}
    (each : ∀ s : Numbered, SettledAt rule s ↔ p s.outline) (t : Numbered) :
    t.outline.Everywhere p ↔ Settled rule t := by
  rw [Numbered.everywhere_outline_iff]
  exact forall₂_congr fun s _ => (each s).symm

end Settled

/-! ## The normal forms as settled nodes -/

section Nodes

variable (t : Numbered)

/-- Two constants are folded to what their operator makes of them, if it makes anything of them. -/
theorem folded?_of_kinds {op : Operator} {cs : List Numbered} {a b : Constant}
    (kinds : cs.map Numbered.kind = [.constant a, .constant b]) :
    folded? (.binary op) cs = fold? op a b := by
  have value : ∀ (c : Numbered) (v : Constant), c.kind = .constant v → constant? c.top = some v := by
    intro c v kind
    rcases c with ⟨i, k, d, ty, cs⟩
    obtain rfl : k = .constant v := kind
    rfl
  obtain ⟨l, rest, rfl, left, tail⟩ := List.map_eq_cons_iff.mp kinds
  obtain ⟨r, rfl, right⟩ := List.map_eq_singleton_iff.mp tail
  simp only [folded?, value l a left, value r b right, Option.bind_eq_bind, Option.bind_some]

/-- Folding leaves a node alone exactly if it is no operation that can be folded. -/
theorem settledAt_foldRule_iff : SettledAt foldRule t ↔ t.outline.Folded := by
  unfold SettledAt Folded
  rw [Numbered.kind_outline, Numbered.children_outline, Numbered.kinds_outlines]
  constructor
  · intro settled op a b kind kinds
    rw [kind] at settled
    cases folded : fold? op a b with
    | none => rfl
    | some value =>
        rw [foldRule_of_some ((folded?_of_kinds kinds).trans folded)] at settled
        cases settled
  · intro stays
    cases folded : folded? t.kind t.children with
    | none => exact foldRule_of_none folded
    | some value =>
        obtain ⟨op, l, r, a, b, kind, children, left, right, evaluates⟩ := folded?_eq_some folded
        have none := stays op a b kind (by simp [children, left, right])
        rw [evaluates] at none
        cases none

/-- The rule sees a statement without effect where the definition does. -/
theorem isPure_iff : isPure t = true ↔ t.outline.PureEval := by
  rcases t with ⟨i, k, d, ty, cs⟩
  unfold isPure PureEval
  rw [Numbered.kind_outline, Numbered.children_outline]
  simp only [Numbered.kind_node, Numbered.children_node]
  constructor
  · intro pureEval
    split at pureEval
    · rename_i e rest
      refine ⟨rfl, e.outline, rest.map Numbered.outline, rfl, ?_⟩
      rw [Numbered.kind_outline]
      split at pureEval
      · rename_i c kind
        exact Or.inr ⟨c, kind⟩
      · rename_i kind
        exact Or.inl kind
      · cases pureEval
    · cases pureEval
  · rintro ⟨rfl, e, rest, children, atom⟩
    obtain ⟨c, others, rfl, rfl, -⟩ := List.map_eq_cons_iff.mp children
    rw [Numbered.kind_outline] at atom
    rcases atom with kind | ⟨v, kind⟩
    · simp only [kind]
    · simp only [kind]

/-- Pruning keeps a list exactly if it has no pure evaluation and returns only at its end. -/
theorem kept_eq_self_iff (cs : List Numbered) :
    kept cs = cs ↔ (∀ s ∈ cs, isPure s = false) ∧ ∀ s ∈ cs.dropLast, s.kind ≠ .ret := by
  induction cs with
  | nil => simp [kept]
  | cons s rest ih =>
      rw [kept]
      cases pureEval : isPure s with
      | true =>
          rw [if_pos rfl]
          constructor
          · intro same
            have length := congrArg List.length same
            have shorter := (kept_sublist rest).length_le
            rw [List.length_cons] at length
            omega
          · intro given
            have impure := given.1 s List.mem_cons_self
            rw [pureEval] at impure
            cases impure
      | false =>
          rw [if_neg (by simp)]
          cases rest with
          | nil =>
              cases returns : s.kind == .ret <;> simp [kept, pureEval]
          | cons next later =>
              rw [List.dropLast_cons_cons, List.forall_mem_cons, List.forall_mem_cons]
              by_cases returns : s.kind = .ret
              · rw [if_pos (by simpa using returns)]
                simp [returns]
              · rw [if_neg (by simpa using returns), List.cons.injEq, ih]
                simp [pureEval, returns]

/-- A block loses nothing exactly if its statements have effects and nothing stands behind a return. -/
theorem settledAt_pruneRule_iff :
    SettledAt pruneRule t ↔ t.outline.Effective ∧ t.outline.ReturnsLast := by
  unfold SettledAt Effective ReturnsLast
  rw [Numbered.kind_outline, Numbered.children_outline, ← List.map_dropLast]
  by_cases block : t.kind = .block
  · simp only [block, pruneRule_block, Prod.mk.injEq, true_and, kept_eq_self_iff, forall_const,
      List.forall_mem_map, Numbered.kind_outline, ← isPure_iff, Bool.not_eq_true]
  · rw [pruneRule_of_ne block]
    simp [block]

/-- A block without blocks is left alone. -/
theorem settledAt_flattenRule (flat : t.outline.Flat) : SettledAt flattenRule t := by
  unfold Flat at flat
  rw [Numbered.kind_outline, Numbered.children_outline, List.forall_mem_map] at flat
  unfold SettledAt
  by_cases block : t.kind = .block
  · have alone : ∀ s ∈ t.children, spliced s = [s] := by
      intro s member
      have other := flat block s member
      rw [Numbered.kind_outline] at other
      rw [spliced, if_neg (by simpa using other)]
    rw [block, flattenRule_block, List.flatMap_congr alone, List.flatMap_singleton']
  · exact flattenRule_of_ne block _

end Nodes

/-! ## One run reaches the normal form -/

/-- To fold what was folded changes nothing. -/
theorem foldRule_stable (k : Kind) (cs : List Numbered) :
    foldRule (foldRule k cs).1 (foldRule k cs).2 = foldRule k cs := by
  cases folded : folded? k cs with
  | none => rw [foldRule_of_none folded, foldRule_of_none folded]
  | some value =>
      rw [foldRule_of_some folded]
      rfl

/-- Of what is kept, everything is kept. -/
theorem kept_kept (cs : List Numbered) : kept (kept cs) = kept cs := by
  induction cs with
  | nil => rfl
  | cons s rest ih =>
      rw [kept]
      cases pureEval : isPure s with
      | true =>
          rw [if_pos rfl]
          exact ih
      | false =>
          rw [if_neg (by simp)]
          cases returns : s.kind == .ret with
          | true => simp [kept, pureEval, returns]
          | false =>
              rw [if_neg (by simp), kept, pureEval, returns, if_neg (by simp), if_neg (by simp), ih]

theorem pruneRule_twice (k : Kind) (cs : List Numbered) :
    pruneRule (pruneRule k cs).1 (pruneRule k cs).2 = pruneRule k cs := by
  by_cases block : k = .block
  · rw [block, pruneRule_block, pruneRule_block, kept_kept]
  · rw [pruneRule_of_ne block, pruneRule_of_ne block]

theorem fold_folded (t : Numbered) : (t.rebuild foldRule).outline.Everywhere Folded := by
  rw [everywhere_iff_settled settledAt_foldRule_iff]
  exact rebuild_settled foldRule_selects (fun k cs _ => foldRule_stable k cs) t

theorem prune_pruned (t : Numbered) :
    (t.rebuild pruneRule).outline.Everywhere fun o => o.Effective ∧ o.ReturnsLast := by
  rw [everywhere_iff_settled settledAt_pruneRule_iff]
  exact rebuild_settled pruneRule_selects (fun k cs _ => pruneRule_twice k cs) t

/-! ## Rules that change blocks only -/

/-- A rule that changes nothing but the statements of blocks. -/
structure Rule.OnBlocks (rule : Rule) : Prop where
  block : ∀ cs, (rule .block cs).1 = .block
  other : ∀ {k}, k ≠ .block → ∀ cs, rule k cs = (k, cs)

theorem pruneRule_onBlocks : Rule.OnBlocks pruneRule := ⟨fun _ => rfl, pruneRule_of_ne⟩

theorem flattenRule_onBlocks : Rule.OnBlocks flattenRule := ⟨fun _ => rfl, flattenRule_of_ne⟩

namespace Rule.OnBlocks

variable {rule : Rule} (onBlocks : rule.OnBlocks)
include onBlocks

theorem kind_rebuild (t : Numbered) : (t.rebuild rule).kind = t.kind := by
  rcases t with ⟨i, k, d, ty, cs⟩
  rw [Numbered.rebuild_node, Numbered.kind_node, Numbered.kind_node]
  by_cases block : k = .block
  · rw [block, onBlocks.block]
  · rw [onBlocks.other block]

theorem children_rebuild {t : Numbered} (other : t.kind ≠ .block) :
    (t.rebuild rule).children = t.children.map (Numbered.rebuild rule) := by
  rcases t with ⟨i, k, d, ty, cs⟩
  rw [Numbered.kind_node] at other
  rw [Numbered.rebuild_node, onBlocks.other other]
  rfl

theorem map_kind_rebuild (cs : List Numbered) :
    (cs.map (Numbered.rebuild rule)).map Numbered.kind = cs.map Numbered.kind := by
  rw [List.map_map]
  exact List.map_congr_left fun c _ => onBlocks.kind_rebuild c

/-- Such a rule leaves operations as they are. -/
theorem folded (selects : rule.Selects) {t : Numbered} (folded : t.outline.Everywhere Folded) :
    (t.rebuild rule).outline.Everywhere Folded := by
  rw [Numbered.everywhere_outline_iff] at folded ⊢
  intro s member
  obtain ⟨c, part, rfl⟩ := mem_subtrees_rebuild selects member
  intro op a b kind kinds
  rw [Numbered.kind_outline, onBlocks.kind_rebuild] at kind
  have other : c.kind ≠ .block := by
    rw [kind]
    simp
  rw [Numbered.children_outline, Numbered.kinds_outlines, onBlocks.children_rebuild other,
    onBlocks.map_kind_rebuild] at kinds
  refine folded c part op a b ?_ ?_
  · rw [Numbered.kind_outline, kind]
  · rw [Numbered.children_outline, Numbered.kinds_outlines, kinds]

/-- Such a rule makes no evaluation pure. -/
theorem pureEval_rebuild {t : Numbered} (pureEval : (t.rebuild rule).outline.PureEval) :
    t.outline.PureEval := by
  obtain ⟨kind, e, rest, children, atom⟩ := pureEval
  rw [Numbered.kind_outline, onBlocks.kind_rebuild] at kind
  have other : t.kind ≠ .block := by
    rw [kind]
    simp
  rw [Numbered.children_outline, onBlocks.children_rebuild other, List.map_map] at children
  obtain ⟨c, others, split, rfl, -⟩ := List.map_eq_cons_iff.mp children
  rw [Function.comp_apply, Numbered.kind_outline, onBlocks.kind_rebuild] at atom
  refine ⟨by rw [Numbered.kind_outline, kind], c.outline, others.map Numbered.outline, ?_, ?_⟩
  · rw [Numbered.children_outline, split, List.map_cons]
  · rwa [Numbered.kind_outline]

end Rule.OnBlocks

/-- Pruning puts no block into a block. -/
theorem prune_flat {t : Numbered} (flat : t.outline.Everywhere Flat) :
    (t.rebuild pruneRule).outline.Everywhere Flat := by
  rw [Numbered.everywhere_outline_iff] at flat ⊢
  intro s member
  obtain ⟨c, part, rfl⟩ := mem_subtrees_rebuild pruneRule_selects member
  have here := flat c part
  rcases c with ⟨i, k, d, ty, cs⟩
  unfold Flat at here ⊢
  rw [Numbered.kind_outline, Numbered.children_outline, List.forall_mem_map] at here ⊢
  intro block x inside
  rw [pruneRule_onBlocks.kind_rebuild] at block
  rw [Numbered.rebuild_node] at inside
  obtain ⟨b, among, rfl⟩ := List.mem_map.mp (pruneRule_picks k _ inside)
  rw [Numbered.kind_outline, pruneRule_onBlocks.kind_rebuild]
  have other := here block b among
  rwa [Numbered.kind_outline] at other

/-! ## Flattening -/

/-- What a flattened block holds are the flattened statements of the blocks that it held. -/
theorem mem_children_flatten {t x : Numbered} (block : t.kind = .block)
    (member : x ∈ (t.rebuild flattenRule).children) :
    ∃ s ∈ t.subtrees, s.kind = .block ∧
      ∃ c ∈ s.children, c.kind ≠ .block ∧ x = c.rebuild flattenRule := by
  induction t with
  | node i k d ty cs ih =>
      obtain rfl : k = .block := block
      rw [Numbered.rebuild_node, Numbered.children_node, flattenRule_block] at member
      obtain ⟨c', among, inside⟩ := List.mem_flatMap.mp member
      obtain ⟨c, old, rfl⟩ := List.mem_map.mp among
      unfold spliced at inside
      rw [flattenRule_onBlocks.kind_rebuild] at inside
      by_cases inner : c.kind = .block
      · rw [if_pos (by simpa using inner)] at inside
        obtain ⟨s, part, rest⟩ := ih c old inner inside
        refine ⟨s, ?_, rest⟩
        rw [Numbered.subtrees_node, List.mem_cons, List.mem_flatMap]
        exact Or.inr ⟨c, old, part⟩
      · rw [if_neg (by simpa using inner), List.mem_singleton] at inside
        exact ⟨_, Numbered.self_mem_subtrees _, rfl, c, old, inner, inside⟩

/-- A flattened tree has no block in a block. -/
theorem flatten_flat (t : Numbered) : (t.rebuild flattenRule).outline.Everywhere Flat := by
  rw [Numbered.everywhere_outline_iff]
  intro s member
  obtain ⟨c, -, rfl⟩ := mem_subtrees_rebuild flattenRule_selects member
  unfold Flat
  rw [Numbered.kind_outline, Numbered.children_outline, List.forall_mem_map,
    flattenRule_onBlocks.kind_rebuild]
  intro block x inside
  obtain ⟨-, -, -, b, -, other, rfl⟩ := mem_children_flatten block inside
  rwa [Numbered.kind_outline, flattenRule_onBlocks.kind_rebuild]

/-- Flattening makes no statement without effect. -/
theorem flatten_effective {t : Numbered} (effective : t.outline.Everywhere Effective) :
    (t.rebuild flattenRule).outline.Everywhere Effective := by
  rw [Numbered.everywhere_outline_iff] at effective ⊢
  intro s member
  obtain ⟨c, part, rfl⟩ := mem_subtrees_rebuild flattenRule_selects member
  unfold Effective
  rw [Numbered.kind_outline, Numbered.children_outline, List.forall_mem_map,
    flattenRule_onBlocks.kind_rebuild]
  intro block x inside pureEval
  obtain ⟨u, deeper, isBlock, b, among, -, rfl⟩ := mem_children_flatten block inside
  have here := effective u (Numbered.subtrees_trans deeper part)
  unfold Effective at here
  rw [Numbered.kind_outline, Numbered.children_outline, List.forall_mem_map] at here
  exact here isBlock b among (flattenRule_onBlocks.pureEval_rebuild pureEval)

/-- Where inner blocks have no return, the parts of such a block are no returns. -/
theorem innerReturnFree_node {i : NodeId} {d : Option DescriptorId} {ty : Ty} {cs : List Numbered}
    (free : (Numbered.node i .block d ty cs).outline.InnerReturnFree) :
    ∀ c ∈ cs, c.kind = .block → ∀ r ∈ c.children, r.kind ≠ .ret := by
  intro c member block r deeper
  have quiet := free rfl c.outline
  rw [Numbered.children_outline, Numbered.kind_outline, Numbered.children_outline] at quiet
  have other := quiet (List.mem_map_of_mem member) block r.outline (List.mem_map_of_mem deeper)
  rwa [Numbered.kind_outline] at other

/-- A statement that is no return, and no block with returns in it, is flattened to such ones. -/
theorem spliced_flatten_quiet {c : Numbered} (free : c.outline.Everywhere InnerReturnFree)
    (other : c.kind ≠ .ret) (quiet : c.kind = .block → ∀ r ∈ c.children, r.kind ≠ .ret) :
    ∀ x ∈ spliced (c.rebuild flattenRule), x.kind ≠ .ret := by
  induction c with
  | node i k d ty cs ih =>
      intro x member
      unfold spliced at member
      rw [flattenRule_onBlocks.kind_rebuild] at member
      by_cases block : k = .block
      · subst block
        rw [Numbered.outline_node, Outline.everywhere_node_iff, List.forall_mem_map,
          ← Numbered.outline_node (i := i)] at free
        have inner := innerReturnFree_node free.1
        rw [if_pos (by simp), Numbered.rebuild_node, Numbered.children_node,
          flattenRule_block] at member
        obtain ⟨b', among, inside⟩ := List.mem_flatMap.mp member
        obtain ⟨b, old, rfl⟩ := List.mem_map.mp among
        exact ih b old (free.2 b old) (quiet rfl b old) (inner b old) x inside
      · rw [if_neg (by simpa using block), List.mem_singleton] at member
        rw [member, flattenRule_onBlocks.kind_rebuild]
        exact other

/-- A statement of a block is flattened to statements of which at most the last is a return. -/
theorem spliced_flatten_dropLast {c : Numbered} (free : c.outline.Everywhere InnerReturnFree)
    (quiet : c.kind = .block → ∀ r ∈ c.children, r.kind ≠ .ret) :
    ∀ x ∈ (spliced (c.rebuild flattenRule)).dropLast, x.kind ≠ .ret := by
  intro x member
  by_cases block : c.kind = .block
  · have other : c.kind ≠ .ret := by
      rw [block]
      simp
    exact spliced_flatten_quiet free other quiet x (List.dropLast_subset _ member)
  · unfold spliced at member
    rw [flattenRule_onBlocks.kind_rebuild, if_neg (by simpa using block)] at member
    cases member

theorem mem_dropLast_append {α : Type} {x : α} {xs ys : List α}
    (member : x ∈ (xs ++ ys).dropLast) : x ∈ xs ∨ x ∈ ys.dropLast := by
  rw [List.dropLast_append] at member
  split at member
  · exact Or.inl (List.dropLast_subset xs member)
  · exact List.mem_append.mp member

/-- Statements of which only the last can be a return are flattened to such ones. -/
theorem flatten_dropLast_quiet {cs : List Numbered}
    (free : ∀ c ∈ cs, c.outline.Everywhere InnerReturnFree)
    (inner : ∀ c ∈ cs, c.kind = .block → ∀ r ∈ c.children, r.kind ≠ .ret)
    (last : ∀ c ∈ cs.dropLast, c.kind ≠ .ret) :
    ∀ x ∈ ((cs.map (Numbered.rebuild flattenRule)).flatMap spliced).dropLast, x.kind ≠ .ret := by
  induction cs with
  | nil => simp
  | cons c rest ih =>
      rw [List.forall_mem_cons] at free inner
      intro x member
      rw [List.map_cons, List.flatMap_cons] at member
      cases rest with
      | nil =>
          rw [List.map_nil, List.flatMap_nil, List.append_nil] at member
          exact spliced_flatten_dropLast free.1 inner.1 x member
      | cons next later =>
          rw [List.dropLast_cons_cons, List.forall_mem_cons] at last
          rcases mem_dropLast_append member with first | others
          · exact spliced_flatten_quiet free.1 last.1 inner.1 x first
          · exact ih free.2 inner.2 last.2 x others

/-- Nothing stands behind a return exactly if no statement of a block but the last one is a return. -/
theorem returnsLast_iff (t : Numbered) :
    t.outline.ReturnsLast ↔ (t.kind = .block → ∀ c ∈ t.children.dropLast, c.kind ≠ .ret) := by
  unfold ReturnsLast
  rw [Numbered.kind_outline, Numbered.children_outline, ← List.map_dropLast, List.forall_mem_map]
  simp only [Numbered.kind_outline]

/-- Returns stay last if the blocks that go into others hold none. -/
theorem flatten_returnsLast {t : Numbered} (free : t.outline.Everywhere InnerReturnFree)
    (last : t.outline.Everywhere ReturnsLast) :
    (t.rebuild flattenRule).outline.Everywhere ReturnsLast := by
  rw [Numbered.everywhere_outline_iff] at free last ⊢
  intro s member
  obtain ⟨c, part, rfl⟩ := mem_subtrees_rebuild flattenRule_selects member
  have here := (returnsLast_iff c).mp (last c part)
  have below : ∀ b ∈ c.children, b.outline.Everywhere InnerReturnFree := by
    intro b inside
    rw [Numbered.everywhere_outline_iff]
    intro u deeper
    have child := Numbered.mem_subtrees_of_mem_children inside
    exact free u (Numbered.subtrees_trans (Numbered.subtrees_trans deeper child) part)
  have inner := free c part
  rw [returnsLast_iff, flattenRule_onBlocks.kind_rebuild]
  intro block
  rcases c with ⟨i, k, d, ty, cs⟩
  obtain rfl : k = .block := block
  rw [Numbered.rebuild_node, Numbered.children_node, flattenRule_block]
  exact flatten_dropLast_quiet below (innerReturnFree_node inner) (here rfl)

/-! ## Rules that select statements -/

/-- A rule that keeps of a block some of its statements and keeps what is a block or a return. -/
structure Rule.Thins (rule : Rule) : Prop where
  stands : ∀ t : Numbered, Kind.StandsFor t.kind (t.rebuild rule).kind
  block : ∀ cs, (rule .block cs).2 ⊆ cs

theorem foldRule_thins : Rule.Thins foldRule :=
  ⟨foldRule_faithful.kind_rebuild, fun cs => List.Subset.refl cs⟩

theorem pruneRule_thins : Rule.Thins pruneRule :=
  ⟨pruneRule_faithful.kind_rebuild, fun cs => (kept_sublist cs).subset⟩

/-- Such a rule puts no return into an inner block. -/
theorem Rule.Thins.innerReturnFree {rule : Rule} (thins : rule.Thins) (selects : rule.Selects)
    {t : Numbered} (free : t.outline.Everywhere InnerReturnFree) :
    (t.rebuild rule).outline.Everywhere InnerReturnFree := by
  have kindOf : ∀ (u : Numbered) (k : Kind), k.isExpression = false → (u.rebuild rule).kind = k →
      u.kind = k := by
    intro u k statement kind
    rcases thins.stands u with same | ⟨-, expression⟩
    · rw [← same, kind]
    · rw [kind, statement] at expression
      cases expression
  have childOf : ∀ (u x : Numbered), u.kind = .block → x ∈ (u.rebuild rule).children →
      ∃ c ∈ u.children, x = c.rebuild rule := by
    intro u x block member
    rcases u with ⟨i, k, d, ty, cs⟩
    obtain rfl : k = .block := block
    rw [Numbered.rebuild_node, Numbered.children_node] at member
    obtain ⟨c, among, same⟩ := List.mem_map.mp (thins.block _ member)
    exact ⟨c, among, same.symm⟩
  rw [Numbered.everywhere_outline_iff] at free ⊢
  intro s member
  obtain ⟨c, part, rfl⟩ := mem_subtrees_rebuild selects member
  have here := free c part
  unfold InnerReturnFree at here ⊢
  simp only [Numbered.kind_outline, Numbered.children_outline, List.forall_mem_map] at here ⊢
  intro block x inside innerBlock r deeper returns
  have outer := kindOf c _ rfl block
  obtain ⟨b, among, rfl⟩ := childOf c x outer inside
  have inner := kindOf b _ rfl innerBlock
  obtain ⟨q, among', rfl⟩ := childOf b r inner deeper
  exact here outer b among inner q among' (kindOf q _ rfl returns)

end StagedCompiler.Lowering
