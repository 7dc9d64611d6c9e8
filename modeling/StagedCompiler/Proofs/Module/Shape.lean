import StagedCompiler.Proofs.Module.Verification

/-!
# Shapes and replaced kinds

`Outline.induct` is induction over outlines, and `Everywhere p` says that a property holds of an
outline and of everything below it.

A parent asks of its children only what class of node they are.  So an expression may take the place
of another one below any parent (`ChildrenFit.of_standsFor`), which is all that passes change above
the nodes they look at.
-/

namespace StagedCompiler.Module

open Outline (DescriptorFits ChildrenFit WellShaped)

namespace Outline

/-- Induction with the hypothesis for every child. -/
@[induction_eliminator]
theorem induct {motive : Outline → Prop}
    (node : ∀ kind descriptor ty children, (∀ c ∈ children, motive c) →
      motive (.node kind descriptor ty children)) (o : Outline) : motive o :=
  @Outline.rec motive (fun cs => ∀ c ∈ cs, motive c)
    (fun kind descriptor ty children below => node kind descriptor ty children below)
    (fun c none => absurd none List.not_mem_nil)
    (fun _ _ first rest c member => by
      rcases List.mem_cons.mp member with rfl | later
      · exact first
      · exact rest c later) o

/-- A property of an outline and of everything below it. -/
inductive Everywhere (p : Outline → Prop) : Outline → Prop
  | node {kind : Kind} {descriptor : Option DescriptorId} {ty : Ty} {children : List Outline} :
    p (.node kind descriptor ty children) → (∀ c ∈ children, Everywhere p c) →
    Everywhere p (.node kind descriptor ty children)

/-- A property holds everywhere in a tree if it holds of the tree and everywhere in its children. -/
theorem everywhere_node_iff {p : Outline → Prop} {k : Kind} {d : Option DescriptorId} {ty : Ty}
    {cs : List Outline} :
    Everywhere p (.node k d ty cs) ↔ p (.node k d ty cs) ∧ ∀ c ∈ cs, Everywhere p c := by
  constructor
  · intro whole
    cases whole with
    | node here below => exact ⟨here, below⟩
  · intro given
    rcases given with ⟨here, below⟩
    exact .node here below

theorem Everywhere.here {p : Outline → Prop} {o : Outline} (whole : o.Everywhere p) : p o := by
  cases whole with
  | node here _ => exact here

end Outline

/-- A property holds everywhere in an outline if it holds of all its parts. -/
theorem Numbered.everywhere_outline_iff {p : Outline → Prop} (t : Numbered) :
    t.outline.Everywhere p ↔ ∀ s ∈ t.subtrees, p s.outline := by
  induction t with
  | node i k d ty cs ih =>
      rw [Numbered.subtrees_node, List.forall_mem_cons, Numbered.outline_node,
        Outline.everywhere_node_iff, List.forall_mem_map]
      refine and_congr_right fun _ => ?_
      constructor
      · intro below s member
        obtain ⟨c, inside, part⟩ := List.mem_flatMap.mp member
        exact (ih c inside).mp (below c inside) s part
      · intro below c inside
        refine (ih c inside).mpr fun s part => below s ?_
        exact List.mem_flatMap.mpr ⟨c, inside, part⟩

/-- A kind that may take the place of another one below any parent. -/
def Kind.StandsFor (k k' : Kind) : Prop :=
  k' = k ∨ k.isExpression = true ∧ k'.isExpression = true

namespace Kind.StandsFor

/-- Every kind stands for itself. -/
theorem refl (k : Kind) : Kind.StandsFor k k := Or.inl rfl

variable {k k' : Kind}

theorem isFile (stands : Kind.StandsFor k k') (is : k.isFile = true) : k'.isFile = true := by
  rcases stands with rfl | ⟨expression, _⟩
  · exact is
  · cases k <;> simp_all [Kind.isExpression, Kind.isFile]

theorem isItem (stands : Kind.StandsFor k k') (is : k.isItem = true) : k'.isItem = true := by
  rcases stands with rfl | ⟨expression, _⟩
  · exact is
  · cases k <;> simp_all [Kind.isExpression, Kind.isItem]

theorem isField (stands : Kind.StandsFor k k') (is : k.isField = true) : k'.isField = true := by
  rcases stands with rfl | ⟨expression, _⟩
  · exact is
  · cases k <;> simp_all [Kind.isExpression, Kind.isField]

theorem isParam (stands : Kind.StandsFor k k') (is : k.isParam = true) : k'.isParam = true := by
  rcases stands with rfl | ⟨expression, _⟩
  · exact is
  · cases k <;> simp_all [Kind.isExpression, Kind.isParam]

theorem isStatement (stands : Kind.StandsFor k k') (is : k.isStatement = true) :
    k'.isStatement = true := by
  rcases stands with rfl | ⟨expression, _⟩
  · exact is
  · cases k <;> simp_all [Kind.isExpression, Kind.isStatement]

theorem isExpression (stands : Kind.StandsFor k k') (is : k.isExpression = true) :
    k'.isExpression = true := by
  rcases stands with rfl | ⟨_, expression⟩
  · exact is
  · exact expression

theorem eq_block (stands : Kind.StandsFor .block k') : k' = .block := by
  rcases stands with rfl | ⟨expression, _⟩
  · rfl
  · cases expression

end Kind.StandsFor

/-- What holds of all kinds of a list holds of all kinds that stand for them. -/
theorem forall_of_standsFor {p : Kind → Bool} {ks ks' : List Kind}
    (stands : List.Forall₂ Kind.StandsFor ks ks')
    (keeps : ∀ {k k' : Kind}, Kind.StandsFor k k' → p k = true → p k' = true)
    (all : ∀ k ∈ ks, p k = true) : ∀ k ∈ ks', p k = true := by
  induction stands with
  | nil => simp
  | cons first _ ih =>
      rw [List.forall_mem_cons] at all ⊢
      exact ⟨keeps first all.1, ih all.2⟩

/-- No parent minds if an expression takes the place of another one below it. -/
theorem Outline.ChildrenFit.of_standsFor {k : Kind} {ks ks' : List Kind} (fit : ChildrenFit k ks)
    (stands : List.Forall₂ Kind.StandsFor ks ks') : ChildrenFit k ks' := by
  have length := stands.length_eq
  cases k with
  | module name => exact forall_of_standsFor stands Kind.StandsFor.isFile fit
  | file name => exact forall_of_standsFor stands Kind.StandsFor.isItem fit
  | cls name => exact forall_of_standsFor stands Kind.StandsFor.isField fit
  | block => exact forall_of_standsFor stands Kind.StandsFor.isStatement fit
  | call => exact forall_of_standsFor stands Kind.StandsFor.isExpression fit
  | field name | param name | localRef | constant value =>
      have empty : ks = [] := fit
      subst empty
      exact List.forall₂_nil_left_iff.mp stands
  | letBind name | eval | fieldGet | ret | binary op =>
      exact ⟨length ▸ fit.1, forall_of_standsFor stands Kind.StandsFor.isExpression fit.2⟩
  | function name =>
      obtain ⟨params, rfl, allParams⟩ := fit
      rw [← List.forall₂_reverse_iff, List.reverse_concat] at stands
      obtain ⟨last, back, block, others, split⟩ := List.forall₂_cons_left_iff.mp stands
      obtain rfl := block.eq_block
      refine ⟨back.reverse, ?_, ?_⟩
      · rw [← List.reverse_cons, ← split, List.reverse_reverse]
      · rw [← List.forall₂_reverse_iff, List.reverse_reverse] at others
        exact forall_of_standsFor others Kind.StandsFor.isParam allParams

/-- The subtrees of a tree that is well shaped are so, too. -/
theorem Outline.WellShaped.subtree {descriptors : Descriptor.Table} {s t : Numbered}
    (shaped : t.outline.WellShaped descriptors) (member : s ∈ t.subtrees) :
    s.outline.WellShaped descriptors := by
  induction t with
  | node i k d ty cs ih =>
      rw [Numbered.subtrees_node, List.mem_cons, List.mem_flatMap] at member
      rcases member with rfl | ⟨c, inside, member⟩
      · exact shaped
      · rw [Numbered.outline_node] at shaped
        cases shaped with
        | node _ _ below => exact ih c inside (below _ (List.mem_map_of_mem inside)) member

/-- The shape of a numbered outline in terms of its parts. -/
theorem Numbered.wellShaped_node_iff {descriptors : Descriptor.Table} {i : NodeId} {k : Kind}
    {d : Option DescriptorId} {ty : Ty} {cs : List Numbered} :
    (Numbered.node i k d ty cs).outline.WellShaped descriptors ↔
      DescriptorFits descriptors k d ∧ ChildrenFit k (cs.map Numbered.kind) ∧
        ∀ c ∈ cs, c.outline.WellShaped descriptors := by
  have kinds := Numbered.kinds_outlines cs
  rw [Numbered.outline_node]
  constructor
  · intro shaped
    cases shaped with
    | node described fits below =>
        exact ⟨described, kinds ▸ fits, fun c member => below _ (List.mem_map_of_mem member)⟩
  · intro given
    rcases given with ⟨described, fits, below⟩
    refine .node described (kinds.symm ▸ fits) fun o member => ?_
    obtain ⟨c, inside, rfl⟩ := List.mem_map.mp member
    exact below c inside

end StagedCompiler.Module
