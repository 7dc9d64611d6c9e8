import StagedCompiler.Proofs.Analysis.Acceptance
import StagedCompiler.Proofs.Analysis.NotedUnits
import StagedCompiler.Proofs.Module.Canonical
import StagedCompiler.Proofs.Module.LinkedTree

/-!
# The module of a unit is its image

What the module of a unit looks like, said without building it: `TreeImage` relates a tree and its
bindings to an outline, construct by construct.  Every construct but a reference to a type becomes one
node, in the same order, with the descriptor and the type of its binding.

Once a unit is accepted, its module can be built and is the layout of its image
(`accepted_image`), whatever extensions took part.
-/

namespace StagedCompiler.Module

open Source (Typed Item TypeRef Site Expr Stmt)
open Resolution (ExprNoted ExprsNoted StmtNoted StmtsNoted MemberNoted HeadNoted BodyNoted UnitNoted
  contextOf)

variable {b : Bindings} {D : Descriptor.Table} {ctx : Resolution.Context}

/-! ## Images -/

mutual

/-- The image of an expression.  A note is the binding of the construct. -/
inductive ExprImage (b : Bindings) : Expr Site → Outline → Prop
  | int {site : Site} {n : Int64} {note : Binding} : b.get? site.id = some note →
    ExprImage b (.int site n) (.node (.constant (.int n)) none note.ty [])
  | bool {site : Site} {t : Bool} {note : Binding} : b.get? site.id = some note →
    ExprImage b (.bool site t) (.node (.constant (.bool t)) none note.ty [])
  | str {site : Site} {t : String} {note : Binding} : b.get? site.id = some note →
    ExprImage b (.str site t) (.node (.constant (.str t)) none note.ty [])
  | ref {site : Site} {name : String} {i : DescriptorId} {note : Binding} :
    b.get? site.id = some note → note.target = some i →
    ExprImage b (.ref site name) (.node .localRef (some i) note.ty [])
  | call {site : Site} {callee : String} {args : List (Expr Site)} {i : DescriptorId}
      {note : Binding} {os : List Outline} :
    b.get? site.id = some note → note.target = some i → ExprsImage b args os →
    ExprImage b (.call site callee args) (.node .call (some i) note.ty os)
  | binary {site : Site} {op : Operator} {lhs rhs : Expr Site} {note : Binding} {l r : Outline} :
    b.get? site.id = some note → ExprImage b lhs l → ExprImage b rhs r →
    ExprImage b (.binary site op lhs rhs) (.node (.binary op) none note.ty [l, r])

/-- The images of expressions one by one. -/
inductive ExprsImage (b : Bindings) : List (Expr Site) → List Outline → Prop
  | nil : ExprsImage b [] []
  | cons {e : Expr Site} {rest : List (Expr Site)} {o : Outline} {os : List Outline} :
    ExprImage b e o → ExprsImage b rest os → ExprsImage b (e :: rest) (o :: os)

end

/-- The image of a statement. -/
inductive StmtImage (b : Bindings) : Stmt Site → Outline → Prop
  | letBind {site : Site} {name : String} {type : Option (TypeRef Site)} {value : Expr Site}
      {i : DescriptorId} {note : Binding} {o : Outline} :
    b.get? site.id = some note → note.declares = some i → ExprImage b value o →
    StmtImage b (.letBind site name type value) (.node (.letBind name) (some i) note.ty [o])
  | leave {site : Site} : StmtImage b (.ret site none) (.node .ret none .unit [])
  | ret {site : Site} {value : Expr Site} {o : Outline} : ExprImage b value o →
    StmtImage b (.ret site (some value)) (.node .ret none .unit [o])
  | eval {site : Site} {value : Expr Site} {o : Outline} : ExprImage b value o →
    StmtImage b (.eval site value) (.node .eval none o.ty [o])

/-- The image of a member of an item. -/
inductive MemberImage (b : Bindings) (kind : String → Kind) : Typed Site → Outline → Prop
  | mk {m : Typed Site} {i : DescriptorId} {note : Binding} :
    b.get? m.site.id = some note → note.declares = some i →
    MemberImage b kind m (.node (kind m.name) (some i) note.ty [])

/-- The image of an item.  The statements of a function are in one block behind its parameters. -/
inductive ItemImage (b : Bindings) : Item Site → Outline → Prop
  | cls {site : Site} {name : String} {fields : List (Typed Site)} {i : DescriptorId}
      {note : Binding} {os : List Outline} :
    b.get? site.id = some note → note.declares = some i →
    List.Forall₂ (MemberImage b .field) fields os →
    ItemImage b (.cls site name fields) (.node (.cls name) (some i) note.ty os)
  | function {site : Site} {name : String} {typeParams : List String} {params : List (Typed Site)}
      {returns : Option (TypeRef Site)} {body : List (Stmt Site)} {i : DescriptorId}
      {note : Binding} {ps ss : List Outline} :
    b.get? site.id = some note → note.declares = some i →
    List.Forall₂ (MemberImage b .param) params ps → List.Forall₂ (StmtImage b) body ss →
    ItemImage b (.function site name typeParams params returns body)
      (.node (.function name) (some i) note.ty (ps ++ [.node .block none .unit ss]))

/-- The image of a unit: a module with one file, which has the images of the items. -/
inductive TreeImage (b : Bindings) (tree : Tree) : Outline → Prop
  | mk {os : List Outline} : List.Forall₂ (ItemImage b) tree.items os →
    TreeImage b tree (.node (.module tree.unit) none .unit [.node (.file tree.unit) none .unit os])

/-! ## Outlines are images -/

section Expressions

variable {scope : Resolution.Scope}

mutual

/-- A noted expression has a tree, which is its image. -/
theorem exprOutline_image {e : Expr Site} {ty : Ty} (noted : ExprNoted ctx b D scope e ty) :
    ∃ o, exprOutline b e = .ok o ∧ ExprImage b e o := by
  cases noted with
  | int there => exact ⟨_, rfl, .int there⟩
  | bool there => exact ⟨_, rfl, .bool there⟩
  | str there => exact ⟨_, rfl, .str there⟩
  | @ref site name i d _ _ _ there =>
      refine ⟨.node .localRef (some i) d.ty [], ?_, .ref there rfl⟩
      simp only [exprOutline, targetOf_note there rfl, bind, Except.bind]
      rfl
  | @call site callee args i d tys fixed _ _ _ args' _ there =>
      obtain ⟨os, outlines, images⟩ := exprOutlines_image args'
      refine ⟨.node .call (some i) (Resolution.resultTy fixed d.ty) os, ?_, .call there rfl images⟩
      simp only [exprOutline, targetOf_note there rfl, outlines, bind, Except.bind]
      rfl
  | binary left right _ there =>
      obtain ⟨l, leftOutline, leftImage⟩ := exprOutline_image left
      obtain ⟨r, rightOutline, rightImage⟩ := exprOutline_image right
      refine ⟨_, ?_, .binary there leftImage rightImage⟩
      simp only [exprOutline, bindingOf, there, leftOutline, rightOutline, bind, Except.bind]
      rfl

theorem exprOutlines_image {es : List (Expr Site)} {tys : List Ty}
    (noted : ExprsNoted ctx b D scope es tys) :
    ∃ os, exprOutlines b es = .ok os ∧ ExprsImage b es os := by
  cases noted with
  | nil => exact ⟨[], rfl, .nil⟩
  | cons first rest =>
      obtain ⟨o, outline, image⟩ := exprOutline_image first
      obtain ⟨os, outlines, images⟩ := exprOutlines_image rest
      refine ⟨o :: os, ?_, .cons image images⟩
      simp only [exprOutlines, outline, outlines, bind, Except.bind]
      rfl

end

/-- A noted statement has a tree, which is its image. -/
theorem stmtOutline_image {frame : Resolution.Frame} {next : Resolution.Scope} {stmt : Stmt Site}
    (noted : StmtNoted ctx b D frame scope stmt next) :
    ∃ o, stmtOutline b stmt = .ok o ∧ StmtImage b stmt o := by
  cases noted with
  | @letBind site name type value found stated i d noted _ _ _ _ _ _ there =>
      obtain ⟨o, outline, image⟩ := exprOutline_image noted
      refine ⟨.node (.letBind name) (some i) d.ty [o], ?_, .letBind there rfl image⟩
      simp only [stmtOutline, declaredBy_note there rfl, outline, bind, Except.bind]
      rfl
  | leave _ => exact ⟨_, rfl, .leave⟩
  | ret noted _ =>
      obtain ⟨o, outline, image⟩ := exprOutline_image noted
      refine ⟨_, ?_, .ret image⟩
      simp only [stmtOutline, outline, bind, Except.bind]
      rfl
  | eval noted =>
      obtain ⟨o, outline, image⟩ := exprOutline_image noted
      refine ⟨_, ?_, .eval image⟩
      simp only [stmtOutline, outline, bind, Except.bind]
      rfl

theorem stmtOutlines_image {frame : Resolution.Frame} {stmts : List (Stmt Site)}
    (noted : StmtsNoted ctx b D frame scope stmts) :
    ∃ os, stmts.mapM (stmtOutline b) = .ok os ∧ List.Forall₂ (StmtImage b) stmts os := by
  refine mapM_outlines ?_
  induction noted with
  | nil => simp
  | cons first _ ih =>
      rw [List.forall_mem_cons]
      exact ⟨stmtOutline_image first, ih⟩

end Expressions

theorem memberOutlines_image (node : String → Kind) {kind : Descriptor.Kind}
    {typeParams : List String} {members : List (Typed Site)}
    {ps : List (Descriptor.Param × DescriptorId)}
    (each : List.Forall₂ (MemberNoted ctx b D kind typeParams) members ps) :
    ∃ os, members.mapM (memberOutline b node) = .ok os ∧
      List.Forall₂ (MemberImage b node) members os := by
  refine mapM_outlines ?_
  induction each with
  | nil => simp
  | @cons m p members ps first _ ih =>
      rw [List.forall_mem_cons]
      refine ⟨⟨.node (node m.name) (some p.2) p.1.ty [], ?_, .mk first.declared rfl⟩, ih⟩
      simp only [memberOutline, declaredBy_note first.declared rfl, bind, Except.bind]
      rfl

/-- A noted item has a tree, which is its image; what was noted about its head and its body is found
again in it. -/
theorem itemOutline_image {i : DescriptorId} {item : Item Site} {params : List DescriptorId}
    (head : HeadNoted ctx b D i item params) (body : BodyNoted ctx b D i item params) :
    ∃ o, itemOutline b item = .ok o ∧ ItemImage b item o := by
  obtain ⟨d, ps, _, _, declared, _, each, _⟩ := head.described
  cases item with
  | cls site name fields =>
      have declared : b.get? site.id = some (.declaration d.ty i) := declared
      obtain ⟨os, outlines, images⟩ := memberOutlines_image .field each
      refine ⟨.node (.cls name) (some i) d.ty os, ?_, .cls declared rfl images⟩
      simp only [itemOutline, declaredBy_note declared rfl, bind, Except.bind]
      simp only [Typing.members] at outlines
      rw [outlines]
      rfl
  | function site name typeParams params' returns stmts =>
      have declared : b.get? site.id = some (.declaration d.ty i) := declared
      obtain ⟨_, _, noted⟩ := body
      obtain ⟨os, outlines, images⟩ := memberOutlines_image .param each
      obtain ⟨ss, statements, stmtImages⟩ := stmtOutlines_image noted
      refine ⟨.node (.function name) (some i) d.ty (os ++ [.node .block none .unit ss]), ?_,
        .function declared rfl images stmtImages⟩
      simp only [itemOutline, declaredBy_note declared rfl, bind, Except.bind]
      simp only [Typing.members] at outlines
      simp only [Resolution.bodyOf] at statements
      rw [outlines, statements]
      rfl

/-- A noted unit has a tree, which is its image. -/
theorem treeOutline_image {tree : Tree} (noted : UnitNoted tree.items ctx b D) :
    ∃ o, treeOutline tree b = .ok o ∧ TreeImage b tree o := by
  have each : ∀ item ∈ tree.items, ∃ o, itemOutline b item = .ok o ∧ ItemImage b item o := by
    intro item member
    obtain ⟨i, there⟩ := List.mem_iff_getElem?.mp member
    obtain ⟨params, head, body⟩ := noted i item there
    exact itemOutline_image head body
  obtain ⟨os, outlines, images⟩ := mapM_outlines each
  exact ⟨_, treeOutline_eq_ok outlines, .mk images⟩

/-- What is related to a list has a partner for each of its elements. -/
theorem exists_of_forall₂ {β γ : Type} {R : β → γ → Prop} {xs : List β} {ys : List γ}
    (each : List.Forall₂ R xs ys) {k : Nat} {x : β} (there : xs[k]? = some x) :
    ∃ y, ys[k]? = some y ∧ R x y := by
  induction each generalizing k with
  | nil => cases there
  | cons first _ ih =>
      cases k with
      | zero => exact ⟨_, rfl, Option.some.inj there ▸ first⟩
      | succ k => exact ih there

/-! ## Accepted units -/

/-- The module that is built is the layout of the unit's outline. -/
theorem ofTree_eq_ok {tree : Tree} {o : Outline} {m : Module} (outline : treeOutline tree b = .ok o)
    (built : ofTree tree b D = .ok m) : m = o.toModule := by
  obtain ⟨o', outline', laidOut, _⟩ := ofTree_eq_ok_iff.mp built
  obtain rfl := Except.ok.inj (outline.symm.trans outline')
  exact laidOut

/-- The module of an accepted unit can be built.  It is the layout of the unit's image, numbered in the
order of the walk from its root, and it verifies. -/
theorem accepted_image {draft : Source.Draft} {unit : String} {tree : Tree} {registry : Registry}
    {log : Diagnostic.Log} {analysis : Analysis} (assembled : draft.assemble unit = .ok tree)
    (accepted : (analyze tree registry log).outcome = .ok (.accepted analysis)) :
    ∃ m o, ofTree tree analysis.bindings analysis.descriptors = .ok m ∧
      m.outline? m.root = some o ∧ TreeImage analysis.bindings tree o ∧
      m.preorder = List.range m.size ∧ m.verify analysis.descriptors = .ok () := by
  have numbers := Source.assemble_numbers assembled
  obtain ⟨silent, rfl⟩ := Analysis.accepted_run accepted
  have links := Resolution.run_links numbers registry
  obtain ⟨_, noted⟩ := Resolution.run_noted numbers silent
  obtain ⟨m, t, built, verified⟩ := ofTree_linked silent links.linked
  obtain ⟨o, outline, image⟩ := treeOutline_image noted
  obtain rfl := ofTree_eq_ok outline built
  exact ⟨_, o, built, Outline.outline?_toModule o, image, Outline.preorder_toModule o,
    verify_eq_ok_iff.mpr ⟨t, verified⟩⟩

/-- The image of a unit with an accessor, a class and a function. -/
theorem accepted_image_followingPoint : ∃ tree analysis m o,
    Analysis.followingPoint.assemble "point" = .ok tree ∧
    (analyze tree Analysis.readingRegistry .empty).outcome = .ok (.accepted analysis) ∧
    ofTree tree analysis.bindings analysis.descriptors = .ok m ∧ m.outline? m.root = some o ∧
    TreeImage analysis.bindings tree o ∧ m.preorder = List.range m.size ∧
    m.verify analysis.descriptors = .ok () := by
  obtain ⟨tree, analysis, assembled, accepted⟩ := Analysis.followingPoint_accepted
  obtain ⟨m, o, image⟩ := accepted_image assembled accepted
  exact ⟨tree, analysis, m, o, assembled, accepted, image⟩

end StagedCompiler.Module
