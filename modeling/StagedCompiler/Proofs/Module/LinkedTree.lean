import StagedCompiler.Proofs.Analysis.LinkedUnits
import StagedCompiler.Proofs.Module.BottomUp

/-!
# The module of a linked unit

If all constructs of a unit are linked and nothing was reported, then the module of the unit can be
built and verifies (`ofTree_linked`), whatever extensions took part in its resolution: every name that
it uses has a target, and all descriptors that its nodes refer to are in the table.
-/

namespace StagedCompiler.Module

open Source (Typed Item Site Expr Stmt)
open Resolution (State Linked Uses Declares)

/-- A well-shaped outline of a node that may stand where such kinds are asked for. -/
structure Shaped (D : Descriptor.Table) (allowed : Kind → Bool) (o : Outline) : Prop where
  shaped : o.WellShaped D
  kind : allowed o.kind = true

/-- Trees that may stand somewhere are of kinds that may stand there. -/
theorem Shaped.kinds {D : Descriptor.Table} {allowed : Kind → Bool} {os : List Outline}
    (all : ∀ o ∈ os, Shaped D allowed o) : ∀ k ∈ os.map Outline.kind, allowed k = true := by
  rw [List.forall_mem_map]
  exact fun o member => (all o member).kind

/-- Outlines are made one by one, and all of them if each of them is. -/
theorem mapM_outlines {α : Type} {outline : α → Except Fault Outline} {made : α → Outline → Prop}
    {as : List α} (each : ∀ a ∈ as, ∃ o, outline a = .ok o ∧ made a o) :
    ∃ os, as.mapM outline = .ok os ∧ List.Forall₂ made as os := by
  induction as with
  | nil => exact ⟨[], rfl, .nil⟩
  | cons a rest ih =>
      rw [List.forall_mem_cons] at each
      obtain ⟨o, outlined, first⟩ := each.1
      obtain ⟨os, others, all⟩ := ih each.2
      refine ⟨o :: os, ?_, .cons first all⟩
      rw [List.mapM_cons, outlined, others]
      rfl

/-- If each of several constructs has a tree that may stand somewhere, so do all of them. -/
theorem mapM_shaped {α : Type} {D : Descriptor.Table} {allowed : Kind → Bool}
    {outline : α → Except Fault Outline} {as : List α}
    (each : ∀ a ∈ as, ∃ o, outline a = .ok o ∧ Shaped D allowed o) :
    ∃ os, as.mapM outline = .ok os ∧ ∀ o ∈ os, Shaped D allowed o := by
  obtain ⟨os, outlines, all⟩ := mapM_outlines each
  refine ⟨os, outlines, ?_⟩
  clear outlines each
  induction all with
  | nil => simp
  | cons first _ ih => exact List.forall_mem_cons.mpr ⟨first, ih⟩

section Notes

variable {b : Bindings} {site : Site} {note : Binding} {i : DescriptorId}

/-- What a noted use refers to, with its type. -/
theorem targetOf_note (there : b.get? site.id = some note) (target : note.target = some i) :
    targetOf b site = .ok (i, note.ty) := by
  simp only [targetOf, bindingOf, there, bind, Except.bind, target]
  rfl

theorem declaredBy_note (there : b.get? site.id = some note) (declares : note.declares = some i) :
    declaredBy b site = .ok (i, note.ty) := by
  simp only [declaredBy, bindingOf, there, bind, Except.bind, declares]
  rfl

end Notes

variable {s : State}

/-- A use of a name that is not reported has a target. -/
theorem targetOf_of_uses {site : Site} {name : String} (silent : s.diagnostics = [])
    (uses : Uses s site name) :
    ∃ i ty, targetOf s.bindings site = .ok (i, ty) ∧ s.descriptors.contains i = true := by
  obtain ⟨b, i, there, target, names⟩ := uses.target silent
  exact ⟨i, b.ty, targetOf_note there target, names.contains⟩

/-- A linked declaration has a descriptor of the table. -/
theorem declaredBy_of_declares {site : Site} {name : String} {kind : Descriptor.Kind}
    (declares : Declares s site name kind) :
    ∃ i ty, declaredBy s.bindings site = .ok (i, ty) ∧ s.descriptors.contains i = true := by
  obtain ⟨b, i, there, declared, describes⟩ := declares
  exact ⟨i, b.ty, declaredBy_note there declared, describes.names.contains⟩

/-! ## Expressions and statements -/

mutual

/-- The tree of a linked expression exists and may stand where expressions do, by recursion on it. -/
theorem exprOutline_linked (silent : s.diagnostics = []) (e : Expr Site)
    (linked : ∀ n ∈ e.nodes, Linked s n) :
    ∃ o, exprOutline s.bindings e = .ok o ∧ Shaped s.descriptors Kind.isExpression o := by
  have inert : ∀ {c : Constant} {ty : Ty},
      Shaped s.descriptors Kind.isExpression (constantOutline c ty) :=
    ⟨.node (fun is => by cases is) rfl (by simp), rfl⟩
  cases e with
  | int site n => exact ⟨_, rfl, inert⟩
  | bool site t => exact ⟨_, rfl, inert⟩
  | str site t => exact ⟨_, rfl, inert⟩
  | ref site name =>
      rw [Expr.nodes, List.forall_mem_singleton] at linked
      obtain ⟨i, ty, target, known⟩ := targetOf_of_uses silent linked
      refine ⟨.node .localRef (some i) ty [], ?_, ?_, rfl⟩
      · simp only [exprOutline, target, bind, Except.bind]
        rfl
      · exact .node (fun _ => ⟨i, rfl, known⟩) rfl (by simp)
  | call site callee args =>
      rw [Expr.nodes, List.forall_mem_cons] at linked
      obtain ⟨i, ty, target, known⟩ := targetOf_of_uses silent linked.1
      obtain ⟨os, outlines, all⟩ := exprOutlines_linked silent args linked.2
      refine ⟨.node .call (some i) ty os, ?_, ?_, rfl⟩
      · simp only [exprOutline, target, outlines, bind, Except.bind]
        rfl
      · exact .node (fun _ => ⟨i, rfl, known⟩) (Shaped.kinds all)
          fun o member => (all o member).shaped
  | binary site op lhs rhs =>
      rw [Expr.nodes, List.forall_mem_cons, List.forall_mem_append] at linked
      obtain ⟨b, there⟩ := Option.isSome_iff_exists.mp linked.1
      have there : s.bindings.get? site.id = some b := there
      obtain ⟨l, lhsOutline, left⟩ := exprOutline_linked silent lhs linked.2.1
      obtain ⟨r, rhsOutline, right⟩ := exprOutline_linked silent rhs linked.2.2
      have all : ∀ o ∈ [l, r], Shaped s.descriptors Kind.isExpression o := by
        rw [List.forall_mem_cons, List.forall_mem_singleton]
        exact ⟨left, right⟩
      refine ⟨.node (.binary op) none b.ty [l, r], ?_, ?_, rfl⟩
      · simp only [exprOutline, bindingOf, there, lhsOutline, rhsOutline, bind, Except.bind]
        rfl
      · exact .node (fun is => by cases is) ⟨rfl, Shaped.kinds all⟩
          fun o member => (all o member).shaped

theorem exprOutlines_linked (silent : s.diagnostics = []) (es : List (Expr Site))
    (linked : ∀ n ∈ Source.exprListNodes es, Linked s n) :
    ∃ os, exprOutlines s.bindings es = .ok os ∧
      ∀ o ∈ os, Shaped s.descriptors Kind.isExpression o := by
  cases es with
  | nil => exact ⟨[], rfl, by simp⟩
  | cons e rest =>
      rw [Source.exprListNodes, List.forall_mem_append] at linked
      obtain ⟨o, outline, first⟩ := exprOutline_linked silent e linked.1
      obtain ⟨os, outlines, later⟩ := exprOutlines_linked silent rest linked.2
      refine ⟨o :: os, ?_, List.forall_mem_cons.mpr ⟨first, later⟩⟩
      simp only [exprOutlines, outline, outlines, bind, Except.bind]
      rfl

end

/-- A node over one expression. -/
theorem shaped_over {k : Kind} {d : Option DescriptorId} {ty : Ty} {o : Outline}
    (described : Outline.DescriptorFits s.descriptors k d)
    (fits : o.kind.isExpression = true → Outline.ChildrenFit k [o.kind])
    (shaped : Shaped s.descriptors Kind.isExpression o) :
    (Outline.node k d ty [o]).WellShaped s.descriptors := by
  refine .node described (fits shaped.kind) ?_
  rw [List.forall_mem_singleton]
  exact shaped.shaped

/-- The tree of a linked statement exists and may stand in a block. -/
theorem stmtOutline_linked (silent : s.diagnostics = []) (stmt : Stmt Site)
    (linked : ∀ n ∈ stmt.nodes, Linked s n) :
    ∃ o, stmtOutline s.bindings stmt = .ok o ∧ Shaped s.descriptors Kind.isStatement o := by
  cases stmt with
  | letBind site name type value =>
      rw [Stmt.nodes, List.forall_mem_cons, List.forall_mem_append] at linked
      obtain ⟨i, ty, declared, known⟩ := declaredBy_of_declares linked.1
      obtain ⟨o, outline, expr⟩ := exprOutline_linked silent value linked.2.2
      refine ⟨.node (.letBind name) (some i) ty [o], ?_,
        shaped_over (fun _ => ⟨i, rfl, known⟩) (fun is => ⟨rfl, by simpa using is⟩) expr, rfl⟩
      simp only [stmtOutline, declared, outline, bind, Except.bind]
      rfl
  | ret site value =>
      cases value with
      | none =>
          exact ⟨.node .ret none .unit [], rfl,
            .node (fun is => by cases is) ⟨Nat.zero_le 1, by simp⟩ (by simp), rfl⟩
      | some value =>
          have inner : ∀ n ∈ value.nodes, Linked s n :=
            fun n member => linked n (by simp [Stmt.nodes, member])
          obtain ⟨o, outline, expr⟩ := exprOutline_linked silent value inner
          refine ⟨.node .ret none .unit [o], ?_,
            shaped_over (fun is => by cases is) (fun is => ⟨Nat.le_refl 1, by simpa using is⟩) expr,
            rfl⟩
          simp only [stmtOutline, outline, bind, Except.bind]
          rfl
  | eval site value =>
      rw [Stmt.nodes, List.forall_mem_cons] at linked
      obtain ⟨o, outline, expr⟩ := exprOutline_linked silent value linked.2
      refine ⟨.node .eval none o.ty [o], ?_,
        shaped_over (fun is => by cases is) (fun is => ⟨rfl, by simpa using is⟩) expr, rfl⟩
      simp only [stmtOutline, outline, bind, Except.bind]
      rfl

/-! ## Items and units -/

/-- The trees of linked members exist and may stand where members do. -/
theorem memberOutlines_linked (node : String → Kind) (allowed : Kind → Bool)
    {kind : Descriptor.Kind} {members : List (Typed Site)}
    (childless : ∀ name, Outline.ChildrenFit (node name) [])
    (fits : ∀ name, allowed (node name) = true)
    (declares : ∀ m ∈ members, Declares s m.site m.name kind) :
    ∃ os, members.mapM (memberOutline s.bindings node) = .ok os ∧
      ∀ o ∈ os, Shaped s.descriptors allowed o := by
  refine mapM_shaped fun m member => ?_
  obtain ⟨i, ty, declared, known⟩ := declaredBy_of_declares (declares m member)
  refine ⟨.node (node m.name) (some i) ty [], ?_,
    .node (fun _ => ⟨i, rfl, known⟩) (childless m.name) (by simp), fits m.name⟩
  simp only [memberOutline, declared, bind, Except.bind]
  rfl

/-- The tree of a linked item exists and may stand below a file. -/
theorem itemOutline_linked (silent : s.diagnostics = []) (item : Item Site)
    (linked : ∀ n ∈ item.nodes, Linked s n) :
    ∃ o, itemOutline s.bindings item = .ok o ∧ Shaped s.descriptors Kind.isItem o := by
  cases item with
  | cls site name fields =>
      rw [Item.nodes, List.forall_mem_cons] at linked
      obtain ⟨i, ty, declared, known⟩ := declaredBy_of_declares linked.1
      have declared : declaredBy s.bindings site = .ok (i, ty) := declared
      have fieldsLinked : ∀ f ∈ fields, Declares s f.site f.name .field := fun f member =>
        linked.2 (.field f) (List.mem_flatMap.mpr ⟨f, member, List.mem_cons_self⟩)
      obtain ⟨os, outlines, all⟩ := memberOutlines_linked .field Kind.isField (fun _ => rfl)
        (fun _ => rfl) fieldsLinked
      refine ⟨.node (.cls name) (some i) ty os, ?_, .node (fun _ => ⟨i, rfl, known⟩)
        (Shaped.kinds all) fun o member => (all o member).shaped, rfl⟩
      simp only [itemOutline, declared, outlines, bind, Except.bind]
      rfl
  | function site name typeParams params returns body =>
      rw [Item.nodes, List.forall_mem_cons, List.forall_mem_append, List.forall_mem_append] at linked
      obtain ⟨i, ty, declared, known⟩ := declaredBy_of_declares linked.1
      have declared : declaredBy s.bindings site = .ok (i, ty) := declared
      have paramsLinked : ∀ p ∈ params, Declares s p.site p.name .param := fun p member =>
        linked.2.1.1 (.param p) (List.mem_flatMap.mpr ⟨p, member, List.mem_cons_self⟩)
      obtain ⟨os, outlines, all⟩ := memberOutlines_linked .param Kind.isParam (fun _ => rfl)
        (fun _ => rfl) paramsLinked
      obtain ⟨ss, statements, stmts⟩ := mapM_shaped fun stmt member =>
        stmtOutline_linked silent stmt fun n inside =>
          linked.2.2 n (List.mem_flatMap.mpr ⟨stmt, member, inside⟩)
      have block : (Outline.node .block none .unit ss).WellShaped s.descriptors :=
        .node (fun is => by cases is) (Shaped.kinds stmts) fun o member => (stmts o member).shaped
      refine ⟨.node (.function name) (some i) ty (os ++ [.node .block none .unit ss]), ?_,
        .node (fun _ => ⟨i, rfl, known⟩) ⟨os.map Outline.kind, by simp, Shaped.kinds all⟩ ?_, rfl⟩
      · simp only [itemOutline, declared, outlines, statements, bind, Except.bind]
        rfl
      · rw [List.forall_mem_append, List.forall_mem_singleton]
        exact ⟨fun o member => (all o member).shaped, block⟩

/-- The module of a linked unit without errors can be built, and it verifies. -/
theorem ofTree_linked {tree : Tree} (silent : s.diagnostics = [])
    (linked : ∀ n ∈ tree.nodes, Linked s n) :
    ∃ m t, ofTree tree s.bindings s.descriptors = .ok m ∧ m.Verified s.descriptors t := by
  obtain ⟨os, outlines, all⟩ := mapM_shaped fun item member =>
    itemOutline_linked silent item fun n inside =>
      linked n (List.mem_flatMap.mpr ⟨item, member, inside⟩)
  have file : (Outline.node (.file tree.unit) none .unit os).WellShaped s.descriptors :=
    .node (fun is => by cases is) (Shaped.kinds all) fun o member => (all o member).shaped
  have shaped : (Outline.node (.module tree.unit) none .unit
      [.node (.file tree.unit) none .unit os]).WellShaped s.descriptors := by
    refine .node (fun is => by cases is) (by simp [Outline.ChildrenFit, Kind.isFile]) ?_
    rw [List.forall_mem_singleton]
    exact file
  have verified := toModule_verified shaped ⟨tree.unit, rfl⟩
  exact ⟨_, _, ofTree_eq_ok_iff.mpr
    ⟨_, treeOutline_eq_ok outlines, rfl, verify_eq_ok_iff.mpr ⟨_, verified⟩⟩, verified⟩

end StagedCompiler.Module
