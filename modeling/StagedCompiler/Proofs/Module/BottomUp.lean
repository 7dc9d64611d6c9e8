import StagedCompiler.Module.OfTree
import StagedCompiler.Proofs.Module.Canonical
import StagedCompiler.Proofs.Source.Numbering

/-!
# Construction from the bottom up

What a unit becomes does not depend on the order in which its nodes are added to the arena.
`treeOutline` says what that is: the outline of the unit, read off its tree and bindings without an
arena.

An arena only grows while nodes are added, and the new nodes hold outlines under numbers that were free
before (`Built`).  Each function of the construction therefore adds the nodes of the outline of its
construct, or ends in the fault that the outline ends in (`Yields`).  At the end everything below the
file is held, the root gets the file as its child, and compaction lays the outline of the unit out
(`ofTree_eq`): whatever numbers the nodes were given at first, the module is numbered in the order of the
walk, with nothing lost and nothing twice.
-/

namespace StagedCompiler.Module

open Source

/-! ## Outlines of constructs -/

/-- The outline of a constant. -/
def constantOutline (c : Constant) (ty : Ty) : Outline := .node (.constant c) none ty []

mutual

/-- The outline of an expression. -/
def exprOutline (bindings : Bindings) : Expr Site → Except Fault Outline
  | .int _ n => .ok (constantOutline (.int n) .int)
  | .bool _ b => .ok (constantOutline (.bool b) .bool)
  | .str _ s => .ok (constantOutline (.str s) .str)
  | .ref site _ => do
    let (target, ty) ← targetOf bindings site
    pure (.node .localRef (some target) ty [])
  | .call site _ args => do
    let (target, ty) ← targetOf bindings site
    let children ← exprOutlines bindings args
    pure (.node .call (some target) ty children)
  | .binary site op lhs rhs => do
    let b ← bindingOf bindings site
    let l ← exprOutline bindings lhs
    let r ← exprOutline bindings rhs
    pure (.node (.binary op) none b.ty [l, r])

/-- The outlines of expressions. -/
def exprOutlines (bindings : Bindings) : List (Expr Site) → Except Fault (List Outline)
  | [] => .ok []
  | e :: rest => do
    let o ← exprOutline bindings e
    let more ← exprOutlines bindings rest
    pure (o :: more)

end

/-- The outline of a statement. -/
def stmtOutline (bindings : Bindings) : Stmt Site → Except Fault Outline
  | .letBind site name _ value => do
    let (descriptor, ty) ← declaredBy bindings site
    let o ← exprOutline bindings value
    pure (.node (.letBind name) (some descriptor) ty [o])
  | .ret _ none => .ok (.node .ret none .unit [])
  | .ret _ (some value) => do
    let o ← exprOutline bindings value
    pure (.node .ret none .unit [o])
  | .eval _ value => do
    let o ← exprOutline bindings value
    pure (.node .eval none o.ty [o])

/-- The outline of a member of an item. -/
def memberOutline (bindings : Bindings) (kind : String → Kind) (member : Typed Site) :
    Except Fault Outline := do
  let (descriptor, ty) ← declaredBy bindings member.site
  pure (.node (kind member.name) (some descriptor) ty [])

/-- The outline of an item.  The statements of a function are in one block behind its parameters. -/
def itemOutline (bindings : Bindings) : Item Site → Except Fault Outline
  | .cls site name fields => do
    let (descriptor, ty) ← declaredBy bindings site
    let children ← fields.mapM (memberOutline bindings .field)
    pure (.node (.cls name) (some descriptor) ty children)
  | .function site name _ params _ body => do
    let (descriptor, ty) ← declaredBy bindings site
    let children ← params.mapM (memberOutline bindings .param)
    let stmts ← body.mapM (stmtOutline bindings)
    pure (.node (.function name) (some descriptor) ty (children ++ [.node .block none .unit stmts]))

/-- The outline of a unit: a module with one file of that name, which has the items. -/
def treeOutline (tree : Tree) (bindings : Bindings) : Except Fault Outline := do
  let items ← tree.items.mapM (itemOutline bindings)
  pure (.node (.module tree.unit) none .unit [.node (.file tree.unit) none .unit items])

/-- The outline of a unit has one file below the module. -/
theorem treeOutline_eq_ok {tree : Tree} {b : Bindings} {os : List Outline}
    (outlines : tree.items.mapM (itemOutline b) = .ok os) :
    treeOutline tree b = .ok (.node (.module tree.unit) none .unit
      [.node (.file tree.unit) none .unit os]) := by
  rw [treeOutline, outlines]
  rfl

/-! ## What construction leaves behind -/

/-- The arena `m'` is `m` with new nodes, which hold outlines under distinct numbers. -/
structure Built (m m' : Module) (ts : List Numbered) : Prop where
  grown : Grown [] m m'
  held : ∀ t ∈ ts, Holds m' t
  fresh : ∀ i ∈ ts.flatMap Numbered.ids, m.size ≤ i
  nodup : (ts.flatMap Numbered.ids).Nodup

namespace Built

variable {m m' m'' : Module} {ts us : List Numbered}

theorem nil : Built m m [] where
  grown := .refl [] m
  held := by simp
  fresh := by simp
  nodup := by simp

/-- All numbers of what was built are in the arena. -/
theorem lt_size (built : Built m m' ts) {i : NodeId} (member : i ∈ ts.flatMap Numbered.ids) :
    i < m'.size := by
  obtain ⟨t, among, inside⟩ := List.mem_flatMap.mp member
  exact (built.held t among).lt_size inside

/-- What was built stays while the arena grows. -/
theorem held_of_grown (built : Built m m' ts) (more : Grown [] m' m'') : ∀ t ∈ ts, Holds m'' t :=
  fun t member => more.holds (built.held t member) fun _ _ => List.not_mem_nil

/-- New numbers are above all old ones, so what is built later shares none with what was built first. -/
theorem append (first : Built m m' ts) (later : Built m' m'' us) : Built m m'' (ts ++ us) where
  grown := first.grown.trans later.grown
  held := by
    rw [List.forall_mem_append]
    exact ⟨first.held_of_grown later.grown, later.held⟩
  fresh := by
    rw [List.flatMap_append, List.forall_mem_append]
    exact ⟨first.fresh, fun i inside => Nat.le_trans first.grown.size (later.fresh i inside)⟩
  nodup := by
    rw [List.flatMap_append]
    refine first.nodup.append later.nodup fun i before behind => ?_
    exact Nat.lt_irrefl i (Nat.lt_of_lt_of_le (first.lt_size before) (later.fresh i behind))

/-- A node over what was built last holds the outline with these children. -/
theorem alloc (below : Built m m' ts) (k : Kind) (d : Option DescriptorId) (ty : Ty) :
    Built m (m'.push ⟨k, ts.map Numbered.id, d, ty⟩) [.node m'.size k d ty ts] where
  grown := below.grown.trans (.push m' _)
  held := by
    rw [List.forall_mem_singleton]
    refine .node ?_ (below.held_of_grown (.push m' _))
    rw [get?_push, if_pos rfl]
  fresh := by
    rw [List.flatMap_singleton, Numbered.ids_node, List.forall_mem_cons]
    exact ⟨below.grown.size, below.fresh⟩
  nodup := by
    rw [List.flatMap_singleton, Numbered.ids_node, List.nodup_cons]
    exact ⟨fun member => Nat.lt_irrefl _ (below.lt_size member), below.nodup⟩

end Built

/-! ## Construction and outlines -/

/-- A construction adds the nodes of an outline, or ends in the fault that the outline ends in. -/
def Yields (build : Building NodeId) (outline : Except Fault Outline) : Prop :=
  ∀ m, (∃ fault, build m = .error fault ∧ outline = .error fault) ∨
    ∃ t m', build m = .ok (t.id, m') ∧ outline = .ok t.outline ∧ Built m m' [t]

/-- A construction adds the nodes of outlines one after another, or ends in the fault that they end
in. -/
def YieldsAll (build : Building (List NodeId)) (outlines : Except Fault (List Outline)) : Prop :=
  ∀ m, (∃ fault, build m = .error fault ∧ outlines = .error fault) ∨
    ∃ ts m', build m = .ok (ts.map Numbered.id, m') ∧
      outlines = .ok (ts.map Numbered.outline) ∧ Built m m' ts

namespace Building

variable {α β : Type} {x : Building α} {f : α → Building β} {m m' : Module}

/-- A fault ends a construction. -/
theorem bind_error {fault : Fault} (ended : x m = .error fault) : (x >>= f) m = .error fault := by
  show (x m >>= fun p => f p.1 p.2) = .error fault
  rw [ended]
  rfl

/-- A step that ends well goes on with the arena that it leaves behind. -/
theorem bind_ok {a : α} (ended : x m = .ok (a, m')) : (x >>= f) m = f a m' := by
  show (x m >>= fun p => f p.1 p.2) = f a m'
  rw [ended]
  rfl

end Building

open Building (bind_error bind_ok)

/-- A look-up in the bindings comes before construction and leaves the arena alone. -/
theorem Yields.behind {α : Type} (lookup : Except Fault α) {build : α → Building NodeId}
    {outline : α → Except Fault Outline} (each : ∀ a, Yields (build a) (outline a)) :
    Yields (liftM lookup >>= build) (lookup >>= outline) := by
  intro m
  cases lookup with
  | error fault => exact Or.inl ⟨fault, rfl, rfl⟩
  | ok a => exact each a m

namespace YieldsAll

variable {build : Building (List NodeId)} {outlines : Except Fault (List Outline)}
  {first : Building NodeId} {outline : Except Fault Outline}

theorem nil : YieldsAll (pure []) (pure []) :=
  fun m => Or.inr ⟨[], m, rfl, rfl, .nil⟩

/-- What is built later goes behind what was built first. -/
theorem append {build' : Building (List NodeId)} {outlines' : Except Fault (List Outline)}
    (before : YieldsAll build outlines) (behind : YieldsAll build' outlines') :
    YieldsAll (do let ids ← build; let more ← build'; pure (ids ++ more))
      (do let os ← outlines; let more ← outlines'; pure (os ++ more)) := by
  intro m
  rcases before m with ⟨fault, ended, rfl⟩ | ⟨ts, m', built, rfl, made⟩
  · exact Or.inl ⟨fault, bind_error ended, rfl⟩
  rcases behind m' with ⟨fault, ended, rfl⟩ | ⟨us, m'', built', rfl, made'⟩
  · exact Or.inl ⟨fault, (bind_ok built).trans (bind_error ended), rfl⟩
  · refine Or.inr ⟨ts ++ us, m'', (bind_ok built).trans ((bind_ok built').trans ?_), ?_,
      made.append made'⟩
    · rw [List.map_append]
      rfl
    · rw [List.map_append]
      rfl

theorem singleton (one : Yields first outline) :
    YieldsAll (do let id ← first; pure [id]) (do let o ← outline; pure [o]) := by
  intro m
  rcases one m with ⟨fault, ended, rfl⟩ | ⟨t, m', built, rfl, made⟩
  · exact Or.inl ⟨fault, bind_error ended, rfl⟩
  · exact Or.inr ⟨[t], m', bind_ok built, rfl, made⟩

/-- To build one tree and then others is to build all of them. -/
theorem cons (one : Yields first outline) (more : YieldsAll build outlines) :
    YieldsAll (do let id ← first; let ids ← build; pure (id :: ids))
      (do let o ← outline; let os ← outlines; pure (o :: os)) := by
  simpa only [bind_assoc, pure_bind, List.singleton_append] using (singleton one).append more

/-- Trees are built one after another if each of them is built. -/
theorem mapM {α : Type} {f : α → Building NodeId} {g : α → Except Fault Outline} {as : List α}
    (each : ∀ a, Yields (f a) (g a)) : YieldsAll (as.mapM f) (as.mapM g) := by
  induction as with
  | nil => exact nil
  | cons a rest ih =>
      rw [List.mapM_cons, List.mapM_cons]
      exact cons (each a) ih

/-- A node over what was built yields the outline with these children. -/
theorem node (below : YieldsAll build outlines) (k : Kind) (d : Option DescriptorId) (ty : Ty) :
    Yields (do let ids ← build; alloc k d ty ids) (do let os ← outlines; pure (.node k d ty os)) := by
  intro m
  rcases below m with ⟨fault, ended, rfl⟩ | ⟨ts, m', built, rfl, made⟩
  · exact Or.inl ⟨fault, bind_error ended, rfl⟩
  · refine Or.inr ⟨.node m'.size k d ty ts, _, bind_ok built, ?_, made.alloc k d ty⟩
    rw [Numbered.outline_node]
    rfl

end YieldsAll

/-- A node without children is built by adding it. -/
theorem yields_leaf (k : Kind) (d : Option DescriptorId) (ty : Ty) :
    Yields (alloc k d ty []) (pure (.node k d ty [])) := by
  simpa only [pure_bind] using YieldsAll.nil.node k d ty

/-- A node is built on top of the one below it. -/
theorem Yields.over {build : Building NodeId} {outline : Except Fault Outline}
    (value : Yields build outline) (k : Kind) (d : Option DescriptorId) (ty : Ty) :
    Yields (do let id ← build; alloc k d ty [id]) (do let o ← outline; pure (.node k d ty [o])) := by
  simpa only [bind_assoc, pure_bind] using (YieldsAll.singleton value).node k d ty

mutual

/-- Expressions are built from the bottom up, by recursion on them. -/
theorem buildExpr_yields (b : Bindings) : ∀ e : Expr Site, Yields (buildExpr b e) (exprOutline b e)
  | .int _ n => yields_leaf _ _ _
  | .bool _ v => yields_leaf _ _ _
  | .str _ s => yields_leaf _ _ _
  | .ref site _ => .behind (targetOf b site) fun _ => yields_leaf _ _ _
  | .call site _ args =>
      .behind (targetOf b site) fun _ => (buildExprs_yields b args).node _ _ _
  | .binary site op lhs rhs => by
      refine .behind (bindingOf b site) fun binding => ?_
      have both := YieldsAll.cons (buildExpr_yields b lhs) (.singleton (buildExpr_yields b rhs))
      simpa only [bind_assoc, pure_bind] using both.node (.binary op) none binding.ty

theorem buildExprs_yields (b : Bindings) :
    ∀ es : List (Expr Site), YieldsAll (buildExprs b es) (exprOutlines b es)
  | [] => .nil
  | e :: rest => .cons (buildExpr_yields b e) (buildExprs_yields b rest)

end

/-- The type of what was built is read from its topmost node. -/
theorem typeOf_eq {m : Module} {t : Numbered} (held : Holds m t) :
    typeOf t.id m = .ok (t.outline.ty, m) := by
  cases held with
  | @node i k d ty cs here _ =>
      have found : m.node i = .ok ⟨k, cs.map Numbered.id, d, ty⟩ := by rw [Module.node, here]
      show (liftM (inRange (m.node i)) >>= fun n => pure n.ty : Building Ty) m = _
      rw [found, Numbered.outline_node]
      rfl

/-- The statements of a unit.  An evaluation reads its type off the node that it is put over. -/
theorem buildStmt_yields (b : Bindings) (stmt : Stmt Site) :
    Yields (buildStmt b stmt) (stmtOutline b stmt) := by
  cases stmt with
  | letBind site name type value =>
      exact .behind (declaredBy b site) fun _ => (buildExpr_yields b value).over _ _ _
  | ret site value =>
      cases value with
      | none => exact yields_leaf _ _ _
      | some value => exact (buildExpr_yields b value).over _ _ _
  | eval site value =>
      intro m
      rw [buildStmt, stmtOutline]
      rcases buildExpr_yields b value m with ⟨fault, ended, failed⟩ | ⟨t, m', built, outlined, made⟩
      · rw [failed]
        exact Or.inl ⟨fault, bind_error ended, rfl⟩
      · rw [outlined]
        have held := made.held t List.mem_cons_self
        refine Or.inr ⟨.node m'.size .eval none t.outline.ty [t], _,
          (bind_ok built).trans (bind_ok (typeOf_eq held)), ?_, made.alloc .eval none t.outline.ty⟩
        rw [Numbered.outline_node]
        rfl

theorem buildMember_yields (b : Bindings) (kind : String → Kind) (member : Typed Site) :
    Yields (buildMember b kind member) (memberOutline b kind member) :=
  .behind (declaredBy b member.site) fun _ => yields_leaf _ _ _

/-- Items are built with all that is in them; the block of a function comes behind its parameters. -/
theorem buildItem_yields (b : Bindings) (item : Item Site) :
    Yields (buildItem b item) (itemOutline b item) := by
  cases item with
  | cls site name fields =>
      exact .behind (declaredBy b site) fun _ =>
        (YieldsAll.mapM (buildMember_yields b .field)).node _ _ _
  | function site name typeParams params returns body =>
      refine .behind (declaredBy b site) fun declared => ?_
      have statements : YieldsAll (body.mapM (buildStmt b)) (body.mapM (stmtOutline b)) :=
        .mapM (buildStmt_yields b)
      have members : YieldsAll (params.mapM (buildMember b .param))
          (params.mapM (memberOutline b .param)) := .mapM (buildMember_yields b .param)
      have children := members.append (.singleton (statements.node .block none .unit))
      simpa only [bind_assoc, pure_bind] using
        children.node (.function name) (some declared.1) declared.2

/-- The file of a unit is built on top of its items. -/
theorem buildFile_yields (tree : Tree) (b : Bindings) :
    Yields (buildFile tree b)
      (do
        let items ← tree.items.mapM (itemOutline b)
        pure (.node (.file tree.unit) none .unit items)) :=
  (YieldsAll.mapM (buildItem_yields b)).node _ _ _

/-! ## The module of a unit -/

/-- Once the root has the file as its child, the arena holds the outline of the whole unit, and
compaction lays it out. -/
theorem compact_pushChild {unit : String} {m : Module} {t : Numbered}
    (made : Built (.named unit) m [t]) :
    ∃ m', m.pushChild m.root t.id = .ok m' ∧
      m'.compact = .ok (Outline.node (.module unit) none .unit [t.outline]).toModule := by
  have fresh : ∀ i ∈ t.ids, i ≠ 0 := by
    intro i member
    have bound := made.fresh i (by rwa [List.flatMap_singleton])
    exact Nat.ne_of_gt bound
  have root : m.root = 0 := made.grown.root
  have there : m.get? 0 = some { kind := .module unit } := made.grown.frame 0 Nat.zero_lt_one List.not_mem_nil
  have node : m.node 0 = .ok { kind := .module unit } := by rw [Module.node, there]
  refine ⟨m.update 0 fun n => { n with children := n.children ++ [t.id] }, ?_, ?_⟩
  · rw [pushChild, root, Module.edit, node]
    rfl
  · have held : Holds (m.update 0 fun n => { n with children := n.children ++ [t.id] })
        (.node 0 (.module unit) none .unit [t]) := by
      refine .node ?_ ?_
      · rw [Module.get?, Module.update, Array.getElem?_modify, if_pos rfl, ← Module.get?, there]
        rfl
      · rw [List.forall_mem_singleton]
        refine (made.held t List.mem_cons_self).of_agree fun i member => ?_
        rw [Module.get?, Module.update, Array.getElem?_modify, if_neg (fresh i member).symm]
        rfl
    have nodup : (Numbered.node 0 (.module unit) none .unit [t]).ids.Nodup := by
      rw [Numbered.ids_node, List.nodup_cons]
      refine ⟨fun member => ?_, made.nodup⟩
      rw [List.flatMap_singleton] at member
      exact fresh 0 member rfl
    rw [held.compact_eq root.symm nodup, held.compacted_eq root.symm nodup, Numbered.outline_node]
    rfl

/-- Construction from the bottom up gives the layout of the unit's outline, and it fails as the outline
does or as verification of the layout does. -/
theorem ofTree_eq (tree : Tree) (b : Bindings) (D : Descriptor.Table) :
    ofTree tree b D = (do
      let o ← treeOutline tree b
      match o.toModule.verify D with
      | .ok () => pure o.toModule
      | .error violation => .error (buildFault violation.message)) := by
  rcases buildFile_yields tree b (.named tree.unit) with
    ⟨fault, ended, failed⟩ | ⟨t, m, built, outlined, made⟩
  · have failed : treeOutline tree b = .error fault := by
      rw [treeOutline]
      cases items : tree.items.mapM (itemOutline b) with
      | error e =>
          rw [items] at failed
          exact failed
      | ok os =>
          rw [items] at failed
          cases failed
    rw [ofTree, ended, failed]
    rfl
  · have outlined : treeOutline tree b =
        .ok (.node (.module tree.unit) none .unit [t.outline]) := by
      obtain ⟨os, items, made⟩ := bind_eq_ok outlined
      rw [treeOutline_eq_ok items, ← Except.ok.inj made]
    obtain ⟨m', pushed, compacted⟩ := compact_pushChild made
    rw [ofTree, built, outlined]
    show (inRange (m.pushChild m.root t.id) >>= _) = _
    rw [pushed]
    show (inRange m'.compact >>= _) = _
    rw [compacted]
    rfl

/-- The module of a unit is the layout of the unit's outline, if this verifies. -/
theorem ofTree_eq_ok_iff {tree : Tree} {b : Bindings} {D : Descriptor.Table} {m : Module} :
    ofTree tree b D = .ok m ↔
      ∃ o, treeOutline tree b = .ok o ∧ m = o.toModule ∧ m.verify D = .ok () := by
  rw [ofTree_eq]
  cases treeOutline tree b with
  | error fault => simp [bind, Except.bind]
  | ok o =>
      simp only [bind, Except.bind, pure, Except.pure, Except.ok.injEq, exists_eq_left']
      constructor
      · intro built
        split at built
        · obtain rfl := Except.ok.inj built
          exact ⟨rfl, ‹_›⟩
        · cases built
      · rintro ⟨rfl, verified⟩
        rw [verified]

end StagedCompiler.Module
