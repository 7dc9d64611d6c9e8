import StagedCompiler.Proofs.Analysis.Linking

/-!
# Resolution links every construct of a unit

The phases of resolution one by one: members and signatures, expressions and statements, and then a
whole unit (`run_links`).  Nothing is assumed about the resolvers and nothing about what is reported.
So bindings are always complete (`Links.freeze_eq`), and no resolver is to blame unless one of them
can fail.
-/

namespace StagedCompiler.Resolution

open Source (Typed Item TypeRef Site SiteId Expr Stmt)

variable {items : List (Item Site)} {ctx : Context} {s : State}

/-! ## Members -/

/-- A sort of members: how they stand among the constructs, and what they are declared as. -/
structure MemberSort (node : Typed Site → Source.Node) (kind : Descriptor.Kind) : Prop where
  site : ∀ m, (node m).site = m.site
  linked : ∀ s m, Declares s m.site m.name kind → Linked s (node m)

theorem fieldSort : MemberSort .field .field := ⟨fun _ => rfl, fun _ _ declares => declares⟩

theorem paramSort : MemberSort .param .param := ⟨fun _ => rfl, fun _ _ declares => declares⟩

/-- The constructs of members. -/
def memberNodes (node : Typed Site → Source.Node) (members : List (Typed Site)) :
    List Source.Node :=
  members.flatMap fun m => [node m, .typeRef m.type]

section Members

variable {node : Typed Site → Source.Node} {kind : Descriptor.Kind}

/-- A member is linked with its type, and its descriptor has its name. -/
theorem enterMember_leaves (globals : ctx.globals = itemNames items)
    (sort : MemberSort node kind) (owner : DescriptorId) (typeParams : List String)
    {m : Typed Site} (steady : Steady items ctx s) (placed : Placed [node m, .typeRef m.type] s) :
    Leaves (enterMember ctx owner kind typeParams m) s fun p s' =>
      Links items ctx [node m, .typeRef m.type] s s' ∧ Names s'.descriptors p.2 m.name := by
  obtain ⟨here, outside, rest⟩ := placed.of_cons
  refine (resolveType_leaves globals steady typeParams rest.of_cons.1).bind ?_
  intro ty s₁ links₁
  have declared : Leaves (declare (node m).site m.name kind owner ty {}) s₁ fun i s' =>
      Links items ctx [node m] s₁ s' ∧ Names s'.descriptors i m.name :=
    declare_leaves links₁.steady (links₁.moves.slots ▸ here) owner ty {} fun s' declares =>
      sort.linked s' m (sort.site m ▸ declares)
  rw [sort.site] at declared
  refine declared.bind ?_
  rintro i s₂ ⟨links₂, names⟩
  exact .pure ⟨links₁.close links₂ outside, names⟩

/-- Members are linked, and each is declared under its name. -/
theorem resolveMembers_leaves (globals : ctx.globals = itemNames items)
    (sort : MemberSort node kind) (owner : DescriptorId) (typeParams : List String)
    (duplicate : String → String) (members : List (Typed Site)) (seen : List String)
    (steady : Steady items ctx s) (placed : Placed (memberNodes node members) s) :
    Leaves (resolveMembers ctx owner kind typeParams duplicate seen members) s fun ps s' =>
      Links items ctx (memberNodes node members) s s' ∧
        List.Forall₂ (fun m p => Names s'.descriptors p.2 m.name) members ps := by
  induction members generalizing seen s with
  | nil => exact ⟨steady.refl, .nil⟩
  | cons m rest ih =>
      rw [memberNodes, List.flatMap_cons] at placed ⊢
      rw [resolveMembers_cons]
      refine (judge_leaves steady _).bind ?_
      rintro _ s₁ ⟨links₁, _⟩
      obtain ⟨first, later, apart⟩ := (placed.of_slots links₁.moves.slots).of_append
      refine (enterMember_leaves globals sort owner typeParams links₁.steady first).bind ?_
      rintro p s₂ ⟨links₂, names₂⟩
      refine (ih (m.name :: seen) links₂.steady (later.of_slots links₂.moves.slots)).bind ?_
      rintro ps s₃ ⟨links₃, names₃⟩
      exact .pure ⟨links₁.after (links₂.append links₃ apart),
        .cons (names₂.keeps links₃.moves.table) names₃⟩

end Members

/-! ## Signatures -/

/-- The locals in scope have the names under which they are found. -/
def InScope (D : Descriptor.Table) (scope : Scope) : Prop :=
  ∀ entry ∈ scope, Names D entry.2 entry.1

theorem InScope.keeps {D D' : Descriptor.Table} {scope : Scope} (inScope : InScope D scope)
    (kept : Keeps D D') : InScope D' scope :=
  fun entry member => (inScope entry member).keeps kept

/-- Members whose descriptors have their names are a scope. -/
theorem inScope_members {D : Descriptor.Table} {members : List (Typed Site)}
    {ps : List (Descriptor.Param × DescriptorId)}
    (names : List.Forall₂ (fun m p => Names D p.2 m.name) members ps) :
    InScope D (((members.map (·.name)).zip (ps.map (·.2))).reverse) := by
  unfold InScope
  simp only [List.mem_reverse]
  induction names with
  | nil => simp
  | cons first _ ih =>
      rw [List.map_cons, List.map_cons, List.zip_cons_cons, List.forall_mem_cons]
      exact ⟨first, ih⟩

/-- An item is linked to the descriptor that it is numbered with. -/
theorem enterSignature_leaves (steady : Steady items ctx s) {i : DescriptorId} {item : Item Site}
    (there : items[i]? = some item) {f : Descriptor → Descriptor}
    (same : ∀ d, (f d).name = d.name ∧ (f d).kind = d.kind ∧ (f d).origin = d.origin) (ty : Ty)
    (bound : item.site.id < s.bindings.slots.size) :
    Leaves (enterSignature i item.site f ty) s fun _ s' => Links items ctx [.item item] s s' := by
  have kept := keeps_modify s.descriptors i same
  have signed : Links items ctx [] s { s with descriptors := s.descriptors.modify i f } := by
    refine steady.of_same kept rfl (.of_eq rfl) rfl rfl fun j d' found => ?_
    have found : (s.descriptors.modify i f).get? j = some d' := found
    rw [get?_modify] at found
    split at found
    · rename_i is
      subst is
      obtain ⟨d, entry, _, _, origin⟩ := steady.items i item there
      rw [entry] at found
      obtain rfl := Option.some.inj found
      exact .source ((same d).2.2.trans origin)
    · exact (steady.stems j d' found).keeps kept
  refine (modify_leaves _ s).bind ?_
  rintro _ _ rfl
  have describes := signed.steady.items i item there
  obtain ⟨d, entry, _⟩ := id describes
  refine (bind_leaves (n := .item item) signed.steady bound (known_declaration entry ty) ?_).mono ?_
  · exact fun s' bound table _ => ⟨_, i, bound, rfl, table ▸ describes⟩
  · exact fun _ _ links => signed.after links

/-- The type that a function returns is linked. -/
theorem resolveReturns_leaves (globals : ctx.globals = itemNames items)
    (steady : Steady items ctx s) (typeParams : List String) {returns : Option (TypeRef Site)}
    (placed : Placed (returns.toList.map .typeRef) s) :
    Leaves (resolveReturns ctx typeParams returns) s fun _ s' =>
      Links items ctx (returns.toList.map .typeRef) s s' := by
  cases returns with
  | none => exact steady.refl
  | some t => exact resolveType_leaves globals steady typeParams placed.of_cons.1

/-- What an item says about itself is linked, and its parameters are found under their names. -/
theorem resolveSignature_leaves (globals : ctx.globals = itemNames items)
    (steady : Steady items ctx s) {i : DescriptorId} {item : Item Site}
    (there : items[i]? = some item) (placed : Placed (headNodes item) s) :
    Leaves (resolveSignature ctx i item) s fun params s' =>
      Links items ctx (headNodes item) s s' ∧ InScope s'.descriptors (paramScope item params) := by
  cases item with
  | cls site name fields =>
      rw [headNodes] at placed ⊢
      obtain ⟨here, outside, members⟩ := placed.of_cons
      rw [resolveSignature_cls]
      refine (resolveMembers_leaves globals fieldSort i [] _ fields [] steady members).bind ?_
      rintro ps s₁ ⟨links₁, _⟩
      refine (enterSignature_leaves links₁.steady there (fun d => ⟨by rfl, by rfl, by rfl⟩) (.cls i)
        (links₁.moves.slots ▸ here)).bind ?_
      intro _ s₂ links₂
      exact .pure ⟨links₁.close links₂ outside, by simp [InScope, paramScope]⟩
  | function site name typeParams params returns body =>
      rw [headNodes] at placed ⊢
      obtain ⟨here, outside, rest⟩ := placed.of_cons
      obtain ⟨members, returned, apart⟩ := rest.of_append
      rw [resolveSignature_function]
      refine (resolveMembers_leaves globals paramSort i typeParams _ params [] steady members).bind ?_
      rintro ps s₁ ⟨links₁, names₁⟩
      refine (resolveReturns_leaves globals links₁.steady typeParams
        (returned.of_slots links₁.moves.slots)).bind ?_
      intro result s₂ links₂
      have links := links₁.append links₂ apart
      refine (enterSignature_leaves links₂.steady there (fun d => ⟨by rfl, by rfl, by rfl⟩) result
        (links.moves.slots ▸ here)).bind ?_
      intro _ s₃ links₃
      refine .pure ⟨links.close links₃ outside, ?_⟩
      exact (inScope_members names₁).keeps (links₂.moves.table.trans links₃.moves.table)

/-- All that is outside of bodies is linked, and the parameters of each item are a scope. -/
theorem resolveSignatures_leaves (globals : ctx.globals = itemNames items) {rest : List (Item Site)}
    {first : DescriptorId} (suffix : Suffix items first rest) (steady : Steady items ctx s)
    (placed : Placed (rest.flatMap headNodes) s) :
    Leaves (resolveSignatures ctx first rest) s fun more s' =>
      Links items ctx (rest.flatMap headNodes) s s' ∧
        List.Forall₂ (fun item params => InScope s'.descriptors (paramScope item params)) rest more := by
  induction rest generalizing first s with
  | nil => exact ⟨steady.refl, .nil⟩
  | cons item rest ih =>
      rw [List.flatMap_cons] at placed ⊢
      obtain ⟨here, later, apart⟩ := placed.of_append
      refine (resolveSignature_leaves globals steady suffix.head here).bind ?_
      rintro params s₁ ⟨links₁, inScope₁⟩
      refine (ih suffix.tail links₁.steady (later.of_slots links₁.moves.slots)).bind ?_
      rintro more s₂ ⟨links₂, inScope₂⟩
      exact .pure ⟨links₁.append links₂ apart, .cons (inScope₁.keeps links₂.moves.table) inScope₂⟩

/-! ## Expressions -/

/-- Resolution of an expression links all that is in it. -/
def ExprLinks (items : List (Item Site)) (ctx : Context) (scope : Scope) (e : Expr Site) : Prop :=
  ∀ s : State, Steady items ctx s → InScope s.descriptors scope → Placed e.nodes s →
    Leaves (resolveExpr ctx scope e) s fun _ s' => Links items ctx e.nodes s s'

/-- The same for arguments. -/
def ArgumentsLink (items : List (Item Site)) (ctx : Context) (scope : Scope)
    (es : List (Expr Site)) : Prop :=
  ∀ s : State, Steady items ctx s → InScope s.descriptors scope →
    Placed (Source.exprListNodes es) s →
    Leaves (resolveArguments ctx scope es) s fun _ s' =>
      Links items ctx (Source.exprListNodes es) s s'

section Expressions

variable {scope : Scope}

/-- Binding an expression that uses no name links it. -/
theorem finishExpr_leaves (steady : Steady items ctx s) {e : Expr Site} {b : Binding}
    (bound : e.site.id < s.bindings.slots.size) (known : Known s.descriptors b)
    (linked : ∀ s : State, (s.bindings.get? e.site.id).isSome = true → Linked s (.expr e)) :
    Leaves (finishExpr e.site b) s fun _ s' => Links items ctx [.expr e] s s' := by
  refine (bind_leaves (n := .expr e) steady bound known ?_).bind ?_
  · exact fun s' there _ _ => linked s' (Option.isSome_of_eq_some there)
  · exact fun _ _ links => .pure links

theorem constant_links {e : Expr Site} {ty : Ty} (nodes : e.nodes = [.expr e])
    (resolved : resolveExpr ctx scope e = finishExpr e.site (.typed ty))
    (linked : ∀ s : State, (s.bindings.get? e.site.id).isSome = true → Linked s (.expr e)) :
    ExprLinks items ctx scope e := by
  intro s steady _ placed
  rw [nodes] at placed ⊢
  rw [resolved]
  exact finishExpr_leaves steady placed.of_cons.1 (known_typed _ ty) linked

/-- What a name leads to, be it a local or something outside of functions, has that name. -/
theorem InScope.means {D : Descriptor.Table} (inScope : InScope D scope) {name : String}
    {global : Option DescriptorId} (names : ∀ i ∈ global, Names D i name) :
    ∀ i ∈ (scope.lookup name).or global, Names D i name := by
  intro i member
  cases looked : scope.lookup name with
  | some j =>
      rw [looked, Option.some_or] at member
      obtain rfl := Option.some.inj member
      exact inScope _ (mem_of_lookup looked)
  | none =>
      rw [looked, Option.none_or] at member
      exact names i member

theorem Names.known {D : Descriptor.Table} {name : String} {found : Option DescriptorId}
    (names : ∀ i ∈ found, Names D i name) : ∀ i ∈ found, ∃ d, D.get? i = some d := by
  intro i member
  obtain ⟨d, entry, _⟩ := names i member
  exact ⟨d, entry⟩

/-- A name of a value is linked to a local or to what it stands for outside. -/
theorem ref_links (globals : ctx.globals = itemNames items) (site : Site) (name : String) :
    ExprLinks items ctx scope (.ref site name) := by
  intro s steady inScope placed
  rw [resolveExpr_ref]
  refine resolveUse_leaves (n := .expr (.ref site name)) globals steady placed.of_cons.1 ?_
    fun _ uses => uses
  intro found D kept names
  have means := (inScope.keeps kept).means names
  exact ⟨_, means, valueVerdict_points (Names.known means) site name⟩

/-- A callee is linked to what it stands for outside functions. -/
theorem call_links (globals : ctx.globals = itemNames items) (site : Site) (callee : String)
    {args : List (Expr Site)} (linked : ArgumentsLink items ctx scope args) :
    ExprLinks items ctx scope (.call site callee args) := by
  intro s steady inScope placed
  rw [Expr.nodes] at placed ⊢
  obtain ⟨here, outside, inner⟩ := placed.of_cons
  rw [resolveExpr_call]
  refine (linked s steady inScope inner).bind ?_
  intro arguments s₁ links₁
  refine (resolveUse_leaves (n := .expr (.call site callee args)) globals links₁.steady
    (links₁.moves.slots ▸ here) ?_ fun _ uses => uses).mono ?_
  · exact fun found D _ names =>
      ⟨found, names, callVerdict_points (Names.known names) site callee arguments⟩
  · exact fun _ _ links₂ => links₁.close links₂ outside

/-- An operation is linked with its operands. -/
theorem binary_links (site : Site) (op : Operator) {lhs rhs : Expr Site}
    (left : ExprLinks items ctx scope lhs) (right : ExprLinks items ctx scope rhs) :
    ExprLinks items ctx scope (.binary site op lhs rhs) := by
  intro s steady inScope placed
  rw [Expr.nodes] at placed ⊢
  obtain ⟨here, outside, inner⟩ := placed.of_cons
  obtain ⟨leftPlaced, rightPlaced, apart⟩ := inner.of_append
  rw [resolveExpr_binary]
  refine (left s steady inScope leftPlaced).bind ?_
  intro l s₁ links₁
  refine (right s₁ links₁.steady (inScope.keeps links₁.moves.table)
    (rightPlaced.of_slots links₁.moves.slots)).bind ?_
  intro r s₂ links₂
  refine (judge_leaves links₂.steady _).bind ?_
  rintro _ s₃ ⟨links₃, _, _, rfl⟩
  have links := (links₁.append links₂ apart).before links₃
  refine (finishExpr_leaves (e := .binary site op lhs rhs) links₃.steady (links.moves.slots ▸ here)
    (known_binary _ site op l r _) fun _ there => there).mono ?_
  exact fun _ _ finished => links.close finished outside

/-- Arguments are linked if the first one is and the others are. -/
theorem arguments_cons_link {e : Expr Site} {rest : List (Expr Site)}
    (first : ExprLinks items ctx scope e) (later : ArgumentsLink items ctx scope rest) :
    ArgumentsLink items ctx scope (e :: rest) := by
  intro s steady inScope placed
  rw [Source.exprListNodes] at placed ⊢
  obtain ⟨here, there, apart⟩ := placed.of_append
  refine (first s steady inScope here).bind ?_
  intro ty s₁ links₁
  refine (later s₁ links₁.steady (inScope.keeps links₁.moves.table)
    (there.of_slots links₁.moves.slots)).bind ?_
  exact fun more s₂ links₂ => .pure (links₁.append links₂ apart)

mutual

/-- Every expression is linked with all that is in it, by recursion on it. -/
theorem resolveExpr_links (globals : ctx.globals = itemNames items) (e : Expr Site) :
    ExprLinks items ctx scope e := by
  cases e with
  | int site n => exact constant_links rfl rfl fun _ there => there
  | bool site b => exact constant_links rfl rfl fun _ there => there
  | str site t => exact constant_links rfl rfl fun _ there => there
  | ref site name => exact ref_links globals site name
  | call site callee args =>
      exact call_links globals site callee (resolveArguments_link globals args)
  | binary site op lhs rhs =>
      exact binary_links site op (resolveExpr_links globals lhs) (resolveExpr_links globals rhs)

theorem resolveArguments_link (globals : ctx.globals = itemNames items) (es : List (Expr Site)) :
    ArgumentsLink items ctx scope es := by
  cases es with
  | nil => exact fun s steady _ _ => steady.refl
  | cons e rest =>
      exact arguments_cons_link (resolveExpr_links globals e) (resolveArguments_link globals rest)

end

end Expressions

/-! ## Statements -/

section Statements

variable {frame : Frame} {scope : Scope}

/-- A stated type is linked. -/
theorem statedType_leaves (globals : ctx.globals = itemNames items) (steady : Steady items ctx s)
    {type : Option (TypeRef Site)} (placed : Placed (type.toList.map .typeRef) s) :
    Leaves (statedType ctx frame type) s fun _ s' =>
      Links items ctx (type.toList.map .typeRef) s s' := by
  cases type with
  | none => exact steady.refl
  | some t => exact resolveType_leaves globals steady frame.typeParams placed.of_cons.1

/-- A local is linked to a descriptor of its own and found under its name. -/
theorem declareLocal_leaves (steady : Steady items ctx s) (inScope : InScope s.descriptors scope)
    {site : Site} (bound : site.id < s.bindings.slots.size) (name : String)
    (type : Option (TypeRef Site)) (value : Expr Site) (found : Ty) (stated : Option Ty) :
    Leaves (declareLocal ctx frame scope site name value found stated) s fun next s' =>
      Links items ctx [.stmt (.letBind site name type value)] s s' ∧ InScope s'.descriptors next := by
  refine (judge_leaves steady _).bind ?_
  rintro _ s₁ ⟨links₁, _⟩
  refine (declare_leaves (n := .stmt (.letBind site name type value)) links₁.steady
    (links₁.moves.slots ▸ bound) frame.function _ _ fun _ declares => declares).bind ?_
  rintro i s₂ ⟨links₂, names⟩
  refine .pure ⟨links₁.after links₂, ?_⟩
  unfold InScope
  rw [List.forall_mem_cons]
  exact ⟨names, inScope.keeps (links₁.moves.table.trans links₂.moves.table)⟩

theorem checkReturn_leaves (steady : Steady items ctx s) (place : Site) (found : Ty) :
    Leaves (checkReturn ctx frame scope place found) s fun next s' =>
      Links items ctx [] s s' ∧ next = scope :=
  (judge_leaves steady _).mono fun _ _ post =>
    ⟨post.1, post.2.2.2.trans (returnVerdict_value frame scope place found _)⟩

/-- Resolution of a statement links all that is in it. -/
theorem resolveStmt_leaves (globals : ctx.globals = itemNames items) (stmt : Stmt Site)
    (steady : Steady items ctx s) (inScope : InScope s.descriptors scope)
    (placed : Placed stmt.nodes s) :
    Leaves (resolveStmt ctx frame scope stmt) s fun next s' =>
      Links items ctx stmt.nodes s s' ∧ InScope s'.descriptors next := by
  cases stmt with
  | letBind site name type value =>
      rw [resolveStmt_letBind]
      obtain ⟨here, outside, inner⟩ := placed.of_cons
      obtain ⟨typePlaced, valuePlaced, apart⟩ := inner.of_append
      refine (resolveExpr_links globals value s steady inScope valuePlaced).bind ?_
      intro found s₁ links₁
      refine (statedType_leaves globals links₁.steady
        (typePlaced.of_slots links₁.moves.slots)).bind ?_
      intro stated s₂ links₂
      have links : Links items ctx (type.toList.map .typeRef ++ value.nodes) s s₂ :=
        (links₁.append links₂ fun id value type => apart id type value).of_mem_iff
          (by simp [or_comm])
      refine (declareLocal_leaves links₂.steady (inScope.keeps links.moves.table)
        (links.moves.slots ▸ here) name type value found stated).mono ?_
      exact fun next s₃ post => ⟨links.close post.1 outside, post.2⟩
  | ret site value =>
      rw [resolveStmt_ret]
      cases value with
      | none =>
          refine (checkReturn_leaves steady site .unit).mono ?_
          rintro _ s₁ ⟨links, rfl⟩
          exact ⟨links.cons_idle fun _ => trivial, inScope.keeps links.moves.table⟩
      | some value =>
          have nodes : (Stmt.ret site (some value)).nodes =
              .stmt (.ret site (some value)) :: value.nodes := by
            simp [Stmt.nodes]
          rw [nodes] at placed ⊢
          refine (resolveExpr_links globals value s steady inScope placed.of_cons.2.2).bind ?_
          intro found s₁ links₁
          refine (checkReturn_leaves links₁.steady value.site found).mono ?_
          rintro _ s₂ ⟨links₂, rfl⟩
          have links := links₁.before links₂
          exact ⟨links.cons_idle fun _ => trivial, inScope.keeps links.moves.table⟩
  | eval site value =>
      refine (resolveExpr_links globals value s steady inScope placed.of_cons.2.2).bind ?_
      intro found s₁ links
      exact .pure ⟨links.cons_idle fun _ => trivial, inScope.keeps links.moves.table⟩

/-- Statements are linked one after another, each in the scope that the ones before it leave. -/
theorem resolveStmts_leaves (globals : ctx.globals = itemNames items) (stmts : List (Stmt Site))
    {scope : Scope} {s : State} (steady : Steady items ctx s) (inScope : InScope s.descriptors scope)
    (placed : Placed (stmts.flatMap Stmt.nodes) s) :
    Leaves (resolveStmts ctx frame scope stmts) s fun _ s' =>
      Links items ctx (stmts.flatMap Stmt.nodes) s s' := by
  induction stmts generalizing scope s with
  | nil => exact steady.refl
  | cons stmt rest ih =>
      rw [List.flatMap_cons] at placed ⊢
      obtain ⟨here, later, apart⟩ := placed.of_append
      refine (resolveStmt_leaves globals stmt steady inScope here).bind ?_
      rintro next s₁ ⟨links₁, inScope₁⟩
      refine (ih links₁.steady inScope₁ (later.of_slots links₁.moves.slots)).mono ?_
      exact fun _ s₂ links₂ => links₁.append links₂ apart

end Statements

/-! ## Units -/

/-- The body of an item is linked, with the parameters in scope. -/
theorem resolveBody_leaves (globals : ctx.globals = itemNames items) (i : DescriptorId)
    {item : Item Site} {params : List DescriptorId} (steady : Steady items ctx s)
    (inScope : InScope s.descriptors (paramScope item params)) (placed : Placed (bodyNodes item) s) :
    Leaves (resolveBody ctx i params item) s fun _ s' => Links items ctx (bodyNodes item) s s' := by
  cases item with
  | cls site name fields => exact steady.refl
  | function site name typeParams params' returns body =>
      rw [resolveBody, descriptor?_eq ctx]
      refine (judge_leaves steady _).bind ?_
      rintro _ s₁ ⟨links₁, _⟩
      refine (resolveStmts_leaves globals body links₁.steady (inScope.keeps links₁.moves.table)
        (placed.of_slots links₁.moves.slots)).mono ?_
      exact fun _ _ links₂ => links₁.after links₂

/-- All bodies are linked. -/
theorem resolveBodies_leaves (globals : ctx.globals = itemNames items) {rest : List (Item Site)}
    {more : List (List DescriptorId)} (first : DescriptorId) (steady : Steady items ctx s)
    (inScope : List.Forall₂ (fun item params => InScope s.descriptors (paramScope item params))
      rest more)
    (placed : Placed (rest.flatMap bodyNodes) s) :
    Leaves (resolveBodies ctx first (rest.zip more)) s fun _ s' =>
      Links items ctx (rest.flatMap bodyNodes) s s' := by
  induction rest generalizing first more s with
  | nil =>
      cases inScope
      exact steady.refl
  | cons item rest ih =>
      cases inScope with
      | cons here later =>
          rw [List.flatMap_cons] at placed ⊢
          obtain ⟨mine, others, apart⟩ := placed.of_append
          refine (resolveBody_leaves globals first steady here mine).bind ?_
          intro _ s₁ links₁
          have later := later.imp fun _ _ inScope => inScope.keeps links₁.moves.table
          refine (ih (first + 1) links₁.steady later (others.of_slots links₁.moves.slots)).mono ?_
          exact fun _ s₂ links₂ => links₁.append links₂ apart

/-- Repeated names are reported, and nothing is linked. -/
theorem reportDuplicates_leaves (steady : Steady items ctx s) (seen : List String)
    (rest : List (Item Site)) :
    Leaves (reportDuplicates ctx seen rest) s fun _ s' => Links items ctx [] s s' := by
  induction rest generalizing seen s with
  | nil => exact steady.refl
  | cons item rest ih =>
      rw [reportDuplicates_cons]
      refine (judge_leaves steady _).bind ?_
      rintro _ s₁ ⟨links₁, _⟩
      exact (ih links₁.steady _).mono fun _ _ links => links₁.after links

theorem heads_bodies_perm (items : List (Item Site)) :
    (items.flatMap headNodes ++ items.flatMap bodyNodes).Perm (items.flatMap Item.nodes) := by
  refine (List.flatMap_append_perm _ _ _).trans (.of_eq ?_)
  exact (List.flatMap_congr fun item _ => nodes_eq item).symm

/-- Resolution of a unit links all its constructs. -/
theorem resolveItems_leaves (globals : ctx.globals = itemNames items) (steady : Steady items ctx s)
    (placed : Placed (items.flatMap headNodes ++ items.flatMap bodyNodes) s) :
    Leaves (resolveItems ctx items) s fun _ s' =>
      Links items ctx (items.flatMap Item.nodes) s s' := by
  refine (reportDuplicates_leaves steady [] items).bind ?_
  intro _ s₁ links₁
  obtain ⟨heads, bodies, apart⟩ := (placed.of_slots links₁.moves.slots).of_append
  refine (resolveSignatures_leaves globals (.all items) links₁.steady heads).bind ?_
  rintro params s₂ ⟨links₂, inScope⟩
  refine (resolveBodies_leaves globals 0 links₂.steady inScope
    (bodies.of_slots links₂.moves.slots)).mono ?_
  intro _ s₃ links₃
  exact (links₁.after (links₂.append links₃ apart)).of_mem_iff fun _ =>
    (heads_bodies_perm items).mem_iff

/-- At the start the table describes the items under their own numbers. -/
theorem get?_itemDescriptors (items : List (Item Site)) (i : DescriptorId) :
    (itemDescriptors items).get? i = items[i]?.map fun item =>
      { name := item.name, kind := itemKind item, origin := .source item.site.id } := by
  unfold Descriptor.Table.get? itemDescriptors
  rw [List.getElem?_toArray, List.getElem?_map]

theorem get?_ofSize (n : Nat) (id : SiteId) : (Bindings.ofSize n).get? id = none := by
  unfold Bindings.get? Bindings.ofSize
  rw [Array.getElem?_replicate]
  split <;> rfl

/-- What the resolution of a unit starts with. -/
theorem steady_start (tree : Tree) (ctx : Context) :
    Steady tree.items ctx
      { descriptors := itemDescriptors tree.items, bindings := .ofSize tree.size } := by
  refine ⟨fun _ => rfl, fun i item there => ?_, fun _ _ _ offered => (by cases offered),
    fun i d found => ?_, fun id b there => ?_⟩
  · have entry := get?_itemDescriptors tree.items i
    rw [there] at entry
    exact ⟨_, entry, rfl, rfl, rfl⟩
  · rw [get?_itemDescriptors] at found
    obtain ⟨item, _, rfl⟩ := Option.map_eq_some_iff.mp found
    exact .source rfl
  · rw [get?_ofSize] at there
    cases there

/-- The constructs of an assembled unit have places of their own. -/
theorem placed_start {tree : Tree}
    (numbers : tree.nodes.map Source.Node.id = List.range tree.size) :
    Placed (tree.items.flatMap headNodes ++ tree.items.flatMap bodyNodes)
      { descriptors := itemDescriptors tree.items, bindings := .ofSize tree.size } := by
  have ids := (heads_bodies_perm tree.items).map Source.Node.id
  rw [show tree.items.flatMap Item.nodes = tree.nodes from rfl, numbers] at ids
  refine ⟨ids.nodup_iff.mpr List.nodup_range, fun id member => ?_⟩
  show id < (Array.replicate tree.size none).size
  rw [Array.size_replicate]
  exact List.mem_range.mp (ids.mem_iff.mp member)

/-- Whatever takes part, the constructs of an assembled unit are linked when it is resolved. -/
theorem run_links {tree : Tree}
    (numbers : tree.nodes.map Source.Node.id = List.range tree.size) (registry : Registry) :
    Links tree.items ⟨tree.unit, registry.resolvers, itemNames tree.items⟩ tree.nodes
      { descriptors := itemDescriptors tree.items, bindings := .ofSize tree.size }
      (run tree registry) := by
  exact resolveItems_leaves rfl (steady_start tree _) (placed_start numbers)

/-! ## Complete bindings -/

section Checked

variable {b : Bindings} {D : Descriptor.Table}

/-- A construct passes the last check if it is bound where it has to be and its binding refers to the
table. -/
theorem checkNode_eq_ok {n : Source.Node}
    (required : Bindings.isRequired n = true → (b.get? n.id).isSome = true)
    (known : ∀ binding, b.get? n.id = some binding → Known D binding) :
    b.checkNode D n = .ok () := by
  unfold Bindings.checkNode
  cases there : b.get? n.id with
  | none =>
      rw [there] at required
      exact if_neg fun is => Bool.false_ne_true (required is)
  | some binding =>
      obtain ⟨target, declares⟩ := known binding there
      have found : Bindings.unknownDescriptor? D binding = none := by
        unfold Bindings.unknownDescriptor?
        rw [List.find?_eq_none]
        intro i member
        rw [List.mem_append, Option.mem_toList, Option.mem_toList] at member
        rcases member with here | there
        · simp [target i here]
        · simp [declares i there]
      dsimp only
      rw [found]

/-- Constructs pass the last check if each one does. -/
theorem checkNodes_eq_ok {ns : List Source.Node} (checked : ∀ n ∈ ns, b.checkNode D n = .ok ()) :
    ns.forM (b.checkNode D) = .ok () := by
  induction ns with
  | nil => rfl
  | cons n rest ih =>
      show (b.checkNode D n >>= fun _ => rest.forM (b.checkNode D)) = _
      rw [checked n List.mem_cons_self]
      exact ih fun n member => checked n (List.mem_cons_of_mem _ member)

end Checked

/-- A linked construct is bound if it is of a kind that has to be. -/
theorem Linked.required {n : Source.Node} (linked : Linked s n)
    (required : Bindings.isRequired n = true) : (s.bindings.get? n.id).isSome = true := by
  have declares : ∀ {site : Site} {name : String} {kind : Descriptor.Kind},
      Declares s site name kind → (s.bindings.get? site.id).isSome = true := by
    rintro site name kind ⟨b, i, there, _⟩
    exact Option.isSome_of_eq_some there
  have uses : ∀ {site : Site} {name : String}, Uses s site name →
      (s.bindings.get? site.id).isSome = true := by
    rintro site name ⟨b, there, _⟩
    exact Option.isSome_of_eq_some there
  cases n with
  | item i => exact declares linked
  | field f => exact declares linked
  | param p => exact declares linked
  | stmt stmt =>
      cases stmt with
      | letBind site name type value => exact declares linked
      | ret site value => cases required
      | eval site value => cases required
  | typeRef t =>
      rcases linked with ⟨b, there, _⟩ | linked
      · exact Option.isSome_of_eq_some there
      · exact uses linked
  | expr e =>
      cases e with
      | ref site name => exact uses linked
      | call site callee args => exact uses linked
      | int site n => exact linked
      | bool site b => exact linked
      | str site t => exact linked
      | binary site op lhs rhs => exact linked

/-- The bindings of a resolved unit are complete, whatever was reported. -/
theorem Links.freeze_eq {tree : Tree} {s' : State} (links : Links items ctx tree.nodes s s') :
    s'.bindings.freeze tree s'.descriptors = .ok s'.bindings := by
  have checked : ∀ n ∈ tree.nodes, s'.bindings.checkNode s'.descriptors n = .ok () :=
    fun n member => checkNode_eq_ok (links.linked n member).required (links.steady.known n.id)
  unfold Bindings.freeze
  rw [checkNodes_eq_ok checked]

end StagedCompiler.Resolution
