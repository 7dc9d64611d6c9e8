import StagedCompiler.Catalog.Accessors
import StagedCompiler.Proofs.Analysis.Matching
import StagedCompiler.Proofs.Analysis.Notes

/-!
# What resolution notes about a unit

The exact bindings that a run without diagnostics leaves behind for expressions (`ExprNoted`),
statements (`StmtNoted`) and whole units (`UnitNoted`), whatever resolvers take part.  `run_noted`
says that every such run leaves them.
-/

namespace StagedCompiler.Resolution

open Source (Typed Item TypeRef Site SiteId Expr Stmt)
open Typing (Fits)

variable {items : List (Item Site)} {ctx : Context} {s s' : State}

/-! ## Expressions -/

/-- What a name of a value means: the latest local of the name, or else what it leads to outside. -/
inductive Means (ctx : Context) (D : Descriptor.Table) (scope : Scope) (name : String)
    (i : DescriptorId) : Prop
  | inner : scope.lookup name = some i → Means ctx D scope name i
  | outer : scope.lookup name = none → Leads ctx D name .value i → Means ctx D scope name i

mutual

/-- What an expression and everything in it is bound to, and its type. -/
inductive ExprNoted (ctx : Context) (b : Bindings) (D : Descriptor.Table) (scope : Scope) :
    Expr Site → Ty → Prop
  | int {site : Site} {n : Int64} : b.get? site.id = some (.typed .int) →
    ExprNoted ctx b D scope (.int site n) .int
  | bool {site : Site} {t : Bool} : b.get? site.id = some (.typed .bool) →
    ExprNoted ctx b D scope (.bool site t) .bool
  | str {site : Site} {t : String} : b.get? site.id = some (.typed .str) →
    ExprNoted ctx b D scope (.str site t) .str
  | ref {site : Site} {name : String} {i : DescriptorId} {d : Descriptor} :
    Means ctx D scope name i → D.get? i = some d → d.isCallable = false →
    b.get? site.id = some ((Binding.reference d.ty i).withFlags (syntheticFlag d)) →
    ExprNoted ctx b D scope (.ref site name) d.ty
  | call {site : Site} {callee : String} {args : List (Expr Site)} {i : DescriptorId}
      {d : Descriptor} {tys : List Ty} {fixed : Typing.Env} :
    Leads ctx D callee .call i → D.get? i = some d → d.isCallable = true →
    ExprsNoted ctx b D scope args tys → Fits [] tys (d.params.map (·.ty)) fixed →
    b.get? site.id =
      some ((Binding.reference (resultTy fixed d.ty) i).withFlags (syntheticFlag d)) →
    ExprNoted ctx b D scope (.call site callee args) (resultTy fixed d.ty)
  | binary {site : Site} {op : Operator} {lhs rhs : Expr Site} {l r : Ty} :
    ExprNoted ctx b D scope lhs l → ExprNoted ctx b D scope rhs r →
    operandsFit op l r = true → b.get? site.id = some (.typed (operatorTy op)) →
    ExprNoted ctx b D scope (.binary site op lhs rhs) (operatorTy op)

/-- The same for expressions one by one. -/
inductive ExprsNoted (ctx : Context) (b : Bindings) (D : Descriptor.Table) (scope : Scope) :
    List (Expr Site) → List Ty → Prop
  | nil : ExprsNoted ctx b D scope [] []
  | cons {e : Expr Site} {rest : List (Expr Site)} {ty : Ty} {tys : List Ty} :
    ExprNoted ctx b D scope e ty → ExprsNoted ctx b D scope rest tys →
    ExprsNoted ctx b D scope (e :: rest) (ty :: tys)

end

section Frames

variable {touched : List SiteId} {scope : Scope}

/-- A name keeps its meaning, whatever is described and bound later. -/
theorem Means.later {name : String} {i : DescriptorId} (means : Means ctx s.descriptors scope name i)
    (later : Later touched s s') : Means ctx s'.descriptors scope name i := by
  cases means with
  | inner found => exact .inner found
  | outer absent leads => exact .outer absent (leads.later later)

mutual

/-- What is noted stays while work goes on elsewhere. -/
theorem ExprNoted.later {e : Expr Site} {ty : Ty}
    (noted : ExprNoted ctx s.bindings s.descriptors scope e ty) (later : Later touched s s')
    (apart : ∀ id ∈ e.nodes.map Source.Node.id, id ∉ touched) :
    ExprNoted ctx s'.bindings s'.descriptors scope e ty := by
  have here : s'.bindings.get? e.site.id = s.bindings.get? e.site.id := by
    refine later.frame _ (apart _ ?_)
    cases e <;> exact List.mem_cons_self
  cases noted with
  | int there => exact .int (here.trans there)
  | bool there => exact .bool (here.trans there)
  | str there => exact .str (here.trans there)
  | ref means entry value there =>
      exact .ref (means.later later) (later.table _ _ entry) value (here.trans there)
  | call leads entry callable args fits there =>
      rw [Expr.nodes, List.map_cons, List.forall_mem_cons] at apart
      exact .call (leads.later later) (later.table _ _ entry) callable (args.later later apart.2) fits
        (here.trans there)
  | binary left right fit there =>
      rw [Expr.nodes, List.map_cons, List.forall_mem_cons, List.map_append,
        List.forall_mem_append] at apart
      exact .binary (left.later later apart.2.1) (right.later later apart.2.2) fit (here.trans there)

/-- What is noted about arguments stays so while other constructs are bound. -/
theorem ExprsNoted.later {es : List (Expr Site)} {tys : List Ty}
    (noted : ExprsNoted ctx s.bindings s.descriptors scope es tys) (later : Later touched s s')
    (apart : ∀ id ∈ (Source.exprListNodes es).map Source.Node.id, id ∉ touched) :
    ExprsNoted ctx s'.bindings s'.descriptors scope es tys := by
  cases noted with
  | nil => exact .nil
  | cons first rest =>
      rw [Source.exprListNodes, List.map_append, List.forall_mem_append] at apart
      exact .cons (first.later later apart.1) (rest.later later apart.2)

end

end Frames

/-! ## No expression is of the type of what could not be resolved -/

/-- Type parameters are fixed to types of arguments. -/
theorem forall_fixed_of_fits {p : Ty → Prop} {fixed final : Typing.Env} {args params : List Ty}
    (fits : Fits fixed args params final) (before : ∀ entry ∈ fixed, p entry.2)
    (all : ∀ ty ∈ args, p ty) : ∀ entry ∈ final, p entry.2 := by
  induction fits with
  | nil => exact before
  | plain _ _ _ ih | later _ _ _ ih =>
      rw [List.forall_mem_cons] at all
      exact ih before all.2
  | first _ _ ih =>
      rw [List.forall_mem_cons] at all
      refine ih ?_ all.2
      rw [List.forall_mem_cons]
      exact ⟨all.1, before⟩

/-- A result type without errors has none if type parameters stand for types without errors. -/
theorem resultTy_ne_error {fixed : Typing.Env} {ty : Ty} (proper : ty ≠ .error)
    (all : ∀ entry ∈ fixed, entry.2 ≠ .error) : resultTy fixed ty ≠ .error := by
  have given := resultTy_spec fixed ty
  generalize resultTy fixed ty = result at given
  cases given with
  | plain _ => exact proper
  | free _ => exact proper
  | fixed found =>
      exact all _ (mem_of_lookup found)

theorem operatorTy_ne_error (op : Operator) : operatorTy op ≠ .error := by
  cases op <;> simp [operatorTy, Operator.isComparison]

section Proper

variable {b : Bindings} {D : Descriptor.Table} {scope : Scope}

mutual

/-- A noted expression has a type without errors if all descriptors have, by induction on what is
noted. -/
theorem ExprNoted.ne_error {e : Expr Site} {ty : Ty} (noted : ExprNoted ctx b D scope e ty)
    (types : Proper D) : ty ≠ .error := by
  cases noted with
  | int _ => simp
  | bool _ => simp
  | str _ => simp
  | ref _ entry _ _ => exact types _ _ entry
  | call _ entry _ args fits _ =>
      exact resultTy_ne_error (types _ _ entry)
        (forall_fixed_of_fits fits (by simp) (args.ne_error types))
  | binary _ _ _ _ => exact operatorTy_ne_error _

theorem ExprsNoted.ne_error {es : List (Expr Site)} {tys : List Ty}
    (noted : ExprsNoted ctx b D scope es tys)
    (types : Proper D) : ∀ ty ∈ tys, ty ≠ .error := by
  cases noted with
  | nil => simp
  | cons first rest =>
      rw [List.forall_mem_cons]
      exact ⟨first.ne_error types, rest.ne_error types⟩

end

end Proper

/-! ## Resolving expressions -/

/-- What a name of a value may lead to, in scope or outside. -/
theorem Means.of_leads {D : Descriptor.Table} {scope : Scope} {name : String}
    {global : Option DescriptorId} (leads : ∀ i ∈ global, Leads ctx D name .value i) :
    ∀ i ∈ (scope.lookup name).or global, Means ctx D scope name i := by
  intro i member
  cases looked : scope.lookup name with
  | some j =>
      rw [looked, Option.some_or] at member
      obtain rfl := Option.some.inj member
      exact .inner looked
  | none =>
      rw [looked, Option.none_or] at member
      exact .outer looked (leads i member)

/-- To finish an expression is to bind it; its type is that of the binding. -/
theorem finishExpr_sure (sure : Sure items ctx s) (site : Site) {b : Binding}
    (bound : site.id < s.bindings.slots.size) (clean : Honest ctx → Clean s.descriptors b) :
    Leaves (finishExpr site b) s fun ty s' =>
      Proceeds items ctx [site.id] s s' ∧ s'.bindings.get? site.id = some b ∧ ty = b.ty := by
  refine (bind_sure sure bound clean).bind ?_
  rintro _ s' ⟨proceeds, _, there⟩
  exact .pure ⟨proceeds, there, rfl⟩

/-- Resolution notes an expression and everything in it, unless it reports an error. -/
def ExprSure (items : List (Item Site)) (ctx : Context) (scope : Scope) (e : Expr Site) : Prop :=
  ∀ s : State, Sure items ctx s → InScope s.descriptors scope → Placed e.nodes s →
    Passes (resolveExpr ctx scope e) s fun ty s' =>
      Proceeds items ctx (e.nodes.map Source.Node.id) s s' ∧
        ExprNoted ctx s'.bindings s'.descriptors scope e ty

/-- The same for arguments. -/
def ArgumentsSure (items : List (Item Site)) (ctx : Context) (scope : Scope)
    (es : List (Expr Site)) : Prop :=
  ∀ s : State, Sure items ctx s → InScope s.descriptors scope →
    Placed (Source.exprListNodes es) s →
    Passes (resolveArguments ctx scope es) s fun args s' =>
      Proceeds items ctx ((Source.exprListNodes es).map Source.Node.id) s s' ∧
        ExprsNoted ctx s'.bindings s'.descriptors scope es (args.map (·.ty))

section Expressions

variable {scope : Scope}

/-- A literal is noted with its type, whatever the state is. -/
theorem constant_sure {e : Expr Site} {ty : Ty} (proper : ty ≠ .error) (nodes : e.nodes = [.expr e])
    (resolved : resolveExpr ctx scope e = finishExpr e.site (.typed ty))
    (noted : ∀ b D, b.get? e.site.id = some (.typed ty) → ExprNoted ctx b D scope e ty) :
    ExprSure items ctx scope e := by
  intro s sure _ placed
  rw [nodes] at placed ⊢
  rw [resolved]
  refine (finishExpr_sure sure e.site placed.of_cons.1
    fun _ => clean_typed proper).passes.mono ?_
  rintro _ s' ⟨proceeds, there, rfl⟩
  exact ⟨proceeds, noted _ _ there⟩

/-- A reference is noted with what its name means, unless an error is reported. -/
theorem ref_sure (globals : ctx.globals = itemNames items) (site : Site) (name : String) :
    ExprSure items ctx scope (.ref site name) := by
  intro s sure inScope placed
  rw [resolveExpr_ref]
  refine (resolveUse_sure globals sure placed.of_cons.1 ?_).mono ?_
  · intro _ found D table proper names silent
    have means := (inScope.keeps table.keeps).means names
    obtain ⟨i, d, _, entry, _, value⟩ := valueVerdict_silent (Names.known means) silent
    exact value ▸ clean_reference entry (proper i d entry)
  · rintro _ s' ⟨proceeds, found, leads, silent, there, rfl⟩
    have means := (inScope.keeps proceeds.later.table.keeps).means fun i member => (leads i member).2
    obtain ⟨i, d, meant, entry, value, bound⟩ := valueVerdict_silent (Names.known means) silent
    rw [bound] at there ⊢
    have meaning : Means ctx s'.descriptors scope name i :=
      Means.of_leads (fun i member => (leads i member).1) i meant
    exact ⟨proceeds, .ref meaning entry value there⟩

/-- A call is noted with the meaning of its callee and the types of its arguments, unless an error is
reported. -/
theorem call_sure (globals : ctx.globals = itemNames items) (site : Site) (callee : String)
    {args : List (Expr Site)} (judged : ArgumentsSure items ctx scope args) :
    ExprSure items ctx scope (.call site callee args) := by
  intro s sure inScope placed
  rw [Expr.nodes] at placed ⊢
  obtain ⟨here, outside, inner⟩ := placed.of_cons
  have outside : site.id ∉ (Source.exprListNodes args).map Source.Node.id := outside
  rw [resolveExpr_call]
  have grows : ∀ arguments, Grows (resolveUse ctx site callee .call
      (callVerdict site callee arguments)) := fun arguments =>
    (resolveUse_follows 0 site callee .call (callVerdict_idle site callee arguments)).grows ctx
  refine (judged s sure inScope inner).bind grows ?_
  rintro arguments s₁ ⟨proceeds₁, noted₁⟩
  refine (resolveUse_sure globals proceeds₁.sure (proceeds₁.later.slots ▸ here) ?_).mono ?_
  · intro honest found D _ proper names silent
    obtain ⟨i, d, _, entry, _, length, fit, value⟩ :=
      callVerdict_silent (Names.known names) silent
    have fits := matchArguments_sound length fit
    have args := noted₁.ne_error (proceeds₁.sure.types honest)
    exact value ▸ clean_reference entry
      (resultTy_ne_error (proper i d entry) (forall_fixed_of_fits fits (by simp) args))
  · rintro _ s₂ ⟨proceeds₂, found, leads, silent, there, rfl⟩
    obtain ⟨i, d, rfl, entry, callable, length, fit, value⟩ :=
      callVerdict_silent (Names.known fun i member => (leads i member).2) silent
    rw [value] at there ⊢
    refine ⟨(proceeds₁.trans proceeds₂).mono ?_, .call (leads i rfl).1 entry callable
      (noted₁.later proceeds₂.later fun id member among => outside ?_)
      (matchArguments_sound length fit) there⟩
    · intro id member
      rw [List.mem_append, List.mem_singleton] at member
      rw [List.map_cons, List.mem_cons]
      exact member.symm
    · exact List.mem_singleton.mp among ▸ member

/-- An operation is noted with the types of its operands, unless an error is reported. -/
theorem binary_sure (site : Site) (op : Operator) {lhs rhs : Expr Site}
    (left : ExprSure items ctx scope lhs) (right : ExprSure items ctx scope rhs) :
    ExprSure items ctx scope (.binary site op lhs rhs) := by
  intro s sure inScope placed
  rw [Expr.nodes] at placed ⊢
  obtain ⟨here, outside, inner⟩ := placed.of_cons
  have outside : site.id ∉ (lhs.nodes ++ rhs.nodes).map Source.Node.id := outside
  rw [List.map_append, List.mem_append, not_or] at outside
  obtain ⟨leftPlaced, rightPlaced, apart⟩ := inner.of_append
  rw [resolveExpr_binary]
  have last : ∀ l r, Grows (judge ctx (binaryVerdict site op l r) >>= finishExpr site) := fun l r =>
    (judge_grows ctx _).bind fun b => finishExpr_grows site b
  refine (left s sure inScope leftPlaced).bind
    (fun l => ((resolveExpr_follows 0 scope rhs).grows ctx).bind (last l)) ?_
  rintro l s₁ ⟨proceeds₁, noted₁⟩
  refine (right s₁ proceeds₁.sure (inScope.keeps proceeds₁.later.table.keeps)
    (rightPlaced.of_slots proceeds₁.later.slots)).bind (last l) ?_
  rintro r s₂ ⟨proceeds₂, noted₂⟩
  have proceeds := proceeds₁.trans proceeds₂
  refine (judge_passes ctx _ s₂).bind (fun b => finishExpr_grows site b) ?_
  rintro _ _ ⟨rfl, silent, rfl⟩
  obtain ⟨fit, value⟩ := binaryVerdict_silent silent
  rw [value]
  refine (finishExpr_sure proceeds₂.sure site (proceeds.later.slots ▸ here)
    fun _ => clean_typed (operatorTy_ne_error op)).passes.mono ?_
  rintro _ s₃ ⟨proceeds₃, there, rfl⟩
  refine ⟨(proceeds.trans proceeds₃).mono ?_, .binary ?_ ?_ fit there⟩
  · intro id member
    rw [List.mem_append, List.mem_append, List.mem_singleton] at member
    rw [List.map_cons, List.mem_cons, List.map_append, List.mem_append]
    exact member.symm
  · refine noted₁.later (proceeds₂.trans proceeds₃).later fun id member among => ?_
    rcases List.mem_append.mp among with later | same
    · exact apart id member later
    · exact outside.1 (List.mem_singleton.mp same ▸ member)
  · refine noted₂.later proceeds₃.later fun id member among => outside.2 ?_
    exact List.mem_singleton.mp among ▸ member

/-- Arguments are noted if the first one is and the others are. -/
theorem arguments_cons_sure {e : Expr Site} {rest : List (Expr Site)}
    (first : ExprSure items ctx scope e) (later : ArgumentsSure items ctx scope rest) :
    ArgumentsSure items ctx scope (e :: rest) := by
  intro s sure inScope placed
  rw [Source.exprListNodes] at placed ⊢
  obtain ⟨here, there, apart⟩ := placed.of_append
  refine (first s sure inScope here).bind
    (fun _ => ((resolveArguments_follows 0 scope rest).grows ctx).bind fun _ => .pure _) ?_
  rintro ty s₁ ⟨proceeds₁, noted₁⟩
  refine (later s₁ proceeds₁.sure (inScope.keeps proceeds₁.later.table.keeps)
    (there.of_slots proceeds₁.later.slots)).bind (fun _ => .pure _) ?_
  rintro more s₂ ⟨proceeds₂, noted₂⟩
  refine .pure ⟨?_, .cons (noted₁.later proceeds₂.later apart) noted₂⟩
  rw [List.map_append]
  exact proceeds₁.trans proceeds₂

mutual

/-- Every expression is noted, unless an error is reported, by recursion on it. -/
theorem resolveExpr_sure (globals : ctx.globals = itemNames items) (e : Expr Site) :
    ExprSure items ctx scope e := by
  cases e with
  | int site n => exact constant_sure (by simp) rfl rfl fun _ _ there => .int there
  | bool site b => exact constant_sure (by simp) rfl rfl fun _ _ there => .bool there
  | str site t => exact constant_sure (by simp) rfl rfl fun _ _ there => .str there
  | ref site name => exact ref_sure globals site name
  | call site callee args =>
      exact call_sure globals site callee (resolveArguments_sure globals args)
  | binary site op lhs rhs =>
      exact binary_sure site op (resolveExpr_sure globals lhs) (resolveExpr_sure globals rhs)

theorem resolveArguments_sure (globals : ctx.globals = itemNames items) (es : List (Expr Site)) :
    ArgumentsSure items ctx scope es := by
  cases es with
  | nil => exact fun s sure _ _ => .pure ⟨sure.refl, .nil⟩
  | cons e rest =>
      exact arguments_cons_sure (resolveExpr_sure globals e) (resolveArguments_sure globals rest)

end

end Expressions

/-! ## Statements -/

/-- What a statement and everything in it is bound to; behind it the scope is the second one. -/
inductive StmtNoted (ctx : Context) (b : Bindings) (D : Descriptor.Table) (frame : Frame)
    (scope : Scope) : Stmt Site → Scope → Prop
  | letBind {site : Site} {name : String} {type : Option (TypeRef Site)} {value : Expr Site}
      {found : Ty} {stated : Option Ty} {i : DescriptorId} {d : Descriptor} :
    ExprNoted ctx b D scope value found →
    Option.Rel (TypeNoted ctx b D frame.typeParams) type stated →
    (∀ ty ∈ stated, ty.accepts found = true) → D.get? i = some d → d.name = name →
    d.kind = .localVar → d.ty = stated.getD found → b.get? site.id = some (.declaration d.ty i) →
    StmtNoted ctx b D frame scope (.letBind site name type value) ((name, i) :: scope)
  | leave {site : Site} : frame.result.accepts .unit = true →
    StmtNoted ctx b D frame scope (.ret site none) scope
  | ret {site : Site} {value : Expr Site} {found : Ty} : ExprNoted ctx b D scope value found →
    frame.result.accepts found = true → StmtNoted ctx b D frame scope (.ret site (some value)) scope
  | eval {site : Site} {value : Expr Site} {found : Ty} : ExprNoted ctx b D scope value found →
    StmtNoted ctx b D frame scope (.eval site value) scope

/-- The same for statements one after another. -/
inductive StmtsNoted (ctx : Context) (b : Bindings) (D : Descriptor.Table) (frame : Frame) :
    Scope → List (Stmt Site) → Prop
  | nil {scope : Scope} : StmtsNoted ctx b D frame scope []
  | cons {scope next : Scope} {stmt : Stmt Site} {rest : List (Stmt Site)} :
    StmtNoted ctx b D frame scope stmt next → StmtsNoted ctx b D frame next rest →
    StmtsNoted ctx b D frame scope (stmt :: rest)

section Frames

variable {touched : List SiteId} {frame : Frame} {scope next : Scope}

/-- What is noted about a statement stays so while other constructs are bound. -/
theorem StmtNoted.later {stmt : Stmt Site}
    (noted : StmtNoted ctx s.bindings s.descriptors frame scope stmt next)
    (later : Later touched s s') (apart : ∀ id ∈ stmt.nodes.map Source.Node.id, id ∉ touched) :
    StmtNoted ctx s'.bindings s'.descriptors frame scope stmt next := by
  cases noted with
  | @letBind site name type value found stated i d noted stated' accepts entry named kind ty there =>
      rw [letBind_ids, List.forall_mem_cons, List.forall_mem_append] at apart
      obtain ⟨outside, typeApart, valueApart⟩ := apart
      refine .letBind (noted.later later valueApart) ?_ accepts (later.table _ _ entry) named kind ty
        ((later.frame _ outside).trans there)
      cases stated' with
      | none => exact .none
      | some type => exact .some (type.later later (typeApart _ List.mem_cons_self))
  | leave accepts => exact .leave accepts
  | ret noted accepts =>
      refine .ret (noted.later later fun id member => apart id ?_) accepts
      simp only [Stmt.nodes, Option.toList_some, List.flatMap_singleton, List.map_cons]
      exact List.mem_cons_of_mem _ member
  | eval noted =>
      exact .eval (noted.later later fun id member => apart id (List.mem_cons_of_mem _ member))

theorem StmtsNoted.later {stmts : List (Stmt Site)}
    (noted : StmtsNoted ctx s.bindings s.descriptors frame scope stmts)
    (later : Later touched s s')
    (apart : ∀ id ∈ (stmts.flatMap Stmt.nodes).map Source.Node.id, id ∉ touched) :
    StmtsNoted ctx s'.bindings s'.descriptors frame scope stmts := by
  induction noted with
  | nil => exact .nil
  | cons first _ ih =>
      rw [List.flatMap_cons, List.map_append, List.forall_mem_append] at apart
      exact .cons (first.later later apart.1) (ih apart.2)

end Frames

section Statements

variable {frame : Frame} {scope : Scope}

/-- A stated type is noted, unless an error is reported. -/
theorem statedType_sure (globals : ctx.globals = itemNames items) (sure : Sure items ctx s)
    {type : Option (TypeRef Site)} (bound : ∀ t ∈ type, t.site.id < s.bindings.slots.size) :
    Passes (statedType ctx frame type) s fun stated s' =>
      Proceeds items ctx (type.toList.map (·.site.id)) s s' ∧
        Option.Rel (TypeNoted ctx s'.bindings s'.descriptors frame.typeParams) type stated := by
  cases type with
  | none => exact .pure ⟨sure.refl, .none⟩
  | some t =>
      refine (resolveType_sure globals sure frame.typeParams (bound t rfl)).bind (fun _ => .pure _) ?_
      rintro ty s' ⟨proceeds, noted⟩
      exact .pure ⟨proceeds, .some noted⟩

/-- A local that fits is declared with the type that is stated or else found. -/
theorem declareLocal_sure (globals : ctx.globals = itemNames items) (sure : Sure items ctx s)
    {site : Site} (bound : site.id < s.bindings.slots.size) (name : String) (value : Expr Site)
    {found : Ty} {stated : Option Ty} (proper : Honest ctx → stated.getD found ≠ .error) :
    Passes (declareLocal ctx frame scope site name value found stated) s fun next s' =>
      Proceeds items ctx [site.id] s s' ∧ (∀ ty ∈ stated, ty.accepts found = true) ∧
        ∃ i d, next = (name, i) :: scope ∧ s'.descriptors.get? i = some d ∧ d.name = name ∧
          d.kind = .localVar ∧ d.ty = stated.getD found ∧
          s'.bindings.get? site.id = some (.declaration d.ty i) := by
  refine (judge_passes ctx _ s).bind
    (fun _ => (declare_grows site name .localVar frame.function _ _).bind fun _ => .pure _) ?_
  rintro _ _ ⟨rfl, silent, _⟩
  have fits := localVerdict_silent silent
  rw [fits]
  refine (declare_sure globals sure bound name .localVar frame.function proper).andThen ?_
  rintro i s₁ ⟨proceeds, ⟨d, entry, named, kind, ty⟩, _, there⟩
  exact .pure ⟨proceeds, localFits_iff.mp fits, i, d, rfl, entry, named, kind, ty, ty.symm ▸ there⟩

/-- If nothing is reported the function accepts what is returned, and the state is as before. -/
theorem checkReturn_passes (frame : Frame) (scope : Scope) (place : Site) (found : Ty) (s : State) :
    Passes (checkReturn ctx frame scope place found) s fun next s' =>
      s' = s ∧ frame.result.accepts found = true ∧ next = scope :=
  (judge_passes ctx _ s).mono fun _ _ post => ⟨post.1, returnVerdict_silent post.2.1,
    post.2.2.trans (returnVerdict_value frame scope place found _)⟩

/-- A local is noted with its type and its value, unless an error is reported. -/
theorem resolveLet_sure (globals : ctx.globals = itemNames items) (site : Site) (name : String)
    (type : Option (TypeRef Site)) (value : Expr Site) (sure : Sure items ctx s)
    (inScope : InScope s.descriptors scope)
    (placed : Placed (Stmt.letBind site name type value).nodes s) :
    Passes (resolveStmt ctx frame scope (.letBind site name type value)) s fun next s' =>
      Proceeds items ctx ((Stmt.letBind site name type value).nodes.map Source.Node.id) s s' ∧
        StmtNoted ctx s'.bindings s'.descriptors frame scope (.letBind site name type value) next ∧
        InScope s'.descriptors next := by
  obtain ⟨here, typeInside, valuePlaced, disjoint, notType, notValue⟩ := placed.of_letBind
  rw [resolveStmt_letBind, letBind_ids]
  have declares : ∀ found stated,
      Grows (declareLocal ctx frame scope site name value found stated) := fun found stated =>
    (declareLocal_follows 0 scope frame site name value found stated).grows ctx
  refine (resolveExpr_sure globals value s sure inScope valuePlaced).bind
    (fun found => ((statedType_follows 0 frame type).grows ctx).bind (declares found)) ?_
  rintro found s₁ ⟨proceeds₁, noted₁⟩
  have typeBound : ∀ t ∈ type, t.site.id < s₁.bindings.slots.size := by
    intro t member
    rw [proceeds₁.later.slots]
    exact typeInside _ (List.mem_map_of_mem (Option.mem_toList.mpr member))
  refine (statedType_sure globals proceeds₁.sure typeBound).bind (declares found) ?_
  rintro stated s₂ ⟨proceeds₂, stated₂⟩
  have proceeds := proceeds₁.trans proceeds₂
  have noted₂ := noted₁.later proceeds₂.later fun id member among => disjoint id among member
  have proper : Honest ctx → stated.getD found ≠ .error := by
    intro honest
    cases stated₂ with
    | none => exact noted₂.ne_error (proceeds₂.sure.types honest)
    | some type => exact type.ne_error
  refine (declareLocal_sure globals proceeds₂.sure (proceeds.later.slots ▸ here) name value
    proper).mono ?_
  rintro _ s₃ ⟨proceeds₃, accepts, i, d, rfl, entry, named, kind, ty, there⟩
  refine ⟨(proceeds.trans proceeds₃).mono ?_, .letBind ?_ ?_ accepts entry named kind ty there, ?_⟩
  · intro id member
    rw [List.mem_append, List.mem_append, List.mem_singleton] at member
    rw [List.mem_cons, List.mem_append]
    exact member.elim (fun early => Or.inr early.symm) Or.inl
  · refine noted₂.later proceeds₃.later fun id member same => notValue ?_
    exact List.mem_singleton.mp same ▸ member
  · cases stated₂ with
    | none => exact .none
    | some type =>
        refine .some (type.later proceeds₃.later fun same => notType ?_)
        exact List.mem_singleton.mp same ▸ List.mem_cons_self
  · unfold InScope
    rw [List.forall_mem_cons]
    exact ⟨⟨d, entry, named⟩, inScope.keeps (proceeds.trans proceeds₃).later.table.keeps⟩

/-- A statement is noted, unless an error is reported. -/
theorem resolveStmt_sure (globals : ctx.globals = itemNames items) (stmt : Stmt Site)
    (sure : Sure items ctx s) (inScope : InScope s.descriptors scope) (placed : Placed stmt.nodes s) :
    Passes (resolveStmt ctx frame scope stmt) s fun next s' =>
      Proceeds items ctx (stmt.nodes.map Source.Node.id) s s' ∧
        StmtNoted ctx s'.bindings s'.descriptors frame scope stmt next ∧
        InScope s'.descriptors next := by
  cases stmt with
  | letBind site name type value =>
      exact resolveLet_sure globals site name type value sure inScope placed
  | ret site value =>
      rw [resolveStmt_ret]
      cases value with
      | none =>
          refine (checkReturn_passes frame scope site .unit s).mono ?_
          rintro _ _ ⟨rfl, accepts, rfl⟩
          exact ⟨sure.refl.mono (List.nil_subset _), .leave accepts, inScope⟩
      | some value =>
          have nodes : (Stmt.ret site (some value)).nodes =
              .stmt (.ret site (some value)) :: value.nodes := by
            simp [Stmt.nodes]
          rw [nodes] at placed ⊢
          refine (resolveExpr_sure globals value s sure inScope placed.of_cons.2.2).bind
            (fun found => judge_grows ctx _) ?_
          rintro found s₁ ⟨proceeds, noted⟩
          refine (checkReturn_passes frame scope value.site found s₁).mono ?_
          rintro _ _ ⟨rfl, accepts, rfl⟩
          exact ⟨proceeds.mono (List.subset_cons_self _ _), .ret noted accepts,
            inScope.keeps proceeds.later.table.keeps⟩
  | eval site value =>
      rw [Stmt.nodes] at placed ⊢
      refine (resolveExpr_sure globals value s sure inScope placed.of_cons.2.2).bind
        (fun _ => .pure _) ?_
      rintro found s₁ ⟨proceeds, noted⟩
      exact .pure ⟨proceeds.mono (List.subset_cons_self _ _), .eval noted,
        inScope.keeps proceeds.later.table.keeps⟩

/-- Statements are noted one after another, each in the scope that the ones before it leave. -/
theorem resolveStmts_sure (globals : ctx.globals = itemNames items) (stmts : List (Stmt Site))
    {scope : Scope} {s : State} (sure : Sure items ctx s) (inScope : InScope s.descriptors scope)
    (placed : Placed (stmts.flatMap Stmt.nodes) s) :
    Passes (resolveStmts ctx frame scope stmts) s fun _ s' =>
      Proceeds items ctx ((stmts.flatMap Stmt.nodes).map Source.Node.id) s s' ∧
        StmtsNoted ctx s'.bindings s'.descriptors frame scope stmts := by
  induction stmts generalizing scope s with
  | nil => exact .pure ⟨sure.refl, .nil⟩
  | cons stmt rest ih =>
      rw [List.flatMap_cons] at placed ⊢
      obtain ⟨here, later, apart⟩ := placed.of_append
      refine (resolveStmt_sure globals stmt sure inScope here).bind
        (fun scope => (resolveStmts_follows 0 frame rest scope).grows ctx) ?_
      rintro next s₁ ⟨proceeds₁, noted₁, inScope₁⟩
      refine (ih proceeds₁.sure inScope₁ (later.of_slots proceeds₁.later.slots)).mono ?_
      rintro _ s₂ ⟨proceeds₂, noted₂⟩
      rw [List.map_append]
      exact ⟨proceeds₁.trans proceeds₂, .cons (noted₁.later proceeds₂.later apart) noted₂⟩

end Statements

/-! ## Units -/

/-- What the body of an item is bound to, given the type that the item gives. -/
def BodyNoted (ctx : Context) (b : Bindings) (D : Descriptor.Table) (i : DescriptorId)
    (item : Item Site) (params : List DescriptorId) : Prop :=
  ∃ d, D.get? i = some d ∧
    StmtsNoted ctx b D ⟨i, typeParamsOf item, d.ty⟩ (paramScope item params) (bodyOf item)

/-- What a unit is bound to, item by item. -/
def UnitNoted (items : List (Item Site)) (ctx : Context) (b : Bindings) (D : Descriptor.Table) :
    Prop :=
  ∀ i item, items[i]? = some item →
    ∃ params, HeadNoted ctx b D i item params ∧ BodyNoted ctx b D i item params

/-- The parameters of a noted function are a scope. -/
theorem HeadNoted.inScope {b : Bindings} {D : Descriptor.Table} {i : DescriptorId}
    {item : Item Site} {params : List DescriptorId} (noted : HeadNoted ctx b D i item params)
    (function : itemKind item = .function) : InScope D (paramScope item params) := by
  obtain ⟨_, ps, _, _, _, _, each, listed⟩ := noted.described
  rw [paramScope, listed function]
  refine inScope_members (each.imp fun m p member => ?_)
  obtain ⟨d, entry, named, _⟩ := member.entry
  exact ⟨d, entry, named⟩

/-- The body of an item is noted, unless an error is reported. -/
theorem resolveBody_sure (globals : ctx.globals = itemNames items) (sure : Sure items ctx s)
    {i : DescriptorId} {item : Item Site} {params : List DescriptorId}
    (head : HeadNoted ctx s.bindings s.descriptors i item params)
    (placed : Placed (bodyNodes item) s) :
    Passes (resolveBody ctx i params item) s fun _ s' =>
      Proceeds items ctx ((bodyNodes item).map Source.Node.id) s s' ∧
        BodyNoted ctx s'.bindings s'.descriptors i item params := by
  obtain ⟨d, _, entry, _⟩ := head.described
  cases item with
  | cls site name fields => exact .pure ⟨sure.refl, d, entry, .nil⟩
  | function site name typeParams params' returns body =>
      rw [resolveBody, descriptor?_eq ctx]
      have read : Leaves (judge ctx fun D => ⟨[], D.get? i⟩) s fun found s' =>
          s' = s ∧ found = s.descriptors.get? i := ⟨rfl, rfl⟩
      refine read.andThen ?_
      rintro _ _ ⟨rfl, rfl⟩
      rw [entry]
      refine (resolveStmts_sure globals body sure (head.inScope rfl) placed).mono ?_
      rintro _ s' ⟨proceeds, noted⟩
      exact ⟨proceeds, d, proceeds.later.table _ _ entry, noted⟩

/-- All bodies are noted, unless an error is reported. -/
theorem resolveBodies_sure (globals : ctx.globals = itemNames items)
    {heads : List (Item Site × List DescriptorId)} {first : DescriptorId} {s : State}
    (sure : Sure items ctx s) (noted : HeadsNoted ctx s.bindings s.descriptors first heads)
    (placed : Placed ((heads.map (·.1)).flatMap bodyNodes) s)
    (apart : ∀ item ∈ heads.map (·.1), ∀ id ∈ headIds item,
      id ∉ ((heads.map (·.1)).flatMap bodyNodes).map Source.Node.id) :
    Passes (resolveBodies ctx first heads) s fun _ s' =>
      Proceeds items ctx (((heads.map (·.1)).flatMap bodyNodes).map Source.Node.id) s s' ∧
        ∀ k item params, heads[k]? = some (item, params) →
          BodyNoted ctx s'.bindings s'.descriptors (first + k) item params := by
  induction heads generalizing first s with
  | nil => exact .pure ⟨sure.refl, fun k item params found => by cases found⟩
  | cons head rest ih =>
      obtain ⟨item, params⟩ := head
      rw [List.map_cons, List.flatMap_cons] at placed apart ⊢
      rw [List.map_append, List.forall_mem_cons] at apart
      obtain ⟨here, later, disjoint⟩ := placed.of_append
      refine (resolveBody_sure globals sure (noted 0 item params rfl) here).bind
        (fun _ => (resolveBodies_follows 0 rest (first + 1)).grows ctx) ?_
      rintro _ s₁ ⟨proceeds₁, noted₁⟩
      have heads₁ : HeadsNoted ctx s₁.bindings s₁.descriptors (first + 1) rest := by
        intro k other others found
        have member : other ∈ rest.map (·.1) :=
          List.mem_map_of_mem (List.mem_of_getElem? found)
        refine (noted.tail k other others found).revises proceeds₁.later.revises (by simp) (by simp)
          fun id inside among => ?_
        exact apart.2 other member id inside (List.mem_append_left _ among)
      refine (ih proceeds₁.sure heads₁ (later.of_slots proceeds₁.later.slots)
        fun other member id inside among => ?_).mono ?_
      · exact apart.2 other member id inside (List.mem_append_right _ among)
      rintro _ s₂ ⟨proceeds₂, noted₂⟩
      rw [List.map_append]
      refine ⟨proceeds₁.trans proceeds₂, fun k other others found => ?_⟩
      cases k with
      | zero =>
          obtain ⟨rfl, rfl⟩ := Prod.mk.inj (Option.some.inj found)
          obtain ⟨d, entry, stmts⟩ := noted₁
          exact ⟨d, proceeds₂.later.table _ _ entry, stmts.later proceeds₂.later disjoint⟩
      | succ k =>
          have noted := noted₂ k other others found
          rwa [Nat.add_assoc, Nat.add_comm 1 k] at noted

/-- A unit is noted, unless an error is reported. -/
theorem resolveItems_sure (globals : ctx.globals = itemNames items) (sure : Sure items ctx s)
    (laid : Laid items s) :
    Passes (resolveItems ctx items) s fun _ s' =>
      Sure items ctx s' ∧ UnitNoted items ctx s'.bindings s'.descriptors := by
  have bodies : ∀ params, Grows (resolveBodies ctx 0 (items.zip params)) := fun params =>
    (resolveBodies_follows 0 (items.zip params) 0).grows ctx
  refine (reportDuplicates_passes [] items s).bind
    (fun _ => ((resolveSignatures_follows (Nat.le_refl _)).grows ctx).bind bodies) ?_
  rintro _ _ ⟨rfl, _⟩
  refine (resolveSignatures_sure globals (.all items) sure laid.heads laid.inside).bind bodies ?_
  rintro more s₁ ⟨sure₁, revises, length, heads₁⟩
  have whole : (items.zip more).map (·.1) = items :=
    List.map_fst_zip (Nat.le_of_eq length.symm)
  have apart : ∀ item ∈ items, ∀ id ∈ headIds item,
      id ∉ (items.flatMap bodyNodes).map Source.Node.id :=
    fun item member id inside => laid.apart id (List.mem_flatMap.mpr ⟨item, member, inside⟩)
  refine (resolveBodies_sure globals sure₁ heads₁ ?_ ?_).mono ?_
  · rw [whole]
    exact laid.bodies.of_slots revises.amends.slots
  · rw [whole]
    exact apart
  rw [whole]
  rintro _ s₂ ⟨proceeds, bodies⟩
  refine ⟨proceeds.sure, fun i item there => ?_⟩
  have small : i < more.length := length ▸ (List.getElem?_eq_some_iff.mp there).1
  have found : (items.zip more)[i]? = some (item, more[i]) := by
    rw [List.getElem?_zip_eq_some]
    exact ⟨there, List.getElem?_eq_getElem small⟩
  have head := heads₁ i item _ found
  have body := bodies i item _ found
  rw [Nat.zero_add] at head body
  refine ⟨_, head.revises proceeds.later.revises (by simp) (by simp) ?_, body⟩
  exact apart item (List.mem_of_getElem? there)

/-- The context that a unit is resolved in. -/
def contextOf (tree : Tree) (registry : Registry) : Context :=
  ⟨tree.unit, registry.resolvers, itemNames tree.items⟩

/-- The invariant holds at the start: nothing is bound, and no signature is filled in. -/
theorem sure_start (tree : Tree) (ctx : Context) :
    Sure tree.items ctx
      { descriptors := itemDescriptors tree.items, bindings := .ofSize tree.size } := by
  refine ⟨rfl, (steady_start tree ctx).items, fun _ _ _ offered => (by cases offered), ?_, ?_⟩
  · intro _ i d found
    rw [get?_itemDescriptors] at found
    obtain ⟨item, _, rfl⟩ := Option.map_eq_some_iff.mp found
    simp
  · intro _ id b there
    rw [get?_ofSize] at there
    cases there

/-- Whatever takes part, a run without diagnostics notes everything in an assembled unit. -/
theorem run_noted {tree : Tree} (numbers : tree.nodes.map Source.Node.id = List.range tree.size)
    {registry : Registry} (silent : (run tree registry).diagnostics = []) :
    Sure tree.items (contextOf tree registry) (run tree registry) ∧
      UnitNoted tree.items (contextOf tree registry) (run tree registry).bindings
        (run tree registry).descriptors := by
  have laid : Laid tree.items
      { descriptors := itemDescriptors tree.items, bindings := .ofSize tree.size } :=
    laid_of_numbers numbers Array.size_replicate
  have globals : (contextOf tree registry).globals = itemNames tree.items := rfl
  exact resolveItems_sure globals (sure_start tree _) laid silent

end StagedCompiler.Resolution
