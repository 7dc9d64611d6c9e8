import StagedCompiler.Proofs.Analysis.NotedUnits
import StagedCompiler.Proofs.Analysis.Senses

/-!
# Every construct of a unit bears its sense

Expressions and statements obey among the locals that they see: the parameters of their function and
the `let`s before them (`localsBehind`).  `run_obeys` puts the phases of resolution together for a whole
unit, whatever resolvers take part in it, as long as none of them gives up.
-/

namespace StagedCompiler.Resolution

open Source (Typed Item TypeRef Site SiteId Expr Stmt)

/-! ## Expressions -/

/-- The descriptors of the locals in scope are there. -/
def InTable (s : State) (scope : Scope) : Prop := ∀ entry ∈ scope, entry.2 < s.descriptors.size

section References

variable {items : List (Item Site)} {ctx : Context} {scope : Scope} {ids : List SiteId} {s s' : State}

theorem InTable.walks (inTable : InTable s scope) (walks : Walks items ctx ids s s') :
    InTable s' scope :=
  fun entry member => Nat.lt_of_lt_of_le (inTable entry member) walks.way.table.size_le

/-- The locals of places are descriptors of the table. -/
theorem Locals.inTable {places : List (String × Site)} (locals : Locals s places scope) :
    InTable s scope := by
  induction locals with
  | nil => exact fun _ member => by cases member
  | cons here _ ih => exact List.forall_mem_cons.mpr ⟨here.2.own.1, ih⟩

variable (globals : ctx.globals = itemNames items) (orderly : Orderly items ctx s)

include globals orderly

theorem outside_known {name : String} {kind : ReferenceKind} :
    ∀ i ∈ outside ctx s name kind, ∃ d, s.descriptors.get? i = some d :=
  fun _ looked => ⟨_, Array.getElem?_eq_getElem (orderly.outside_lt globals looked)⟩

/-- What a name leads to is a descriptor of the table. -/
theorem means_known (inTable : InTable s scope) {name : String} :
    ∀ i ∈ (scope.lookup name).or (outside ctx s name .value), ∃ d, s.descriptors.get? i = some d := by
  intro i found
  rcases Option.or_eq_some_iff.mp found with looked | ⟨_, looked⟩
  · exact ⟨_, Array.getElem?_eq_getElem (inTable _ (mem_of_lookup looked))⟩
  · exact outside_known globals orderly i looked

/-- An item is a function or a class, so it is wrong to use it as a value. -/
theorem valueVerdict_item {name : String} (item : (ctx.globals.lookup name).isSome) (site : Site) :
    ∃ c ∈ (valueVerdict site name (outside ctx s name .value) s.descriptors).complaints,
      c.code = typeCode ∧ c.site = site := by
  obtain ⟨i, looked⟩ := Option.isSome_iff_exists.mp item
  obtain ⟨item, there, _⟩ := lookup_globals globals looked
  obtain ⟨d, entry, _, kind, _⟩ := orderly.described i item there
  rw [outside, looked, Option.some_or, valueVerdict, entry]
  dsimp only
  rw [if_pos (isCallable_of_item kind)]
  exact ⟨_, List.mem_singleton_self _, rfl, rfl⟩

end References

/-- Resolution of an expression makes all that is in it obey. -/
def ExprMarks (items : List (Item Site)) (ctx : Context) (typeParams : List String) (scope : Scope)
    (e : Expr Site) : Prop :=
  ∀ s : State, Orderly items ctx s → InTable s scope → Ahead e.nodes s →
    Leaves (resolveExpr ctx scope e) s fun _ s' =>
      Marks items ctx typeParams scope e.nodes s s'

/-- The same for arguments. -/
def ArgumentsMark (items : List (Item Site)) (ctx : Context) (typeParams : List String)
    (scope : Scope) (es : List (Expr Site)) : Prop :=
  ∀ s : State, Orderly items ctx s → InTable s scope → Ahead (Source.exprListNodes es) s →
    Leaves (resolveArguments ctx scope es) s fun _ s' =>
      Marks items ctx typeParams scope (Source.exprListNodes es) s s'

section Expressions

variable {items : List (Item Site)} {ctx : Context} {typeParams : List String} {scope : Scope}
  {s : State}

theorem finishExpr_walks (orderly : Orderly items ctx s) {site : Site} (b : Binding)
    (bound : site.id < s.bindings.slots.size) :
    Leaves (finishExpr site b) s fun _ s' => Walks items ctx [site.id] s s' := by
  refine (bind_walks orderly b bound).bind ?_
  exact fun _ s' post => .pure post.1

/-- A literal refers to nothing. -/
theorem constant_marks {e : Expr Site} {ty : Ty} (nodes : e.nodes = [.expr e])
    (resolved : resolveExpr ctx scope e = finishExpr e.site (.typed ty))
    (idle : (Source.Node.expr e).refers? = none) : ExprMarks items ctx typeParams scope e := by
  intro s orderly _ ahead
  rw [nodes] at ahead ⊢
  rw [resolved]
  refine (finishExpr_walks orderly _ ahead.of_cons.1).mono ?_
  exact fun _ s' walks => Walks.marks_idle walks idle

/-- A reference obeys: it bears the innermost local of its name or else what the name stands for
outside functions. -/
theorem ref_marks (globals : ctx.globals = itemNames items) (calm : Calm ctx) (site : Site)
    (name : String) : ExprMarks items ctx typeParams scope (.ref site name) := by
  intro s orderly inTable ahead
  obtain ⟨here, clean, _⟩ := ahead.of_cons
  rw [resolveExpr_ref]
  have points : ∀ s', Walks items ctx [] s s' → Points site s'.descriptors
      ((scope.lookup name).or (outside ctx s' name .value))
      (valueVerdict site name ((scope.lookup name).or (outside ctx s' name .value)) s'.descriptors) :=
    fun s' walks =>
      valueVerdict_points (means_known globals walks.orderly (inTable.walks walks)) site name
  refine Leaves.mono (resolveUse_bears calm orderly here clean points) ?_
  intro _ s' post
  obtain ⟨s₁, walks₁, asked, walks₂, bears, reported⟩ := post
  refine ⟨walks₁.trans walks₂,
    List.forall_mem_singleton.mpr ⟨(walks₂.way.asked _ asked).1, ?_, fun free item => ?_⟩⟩
  · rw [outside_way asked walks₂.way]
    exact bears
  · obtain ⟨c, among, code, place⟩ := valueVerdict_item globals walks₁.orderly item site
    rw [free, Option.none_or] at reported
    rw [← code, ← place]
    exact reported c among (by rw [code]; decide)

/-- A call obeys with its arguments: it bears what its name stands for outside functions, never a
local. -/
theorem call_marks (globals : ctx.globals = itemNames items) (calm : Calm ctx) (site : Site)
    (callee : String) {args : List (Expr Site)}
    (marked : ArgumentsMark items ctx typeParams scope args) :
    ExprMarks items ctx typeParams scope (.call site callee args) := by
  intro s orderly inTable ahead
  rw [Expr.nodes] at ahead ⊢
  obtain ⟨here, clean, outside, inner⟩ := ahead.of_cons
  rw [resolveExpr_call]
  refine (marked s orderly inTable inner).bind ?_
  intro arguments s₁ marks₁
  have clean₁ : lostAt s₁ site.id = 0 := (marks₁.way.lost _ outside).trans clean
  have points : ∀ s', Walks items ctx [] s₁ s' → Points site s'.descriptors
      (Resolution.outside ctx s' callee .call)
      (callVerdict site callee arguments (Resolution.outside ctx s' callee .call) s'.descriptors) :=
    fun s' walks => callVerdict_points (outside_known globals walks.orderly) site callee arguments
  refine Leaves.mono
    (resolveUse_bears calm marks₁.orderly (marks₁.way.slots ▸ here) clean₁ points) ?_
  intro _ s' post
  obtain ⟨s₂, walks₂, asked, walks₃, bears, _⟩ := post
  refine marks₁.close globals ⟨walks₂.trans walks₃,
    List.forall_mem_singleton.mpr ⟨(walks₃.way.asked _ asked).1, ?_⟩⟩ outside
  rw [outside_way asked walks₃.way]
  exact bears

/-- An operation refers to nothing, and its operands obey. -/
theorem binary_marks (globals : ctx.globals = itemNames items) (site : Site) (op : Operator)
    {lhs rhs : Expr Site} (left : ExprMarks items ctx typeParams scope lhs)
    (right : ExprMarks items ctx typeParams scope rhs) :
    ExprMarks items ctx typeParams scope (.binary site op lhs rhs) := by
  intro s orderly inTable ahead
  rw [Expr.nodes] at ahead ⊢
  rw [resolveExpr_binary]
  obtain ⟨here, _, outside, inner⟩ := ahead.of_cons
  obtain ⟨leftAhead, rightAhead, apart⟩ := inner.of_append
  refine (left s orderly inTable leftAhead).bind ?_
  intro l s₁ marks₁
  refine (right s₁ marks₁.orderly (inTable.walks marks₁.toWalks)
    (rightAhead.walks marks₁.toWalks apart)).bind ?_
  intro r s₂ marks₂
  refine (judge_walks marks₂.orderly (binaryVerdict_namesFound site _ op l r)).bind ?_
  intro b s₃ post
  obtain ⟨walks₃, _⟩ := post
  have marks := (marks₁.append globals marks₂ apart).before globals walks₃
  refine (finishExpr_walks walks₃.orderly b (marks.way.slots ▸ here)).mono ?_
  exact fun _ s₄ walks₄ => marks.close globals (Walks.marks_idle walks₄ rfl) outside

/-- Arguments obey if the first one does and the others do. -/
theorem arguments_cons_mark (globals : ctx.globals = itemNames items) {e : Expr Site}
    {rest : List (Expr Site)} (first : ExprMarks items ctx typeParams scope e)
    (later : ArgumentsMark items ctx typeParams scope rest) :
    ArgumentsMark items ctx typeParams scope (e :: rest) := by
  intro s orderly inTable ahead
  rw [Source.exprListNodes] at ahead ⊢
  obtain ⟨here, there, apart⟩ := ahead.of_append
  refine (first s orderly inTable here).bind ?_
  intro ty s₁ marks₁
  refine (later s₁ marks₁.orderly (inTable.walks marks₁.toWalks)
    (there.walks marks₁.toWalks apart)).bind ?_
  exact fun more s₂ marks₂ => .pure (marks₁.append globals marks₂ apart)

mutual

/-- Every expression obeys with all that is in it, by recursion on it. -/
theorem resolveExpr_marks (globals : ctx.globals = itemNames items) (calm : Calm ctx)
    (e : Expr Site) : ExprMarks items ctx typeParams scope e := by
  cases e with
  | int site n => exact constant_marks rfl rfl rfl
  | bool site b => exact constant_marks rfl rfl rfl
  | str site t => exact constant_marks rfl rfl rfl
  | ref site name => exact ref_marks globals calm site name
  | call site callee args =>
      exact call_marks globals calm site callee (resolveArguments_mark globals calm args)
  | binary site op lhs rhs =>
      exact binary_marks globals site op (resolveExpr_marks globals calm lhs)
        (resolveExpr_marks globals calm rhs)

theorem resolveArguments_mark (globals : ctx.globals = itemNames items) (calm : Calm ctx)
    (es : List (Expr Site)) : ArgumentsMark items ctx typeParams scope es := by
  cases es with
  | nil => exact fun s orderly _ _ => orderly.refl.marks
  | cons e rest =>
      exact arguments_cons_mark globals (resolveExpr_marks globals calm e)
        (resolveArguments_mark globals calm rest)

end

end Expressions

/-! ## Statements -/

/-- The local that a statement declares. -/
def letSite? : Stmt Site → Option (String × Site)
  | .letBind site name _ _ => some (name, site)
  | .ret _ _ | .eval _ _ => none

/-- The locals behind statements, the latest first, if the given ones stand before them. -/
def localsBehind (places : List (String × Site)) (stmts : List (Stmt Site)) :
    List (String × Site) :=
  (stmts.filterMap letSite?).reverse ++ places

/-- Each of the statements obeys among the locals that it sees. -/
def BodyObeys (ctx : Context) (typeParams : List String) (s : State)
    (places : List (String × Site)) (stmts : List (Stmt Site)) : Prop :=
  ∀ k stmt, stmts[k]? = some stmt → ∃ scope, Locals s (localsBehind places (stmts.take k)) scope ∧
    ∀ n ∈ stmt.nodes, Obeys ctx typeParams scope s n

section Statements

variable {items : List (Item Site)} {ctx : Context} {frame : Frame} {scope : Scope}
  {places : List (String × Site)} {s s' : State}

/-- Behind a statement the locals are those before it and the one that it introduces. -/
theorem localsBehind_cons (stmt : Stmt Site) (stmts : List (Stmt Site)) :
    localsBehind places (stmt :: stmts) =
      localsBehind ((letSite? stmt).toList ++ places) stmts := by
  unfold localsBehind
  rw [List.filterMap_cons]
  cases letSite? stmt with
  | none => rfl
  | some place => simp

theorem mem_nodes_of_letSite {place : String × Site} {stmt : Stmt Site}
    (is : letSite? stmt = some place) : place.2.id ∈ stmt.nodes.map Source.Node.id := by
  cases stmt with
  | letBind site name type value =>
      obtain rfl := Option.some.inj is
      exact List.mem_cons_self
  | ret site value => cases is
  | eval site value => cases is

/-- A place among the locals is one of the given ones or one of the statements. -/
theorem mem_localsBehind {place : String × Site} {stmts : List (Stmt Site)} {k : Nat}
    (member : place ∈ localsBehind places (stmts.take k)) :
    place ∈ places ∨ place.2.id ∈ (stmts.flatMap Stmt.nodes).map Source.Node.id := by
  rcases List.mem_append.mp member with declared | given
  · obtain ⟨stmt, among, is⟩ := List.mem_filterMap.mp (List.mem_reverse.mp declared)
    refine .inr (List.map_subset _ ?_ (mem_nodes_of_letSite is))
    exact fun n inside => List.mem_flatMap.mpr ⟨stmt, List.mem_of_mem_take among, inside⟩
  · exact .inl given

/-- The body of an item obeys while work goes on elsewhere. -/
theorem BodyObeys.way {typeParams : List String} {stmts : List (Stmt Site)} {ids : List SiteId}
    (globals : ctx.globals = itemNames items) (orderly : Orderly items ctx s)
    (obeys : BodyObeys ctx typeParams s places stmts) (way : Way items.length ids s s')
    (before : ∀ place ∈ places, place.2.id ∉ ids)
    (apart : ∀ id ∈ (stmts.flatMap Stmt.nodes).map Source.Node.id, id ∉ ids) :
    BodyObeys ctx typeParams s' places stmts := by
  intro k stmt there
  obtain ⟨scope, locals, obey⟩ := obeys k stmt there
  refine ⟨scope, locals.way way fun place member => ?_, fun n member => ?_⟩
  · rcases mem_localsBehind member with given | inside
    · exact before place given
    · exact apart _ inside
  · refine (obey n member).way globals orderly way (apart _ ?_)
    exact List.mem_map_of_mem (List.mem_flatMap.mpr ⟨stmt, List.mem_of_getElem? there, member⟩)

/-- A stated type obeys. -/
theorem statedType_marks (globals : ctx.globals = itemNames items) (calm : Calm ctx)
    (orderly : Orderly items ctx s) (scope : Scope) {type : Option (TypeRef Site)}
    (ahead : Ahead (type.toList.map .typeRef) s) :
    Leaves (statedType ctx frame type) s fun _ s' =>
      Marks items ctx frame.typeParams scope (type.toList.map .typeRef) s s' := by
  cases type with
  | none => exact orderly.refl.marks
  | some t =>
      obtain ⟨here, clean, _⟩ := ahead.of_cons
      exact resolveType_marks globals calm orderly frame.typeParams scope here clean

/-- A local is declared at its place and found first. -/
theorem declareLocal_walks (orderly : Orderly items ctx s) {site : Site}
    (bound : site.id < s.bindings.slots.size) (name : String) (value : Expr Site) (found : Ty)
    (stated : Option Ty) :
    Leaves (declareLocal ctx frame scope site name value found stated) s fun next s' =>
      Walks items ctx [site.id] s s' ∧
        ∃ i, next = (name, i) :: scope ∧ Introduces s' site i := by
  refine (judge_walks orderly (localVerdict_namesFound value.site _ stated found)).bind ?_
  intro _ s₁ post
  obtain ⟨walks₁, _⟩ := post
  refine (declare_walks walks₁.orderly (walks₁.way.slots ▸ bound) name .localVar frame.function
    (stated.getD found) { typeMismatch := !localFits stated found }).bind ?_
  exact fun i s₂ post => .pure ⟨walks₁.trans post.1, i, rfl, post.2⟩

/-- A comparison with what is returned leaves everything alone. -/
theorem checkReturn_walks (orderly : Orderly items ctx s) (place : Site) (found : Ty) :
    Leaves (checkReturn ctx frame scope place found) s fun next s' =>
      Walks items ctx [] s s' ∧ next = scope := by
  refine (judge_walks orderly (returnVerdict_namesFound place _ frame scope found)).mono ?_
  intro next s₁ post
  obtain ⟨walks₁, rfl, _⟩ := post
  exact ⟨walks₁, returnVerdict_value _ _ _ _ _⟩

/-- A statement obeys among the locals that it sees, and the local that it declares stands before
them behind it. -/
theorem resolveStmt_marks (globals : ctx.globals = itemNames items) (calm : Calm ctx)
    (stmt : Stmt Site) (orderly : Orderly items ctx s) (locals : Locals s places scope)
    (apart : ∀ place ∈ places, place.2.id ∉ stmt.nodes.map Source.Node.id)
    (ahead : Ahead stmt.nodes s) :
    Leaves (resolveStmt ctx frame scope stmt) s fun next s' =>
      Marks items ctx frame.typeParams scope stmt.nodes s s' ∧
        Locals s' ((letSite? stmt).toList ++ places) next := by
  have marked : ∀ e, ExprMarks items ctx frame.typeParams scope e := resolveExpr_marks globals calm
  cases stmt with
  | letBind site name type value =>
      rw [resolveStmt_letBind]
      obtain ⟨here, _, outside, inner⟩ := ahead.of_cons
      obtain ⟨typeAhead, valueAhead, distinct⟩ := inner.of_append
      -- The tree has the type before the value, resolution works on the value first.
      refine (marked value s orderly locals.inTable valueAhead).bind ?_
      intro found s₁ marks₁
      have later := typeAhead.walks marks₁.toWalks fun id value type => distinct id type value
      refine (statedType_marks globals calm marks₁.orderly scope later).bind ?_
      intro stated s₂ marks₂
      have marks : Marks items ctx frame.typeParams scope
          (type.toList.map .typeRef ++ value.nodes) s s₂ :=
        (marks₁.append globals marks₂ fun id value type => distinct id type value).of_mem_iff
          (by simp [or_comm])
      refine (declareLocal_walks marks₂.orderly (marks.way.slots ▸ here) name value found
        stated).mono ?_
      intro _ s₃ post
      obtain ⟨walks₃, i, rfl, introduces⟩ := post
      have closed : Marks items ctx frame.typeParams scope
          (Stmt.letBind site name type value).nodes s s₃ :=
        marks.close globals (Walks.marks_idle walks₃ rfl) outside
      exact ⟨closed, .cons ⟨rfl, introduces⟩ (locals.way closed.way apart)⟩
  | ret site value =>
      rw [resolveStmt_ret]
      cases value with
      | none =>
          refine (checkReturn_walks orderly site .unit).mono ?_
          intro _ s₁ post
          obtain ⟨walks, rfl⟩ := post
          exact ⟨walks.marks.cons_idle rfl, locals.way walks.way fun _ _ => List.not_mem_nil⟩
      | some value =>
          have nodes : (Stmt.ret site (some value)).nodes =
              .stmt (.ret site (some value)) :: value.nodes := by
            simp [Stmt.nodes]
          rw [nodes] at ahead apart ⊢
          obtain ⟨_, _, _, inner⟩ := ahead.of_cons
          refine (marked value s orderly locals.inTable inner).bind ?_
          intro found s₁ marks₁
          refine (checkReturn_walks marks₁.orderly value.site found).mono ?_
          intro _ s₂ post
          obtain ⟨walks₂, rfl⟩ := post
          have marks := (marks₁.before globals walks₂).cons_idle (n := .stmt (.ret site (some value))) rfl
          exact ⟨marks, locals.way marks.way apart⟩
  | eval site value =>
      obtain ⟨_, _, _, inner⟩ := ahead.of_cons
      refine (marked value s orderly locals.inTable inner).bind ?_
      intro found s₁ marks₁
      have marks := marks₁.cons_idle (n := .stmt (.eval site value)) rfl
      exact .pure ⟨marks, locals.way marks.way apart⟩

/-- Each statement of a body obeys among the locals that it sees. -/
theorem resolveStmts_marks (globals : ctx.globals = itemNames items) (calm : Calm ctx)
    (stmts : List (Stmt Site)) {scope : Scope} {places : List (String × Site)} {s : State}
    (orderly : Orderly items ctx s) (locals : Locals s places scope)
    (apart : ∀ place ∈ places, place.2.id ∉ (stmts.flatMap Stmt.nodes).map Source.Node.id)
    (ahead : Ahead (stmts.flatMap Stmt.nodes) s) :
    Leaves (resolveStmts ctx frame scope stmts) s fun _ s' =>
      Walks items ctx ((stmts.flatMap Stmt.nodes).map Source.Node.id) s s' ∧
        BodyObeys ctx frame.typeParams s' places stmts := by
  induction stmts generalizing scope places s with
  | nil => exact ⟨orderly.refl, fun k stmt there => by cases there⟩
  | cons stmt rest ih =>
      rw [List.flatMap_cons] at ahead apart ⊢
      rw [List.map_append] at apart
      obtain ⟨here, later, distinct⟩ := ahead.of_append
      refine (resolveStmt_marks globals calm stmt orderly locals (fun place member inside =>
        apart place member (List.mem_append_left _ inside)) here).bind ?_
      intro next s₁ post
      obtain ⟨marks₁, locals₁⟩ := post
      have apart₁ : ∀ place ∈ (letSite? stmt).toList ++ places,
          place.2.id ∉ (rest.flatMap Stmt.nodes).map Source.Node.id := by
        rw [List.forall_mem_append]
        refine ⟨fun place member => distinct _ ?_, fun place member inside =>
          apart place member (List.mem_append_right _ inside)⟩
        exact mem_nodes_of_letSite (Option.mem_toList.mp member)
      refine (ih marks₁.orderly locals₁ apart₁ (later.walks marks₁.toWalks distinct)).mono ?_
      intro _ s₂ post
      obtain ⟨walks₂, obeys₂⟩ := post
      rw [List.map_append]
      refine ⟨marks₁.toWalks.trans walks₂, fun k other there => ?_⟩
      cases k with
      | zero =>
          obtain rfl := Option.some.inj there
          refine ⟨scope, ?_, fun n member => ?_⟩
          · exact locals.way (marks₁.way.trans walks₂.way) apart
          · exact (marks₁.obey n member).way globals marks₁.orderly walks₂.way
              (distinct _ (List.mem_map_of_mem member))
      | succ k =>
          rw [List.take_succ_cons, localsBehind_cons]
          exact obeys₂ k other there

end Statements

/-! ## Units -/

section Units

variable {items : List (Item Site)} {ctx : Context} {s : State}

/-- The body of an item obeys, statement by statement. -/
theorem resolveBody_marks (globals : ctx.globals = itemNames items) (calm : Calm ctx)
    (i : DescriptorId) {item : Item Site} {params : List DescriptorId}
    (orderly : Orderly items ctx s)
    (locals : Locals s (paramSites item).reverse (paramScope item params))
    (apart : ∀ id ∈ (headNodes item).map Source.Node.id, id ∉ (bodyNodes item).map Source.Node.id)
    (ahead : Ahead (bodyNodes item) s) :
    Leaves (resolveBody ctx i params item) s fun _ s' =>
      Walks items ctx ((bodyNodes item).map Source.Node.id) s s' ∧
        BodyObeys ctx (typeParamsOf item) s' (paramSites item).reverse (bodyOf item) := by
  have away : ∀ place ∈ (paramSites item).reverse,
      place.2.id ∉ (bodyNodes item).map Source.Node.id :=
    fun place member => apart _ (mem_headNodes_param (List.mem_reverse.mp member))
  cases item with
  | cls site name fields => exact ⟨orderly.refl, fun k stmt there => by cases there⟩
  | function site name typeParams ps returns body =>
      rw [resolveBody, descriptor?_eq ctx]
      refine (judge_walks orderly fun _ member => by cases member).bind ?_
      intro d s₁ post
      obtain ⟨walks₁, _⟩ := post
      refine (resolveStmts_marks globals calm body walks₁.orderly
        (locals.way walks₁.way fun _ _ => List.not_mem_nil) away (ahead.walks walks₁ (by simp))).mono ?_
      exact fun _ s₂ post => ⟨walks₁.trans post.1, post.2⟩

/-- All bodies obey, each among its own locals. -/
theorem resolveBodies_marks (globals : ctx.globals = itemNames items) (calm : Calm ctx)
    {first : DescriptorId} {rest : List (Item Site)} {more : List (List DescriptorId)} {s : State}
    (orderly : Orderly items ctx s) (heads : HeadsObey ctx s first rest more)
    (apart : ∀ id ∈ (rest.flatMap headNodes).map Source.Node.id,
      id ∉ (rest.flatMap bodyNodes).map Source.Node.id)
    (ahead : Ahead (rest.flatMap bodyNodes) s) :
    Leaves (resolveBodies ctx first (rest.zip more)) s fun _ s' =>
      Walks items ctx ((rest.flatMap bodyNodes).map Source.Node.id) s s' ∧
        ∀ item ∈ rest, BodyObeys ctx (typeParamsOf item) s' (paramSites item).reverse
          (bodyOf item) := by
  induction rest generalizing first more s with
  | nil =>
      cases heads
      exact ⟨orderly.refl, by simp⟩
  | cons item rest ih =>
      cases heads with
      | cons head heads =>
          rw [List.flatMap_cons] at ahead ⊢
          rw [List.flatMap_cons, List.flatMap_cons, List.map_append, List.map_append,
            List.forall_mem_append] at apart
          simp only [List.mem_append, not_or] at apart
          obtain ⟨mine, others, distinct⟩ := ahead.of_append
          refine (resolveBody_marks globals calm first orderly head.params
            (fun id inside => (apart.1 id inside).1) mine).bind ?_
          intro _ s₁ post
          obtain ⟨walks₁, obeys₁⟩ := post
          have heads₁ := heads.way globals orderly walks₁.way
            fun id inside => (apart.2 id inside).1
          refine (ih walks₁.orderly heads₁ (fun id inside => (apart.2 id inside).2)
            (others.walks walks₁ distinct)).mono ?_
          intro _ s₂ post
          obtain ⟨walks₂, obeys₂⟩ := post
          rw [List.map_append]
          -- The first body sees its parameters and its own `let`s, which later bodies do not bind.
          refine ⟨walks₁.trans walks₂, List.forall_mem_cons.mpr ⟨?_, obeys₂⟩⟩
          refine obeys₁.way globals walks₁.orderly walks₂.way (fun place member => ?_) distinct
          exact (apart.1 _ (mem_headNodes_param (List.mem_reverse.mp member))).2

/-- The search for repeated names leaves everything alone. -/
theorem reportDuplicates_walks (orderly : Orderly items ctx s) (seen : List String)
    (rest : List (Item Site)) :
    Leaves (reportDuplicates ctx seen rest) s fun _ s' => Walks items ctx [] s s' := by
  induction rest generalizing seen s with
  | nil => exact orderly.refl
  | cons item rest ih =>
      rw [reportDuplicates_cons]
      refine (judge_walks orderly (nameVerdict_namesFound item.site _ seen item.name _)).bind ?_
      intro _ s₁ post
      obtain ⟨walks₁, _⟩ := post
      exact (ih walks₁.orderly _).mono fun _ _ walks => walks₁.trans walks

/-- All constructs of a unit obey when it is resolved. -/
structure UnitObeys (items : List (Item Site)) (ctx : Context) (s : State) : Prop where
  orderly : Orderly items ctx s
  heads : ∃ params, HeadsObey ctx s 0 items params
  bodies : ∀ item ∈ items,
    BodyObeys ctx (typeParamsOf item) s (paramSites item).reverse (bodyOf item)

/-- A unit obeys after its two phases: first what is outside of bodies, then the bodies. -/
theorem resolveItems_obeys (globals : ctx.globals = itemNames items) (calm : Calm ctx)
    (orderly : Orderly items ctx s)
    (ahead : Ahead (items.flatMap headNodes ++ items.flatMap bodyNodes) s) :
    Leaves (resolveItems ctx items) s fun _ s' => UnitObeys items ctx s' := by
  refine (reportDuplicates_walks orderly [] items).bind ?_
  intro _ s₁ walks₁
  obtain ⟨heads, bodies, apart⟩ := (ahead.walks walks₁ (by simp)).of_append
  refine (resolveSignatures_marks globals calm (.all items) walks₁.orderly heads).bind ?_
  intro params s₂ post
  obtain ⟨walks₂, obey⟩ := post
  refine (resolveBodies_marks globals calm walks₂.orderly obey apart
    (bodies.walks walks₂ apart)).mono ?_
  intro _ s₃ post
  obtain ⟨walks₃, obeys⟩ := post
  exact ⟨walks₃.orderly, ⟨params, obey.way globals walks₂.orderly walks₃.way apart⟩, obeys⟩

/-- What the resolution of a unit starts with. -/
theorem orderly_start (tree : Tree) (ctx : Context) :
    Orderly tree.items ctx
      { descriptors := itemDescriptors tree.items, bindings := .ofSize tree.size } :=
  ⟨rfl, (steady_start tree ctx).items, by simp, .nil, by simp⟩

theorem run_obeys {tree : Tree} (numbers : tree.nodes.map Source.Node.id = List.range tree.size)
    (registry : Registry) (calm : Calm (contextOf tree registry)) :
    UnitObeys tree.items (contextOf tree registry) (run tree registry) := by
  exact resolveItems_obeys rfl calm (orderly_start tree _) ⟨placed_start numbers, fun _ _ => rfl⟩

end Units

end StagedCompiler.Resolution
