import StagedCompiler.Proofs.Analysis.Acceptance
import StagedCompiler.Proofs.Analysis.NotedUnits
import StagedCompiler.Proofs.Catalog.BuiltIn
import StagedCompiler.Proofs.Module.LinkedTree

/-!
# Bindings of accepted units are complete and clean

Once a unit is accepted, every declaration has a descriptor of its own, every name leads to a
descriptor of that name, and no binding is left that says that something could not be resolved or does
not fit (`accepted_cleanlyBound`).  It is assumed only that no resolver offers anything of the type of
what could not be resolved, unless it was shown something of that type.

That all constructs are linked is known of every run (`run_links`).  What is added here is that nothing
is reported: so all links lead somewhere, and the remarks of a binding follow from its target
(`Sure.clean`).
-/

namespace StagedCompiler.Resolution

open Source (Typed Item TypeRef Site SiteId Expr Stmt Node)

/-- What a construct declares. -/
def declaredKind? : Node → Option Descriptor.Kind
  | .item i => some (itemKind i)
  | .field _ => some .field
  | .param _ => some .param
  | .stmt (.letBind _ _ _ _) => some .localVar
  | .stmt (.ret _ _) | .stmt (.eval _ _) | .typeRef _ | .expr _ => none

/-- The descriptor that a construct is bound to as its declaration. -/
def declaredAt (b : Bindings) (n : Node) : Option DescriptorId :=
  (b.get? n.id).bind (·.declares)

/-- A declaration has a descriptor of its name and kind, which says where it comes from. -/
def OwnDescriptor (b : Bindings) (D : Descriptor.Table) (n : Node) : Prop :=
  ∃ i d, declaredAt b n = some i ∧ D.get? i = some d ∧ n.declares? = some d.name ∧
    declaredKind? n = some d.kind ∧ d.origin = .source n.id

/-- A name is bound to a descriptor of that name. -/
structure Refers (b : Bindings) (D : Descriptor.Table) (site : Site) (name : String)
    (i : DescriptorId) : Prop where
  target : ∃ binding, b.get? site.id = some binding ∧ binding.target = some i
  entry : ∃ d, D.get? i = some d ∧ d.name = name

/-- The bindings of a unit are complete and clean. -/
structure CleanlyBound (tree : Tree) (b : Bindings) (D : Descriptor.Table) : Prop where
  declarations : ∀ n ∈ tree.nodes, n.category = .declaration → OwnDescriptor b D n
  distinct : ∀ n ∈ tree.nodes, ∀ n' ∈ tree.nodes, n.category = .declaration →
    n'.category = .declaration → declaredAt b n = declaredAt b n' → n = n'
  uses : ∀ n ∈ tree.nodes, n.category = .expression → ∀ name, n.refers? = some name →
    ∃ i, Refers b D n.site name i
  types : ∀ item ∈ tree.items, ∀ t, .typeRef t ∈ item.nodes → Ty.builtin? t.name = none →
    t.name ∉ typeParamsOf item → ∃ i, Refers b D t.site t.name i
  expressions : ∀ n ∈ tree.nodes, n.category = .expression → (b.get? n.id).isSome = true
  clean : ∀ id note, b.get? id = some note → Clean D note

variable {items : List (Item Site)} {ctx : Context} {s : State}

/-! ## Declarations -/

/-- A linked declaration has a descriptor of its own. -/
theorem Linked.ownDescriptor {n : Node} (linked : Linked s n)
    (declaration : n.category = .declaration) : OwnDescriptor s.bindings s.descriptors n := by
  have described : ∀ {name : String} {kind : Descriptor.Kind}, n.declares? = some name →
      declaredKind? n = some kind → Declares s n.site name kind →
      OwnDescriptor s.bindings s.descriptors n := by
    rintro _ _ name kind ⟨note, i, there, declared, d, entry, rfl, rfl, origin⟩
    exact ⟨i, d, Option.bind_eq_some_iff.mpr ⟨note, there, declared⟩, entry, name, kind, origin⟩
  cases n with
  | item i => exact described rfl rfl linked
  | field f => exact described rfl rfl linked
  | param p => exact described rfl rfl linked
  | stmt stmt =>
      cases stmt with
      | letBind site name type value => exact described rfl rfl linked
      | ret site value => cases declaration
      | eval site value => cases declaration
  | typeRef t => cases declaration
  | expr e => cases declaration

/-- Declarations with one descriptor are one construct, since the descriptor says where it comes
from. -/
theorem OwnDescriptor.id_eq {b : Bindings} {D : Descriptor.Table} {n n' : Node}
    (own : OwnDescriptor b D n) (own' : OwnDescriptor b D n')
    (same : declaredAt b n = declaredAt b n') : n.id = n'.id := by
  obtain ⟨i, d, declared, entry, _, _, origin⟩ := own
  obtain ⟨i', d', declared', entry', _, _, origin'⟩ := own'
  rw [declared, declared', Option.some.injEq] at same
  subst same
  obtain rfl := Option.some.inj (entry.symm.trans entry')
  exact Descriptor.Origin.source.inj (origin.symm.trans origin')

/-! ## Names and expressions -/

/-- A use of a name leads to a descriptor of the name if nothing is reported. -/
theorem refers_of_uses {site : Site} {name : String} (silent : s.diagnostics = [])
    (uses : Uses s site name) : ∃ i, Refers s.bindings s.descriptors site name i := by
  obtain ⟨b, i, there, target, names⟩ := uses.target silent
  exact ⟨i, ⟨b, there, target⟩, names⟩

/-- A linked expression that names something leads to a descriptor of the name if nothing is reported.
-/
theorem Linked.refers {n : Node} {name : String} (linked : Linked s n)
    (silent : s.diagnostics = []) (expression : n.category = .expression)
    (named : n.refers? = some name) : ∃ i, Refers s.bindings s.descriptors n.site name i := by
  cases n with
  | expr e =>
      cases e with
      | ref site name' =>
          obtain rfl := Option.some.inj named
          exact refers_of_uses silent linked
      | call site callee args =>
          obtain rfl := Option.some.inj named
          exact refers_of_uses silent linked
      | int site n => cases named
      | bool site t => cases named
      | str site t => cases named
      | binary site op lhs rhs => cases named
  | stmt stmt => cases stmt <;> cases expression
  | item i => cases expression
  | field f => cases expression
  | param p => cases expression
  | typeRef t => cases expression

/-- A linked expression is bound. -/
theorem Linked.bound {n : Node} (linked : Linked s n) (expression : n.category = .expression) :
    (s.bindings.get? n.id).isSome = true := by
  cases n with
  | expr e =>
      cases e with
      | ref site name =>
          obtain ⟨_, there, _⟩ := linked
          exact Option.isSome_of_eq_some there
      | call site callee args =>
          obtain ⟨_, there, _⟩ := linked
          exact Option.isSome_of_eq_some there
      | int site n => exact linked
      | bool site t => exact linked
      | str site t => exact linked
      | binary site op lhs rhs => exact linked
  | stmt stmt => cases stmt <;> cases expression
  | item i => cases expression
  | field f => cases expression
  | param p => cases expression
  | typeRef t => cases expression

/-! ## References to types -/

mutual

/-- There is no reference to a type in an expression. -/
theorem typeRef_notMem_expr (t : TypeRef Site) (e : Expr Site) : .typeRef t ∉ e.nodes := by
  cases e with
  | int site n => simp [Expr.nodes]
  | bool site t => simp [Expr.nodes]
  | str site t => simp [Expr.nodes]
  | ref site name => simp [Expr.nodes]
  | call site callee args => simp [Expr.nodes, typeRef_notMem_exprs t args]
  | binary site op lhs rhs =>
      simp [Expr.nodes, typeRef_notMem_expr t lhs, typeRef_notMem_expr t rhs]

theorem typeRef_notMem_exprs (t : TypeRef Site) (es : List (Expr Site)) :
    .typeRef t ∉ Source.exprListNodes es := by
  cases es with
  | nil => simp [Source.exprListNodes]
  | cons e rest =>
      simp [Source.exprListNodes, typeRef_notMem_expr t e, typeRef_notMem_exprs t rest]

end

section Types

variable {b : Bindings} {D : Descriptor.Table} {t : TypeRef Site}

/-- The type that a noted statement states is noted. -/
theorem StmtNoted.typeNoted {frame : Frame} {scope next : Scope} {stmt : Stmt Site}
    (noted : StmtNoted ctx b D frame scope stmt next) (inside : .typeRef t ∈ stmt.nodes) :
    ∃ ty, TypeNoted ctx b D frame.typeParams t ty := by
  cases noted with
  | letBind _ stated _ _ _ _ _ =>
      cases stated with
      | none => simp [Stmt.nodes, typeRef_notMem_expr] at inside
      | @some u ty type =>
          have same : t = u := by simpa [Stmt.nodes, typeRef_notMem_expr] using inside
          exact ⟨ty, same ▸ type⟩
  | leave _ => simp [Stmt.nodes] at inside
  | ret _ _ => simp [Stmt.nodes, typeRef_notMem_expr] at inside
  | eval _ => simp [Stmt.nodes, typeRef_notMem_expr] at inside

theorem StmtsNoted.typeNoted {frame : Frame} {scope : Scope} {stmts : List (Stmt Site)}
    (noted : StmtsNoted ctx b D frame scope stmts)
    (inside : .typeRef t ∈ stmts.flatMap Stmt.nodes) :
    ∃ ty, TypeNoted ctx b D frame.typeParams t ty := by
  induction noted with
  | nil => cases inside
  | cons first _ ih =>
      rw [List.flatMap_cons, List.mem_append] at inside
      exact inside.elim first.typeNoted ih

/-- The types of noted members are noted. -/
theorem MemberNoted.typeNoted {kind : Descriptor.Kind} {typeParams : List String}
    {members : List (Typed Site)} {ps : List (Descriptor.Param × DescriptorId)}
    (each : List.Forall₂ (MemberNoted ctx b D kind typeParams) members ps) {m : Typed Site}
    (member : m ∈ members) : ∃ ty, TypeNoted ctx b D typeParams m.type ty := by
  induction each with
  | nil => cases member
  | cons first _ ih =>
      rcases List.mem_cons.mp member with rfl | later
      · exact ⟨_, first.type⟩
      · exact ih later

/-- The references to types outside bodies are those of members and of results. -/
theorem typeRef_mem_headNodes {item : Item Site} (inside : .typeRef t ∈ headNodes item) :
    (∃ m ∈ Typing.members item, t = m.type) ∨ returnsOf item = some t := by
  cases item with
  | cls site name fields =>
      simp only [headNodes, List.mem_cons, reduceCtorEq, false_or, List.mem_flatMap,
        Node.typeRef.injEq, List.not_mem_nil, or_false] at inside
      exact Or.inl inside
  | function site name typeParams params returns body =>
      simp only [headNodes, List.mem_cons, reduceCtorEq, false_or, List.mem_append, List.mem_flatMap,
        Node.typeRef.injEq, List.not_mem_nil, or_false, List.mem_map, exists_eq_right,
        Option.mem_toList] at inside
      exact inside

/-- All types outside the body of a noted item are noted. -/
theorem HeadNoted.typeNoted {i : DescriptorId} {item : Item Site} {params : List DescriptorId}
    (noted : HeadNoted ctx b D i item params) (inside : .typeRef t ∈ headNodes item) :
    ∃ ty, TypeNoted ctx b D (typeParamsOf item) t ty := by
  obtain ⟨d, _, _, _, _, result, each, _⟩ := noted.described
  generalize d.ty = ty at result
  rcases typeRef_mem_headNodes inside with ⟨m, member, rfl⟩ | returned
  · exact MemberNoted.typeNoted each member
  · cases result with
    | cls => cases returned
    | function returns =>
        cases returns with
        | nothing => cases returned
        | value type => exact ⟨_, Option.some.inj returned ▸ type⟩

/-- Every reference to a type in an item is noted. -/
theorem UnitNoted.typeNoted (noted : UnitNoted items ctx b D) {item : Item Site}
    (member : item ∈ items) (inside : .typeRef t ∈ item.nodes) :
    ∃ ty, TypeNoted ctx b D (typeParamsOf item) t ty := by
  obtain ⟨i, there⟩ := List.mem_iff_getElem?.mp member
  obtain ⟨params, head, _, _, body⟩ := noted i item there
  rw [nodes_eq, List.mem_append] at inside
  exact inside.elim head.typeNoted body.typeNoted

end Types

/-- A noted type that is looked up leads to a descriptor of its name. -/
theorem TypeNoted.refers (globals : ctx.globals = itemNames items) (sure : Sure items ctx s)
    {typeParams : List String} {t : TypeRef Site} {ty : Ty}
    (noted : TypeNoted ctx s.bindings s.descriptors typeParams t ty)
    (unreserved : Ty.builtin? t.name = none) (notParam : t.name ∉ typeParams) :
    ∃ i, Refers s.bindings s.descriptors t.site t.name i := by
  cases noted with
  | builtin found _ => cases unreserved.symm.trans found
  | param _ member _ => exact absurd member notParam
  | cls _ _ leads _ _ there => exact ⟨_, ⟨_, there, rfl⟩, leads.names globals sure⟩

/-! ## Accepted units -/

/-- The bindings of an accepted unit are complete and clean. -/
theorem accepted_cleanlyBound {draft : Source.Draft} {unit : String} {tree : Tree}
    {registry : Registry} {log : Diagnostic.Log} {analysis : Analysis}
    (assembled : draft.assemble unit = .ok tree) (honest : Honest (contextOf tree registry))
    (accepted : (analyze tree registry log).outcome = .ok (.accepted analysis)) :
    CleanlyBound tree analysis.bindings analysis.descriptors := by
  have numbers := Source.assemble_numbers assembled
  obtain ⟨silent, rfl⟩ := Analysis.accepted_run accepted
  have linked := (run_links numbers registry).linked
  obtain ⟨sure, noted⟩ := run_noted numbers silent
  have distinct : (tree.nodes.map Node.id).Nodup := by
    rw [numbers]
    exact List.nodup_range
  refine ⟨fun n member => (linked n member).ownDescriptor, ?_,
    fun n member expression name => (linked n member).refers silent expression, ?_,
    fun n member => (linked n member).bound, sure.clean honest⟩
  · intro n member n' member' declaration declaration' same
    have own := (linked n member).ownDescriptor declaration
    have own' := (linked n' member').ownDescriptor declaration'
    exact List.inj_on_of_nodup_map distinct member member' (own.id_eq own' same)
  · intro item member t inside unreserved notParam
    obtain ⟨ty, type⟩ := noted.typeNoted member inside
    exact type.refers rfl sure unreserved notParam

/-- Built-in resolvers are honest: the functions of the host have no result, and an accessor has the
type of a field that its resolver was shown. -/
theorem honest_of_builtInOnly {registry : Registry} (only : registry.BuiltInOnly)
    (resolvers : ctx.resolvers = registry.resolvers) : Honest ctx := by
  intro entry member request proper d answered
  rw [resolvers] at member
  obtain ⟨among, extension⟩ := Registry.mem_resolvers member
  have builtIn := only _ among
  rw [extension] at builtIn
  generalize entry.2 = e at builtIn answered
  cases builtIn with
  | builtins =>
      have offered := Except.ok.inj answered
      split at offered
      · obtain ⟨_, _, rfl⟩ := Option.map_eq_some_iff.mp offered
        simp
      · cases offered
  | accessors marker =>
      obtain ⟨id, field, owner, found, rfl⟩ := Accessors.offer?_eq_some (Except.ok.inj answered)
      exact proper id field found

/-- An accessor is among the names that are bound cleanly. -/
theorem accepted_cleanlyBound_followingPoint : ∃ tree analysis,
    Analysis.followingPoint.assemble "point" = .ok tree ∧
    Honest (contextOf tree Analysis.readingRegistry) ∧
    (analyze tree Analysis.readingRegistry .empty).outcome = .ok (.accepted analysis) ∧
    CleanlyBound tree analysis.bindings analysis.descriptors := by
  obtain ⟨tree, analysis, assembled, accepted⟩ := Analysis.followingPoint_accepted
  have only : Analysis.readingRegistry.BuiltInOnly :=
    Registry.host_builtInOnly.push (.accessors "read_") _ _ _
  have honest : Honest (contextOf tree Analysis.readingRegistry) := honest_of_builtInOnly only rfl
  exact ⟨tree, analysis, assembled, honest, accepted,
    accepted_cleanlyBound assembled honest accepted⟩

end StagedCompiler.Resolution
