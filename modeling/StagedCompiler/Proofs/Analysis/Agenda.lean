import StagedCompiler.Proofs.Analysis.NotedUnits
import StagedCompiler.Proofs.Analysis.Senses

/-!
# The agenda of a unit

`Performs` is a run through a list of tasks.  A name that is looked up for the first time is put to the
resolvers (`Hearing`), one after another until one of them makes a proper offer or gives up, and after
one has given up nobody is asked for anything again.  What else happens on the way, types and reports and
further bindings, concerns neither the resolvers nor what descriptors stand for (`Rests`).

A step performs the tasks that it follows (`Follows.performs`), so the resolution of a unit performs all
of them (`run_performs`).  Nothing is assumed about the resolvers.
-/

namespace StagedCompiler.Resolution

open Source (Typed Item TypeRef Site SiteId Expr Stmt)

/-! ## Hearings -/

/-- A list up to and including its first element with a property. -/
def through {α : Type} (p : α → Bool) : List α → List α
  | [] => []
  | a :: rest => if p a then [a] else a :: through p rest

/-- A question to the resolvers: for which name and use, and which descriptors they are shown. -/
structure Hearing : Type where
  key : String × ReferenceKind
  shown : Descriptor.Table

namespace Hearing

/-- What a resolver is asked. -/
def request (h : Hearing) : Extension.Request := ⟨h.key.1, h.key.2, h.shown⟩

/-- What a resolver answers, if that ends the hearing: a descriptor of the name, or a panic. -/
def reply? (h : Hearing) (entry : Registry.Record × Extension.Resolver) :
    Option (Except Fault Descriptor) :=
  match entry.1.answer (entry.2.resolve h.request) with
  | .error fault => some (.error fault)
  | .ok (some offer) => if offer.name = h.key.1 then some (.ok offer) else none
  | .ok none => none

/-- The resolvers that are asked. -/
def asked (h : Hearing) (ctx : Context) : List (Registry.Record × Extension.Resolver) :=
  through (fun entry => (h.reply? entry).isSome) ctx.resolvers

/-- The record of a resolver that is asked. -/
def consultation (h : Hearing) (entry : Registry.Record × Extension.Resolver) : Consultation :=
  ⟨entry.1.id, h.key.1, h.key.2, h.shown.size⟩

/-- The fault of a resolver that gives up. -/
def fault? (h : Hearing) (ctx : Context) : Option Fault :=
  match ctx.resolvers.findSome? h.reply? with
  | some (.error fault) => some fault
  | some (.ok _) | none => none

/-- The offer that is taken: none for the name of an item. -/
def taken? (h : Hearing) (ctx : Context) : Option Descriptor :=
  match ctx.resolvers.findSome? h.reply?, ctx.globals.lookup h.key.1 with
  | some (.ok offer), none => some offer
  | _, _ => none

/-- The number under which an offer is taken. -/
def number? (h : Hearing) (ctx : Context) : Option ((String × ReferenceKind) × DescriptorId) :=
  (h.taken? ctx).map fun _ => (h.key, h.shown.size)

end Hearing

/-- The state behind a hearing. -/
def heard (ctx : Context) (h : Hearing) (s : State) : State :=
  { s with
    descriptors := (h.taken? ctx).elim s.descriptors s.descriptors.insert
    synthetic := s.synthetic ++ (h.number? ctx).toList
    asked := h.key :: s.asked
    consultations := s.consultations ++ (h.asked ctx).map h.consultation
    fault := h.fault? ctx }

/-- The state behind some resolvers that have been asked. -/
def settle (ctx : Context) (h : Hearing) (resolvers : List (Registry.Record × Extension.Resolver))
    (s : State) : State :=
  let s := { s with
    consultations := s.consultations ++
      (through (fun entry => (h.reply? entry).isSome) resolvers).map h.consultation }
  match resolvers.findSome? h.reply? with
  | some (.error fault) => { s with fault := some fault }
  | some (.ok offer) => if (ctx.globals.lookup h.key.1).isSome then s else accept h.key offer s
  | none => s

section Consult

variable (ctx : Context) (name : String) (kind : ReferenceKind)

/-- A resolver that passes leaves a consultation behind and nothing else. -/
theorem settle_passed (h : Hearing) {entry : Registry.Record × Extension.Resolver}
    (passed : h.reply? entry = none) (rest : List (Registry.Record × Extension.Resolver))
    (s : State) :
    settle ctx h (entry :: rest) s =
      settle ctx h rest { s with consultations := s.consultations ++ [h.consultation entry] } := by
  simp only [settle, through, passed, List.findSome?_cons, Option.isSome_none, Bool.false_eq_true,
    if_false, List.map_cons, List.append_assoc, List.singleton_append]

/-- Asking resolvers settles a hearing: the loop is left by a proper offer or by a resolver that gives
up. -/
theorem askResolvers_run (resolvers : List (Registry.Record × Extension.Resolver)) (s : State) :
    (askResolvers ctx name kind resolvers).run s =
      ((), settle ctx ⟨(name, kind), s.descriptors⟩ resolvers s) := by
  induction resolvers generalizing s with
  | nil =>
      rw [settle, through, List.map_nil, List.append_nil]
      rfl
  | cons entry rest ih =>
      obtain ⟨record, resolver⟩ := entry
      rw [askResolvers]
      simp only [StateT.run_bind, StateT.run_get, StateT.run_modify, pure_bind]
      cases answered : record.answer (resolver.resolve ⟨name, kind, s.descriptors⟩) with
      | error fault =>
          simp only [settle, through, Hearing.reply?, Hearing.request, answered,
            List.findSome?_cons, Option.isSome_some, if_true]
          rfl
      | ok offer =>
          cases offer with
          | none =>
              rw [settle_passed ctx _ (by simp only [Hearing.reply?, Hearing.request, answered])]
              exact ih _
          | some offer =>
              by_cases named : offer.name = name
              · simp only [settle, through, Hearing.reply?, Hearing.request, answered, named,
                  List.findSome?_cons, Option.isSome_some, if_true, ne_eq, not_true_eq_false,
                  if_false]
                split <;> rfl
              · rw [settle_passed ctx _
                  (by simp only [Hearing.reply?, Hearing.request, answered, if_neg named])]
                simp only [ne_eq, named, not_false_eq_true, if_true]
                exact ih _

/-- What asking all resolvers comes to is what the hearing says at once. -/
theorem settle_eq_heard (h : Hearing) {s : State} (shown : h.shown = s.descriptors)
    (fault : s.fault = none) :
    settle ctx h ctx.resolvers { s with asked := h.key :: s.asked } = heard ctx h s := by
  unfold settle heard Hearing.fault? Hearing.number? Hearing.taken?
  cases ctx.resolvers.findSome? h.reply? with
  | none => simp [fault, Hearing.asked]
  | some reply =>
      cases reply with
      | error problem => simp [Hearing.asked]
      | ok offer =>
          cases ctx.globals.lookup h.key.1 with
          | none => simp [fault, Hearing.asked, accept, shown]
          | some i => simp [fault, Hearing.asked]

/-- A name is put to the resolvers if it is new and none of them has given up. -/
theorem consult_run (s : State) :
    (consult ctx name kind).run s =
      ((), if s.fault.isSome || s.asked.contains (name, kind) then s
        else heard ctx ⟨(name, kind), s.descriptors⟩ s) := by
  have unfolded : (consult ctx name kind).run s =
      (if s.fault.isSome || s.asked.contains (name, kind) then pure () else do
        modify fun s => { s with asked := (name, kind) :: s.asked }
        askResolvers ctx name kind ctx.resolvers : Step Unit).run s := rfl
  rw [unfolded]
  split
  · rfl
  · rename_i new
    rw [Bool.or_eq_true, not_or, Option.not_isSome_iff_eq_none] at new
    have asked := askResolvers_run ctx name kind ctx.resolvers
      { s with asked := (name, kind) :: s.asked }
    exact asked.trans (congrArg _ (settle_eq_heard ctx _ rfl new.1))

end Consult

/-! ## Runs through a list of tasks -/

/-- What the descriptors of a table say besides their signatures. -/
def outlines (D : Descriptor.Table) : List Outline := D.descriptors.toList.map outline

/-- Nobody is asked for anything, descriptors stay what they are, and those behind the items stay as
they are.  A construct that is bound to declare one of these was so before. -/
structure Rests (ctx : Context) (s s' : State) : Prop where
  asked : s'.asked = s.asked
  consultations : s'.consultations = s.consultations
  synthetic : s'.synthetic = s.synthetic
  fault : s'.fault = s.fault
  outlines : outlines s'.descriptors = outlines s.descriptors
  behind : ∀ i, ctx.globals.length ≤ i → s'.descriptors.get? i = s.descriptors.get? i
  declares : ∀ id b' i, s'.bindings.get? id = some b' → b'.declares = some i →
    ctx.globals.length ≤ i → ∃ b, s.bindings.get? id = some b ∧ b.declares = some i ∧ b.ty = b'.ty

/-- The state behind a declaration that is described and bound. -/
def entered (d : Descriptor) (site : Site) (b : Binding) (s : State) : State :=
  { s with descriptors := s.descriptors.insert d, bindings := s.bindings.insert site.id b }

/-- A run through a list of tasks, and the hearings on its way. -/
inductive Performs (ctx : Context) : List Task → List Hearing → State → State → Prop
  | done {s : State} : Performs ctx [] [] s s
  | rest {tasks : List Task} {hearings : List Hearing} {s s₁ s' : State} :
    Rests ctx s s₁ → Performs ctx tasks hearings s₁ s' → Performs ctx tasks hearings s s'
  | known {key : String × ReferenceKind} {tasks : List Task} {hearings : List Hearing}
      {s s' : State} :
    s.fault.isSome ∨ key ∈ s.asked → Performs ctx tasks hearings s s' →
    Performs ctx (.look key :: tasks) hearings s s'
  | ask {key : String × ReferenceKind} {tasks : List Task} {hearings : List Hearing}
      {s s' : State} :
    s.fault = none → key ∉ s.asked →
    Performs ctx tasks hearings (heard ctx ⟨key, s.descriptors⟩ s) s' →
    Performs ctx (.look key :: tasks) (⟨key, s.descriptors⟩ :: hearings) s s'
  | declare {site : Site} {d : Descriptor} {owner : DescriptorId} {b : Binding} {tasks : List Task}
      {hearings : List Hearing} {s s' : State} :
    d.origin = .source site.id → d.container = some owner →
    b.declares = some s.descriptors.size → b.ty = d.ty →
    Performs ctx tasks hearings (entered d site b s) s' →
    Performs ctx (.declare site d.name d.kind owner :: tasks) hearings s s'

/-- Runs in sequence perform the tasks of both, with the hearings of both. -/
theorem Performs.append {ctx : Context} {tasks tasks' : List Task} {hearings hearings' : List Hearing}
    {s s' s'' : State} (first : Performs ctx tasks hearings s s')
    (second : Performs ctx tasks' hearings' s' s'') :
    Performs ctx (tasks ++ tasks') (hearings ++ hearings') s s'' := by
  induction first with
  | done => exact second
  | rest rests _ ih => exact .rest rests (ih second)
  | known settled _ ih => exact .known settled (ih second)
  | ask fault new _ ih => exact .ask fault new (ih second)
  | declare origin container declares ty _ ih =>
      exact .declare origin container declares ty (ih second)

section Actions

variable {ctx : Context} {s s' s'' : State}

theorem Rests.refl (ctx : Context) (s : State) : Rests ctx s s :=
  ⟨rfl, rfl, rfl, rfl, rfl, fun _ _ => rfl, fun _ b _ there declares _ => ⟨b, there, declares, rfl⟩⟩

/-- Steps in sequence leave alone what both of them do. -/
theorem Rests.trans (first : Rests ctx s s') (second : Rests ctx s' s'') : Rests ctx s s'' := by
  refine ⟨second.asked.trans first.asked, second.consultations.trans first.consultations,
    second.synthetic.trans first.synthetic, second.fault.trans first.fault,
    second.outlines.trans first.outlines,
    fun i behind => (second.behind i behind).trans (first.behind i behind), ?_⟩
  intro id b'' i there declares behind
  obtain ⟨b', there', declares', ty'⟩ := second.declares id b'' i there declares behind
  obtain ⟨b, there, declares, ty⟩ := first.declares id b' i there' declares' behind
  exact ⟨b, there, declares, ty.trans ty'⟩

variable (ctx)

theorem report_rests (code : String) (site : Site) (message : String) (s : State) :
    Rests ctx s ((report ctx code site message).run s).2 :=
  ⟨rfl, rfl, rfl, rfl, rfl, fun _ _ => rfl, fun _ b _ there declares _ => ⟨b, there, declares, rfl⟩⟩

theorem flag_rests (site : Site) (flags : Binding.Flags) (s : State) :
    Rests ctx s ((flag site flags).run s).2 := by
  refine ⟨rfl, rfl, rfl, rfl, rfl, fun _ _ => rfl, fun id b' i there' declares _ => ?_⟩
  have there' : (s.bindings.flag site.id flags).get? id = some b' := there'
  rw [get?_flag] at there'
  split at there'
  · obtain ⟨b, there, rfl⟩ := Option.map_eq_some_iff.mp there'
    exact ⟨b, there, declares, rfl⟩
  · exact ⟨b', there', declares, rfl⟩

/-- Complaints concern neither resolvers nor what descriptors stand for. -/
theorem complain_rests (complaints : List Complaint) (s : State) :
    Rests ctx s ((complain ctx complaints).run s).2 := by
  induction complaints generalizing s with
  | nil => exact .refl ctx s
  | cons c rest ih =>
      have reported := report_rests ctx c.code c.site c.message s
      unfold complain
      cases c.remarked with
      | false => exact reported.trans (ih _)
      | true => exact (reported.trans (flag_rests ctx c.site mismatch _)).trans (ih _)

/-- What is bound after an insertion is either new or was there. -/
theorem get?_insert_elim {b : Bindings} {id i : SiteId} {binding found : Binding}
    (there : (b.insert id binding).get? i = some found) :
    found = binding ∨ b.get? i = some found := by
  unfold Bindings.get? Bindings.insert at there
  by_cases same : id = i
  · subst same
    rw [Array.getElem?_setIfInBounds_self] at there
    split at there
    · exact .inl (Option.some.inj there).symm
    · cases there
  · rw [Array.getElem?_setIfInBounds_ne same] at there
    exact .inr there

/-- A construct that declares nothing behind the items is bound. -/
theorem bind_rests (site : Site) {b : Binding}
    (idle : ∀ i, b.declares = some i → i < ctx.globals.length) (s : State) :
    Rests ctx s ((Resolution.bind site b).run s).2 := by
  refine ⟨rfl, rfl, rfl, rfl, rfl, fun _ _ => rfl, fun id b' i there' declares behind => ?_⟩
  rcases get?_insert_elim there' with rfl | there
  · exact absurd (idle i declares) (Nat.not_lt.mpr behind)
  · exact ⟨b', there, declares, rfl⟩

/-- To fill in a signature leaves outlines alone. -/
theorem outlines_modify (D : Descriptor.Table) (i : DescriptorId) {f : Descriptor → Descriptor}
    (same : ∀ d, outline (f d) = outline d) : outlines (D.modify i f) = outlines D := by
  have mapped : ∀ j : Nat, (outlines (D.modify i f))[j]? = (outlines D)[j]? := by
    intro j
    have entry := get?_modify D i j f
    unfold Descriptor.Table.get? at entry
    rw [outlines, outlines, List.getElem?_map, List.getElem?_map, Array.getElem?_toList,
      Array.getElem?_toList, entry]
    split
    · cases D.descriptors[j]? with
      | none => rfl
      | some d => exact congrArg some (same d)
    · rfl
  exact List.ext_getElem? mapped

/-- The signature of an item is filled in. -/
theorem enterSignature_rests {i : DescriptorId} (inside : i < ctx.globals.length) (site : Site)
    {f : Descriptor → Descriptor} (same : ∀ d, outline (f d) = outline d) (ty : Ty) (s : State) :
    Rests ctx s ((enterSignature i site f ty).run s).2 := by
  have modified : Rests ctx s { s with descriptors := s.descriptors.modify i f } := by
    refine ⟨rfl, rfl, rfl, rfl, outlines_modify s.descriptors i same, fun j behind => ?_,
      fun _ b _ there declares _ => ⟨b, there, declares, rfl⟩⟩
    show (s.descriptors.modify i f).get? j = s.descriptors.get? j
    rw [get?_modify, if_neg (Nat.ne_of_lt (Nat.lt_of_lt_of_le inside behind))]
  refine modified.trans (bind_rests ctx site (fun j declares => ?_) _)
  exact Option.some.inj declares ▸ inside

/-- A name is looked up: it is put to the resolvers unless that has been done or is no use. -/
theorem lookupGlobal_performs (name : String) (kind : ReferenceKind) (s : State) :
    ∃ hearings, Performs ctx [.look (name, kind)] hearings s
      ((lookupGlobal ctx name kind).run s).2 := by
  have run : ((lookupGlobal ctx name kind).run s).2 = ((consult ctx name kind).run s).2 := rfl
  rw [run, consult_run]
  split
  · rename_i settled
    rw [Bool.or_eq_true, List.contains_iff_mem] at settled
    exact ⟨[], .known settled .done⟩
  · rename_i new
    rw [Bool.or_eq_true, not_or, Option.not_isSome_iff_eq_none, List.contains_iff_mem] at new
    exact ⟨_, .ask new.1 new.2 .done⟩

end Actions

/-- What follows tasks performs them. -/
theorem Follows.performs {n : Nat} {α : Type} {tasks : List Task} {x : Context → Step α}
    {post : α → Prop} (follows : Follows n tasks x post) {ctx : Context}
    (inside : n ≤ ctx.globals.length) (s : State) :
    ∃ hearings, Performs ctx tasks hearings s ((x ctx).run s).2 := by
  induction follows generalizing s with
  | pure => exact ⟨[], .done⟩
  | bind first _ performs next =>
      obtain ⟨early, performs⟩ := performs s
      obtain ⟨late, performs'⟩ := next _ (first.result ctx s) ((_ : Step _).run s).2
      exact ⟨early ++ late, performs.append performs'⟩
  | look name kind => exact lookupGlobal_performs ctx name kind s
  | judge => exact ⟨[], .rest (complain_rests ctx _ s) .done⟩
  | mark site idle =>
      refine ⟨[], .rest (bind_rests ctx site (fun i declares => ?_) s) .done⟩
      cases idle.symm.trans declares
  | declare site name kind owner ty flags =>
      exact ⟨[], .declare (d := ⟨name, kind, [], [], ty, some owner, .source site.id⟩) rfl rfl rfl rfl
        .done⟩
  | sign site ty small same =>
      exact ⟨[], .rest (enterSignature_rests ctx (Nat.lt_of_lt_of_le small inside) site same ty s)
        .done⟩

/-- What the resolution of a unit starts with. -/
def startOf (tree : Tree) : State :=
  { descriptors := itemDescriptors tree.items, bindings := .ofSize tree.size }

/-- Whatever resolvers take part, the resolution of a unit performs the tasks of the unit. -/
theorem run_performs (tree : Tree) (registry : Registry) :
    ∃ hearings, Performs (contextOf tree registry) (unitTasks tree.items) hearings (startOf tree)
      (run tree registry) := by
  have globals : (contextOf tree registry).globals = itemNames tree.items := rfl
  exact (resolveItems_follows tree.items).performs (Nat.le_of_eq (length_globals globals).symm)
    (startOf tree)

/-! ## Tasks and constructs -/

/-- The task of a construct of the item with the given number. -/
def task? (typeParams : List String) (owner : DescriptorId) : Source.Node → Option Task
  | .field f => some (.declare f.site f.name .field owner)
  | .param p => some (.declare p.site p.name .param owner)
  | .stmt (.letBind site name _ _) => some (.declare site name .localVar owner)
  | .typeRef t =>
    if (reserved? typeParams t.name).isSome then none else some (.look (t.name, .type))
  | .expr (.ref _ name) => some (.look (name, .value))
  | .expr (.call _ callee _) => some (.look (callee, .call))
  | .item _ | .stmt (.ret _ _) | .stmt (.eval _ _) | .expr (.int _ _) | .expr (.bool _ _)
  | .expr (.str _ _) | .expr (.binary _ _ _ _) => none

section Constructs

variable (typeParams : List String) (owner : DescriptorId)

theorem typeTasks_eq (t : TypeRef Site) :
    typeTasks typeParams t = [Source.Node.typeRef t].filterMap (task? typeParams owner) := by
  unfold typeTasks
  split <;> rename_i reserved <;> simp [task?, reserved]

mutual

/-- The tasks of an expression are those of its constructs, in another order. -/
theorem exprTasks_perm :
    ∀ e : Expr Site, (exprTasks e).Perm (e.nodes.filterMap (task? typeParams owner))
  | .int _ _ | .bool _ _ | .str _ _ | .ref _ _ => .refl _
  | .call site callee args => by
      have task : task? typeParams owner (.expr (.call site callee args)) =
          some (.look (callee, .call)) := rfl
      rw [exprTasks, Expr.nodes, List.filterMap_cons_some task]
      exact ((argTasks_perm args).append_right _).trans (List.perm_append_singleton _ _)
  | .binary _ _ lhs rhs => by
      rw [exprTasks, Expr.nodes, List.filterMap_cons_none rfl, List.filterMap_append]
      exact (exprTasks_perm lhs).append (exprTasks_perm rhs)

theorem argTasks_perm : ∀ args : List (Expr Site),
    (argTasks args).Perm ((Source.exprListNodes args).filterMap (task? typeParams owner))
  | [] => .refl _
  | e :: rest => by
      rw [argTasks, Source.exprListNodes, List.filterMap_append]
      exact (exprTasks_perm e).append (argTasks_perm rest)

end

theorem flatMap_typeTasks (ts : List (TypeRef Site)) :
    ts.flatMap (typeTasks typeParams) =
      (ts.map Source.Node.typeRef).filterMap (task? typeParams owner) := by
  induction ts with
  | nil => rfl
  | cons t rest ih =>
      rw [List.flatMap_cons, ih, typeTasks_eq typeParams owner, List.map_cons,
        ← List.filterMap_append, List.singleton_append]

/-- The tasks of a statement are those of its constructs: its value comes before its type and its name.
-/
theorem stmtTasks_perm (stmt : Stmt Site) :
    (stmtTasks typeParams owner stmt).Perm (stmt.nodes.filterMap (task? typeParams owner)) := by
  cases stmt with
  | letBind site name type value =>
      have task : task? typeParams owner (.stmt (.letBind site name type value)) =
          some (.declare site name .localVar owner) := rfl
      rw [stmtTasks, Stmt.nodes, List.filterMap_cons_some task, List.filterMap_append,
        flatMap_typeTasks typeParams owner, ← List.append_assoc]
      refine (List.perm_append_singleton _ _).trans (.cons _ ?_)
      exact ((exprTasks_perm typeParams owner value).append_right _).trans List.perm_append_comm
  | ret site value =>
      cases value with
      | none => exact .refl _
      | some value =>
          rw [stmtTasks, Stmt.nodes, List.filterMap_cons_none rfl, Option.toList_some,
            List.flatMap_singleton, List.flatMap_singleton]
          exact exprTasks_perm typeParams owner value
  | eval site value => exact exprTasks_perm typeParams owner value

/-- The tasks of a member are those of its constructs: its type comes before its name. -/
theorem memberTasks_perm (node : Typed Site → Source.Node) {kind : Descriptor.Kind}
    (declares : ∀ m, task? typeParams owner (node m) = some (.declare m.site m.name kind owner))
    (members : List (Typed Site)) :
    (members.flatMap (memberTasks kind owner typeParams)).Perm
      ((memberNodes node members).filterMap (task? typeParams owner)) := by
  induction members with
  | nil => exact .refl _
  | cons m rest ih =>
      rw [List.flatMap_cons, memberNodes, List.flatMap_cons, List.filterMap_append]
      refine List.Perm.append ?_ ih
      rw [memberTasks, typeTasks_eq typeParams owner, List.filterMap_cons_some (declares m)]
      exact List.perm_append_singleton _ _

end Constructs

/-- The tasks of an item outside its body are those of its constructs there. -/
theorem headTasks_perm (i : DescriptorId) (item : Item Site) :
    (headTasks i item).Perm ((headNodes item).filterMap (task? (typeParamsOf item) i)) := by
  cases item with
  | cls site name fields =>
      rw [headTasks, returnsOf, Option.toList_none, List.flatMap_nil, List.append_nil, headNodes,
        List.filterMap_cons_none rfl]
      exact memberTasks_perm [] i .field (fun _ => rfl) fields
  | function site name typeParams params returns body =>
      rw [headTasks, headNodes, List.filterMap_cons_none rfl, List.filterMap_append, returnsOf,
        flatMap_typeTasks _ i]
      exact (memberTasks_perm typeParams i .param (fun _ => rfl) params).append (.refl _)

/-- The tasks of a body are those of its constructs. -/
theorem bodyTasks_perm (i : DescriptorId) (item : Item Site) :
    (bodyTasks i item).Perm ((bodyNodes item).filterMap (task? (typeParamsOf item) i)) := by
  rw [bodyTasks, bodyNodes, List.filterMap_flatMap]
  exact .flatMap (.refl _) fun stmt _ => stmtTasks_perm (typeParamsOf item) i stmt

/-- The tasks of a unit are those of its constructs. -/
theorem unitTasks_perm (items : List (Item Site)) :
    (unitTasks items).Perm (items.zipIdx.flatMap fun entry =>
      entry.1.nodes.filterMap (task? (typeParamsOf entry.1) entry.2)) := by
  refine (List.flatMap_append_perm _ _ _).trans (.flatMap (.refl _) fun entry _ => ?_)
  rw [nodes_eq, List.filterMap_append]
  exact (headTasks_perm entry.2 entry.1).append (bodyTasks_perm entry.2 entry.1)

end StagedCompiler.Resolution
