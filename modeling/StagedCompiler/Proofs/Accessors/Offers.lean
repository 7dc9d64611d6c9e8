import StagedCompiler.Proofs.Analysis.Acceptance
import StagedCompiler.Proofs.Analysis.Hearings
import StagedCompiler.Proofs.Catalog.BuiltIn
import StagedCompiler.Proofs.Source.Identifiers

/-!
# Which calls read a field

With the host's own extensions and the accessors, a call of a name that is neither an item nor a function
of the host reads a field if and only if its name is the marker followed by the name of exactly one field
of the unit, whichever class that is in (`callsAccessor_iff`), and it reads that field (`readsField`).

The resolver decides by the table that it is shown when the name is looked up for the first time.  By
then every field has been described, because items look up nothing but types outside bodies
(`exists_of_unitTasks`), and what else is in the table, items, parameters, locals and offers, is nothing
like a field (`countP_fields`).  So the answer depends on the names of the fields alone
(`accessors_resolve_by_fields`).
-/

namespace StagedCompiler.Accessors

open Resolution
open Source (Typed Item TypeRef Site Expr Stmt)

/-! ## Fields of a unit -/

section Fields

variable {α : Type}

/-- The fields of an item. -/
def fieldsOf : Item α → List (Typed α)
  | .cls _ _ fields => fields
  | .function _ _ _ _ _ _ => []

/-- The names of the fields of all classes, each as often as there are fields of that name. -/
def fieldNames (items : List (Item α)) : List String :=
  items.flatMap fun item => (fieldsOf item).map (·.name)

theorem fieldNames_bare (items : List (Item α)) :
    fieldNames (items.map Item.bare) = fieldNames items := by
  rw [fieldNames, List.flatMap_map]
  refine List.flatMap_congr fun item _ => ?_
  cases item with
  | function site name typeParams params returns body => rfl
  | cls site name fields => exact List.map_map

end Fields

/-! ## Fields of a table -/

/-- Whether what a descriptor says makes it a field of a name that no extension offered. -/
def isField (name : String) : Resolution.Outline → Bool
  | (_, _, _, .synthetic _ _) => false
  | (name', kind, _, _) => kind == .field && name' == name

/-- Whether a descriptor is a field of a name is settled by its outline. -/
theorem isField_outline (name : String) (d : Descriptor) :
    isField name (outline d) =
      (d.kind == .field && d.name.toList == name.toList && !d.isSynthetic) := by
  have names : (d.name.toList == name.toList) = (d.name == name) := by
    rw [Bool.eq_iff_iff, beq_iff_eq, beq_iff_eq, String.toList_inj]
  rw [names, outline, Descriptor.isSynthetic]
  cases d.origin with
  | source id => exact (Bool.and_true _).symm
  | synthetic extension subject => exact (Bool.and_false _).symm
  | builtin => exact (Bool.and_true _).symm

/-- The fields of a name are the descriptors that are fields of that name. -/
theorem mem_fieldsNamed {D : Descriptor.Table} {name : String} {i : DescriptorId} {d : Descriptor} :
    (i, d) ∈ fieldsNamed D name.toList ↔ D.get? i = some d ∧ isField name (outline d) = true := by
  rw [fieldsNamed, List.mem_filter, isField_outline]
  refine and_congr_left fun _ => ?_
  rw [Descriptor.Table.entries, List.mem_map]
  constructor
  · intro post
    obtain ⟨⟨e, j⟩, place, is⟩ := post
    obtain ⟨rfl, rfl⟩ := Prod.mk.inj is
    rw [List.mem_zipIdx_iff_getElem?, Array.getElem?_toList] at place
    exact place
  · intro found
    refine ⟨(d, i), List.mem_zipIdx_iff_getElem?.mpr ?_, rfl⟩
    rw [Array.getElem?_toList]
    exact found

/-- There are as many fields of a name as outlines of such fields. -/
theorem length_fieldsNamed (D : Descriptor.Table) (name : String) :
    (fieldsNamed D name.toList).length = (outlines D).countP (isField name) := by
  have second : D.entries.map (·.2) = D.descriptors.toList := by
    rw [Descriptor.Table.entries, List.map_map]
    exact List.zipIdx_map_fst 0 _
  rw [fieldsNamed, ← List.countP_eq_length_filter, outlines, List.countP_map, ← second,
    List.countP_map]
  refine List.countP_congr fun entry _ => ?_
  rw [Function.comp_apply, Function.comp_apply, isField_outline]

/-! ## What items describe -/

section Tasks

variable (typeParams : List String) (owner : DescriptorId)

theorem described_append (tasks tasks' : List Task) :
    described (tasks ++ tasks') = described tasks ++ described tasks' := List.filterMap_append

theorem described_typeTasks (t : TypeRef Site) : described (typeTasks typeParams t) = [] := by
  unfold typeTasks
  split <;> rfl

theorem described_flatMap {α : Type} (tasks : α → List Task) (l : List α) :
    described (l.flatMap tasks) = l.flatMap fun a => described (tasks a) := List.filterMap_flatMap

/-- Outside the body an item describes its members. -/
theorem described_headTasks (item : Item Site) :
    described (headTasks owner item) = (Typing.members item).map fun m =>
      (m.name, memberKind item, some owner, .source m.site.id) := by
  have none : ∀ ts : List (TypeRef Site),
      described (ts.flatMap (typeTasks (typeParamsOf item))) = [] := fun ts => by
    rw [described_flatMap]
    exact List.flatMap_eq_nil_iff.mpr fun t _ => described_typeTasks _ t
  rw [headTasks, described_append, none, List.append_nil, described_flatMap, List.map_eq_flatMap]
  refine List.flatMap_congr fun m _ => ?_
  rw [memberTasks, described_append, described_typeTasks]
  rfl

mutual

/-- Expressions describe nothing. -/
theorem described_exprTasks : ∀ e : Expr Site, described (exprTasks e) = []
  | .int _ _ | .bool _ _ | .str _ _ | .ref _ _ => rfl
  | .call _ callee args => by
      rw [exprTasks, described_append, described_argTasks args]
      rfl
  | .binary _ _ lhs rhs => by
      rw [exprTasks, described_append, described_exprTasks lhs, described_exprTasks rhs]
      rfl

theorem described_argTasks : ∀ args : List (Expr Site), described (argTasks args) = []
  | [] => rfl
  | e :: rest => by
      rw [argTasks, described_append, described_exprTasks e, described_argTasks rest]
      rfl

end

/-- Bodies describe locals only. -/
theorem kind_of_described_body {item : Item Site} {o : Resolution.Outline}
    (member : o ∈ described (bodyTasks owner item)) : o.2.1 = .localVar := by
  rw [bodyTasks, described_flatMap, List.mem_flatMap] at member
  obtain ⟨stmt, _, inside⟩ := member
  cases stmt with
  | letBind site name type value =>
      have stated : described (type.toList.flatMap (typeTasks (typeParamsOf item))) = [] := by
        rw [described_flatMap]
        exact List.flatMap_eq_nil_iff.mpr fun t _ => described_typeTasks _ t
      rw [stmtTasks, described_append, described_append, described_exprTasks, stated] at inside
      rw [List.mem_singleton.mp inside]
  | ret site value =>
      have none : described (value.toList.flatMap exprTasks) = [] := by
        rw [described_flatMap]
        exact List.flatMap_eq_nil_iff.mpr fun e _ => described_exprTasks e
      rw [stmtTasks, none] at inside
      cases inside
  | eval site value =>
      rw [stmtTasks, described_exprTasks] at inside
      cases inside

/-- Items look up types only, apart from their bodies. -/
theorem kind_of_lookup_head {item : Item Site} {key : String × ReferenceKind}
    (member : .look key ∈ headTasks owner item) : key.2 = .type := by
  have types : ∀ {t : TypeRef Site}, .look key ∈ typeTasks (typeParamsOf item) t → key.2 = .type := by
    intro t inside
    unfold typeTasks at inside
    split at inside
    · cases inside
    · obtain rfl := Task.look.inj (List.mem_singleton.mp inside)
      rfl
  rcases List.mem_append.mp member with inside | inside
  · obtain ⟨m, _, inside⟩ := List.mem_flatMap.mp inside
    rcases List.mem_append.mp inside with type | other
    · exact types type
    · cases List.mem_singleton.mp other
  · obtain ⟨t, _, inside⟩ := List.mem_flatMap.mp inside
    exact types inside

/-- What an item describes apart from its body has its fields among it and nothing like them. -/
theorem countP_headTasks (item : Item Site) (name : String) :
    (described (headTasks owner item)).countP (isField name) =
      ((fieldsOf item).map (·.name)).count name := by
  rw [described_headTasks, List.countP_map, List.count, List.countP_map]
  cases item with
  | function site _ typeParams params returns body =>
      exact List.countP_eq_zero.mpr fun m _ => Bool.false_ne_true
  | cls site _ fields => exact List.countP_congr fun m _ => Iff.rfl

end Tasks

/-- The tasks of a unit up to its bodies. -/
def unitHeads (items : List (Item Site)) : List Task :=
  items.zipIdx.flatMap fun entry => headTasks entry.2 entry.1

/-- The tasks of the bodies of a unit. -/
def unitBodies (items : List (Item Site)) : List Task :=
  items.zipIdx.flatMap fun entry => bodyTasks entry.2 entry.1

section Units

variable {items : List (Item Site)} {name : String}

/-- The first phase describes all fields of the unit and nothing else that is a field. -/
theorem countP_unitHeads (items : List (Item Site)) (name : String) :
    (described (unitHeads items)).countP (isField name) = (fieldNames items).count name := by
  have numbered : ∀ first : Nat, (described ((items.zipIdx first).flatMap fun entry =>
      headTasks entry.2 entry.1)).countP (isField name) = (fieldNames items).count name := by
    induction items with
    | nil => exact fun _ => rfl
    | cons item rest ih =>
        intro first
        rw [List.zipIdx_cons, List.flatMap_cons, described_append, List.countP_append,
          countP_headTasks, ih (first + 1), fieldNames, fieldNames, List.flatMap_cons,
          List.count_append]
  exact numbered 0

/-- Bodies describe locals only. -/
theorem kind_of_described_bodies {o : Resolution.Outline} (member : o ∈ described (unitBodies items)) :
    o.2.1 = .localVar := by
  rw [unitBodies, described_flatMap] at member
  obtain ⟨entry, _, inside⟩ := List.mem_flatMap.mp member
  exact kind_of_described_body entry.2 inside

/-- Before a call is looked up all fields are described, and behind them only locals. -/
theorem exists_of_unitTasks {before behind : List Task} {callee : String}
    (split : unitTasks items = before ++ .look (callee, .call) :: behind) :
    ∃ rest, before = unitHeads items ++ rest ∧ ∀ o ∈ described rest, o.2.1 = .localVar := by
  have split : unitHeads items ++ unitBodies items = before ++ .look (callee, .call) :: behind := split
  rcases List.append_eq_append_iff.mp split with ⟨rest, is, bodies⟩ | ⟨rest, heads, is⟩
  · refine ⟨rest, is, fun o member => ?_⟩
    have inside : o ∈ described (unitBodies items) := by
      rw [bodies, described_append]
      exact List.mem_append_left _ member
    exact kind_of_described_bodies inside
  · cases rest with
    | nil =>
        rw [List.append_nil] at heads
        exact ⟨[], by rw [heads, List.append_nil], fun _ none => by cases none⟩
    | cons task rest =>
        obtain ⟨rfl, _⟩ := List.cons.inj is
        have inside : .look (callee, .call) ∈ unitHeads items := by
          rw [heads]
          exact List.mem_append_right _ List.mem_cons_self
        obtain ⟨entry, _, inside⟩ := List.mem_flatMap.mp inside
        cases kind_of_lookup_head entry.2 inside

end Units

/-! ## The host and the accessors -/

/-- The host's own extensions, and accessors that begin with a marker. -/
def registryOf (marker : String) (order : Option Int) : Registry :=
  Registry.host.push ⟨pluginId, "accessors"⟩ (.resolver (resolver marker)) order none

section Resolvers

variable (marker : String) (order : Option Int)

theorem register_eq : Registry.host.register pluginId .syntheticDescriptors
    (.resolver (resolver marker)) order = .ok (registryOf marker order) := rfl

theorem registryOf_builtInOnly : (registryOf marker order).BuiltInOnly :=
  Registry.host_builtInOnly.push (.accessors marker) _ _ _

theorem registryOf_calm {ctx : Context}
    (resolvers : ctx.resolvers = (registryOf marker order).resolvers) : Calm ctx :=
  (registryOf_builtInOnly marker order).calm resolvers

/-- The resolvers are that of the host and the one of accessors. -/
theorem resolver_of_mem {entry : Registry.Record × Extension.Resolver}
    (member : entry ∈ (registryOf marker order).resolvers) :
    entry.2 = Extension.builtins ∨ entry.2 = resolver marker := by
  obtain ⟨among, extension⟩ := Registry.mem_resolvers member
  have listed : entry.1.extension ∈
      [Extension.resolver Extension.builtins, .resolver (resolver marker)] :=
    List.mem_map_of_mem (f := fun r : Registry.Record => r.extension) among
  rw [extension, List.mem_cons, List.mem_singleton] at listed
  exact listed.imp Extension.resolver.inj Extension.resolver.inj

theorem exists_mem_resolvers :
    ∃ record, (record, resolver marker) ∈ (registryOf marker order).resolvers := by
  let record : Registry.Record :=
    ⟨⟨pluginId, "accessors"⟩, order.getD 0, 1, none, .resolver (resolver marker)⟩
  have among : record ∈ (registryOf marker order).extensionsFor .syntheticDescriptors := by
    rw [Registry.extensionsFor, List.mem_mergeSort]
    exact List.mem_filter.mpr ⟨List.mem_cons_of_mem _ (List.mem_singleton_self _), rfl⟩
  exact ⟨record, List.mem_filterMap.mpr ⟨record, among, rfl⟩⟩

/-- The functions of the host have names of their own. -/
theorem builtin?_eq_none {name : String} (print : name ≠ "print") (assert : name ≠ "assert") :
    Extension.builtin? name = none := by
  simp [Extension.builtin?, Extension.builtinFunctions, Ne.symm print, Ne.symm assert]

/-- The host offers nothing but its own functions. -/
theorem offer?_builtins {name : String} (other : Extension.builtin? name = none)
    (D : Descriptor.Table) : Resolution.offer? ⟨name, .call, D⟩ Extension.builtins = none := by
  have declined : Extension.builtins.resolve ⟨name, .call, D⟩ = .ok none :=
    congrArg Except.ok ((if_pos rfl).trans other)
  rw [Resolution.offer?, declined]

theorem offer?_resolver (request : Extension.Request) :
    Resolution.offer? request (resolver marker) = offer? marker request := by
  have answered : (resolver marker).resolve request = .ok (offer? marker request) := rfl
  rw [Resolution.offer?, answered]
  cases offered : offer? marker request with
  | none => rfl
  | some d =>
      obtain ⟨_, _, _, _, rfl⟩ := offer?_eq_some offered
      exact if_pos rfl

/-- If elements give one answer or none, and one of them gives it, this is what is found. -/
theorem findSome?_eq {α β : Type} {f : α → Option β} {answer : Option β} {l : List α}
    (each : ∀ a ∈ l, f a = none ∨ f a = answer) (one : ∃ a ∈ l, f a = answer) :
    l.findSome? f = answer := by
  obtain ⟨a, member, is⟩ := one
  cases found : l.findSome? f with
  | none => exact (List.findSome?_eq_none_iff.mp found a member).symm.trans is
  | some b =>
      obtain ⟨a', among, is'⟩ := List.exists_of_findSome?_eq_some found
      rcases each a' among with none | same
      · cases none.symm.trans is'
      · exact is'.symm.trans same

/-- The name of a function of the host apart, only the accessors make offers for a call. -/
theorem firstOffer?_call {name : String} (other : Extension.builtin? name = none)
    (D : Descriptor.Table) :
    firstOffer? ⟨name, .call, D⟩ (registryOf marker order).resolvers =
      offer? marker ⟨name, .call, D⟩ := by
  refine findSome?_eq (fun entry member => ?_) ?_
  · rcases resolver_of_mem marker order member with is | is
    · exact .inl (is ▸ offer?_builtins other D)
    · exact .inr (is ▸ offer?_resolver marker _)
  · obtain ⟨record, member⟩ := exists_mem_resolvers marker order
    exact ⟨_, member, offer?_resolver marker _⟩

theorem resolve_of_offer? {request : Extension.Request} {resolver : Extension.Resolver}
    {d : Descriptor} (offered : Resolution.offer? request resolver = some d) :
    resolver.resolve request = .ok (some d) := by
  unfold Resolution.offer? at offered
  split at offered
  · rename_i offer answered
    split at offered
    · exact answered.trans (congrArg Except.ok offered)
    · cases offered
  · cases offered
  · cases offered

/-- What is offered is a function. -/
theorem kind_of_offer {request : Extension.Request} {d : Descriptor}
    (offered : firstOffer? request (registryOf marker order).resolvers = some d) :
    d.kind = .function := by
  obtain ⟨entry, member, offered⟩ := List.exists_of_findSome?_eq_some offered
  rcases resolver_of_mem marker order member with is | is
  · have answered := Except.ok.inj (resolve_of_offer? (is ▸ offered))
    split at answered
    · obtain ⟨_, _, rfl⟩ := Option.map_eq_some_iff.mp answered
      rfl
    · cases answered
  · rw [is, offer?_resolver] at offered
    obtain ⟨_, _, _, _, rfl⟩ := offer?_eq_some offered
    rfl

end Resolvers

/-! ## The table at a look-up -/

section Tables

variable {marker : String} {order : Option Int} {tree : Tree}

theorem isField_of_kind {name : String} {o : Resolution.Outline} (other : o.2.1 ≠ .field) :
    isField name o = false := by
  obtain ⟨name', kind, owner, origin⟩ := o
  have differs : (kind == .field) = false := beq_false_of_ne other
  cases origin <;> simp [isField, differs]

/-- Whatever a run through the heads of a unit and through some bodies leaves behind has the fields of
the unit among it and nothing like them. -/
theorem countP_fields {tasks rest : List Task} {hearings : List Hearing} {s : State}
    (performs : Performs (contextOf tree (registryOf marker order)) tasks hearings (startOf tree) s)
    (is : tasks = unitHeads tree.items ++ rest) (locals : ∀ o ∈ described rest, o.2.1 = .localVar)
    (name : String) :
    (outlines s.descriptors).countP (isField name) = (fieldNames tree.items).count name := by
  have items : (outlines (startOf tree).descriptors).countP (isField name) = 0 := by
    refine List.countP_eq_zero.mpr fun o member field => ?_
    obtain ⟨d, listed, rfl⟩ := List.mem_map.mp member
    obtain ⟨item, _, rfl⟩ := List.mem_map.mp listed
    rw [isField_of_kind (by cases item <;> exact nofun)] at field
    cases field
  have bodies : (described rest).countP (isField name) = 0 := by
    refine List.countP_eq_zero.mpr fun o member field => ?_
    rw [isField_of_kind (by rw [locals o member]; exact nofun)] at field
    cases field
  have offers : (hearings.filterMap (·.taken? (contextOf tree (registryOf marker order)))).countP
      (isField name ∘ outline) = 0 := by
    refine List.countP_eq_zero.mpr fun d member field => ?_
    obtain ⟨h, _, taken⟩ := List.mem_filterMap.mp member
    rw [taken?_calm rfl (registryOf_calm marker order rfl), granted?] at taken
    split at taken
    · cases taken
    · have kind : (outline d).2.1 = .function := kind_of_offer marker order taken
      rw [Function.comp_apply, isField_of_kind (by rw [kind]; exact nofun)] at field
      cases field
  rw [performs.countP, items, offers, is, described_append, List.countP_append, countP_unitHeads,
    bodies, Nat.zero_add, Nat.add_zero]

/-- The only field of a name is found in such a table with all that it says. -/
theorem exists_fieldsNamed {tasks rest : List Task} {hearings : List Hearing} {s : State}
    (performs : Performs (contextOf tree (registryOf marker order)) tasks hearings (startOf tree) s)
    (is : tasks = unitHeads tree.items ++ rest) (locals : ∀ o ∈ described rest, o.2.1 = .localVar)
    {k : DescriptorId} {item : Item Site} (there : tree.items[k]? = some item) {field : Typed Site}
    (inside : field ∈ fieldsOf item) (only : (fieldNames tree.items).count field.name = 1) :
    ∃ i d, fieldsNamed s.descriptors field.name.toList = [(i, d)] ∧
      outline d = (field.name, .field, some k, .source field.site.id) := by
  have single := countP_fields performs is locals field.name
  rw [only, ← length_fieldsNamed] at single
  obtain ⟨⟨i, d⟩, one⟩ := List.length_eq_one_iff.mp single
  refine ⟨i, d, one, ?_⟩
  have described : (field.name, .field, some k, .source field.site.id) ∈ described tasks := by
    rw [is, described_append, unitHeads, described_flatMap]
    refine List.mem_append_left _ (List.mem_flatMap.mpr
      ⟨(item, k), List.mem_zipIdx_iff_getElem?.mpr there, ?_⟩)
    rw [described_headTasks]
    cases item with
    | function site name typeParams params returns body => cases inside
    | cls site name fields => exact List.mem_map_of_mem inside
  obtain ⟨d', listed, same⟩ := List.mem_map.mp (performs.mem_outlines described)
  obtain ⟨j, entry⟩ := List.getElem?_of_mem listed
  rw [Array.getElem?_toList] at entry
  have among : (j, d') ∈ fieldsNamed s.descriptors field.name.toList :=
    mem_fieldsNamed.mpr ⟨entry, by rw [same]; exact beq_self_eq_true field.name⟩
  rw [one, List.mem_singleton] at among
  obtain ⟨rfl, rfl⟩ := Prod.mk.inj among
  exact same

/-- So it is in what the resolvers are shown for a call. -/
theorem exists_fieldsNamed_shown {tasks : List Task} {hearings : List Hearing} {s : State}
    (performs : Performs (contextOf tree (registryOf marker order)) tasks hearings (startOf tree) s)
    (is : tasks = unitTasks tree.items) {h : Hearing} (member : h ∈ hearings)
    (call : h.key.2 = .call) {k : DescriptorId} {item : Item Site}
    (there : tree.items[k]? = some item) {field : Typed Site} (inside : field ∈ fieldsOf item)
    (only : (fieldNames tree.items).count field.name = 1) :
    ∃ i d, fieldsNamed h.shown field.name.toList = [(i, d)] ∧
      outline d = (field.name, .field, some k, .source field.site.id) := by
  subst is
  obtain ⟨before, behind, early, late, s₁, tasks, _, first, known, _⟩ := performs.of_mem member
  obtain ⟨⟨callee, kind⟩, D⟩ := h
  obtain rfl : kind = .call := call
  obtain ⟨rest, is, locals⟩ := exists_of_unitTasks tasks
  exact known ▸ exists_fieldsNamed first is locals there inside only

/-- Fields are described behind the items. -/
theorem length_globals_le_of_field {registry : Registry} {s : State}
    (steady : Steady tree.items (contextOf tree registry) s) {i : DescriptorId} {d : Descriptor}
    (entry : s.descriptors.get? i = some d) (field : d.kind = .field) :
    (contextOf tree registry).globals.length ≤ i := by
  rw [length_globals rfl]
  by_contra inItems
  rw [Nat.not_le] at inItems
  obtain ⟨e, entry', _, kind, _⟩ := steady.items i _ (List.getElem?_eq_getElem inItems)
  obtain rfl := Option.some.inj (entry.symm.trans entry')
  rw [field] at kind
  cases item : tree.items[i] with
  | function => rw [item] at kind; cases kind
  | cls => rw [item] at kind; cases kind

/-- The fields of an item are nodes of its tree. -/
theorem mem_nodes_of_field {item : Item Site} (among : item ∈ tree.items) {field : Typed Site}
    (inside : field ∈ fieldsOf item) : .field field ∈ tree.nodes := by
  refine List.mem_flatMap.mpr ⟨item, among, ?_⟩
  cases item with
  | function site name typeParams params returns body => cases inside
  | cls site name fields =>
      exact List.mem_cons_of_mem _ (List.mem_flatMap.mpr ⟨field, inside, List.mem_cons_self⟩)

/-- The resolver is shown the only field of a name under the number that the field declares, and with
its class and its type. -/
theorem exists_shown {draft : Source.Draft} {unit : String}
    (assembled : draft.assemble unit = .ok tree) {hearings : List Hearing}
    (performs : Performs (contextOf tree (registryOf marker order)) (unitTasks tree.items) hearings
      (startOf tree) (run tree (registryOf marker order)))
    {h : Hearing} (member : h ∈ hearings) (call : h.key.2 = .call) {k : DescriptorId}
    {item : Item Site} (there : tree.items[k]? = some item) {field : Typed Site}
    (inside : field ∈ fieldsOf item) (only : (fieldNames tree.items).count field.name = 1) :
    ∃ i d b, fieldsNamed h.shown field.name.toList = [(i, d)] ∧ d.container = some k ∧
      (run tree (registryOf marker order)).bindings.get? field.site.id = some b ∧
      b.declares = some i ∧ b.ty = d.ty := by
  have links := run_links (Source.assemble_numbers assembled) (registryOf marker order)
  -- The field stands alone in the table that is shown, and still does so in the end.
  obtain ⟨i, d, shown, outlined⟩ := exists_fieldsNamed_shown performs rfl member call there inside only
  obtain ⟨j, e, final, _⟩ := exists_fieldsNamed performs rfl (fun _ => kind_of_described_bodies) there
    inside only
  have alone : ∀ {j' e'}, (run tree (registryOf marker order)).descriptors.get? j' = some e' →
      isField field.name (outline e') = true → j' = j ∧ e' = e := by
    intro j' e' entry fits
    have among := mem_fieldsNamed.mpr ⟨entry, fits⟩
    rw [final, List.mem_singleton] at among
    exact Prod.mk.inj among
  have grown := performs.grown_of_mem member
  have known : h.shown.get? i = some d ∧ isField field.name (outline d) = true :=
    mem_fieldsNamed.mp (shown ▸ List.mem_singleton_self _)
  obtain ⟨d', entry', same⟩ := exists_get?_of_grown grown known.1
  obtain ⟨rfl, rfl⟩ := alone entry' (same ▸ known.2)
  -- It is behind the items, so it is also the same descriptor.
  have behind := length_globals_le_of_field links.steady entry' (congrArg (·.2.1) (same.trans outlined))
  obtain rfl := Option.some.inj (entry'.symm.trans (grown.behind i d behind known.1))
  obtain ⟨b, i', bound, declares, e, entry, named, kind, origin⟩ :=
    links.linked _ (mem_nodes_of_field (List.mem_of_getElem? there) inside)
  obtain ⟨rfl, rfl⟩ := alone entry (by
    rw [outline, named, kind, origin]
    exact beq_self_eq_true field.name)
  obtain ⟨e, entry'', ty⟩ := performs.typed (typed_start tree _) _ b _ bound declares behind
  obtain rfl := Option.some.inj (entry.symm.trans entry'')
  exact ⟨_, _, b, shown, congrArg (·.2.2.1) outlined, bound, declares, ty.symm⟩

end Tables

/-! ## Calls -/

/-- What the call at a place is bound to. -/
def Calls (s : State) (place : Site) (d : Descriptor) : Prop :=
  ∃ b i, s.bindings.get? place.id = some b ∧ b.target = some i ∧ s.descriptors.get? i = some d

/-- The call at a place is bound to an accessor. -/
def CallsAccessor (s : State) (place : Site) : Prop :=
  ∃ d field, Calls s place d ∧ d.origin = .synthetic extensionId (some field)

/-- A call of a name that is neither an item nor a function of the host. -/
structure FreeCall (tree : Tree) (place : Site) (callee : String) : Prop where
  call : ∃ args, .expr (.call place callee args) ∈ tree.nodes
  noItem : ∀ item ∈ tree.items, item.name ≠ callee
  noPrint : callee ≠ "print"
  noAssert : callee ≠ "assert"

section Calls

variable {marker : String} {order : Option Int} {tree : Tree} {place : Site} {callee : String}

/-- A name begins with the marker exactly if it is the marker and a rest. -/
theorem isPrefixOf_iff (marker name : String) :
    marker.toList.isPrefixOf name.toList = true ↔ ∃ rest, name = marker ++ rest := by
  rw [List.isPrefixOf_iff_prefix]
  constructor
  · intro post
    obtain ⟨rest, is⟩ := post
    refine ⟨String.ofList rest, String.toList_inj.mp ?_⟩
    rw [String.toList_append, String.toList_ofList, is]
  · intro post
    obtain ⟨rest, rfl⟩ := post
    rw [String.toList_append]
    exact List.prefix_append _ _

/-- The offer for a name behind the marker. -/
theorem offer?_append (marker rest : String) (D : Descriptor.Table) :
    offer? marker ⟨marker ++ rest, .call, D⟩ = match fieldsNamed D rest.toList with
      | [(id, field)] => field.container.map (accessor (marker ++ rest) id field)
      | _ => none := by
  have dropped : (marker ++ rest).toList.drop marker.toList.length = rest.toList := by
    rw [String.toList_append, List.drop_left]
  unfold offer?
  dsimp only
  rewrite [if_pos ⟨rfl, (isPrefixOf_iff marker _).mpr ⟨rest, rfl⟩⟩, dropped]
  rfl

/-- An accessor is offered only if there is exactly one field of the name behind the marker. -/
theorem exists_of_offer? {D : Descriptor.Table} {d : Descriptor}
    (offered : offer? marker ⟨callee, .call, D⟩ = some d) :
    ∃ rest, callee = marker ++ rest ∧ (fieldsNamed D rest.toList).length = 1 := by
  have begins : marker.toList.isPrefixOf callee.toList = true := by
    unfold offer? at offered
    dsimp only at offered
    split at offered
    · rename_i both
      exact both.2
    · cases offered
  obtain ⟨rest, rfl⟩ := (isPrefixOf_iff marker callee).mp begins
  rw [offer?_append] at offered
  refine ⟨rest, rfl, ?_⟩
  split at offered
  · rename_i one
    rw [one]
    rfl
  · cases offered

/-- The name of a call is heard. -/
theorem exists_hearing_of_call {hearings : List Hearing}
    (performs : Performs (contextOf tree (registryOf marker order)) (unitTasks tree.items) hearings
      (startOf tree) (run tree (registryOf marker order)))
    {args : List (Expr Site)} (node : .expr (.call place callee args) ∈ tree.nodes) :
    ∃ D, ⟨(callee, .call), D⟩ ∈ hearings := by
  obtain ⟨⟨key, D⟩, member, is⟩ : ∃ h ∈ hearings, h.key = (callee, .call) := by
    refine List.mem_map.mp ?_
    rw [performs.keys (performs.calm (registryOf_calm marker order rfl) rfl), List.mem_eraseDups]
    refine List.mem_filter.mpr ⟨(mem_lookups _ _).mpr ?_, rfl⟩
    obtain ⟨item, among, inside⟩ := List.mem_flatMap.mp node
    exact ⟨item, among, _, inside, rfl⟩
  obtain rfl : key = (callee, .call) := is
  exact ⟨D, member⟩

/-- No item has the name of a free call and the host has no such function, so the accessors decide what
is taken. -/
theorem taken?_of_freeCall (free : FreeCall tree place callee) (D : Descriptor.Table) :
    (Hearing.mk (callee, .call) D).taken? (contextOf tree (registryOf marker order)) =
      offer? marker ⟨callee, .call, D⟩ := by
  have noItem : ¬ (tree.items.any fun item => item.name == callee) = true := by
    rw [List.any_eq_true]
    intro post
    obtain ⟨item, among, same⟩ := post
    exact free.noItem item among (beq_iff_eq.mp same)
  rw [taken?_calm rfl (registryOf_calm marker order rfl), granted?, if_neg noItem]
  exact firstOffer?_call marker order (builtin?_eq_none free.noPrint free.noAssert) D

/-- What is taken at the hearing of a free call is what its name stands for in the end. -/
theorem globalTarget_of_freeCall (free : FreeCall tree place callee) {hearings : List Hearing}
    (performs : Performs (contextOf tree (registryOf marker order)) (unitTasks tree.items) hearings
      (startOf tree) (run tree (registryOf marker order)))
    {D : Descriptor.Table} (member : ⟨(callee, .call), D⟩ ∈ hearings) :
    globalTarget tree.items (run tree (registryOf marker order)) callee .call =
      (offer? marker ⟨callee, .call, D⟩).map fun _ => D.size := by
  have noItem : tree.items.find? (·.name == callee) = none :=
    List.find?_eq_none.mpr fun item among same => free.noItem item among (beq_iff_eq.mp same)
  rw [globalTarget, noItem, ← taken?_of_freeCall free]
  exact (congrArg (List.lookup _) (performs.synthetic.trans (List.nil_append _))).trans
    (performs.lookup member)

/-- A call is bound to what its binding has as target. -/
theorem calls_iff {s : State} {b : Binding} (there : s.bindings.get? place.id = some b)
    (d : Descriptor) :
    Calls s place d ↔ ∃ i, b.target = some i ∧ s.descriptors.get? i = some d := by
  constructor
  · intro post
    obtain ⟨b', i, there', bound, found⟩ := post
    obtain rfl := Option.some.inj (there.symm.trans there')
    exact ⟨i, bound, found⟩
  · intro post
    obtain ⟨i, bound, found⟩ := post
    exact ⟨b, i, there, bound, found⟩

/-- A free call is bound to what the accessors offer at the hearing of its name. -/
theorem exists_hearing {draft : Source.Draft} {unit : String}
    (assembled : draft.assemble unit = .ok tree) {hearings : List Hearing}
    (performs : Performs (contextOf tree (registryOf marker order)) (unitTasks tree.items) hearings
      (startOf tree) (run tree (registryOf marker order)))
    (free : FreeCall tree place callee) :
    ∃ D, ⟨(callee, .call), D⟩ ∈ hearings ∧ ∀ d, Calls (run tree (registryOf marker order)) place d ↔
      offer? marker ⟨callee, .call, D⟩ = some d := by
  obtain ⟨args, node⟩ := free.call
  obtain ⟨D, member⟩ := exists_hearing_of_call performs node
  have calm : Calm (contextOf tree (registryOf marker order)) := registryOf_calm marker order rfl
  obtain ⟨b, there, fits⟩ := (call_bears (Source.assemble_numbers assembled) calm node).bound
  rw [globalTarget_of_freeCall free performs member] at fits
  refine ⟨D, member, fun d => (calls_iff there d).trans ?_⟩
  cases offered : offer? marker ⟨callee, .call, D⟩ with
  | none =>
      rw [offered] at fits
      refine ⟨fun post => ?_, nofun⟩
      obtain ⟨i, bound, _⟩ := post
      cases fits.2.1.symm.trans bound
  | some d' =>
      rw [offered] at fits
      have entry := performs.get?_taken (Nat.le_of_eq (size_startOf tree _)) member
        ((taken?_of_freeCall free D).trans offered)
      constructor
      · intro post
        obtain ⟨i, bound, found⟩ := post
        obtain rfl := Option.some.inj (fits.1.symm.trans bound)
        exact entry.symm.trans found
      · intro same
        exact ⟨D.size, fits.1, Option.some.inj same ▸ entry⟩

end Calls

/-! ## Units -/

/-- The call at a place is bound to a function that takes the class of a field, gives the field's type,
and reads the field. -/
def ReadsField (s : State) (place : Site) (callee : String) (item : Item Site) (field : Typed Site) :
    Prop :=
  ∃ owner id b, declared? s item.site = some owner ∧
    s.bindings.get? field.site.id = some b ∧ b.declares = some id ∧
    Calls s place
      { name := callee, kind := .function, params := [⟨"self", .cls owner⟩], ty := b.ty,
        container := some owner, origin := .synthetic extensionId (some id) }

/-- Which calls of a unit are bound to accessors, and which fields these read. -/
structure ReadsByField (marker : String) (tree : Tree) (s : State) : Prop where
  /-- A free call is bound to an accessor if and only if its name is the marker and then the name of
  exactly one field. -/
  accessors : ∀ place callee, FreeCall tree place callee →
    (CallsAccessor s place ↔
      ∃ name, callee = marker ++ name ∧ (fieldNames tree.items).count name = 1)
  /-- The accessor reads that field. -/
  reads : ∀ place name, FreeCall tree place (marker ++ name) →
    (fieldNames tree.items).count name = 1 →
    ∀ item ∈ tree.items, ∀ field ∈ fieldsOf item, field.name = name →
    ReadsField s place (marker ++ name) item field

section Units

variable {draft : Source.Draft} {unit marker : String} {order : Option Int} {tree : Tree}

/-- A call of an accessor reads the one field of its name, wherever the call and the field are. -/
theorem readsField (assembled : draft.assemble unit = .ok tree) {place : Site} {item : Item Site}
    {field : Typed Site} (free : FreeCall tree place (marker ++ field.name))
    (only : (fieldNames tree.items).count field.name = 1) (among : item ∈ tree.items)
    (inside : field ∈ fieldsOf item) :
    ReadsField (run tree (registryOf marker order)) place (marker ++ field.name) item field := by
  obtain ⟨hearings, performs⟩ := run_performs tree (registryOf marker order)
  obtain ⟨D, member, bound⟩ := exists_hearing assembled performs free
  obtain ⟨k, there⟩ := List.getElem?_of_mem among
  obtain ⟨i, d, b, shown, container, here, declares, ty⟩ :=
    exists_shown assembled performs member rfl there inside only
  have obeys := run_obeys (Source.assemble_numbers assembled) (registryOf marker order)
    (registryOf_calm marker order rfl)
  obtain ⟨params, heads⟩ := obeys.heads
  refine ⟨k, i, b, (heads.declared there).trans (congrArg some (Nat.zero_add k)), here, declares,
    (bound _).mpr ?_⟩
  rw [offer?_append, shown, ty]
  exact congrArg (Option.map _) container

/-- A call leads to an accessor exactly if it names the marker and a field name that occurs once in the
unit. -/
theorem callsAccessor_iff (assembled : draft.assemble unit = .ok tree) {place : Site}
    {callee : String} (free : FreeCall tree place callee) :
    CallsAccessor (run tree (registryOf marker order)) place ↔
      ∃ name, callee = marker ++ name ∧ (fieldNames tree.items).count name = 1 := by
  constructor
  · intro post
    obtain ⟨d, _, calls, _⟩ := post
    obtain ⟨hearings, performs⟩ := run_performs tree (registryOf marker order)
    obtain ⟨D, member, bound⟩ := exists_hearing assembled performs free
    obtain ⟨name, rfl, one⟩ := exists_of_offer? ((bound d).mp calls)
    obtain ⟨before, behind, early, late, s₁, tasks, _, first, known, _⟩ := performs.of_mem member
    obtain ⟨rest, is, locals⟩ := exists_of_unitTasks tasks
    refine ⟨name, rfl, ?_⟩
    rw [← countP_fields first is locals name, ← length_fieldsNamed, known]
    exact one
  · intro post
    obtain ⟨name, rfl, only⟩ := post
    have named : name ∈ fieldNames tree.items :=
      List.count_pos_iff.mp (Nat.lt_of_lt_of_eq Nat.zero_lt_one only.symm)
    obtain ⟨item, among, listed⟩ := List.mem_flatMap.mp named
    obtain ⟨field, inside, rfl⟩ := List.mem_map.mp listed
    obtain ⟨_, id, _, _, _, _, calls⟩ := readsField assembled free only among inside
    exact ⟨_, id, calls, rfl⟩

/-- With the host's own extensions and the accessors, whatever their order, which free calls read a field
and which field they read is settled by the fields of the unit.  So units with as many fields of each
name agree on it, whatever else is in them, in whatever order their items stand and wherever the calls
do. -/
theorem accessors_resolve_by_fields (assembled : draft.assemble unit = .ok tree) (marker : String)
    (order : Option Int) :
    ∃ registry, Registry.host.register pluginId .syntheticDescriptors (.resolver (resolver marker))
        order = .ok registry ∧
      ReadsByField marker tree (run tree registry) ∧
      ∀ (draft' : Source.Draft) (unit' : String) (tree' : Tree) (order' : Option Int)
        (registry' : Registry), (fieldNames draft'.items).Perm (fieldNames draft.items) →
        draft'.assemble unit' = .ok tree' →
        Registry.host.register pluginId .syntheticDescriptors (.resolver (resolver marker)) order' =
          .ok registry' →
        ∀ place place' callee, FreeCall tree place callee → FreeCall tree' place' callee →
          (CallsAccessor (run tree registry) place ↔ CallsAccessor (run tree' registry') place') := by
  refine ⟨_, register_eq marker order, ⟨fun place callee free => callsAccessor_iff assembled free,
    fun place name free only item among field inside named => ?_⟩, ?_⟩
  · subst named
    exact readsField assembled free only among inside
  · intro draft' unit' tree' order' registry' perm assembled' registered place place' callee free free'
    obtain rfl := Except.ok.inj ((register_eq marker order').symm.trans registered)
    have same : ∀ name, (fieldNames tree'.items).count name = (fieldNames tree.items).count name := by
      intro name
      rw [← fieldNames_bare tree'.items, ← fieldNames_bare tree.items, Source.assemble_bare assembled,
        Source.assemble_bare assembled', perm.count_eq]
    rw [callsAccessor_iff assembled free, callsAccessor_iff assembled' free']
    simp only [same]

end Units

/-- `sum` reads `x` twice, and tries to read `y`, of which there are two, and `z`, of which there is
none. -/
def corners : Source.Draft where
  items :=
    [ .function () "sum" [] [⟨(), "p", ⟨(), "Point"⟩⟩] none
        [ .eval () (.call () "read_y" [.ref () "p"]),
          .letBind () "x" none (.call () "read_x" [.ref () "p"]),
          .eval () (.binary () .add (.call () "read_z" []) (.call () "read_x" [.ref () "x"])) ],
      .cls () "Point" [⟨(), "x", ⟨(), "int"⟩⟩, ⟨(), "y", ⟨(), "int"⟩⟩],
      .cls () "Corner" [⟨(), "y", ⟨(), "Point"⟩⟩] ]

theorem accessors_resolve_by_fields_corners : ∃ tree, corners.assemble "corners" = .ok tree ∧
    (fieldNames tree.items).count "x" = 1 ∧ (fieldNames tree.items).count "y" = 2 ∧
    (run tree (registryOf "read_" none)).synthetic = [(("read_x", .call), 7)] ∧
    ∃ registry, Registry.host.register pluginId .syntheticDescriptors (.resolver (resolver "read_"))
        none = .ok registry ∧
      ReadsByField "read_" tree (run tree registry) ∧
      ∀ (draft' : Source.Draft) (unit' : String) (tree' : Tree) (order' : Option Int)
        (registry' : Registry), (fieldNames draft'.items).Perm (fieldNames corners.items) →
        draft'.assemble unit' = .ok tree' →
        Registry.host.register pluginId .syntheticDescriptors (.resolver (resolver "read_")) order' =
          .ok registry' →
        ∀ place place' callee, FreeCall tree place callee → FreeCall tree' place' callee →
          (CallsAccessor (run tree registry) place ↔ CallsAccessor (run tree' registry') place') := by
  have assembled : corners.assemble "corners" = .ok _ := rfl
  have same : registryOf "read_" none = Analysis.readingRegistry := rfl
  refine ⟨_, assembled, by decide, by decide, ?_, accessors_resolve_by_fields assembled "read_" none⟩
  rw [same, Resolution.run, Analysis.readingRegistry_resolvers]
  decide +kernel

end StagedCompiler.Accessors
