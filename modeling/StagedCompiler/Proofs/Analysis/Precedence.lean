import StagedCompiler.Proofs.Analysis.SensedUnits
import StagedCompiler.Proofs.Source.Numbering

/-!
# One order of precedence for names

What every use of a name in a unit comes to, whatever the resolvers offer that take part in it:

* the name of a value means the latest `let` of that name before it in its function, or else the last
  parameter of that name, or else the first item of that name, which is an error because items are no
  values, or else what resolvers offer for a value of that name;
* a callee means the first item of its name, or else what resolvers offer for a call;
* the name of a type means a reserved type, or else a type parameter of its item, or else the first
  item of that name if it is a class, or else, if there is no such item, what resolvers offer for a
  type if that is a class;
* a name that comes to nothing is reported exactly once at its place, and no other name is.

What resolvers offer is the first descriptor of the name that they answer with when they are asked for
the name and its use, and no reference of another name or use ever means it.
-/

namespace StagedCompiler.Resolution

open Source (Typed Item TypeRef Site SiteId Expr Stmt)

/-! ## The order -/

/-- What a name means outside functions: the first item of the name, or else what was offered. -/
def globalTarget (items : List (Item Site)) (s : State) (name : String) (kind : ReferenceKind) :
    Option DescriptorId :=
  match items.find? (·.name == name) with
  | some item => declared? s item.site
  | none => s.synthetic.lookup (name, kind)

/-- What the name of a value means among the given locals, the latest first. -/
def valueTarget (items : List (Item Site)) (s : State) (places : List (String × Site))
    (name : String) : Option DescriptorId :=
  match places.lookup name with
  | some site => declared? s site
  | none => globalTarget items s name .value

/-- The class that a name means. -/
def classTarget (items : List (Item Site)) (s : State) (name : String) : Option DescriptorId :=
  match items.find? (·.name == name) with
  | some item => if itemKind item = .cls then declared? s item.site else none
  | none => (s.synthetic.lookup (name, .type)).filter (isClass s.descriptors)

/-- A construct of an item and the locals that it sees, the latest first. -/
inductive Sees (item : Item Site) : List (String × Site) → Source.Node → Prop
  | head {n : Source.Node} : n ∈ headNodes item → Sees item [] n
  | body {n : Source.Node} {k : Nat} {stmt : Stmt Site} :
    (bodyOf item)[k]? = some stmt → n ∈ stmt.nodes →
    Sees item (localsBehind (paramSites item).reverse ((bodyOf item).take k)) n

/-- The name that a construct uses and how it uses it. -/
def reference? : Source.Node → Option (String × ReferenceKind)
  | .expr (.ref _ name) => some (name, .value)
  | .expr (.call _ callee _) => some (callee, .call)
  | .typeRef t => some (t.name, .type)
  | _ => none

/-- A construct of an item with the given type parameters comes to what the order of precedence says,
and the resolvers have been asked for what it uses. -/
def Resolves (items : List (Item Site)) (s : State) (typeParams : List String)
    (places : List (String × Site)) : Source.Node → Prop
  | .expr (.ref site name) =>
    (name, .value) ∈ s.asked ∧ Bears s site (.of (valueTarget items s places name)) ∧
      (places.lookup name = none → (∃ item ∈ items, item.name = name) →
        ReportedAt s typeCode site)
  | .expr (.call site callee _) =>
    (callee, .call) ∈ s.asked ∧ Bears s site (.of (globalTarget items s callee .call))
  | .typeRef t =>
    match reserved? typeParams t.name with
    | some ty => Bears s t.site (.reserved ty)
    | none => (t.name, .type) ∈ s.asked ∧ Bears s t.site (.of (classTarget items s t.name))
  | _ => True

/-- The names of a resolved unit follow the order of precedence. -/
structure Precedence (tree : Tree) (registry : Registry) (s : State) : Prop where
  /-- Every declaration has a descriptor of its own. -/
  declarations : ∀ n ∈ tree.nodes, ∀ name ∈ n.declares?, ∃ i d, declared? s n.site = some i ∧
    s.descriptors.get? i = some d ∧ d.name = name ∧ d.origin = .source n.id
  references : ∀ item ∈ tree.items, ∀ places n, Sees item places n →
    Resolves tree.items s (typeParamsOf item) places n
  /-- What was offered is the first answer of the resolvers that has the name. -/
  offers : ∀ key ∈ s.asked, (∀ item ∈ tree.items, item.name ≠ key.1) →
    ∃ shown, Keeps shown s.descriptors ∧
      (s.synthetic.lookup key).map s.descriptors.get? =
        (firstOffer? ⟨key.1, key.2, shown⟩ registry.resolvers).map some
  /-- What was offered for one name and use is the target of no other reference. -/
  kinds : ∀ key i, s.synthetic.lookup key = some i → ∀ n ∈ tree.nodes, ∀ use,
    reference? n = some use → ∀ b, s.bindings.get? n.id = some b → b.target = some i → use = key

/-! ## Items by name -/

section Items

variable {items : List (Item Site)} {ctx : Context} {s : State} {name : String}

/-- The number of a name is that of the first item that has it. -/
theorem lookup_zipIdx_find? (items : List (Item Site)) (name : String) (first : Nat) :
    (items.find? (·.name == name) = none ∧
      ((items.zipIdx first).map fun (i, id) => (i.name, id)).lookup name = none) ∨
    ∃ j item, items.find? (·.name == name) = some item ∧ items[j]? = some item ∧
      ((items.zipIdx first).map fun (i, id) => (i.name, id)).lookup name = some (first + j) := by
  induction items generalizing first with
  | nil => exact .inl ⟨rfl, rfl⟩
  | cons item rest ih =>
      rw [List.zipIdx_cons, List.map_cons, List.lookup_cons, List.find?_cons, BEq.comm (a := name)]
      cases item.name == name with
      | true => exact .inr ⟨0, item, rfl, rfl, rfl⟩
      | false =>
          refine (ih (first + 1)).imp_right ?_
          intro post
          obtain ⟨j, other, found, there, looked⟩ := post
          refine ⟨j + 1, other, found, there, looked.trans ?_⟩
          rw [Nat.add_assoc, Nat.add_comm 1 j]

/-- Items introduce the descriptors of their numbers. -/
theorem HeadsObey.declared {first : DescriptorId} {rest : List (Item Site)}
    {more : List (List DescriptorId)} (heads : HeadsObey ctx s first rest more) {j : Nat}
    {item : Item Site} (there : rest[j]? = some item) :
    declared? s item.site = some (first + j) := by
  induction heads generalizing j with
  | nil => cases there
  | cons head _ ih =>
      cases j with
      | zero =>
          obtain rfl := Option.some.inj there
          exact head.declared
      | succ j =>
          rw [ih there, Nat.add_assoc, Nat.add_comm 1 j]

theorem HeadsObey.of_mem {first : DescriptorId} {rest : List (Item Site)}
    {more : List (List DescriptorId)} (heads : HeadsObey ctx s first rest more) {item : Item Site}
    (member : item ∈ rest) : ∃ i params, HeadObeys ctx s i item params := by
  induction heads with
  | nil => cases member
  | cons head _ ih =>
      rcases List.mem_cons.mp member with rfl | later
      · exact ⟨_, _, head⟩
      · exact ih later

/-- The descriptor of a name among the items is the one that the first item of the name declares. -/
theorem UnitObeys.lookup (obeys : UnitObeys items ctx s) (globals : ctx.globals = itemNames items)
    (name : String) :
    (items.find? (·.name == name) = none ∧ ctx.globals.lookup name = none) ∨
    ∃ i item, items.find? (·.name == name) = some item ∧ items[i]? = some item ∧
      ctx.globals.lookup name = some i ∧ declared? s item.site = some i := by
  obtain ⟨params, heads⟩ := obeys.heads
  rw [globals]
  refine (lookup_zipIdx_find? items name 0).imp_right ?_
  intro post
  obtain ⟨j, item, found, there, looked⟩ := post
  rw [Nat.zero_add] at looked
  have declared := heads.declared there
  rw [Nat.zero_add] at declared
  exact ⟨j, item, found, there, looked, declared⟩

/-- What a name stands for outside functions, read off the items and the offers that were taken. -/
theorem UnitObeys.outside_eq (obeys : UnitObeys items ctx s)
    (globals : ctx.globals = itemNames items) (name : String) (kind : ReferenceKind) :
    outside ctx s name kind = globalTarget items s name kind := by
  unfold outside globalTarget
  rcases obeys.lookup globals name with ⟨none, looked⟩ | ⟨i, item, found, _, looked, declared⟩
  · rw [none, looked, Option.none_or]
  · rw [found, looked, Option.some_or]
    exact declared.symm

/-- The same for classes. -/
theorem UnitObeys.classOutside_eq (obeys : UnitObeys items ctx s)
    (globals : ctx.globals = itemNames items) (name : String) :
    classOutside ctx s name = classTarget items s name := by
  unfold classOutside outside classTarget
  rcases obeys.lookup globals name with ⟨none, looked⟩ | ⟨i, item, found, there, looked, declared⟩
  · rw [none, looked, Option.none_or]
  · obtain ⟨d, entry, _, kind, _⟩ := obeys.orderly.described i item there
    rw [found, looked, Option.some_or, Option.filter_some, isClass, entry, Option.any_some, kind]
    simp only [beq_iff_eq, declared]

end Items

/-! ## References -/

section References

variable {items : List (Item Site)} {ctx : Context} {s : State}

/-- A linked declaration has a descriptor of its name, which says where it comes from. -/
theorem Linked.declared {n : Source.Node} {name : String} (linked : Linked s n)
    (declares : n.declares? = some name) :
    ∃ i d, declared? s n.site = some i ∧ s.descriptors.get? i = some d ∧ d.name = name ∧
      d.origin = .source n.id := by
  have introduced : ∀ {site : Site} {kind : Descriptor.Kind}, Declares s site name kind →
      ∃ i d, declared? s site = some i ∧ s.descriptors.get? i = some d ∧ d.name = name ∧
        d.origin = .source site.id := by
    intro site kind post
    obtain ⟨b, i, there, bound, d, entry, named, _, origin⟩ := post
    exact ⟨i, d, Option.bind_eq_some_iff.mpr ⟨b, there, bound⟩, entry, named, origin⟩
  cases n with
  | item item =>
      obtain rfl := Option.some.inj declares
      exact introduced linked
  | field f =>
      obtain rfl := Option.some.inj declares
      exact introduced linked
  | param p =>
      obtain rfl := Option.some.inj declares
      exact introduced linked
  | stmt stmt =>
      cases stmt with
      | letBind site name type value =>
          obtain rfl := Option.some.inj declares
          exact introduced linked
      | ret site value => cases declares
      | eval site value => cases declares
  | typeRef t => cases declares
  | expr e => cases declares

/-- What obeys among locals comes to what the order of precedence says. -/
theorem UnitObeys.resolves (obeys : UnitObeys items ctx s) (globals : ctx.globals = itemNames items)
    {typeParams : List String} {places : List (String × Site)} {scope : Scope}
    (locals : Locals s places scope) {n : Source.Node} (obey : Obeys ctx typeParams scope s n) :
    Resolves items s typeParams places n := by
  cases n with
  | expr e =>
      cases e with
      | ref site name =>
          obtain ⟨asked, bears, misused⟩ := obey
          have same : (scope.lookup name).or (outside ctx s name .value) =
              valueTarget items s places name := by
            unfold valueTarget
            rcases locals.lookup name with ⟨none, looked⟩ | ⟨site, i, found, looked, introduces⟩
            · rw [none, looked, Option.none_or, obeys.outside_eq globals]
            · rw [found, looked, Option.some_or]
              exact introduces.declared.symm
          refine ⟨asked, same ▸ bears, fun free item => misused ?_ ?_⟩
          · rcases locals.lookup name with ⟨_, looked⟩ | ⟨_, _, found, _⟩
            · exact looked
            · cases free.symm.trans found
          · obtain ⟨item, member, named⟩ := item
            rcases obeys.lookup globals name with ⟨none, _⟩ | ⟨i, _, _, _, looked, _⟩
            · exact absurd (beq_iff_eq.mpr named) (List.find?_eq_none.mp none item member)
            · exact Option.isSome_of_eq_some looked
      | call site callee args =>
          obtain ⟨asked, bears⟩ := obey
          exact ⟨asked, obeys.outside_eq globals callee .call ▸ bears⟩
      | int | bool | str | binary => trivial
  | typeRef t =>
      have obey : TypeObeys ctx typeParams s t := obey
      rw [TypeObeys, obeys.classOutside_eq globals] at obey
      exact obey
  | item | field | param | stmt => trivial

/-- What was offered for a name and a use is a target of that name and use only. -/
theorem Orderly.offered_once (orderly : Orderly items ctx s)
    (globals : ctx.globals = itemNames items) {key : String × ReferenceKind} {name : String}
    {kind : ReferenceKind} {i : DescriptorId} (offered : s.synthetic.lookup key = some i)
    (found : outside ctx s name kind = some i) : (name, kind) = key := by
  have entry := mem_of_lookup offered
  rcases Option.or_eq_some_iff.mp found with looked | ⟨_, looked⟩
  · obtain ⟨item, there, _⟩ := lookup_globals globals looked
    have inside := (List.getElem?_eq_some_iff.mp there).1
    exact absurd (orderly.offers _ entry).2.2.1 (Nat.not_le.mpr inside)
  · exact congrArg Prod.fst (List.inj_on_of_nodup_map orderly.apart (mem_of_lookup looked) entry rfl)

/-- A reference that leads to an offer was looked up for the use that the offer was made for. -/
theorem Obeys.kind (orderly : Orderly items ctx s) (globals : ctx.globals = itemNames items)
    {typeParams : List String} {places : List (String × Site)} {scope : Scope}
    (locals : Locals s places scope) {n : Source.Node} (obey : Obeys ctx typeParams scope s n)
    {key use : String × ReferenceKind} {i : DescriptorId}
    (offered : s.synthetic.lookup key = some i) (uses : reference? n = some use) {b : Binding}
    (there : s.bindings.get? n.id = some b) (target : b.target = some i) : use = key := by
  -- A sense that is bound to `i` was looked up as `i`.
  have looked : ∀ {site : Site} {found : Option DescriptorId}, s.bindings.get? site.id = some b →
      Bears s site (.of found) → found = some i := by
    intro site found there bears
    obtain ⟨b', there', fits⟩ := bears.bound
    obtain rfl := Option.some.inj (there.symm.trans there')
    cases found with
    | none => cases target.symm.trans fits.2.1
    | some j => exact fits.1.symm.trans target
  cases n with
  | expr e =>
      cases e with
      | ref site name =>
          obtain rfl := Option.some.inj uses
          rcases Option.or_eq_some_iff.mp (looked there obey.2.1) with mine | ⟨_, found⟩
          · rcases locals.lookup name with ⟨_, none⟩ | ⟨_, j, _, is, introduces⟩
            · cases none.symm.trans mine
            · obtain rfl := Option.some.inj (is.symm.trans mine)
              exact absurd rfl (introduces.own.2 _ (mem_of_lookup offered))
          · exact orderly.offered_once globals offered found
      | call site callee args =>
          obtain rfl := Option.some.inj uses
          exact orderly.offered_once globals offered (looked there obey.2)
      | int | bool | str | binary => cases uses
  | typeRef t =>
      obtain rfl := Option.some.inj uses
      have obey : TypeObeys ctx typeParams s t := obey
      unfold TypeObeys at obey
      split at obey
      · obtain ⟨b', there', fits⟩ := obey.bound
        obtain rfl := Option.some.inj (there.symm.trans there')
        cases target.symm.trans fits.2.1
      · have found := Option.filter_eq_some_iff.mp (looked there obey.2)
        exact orderly.offered_once globals offered found.1
  | item | field | param | stmt => cases uses

/-- Every construct that stands somewhere in an item obeys among the locals that it sees. -/
theorem UnitObeys.sees (obeys : UnitObeys items ctx s) {item : Item Site} (member : item ∈ items)
    {places : List (String × Site)} {n : Source.Node} (sees : Sees item places n) :
    ∃ scope, Locals s places scope ∧ Obeys ctx (typeParamsOf item) scope s n := by
  cases sees with
  | head inside =>
      obtain ⟨params, heads⟩ := obeys.heads
      obtain ⟨i, mine, head⟩ := heads.of_mem member
      exact ⟨[], .nil, head.obey n inside⟩
  | body there inside =>
      obtain ⟨scope, locals, obey⟩ := obeys.bodies item member _ _ there
      exact ⟨scope, locals, obey n inside⟩

end References

/-! ## Units -/

/-- Every construct is in an item and sees the locals before it. -/
theorem exists_sees {tree : Tree} {n : Source.Node} (member : n ∈ tree.nodes) :
    ∃ item ∈ tree.items, ∃ places, Sees item places n := by
  obtain ⟨item, among, inside⟩ := List.mem_flatMap.mp member
  refine ⟨item, among, ?_⟩
  rw [nodes_eq, List.mem_append] at inside
  rcases inside with head | body
  · exact ⟨[], .head head⟩
  · obtain ⟨stmt, listed, inside⟩ := List.mem_flatMap.mp body
    obtain ⟨k, there⟩ := List.getElem?_of_mem listed
    exact ⟨_, .body there inside⟩

/-- Whatever resolvers take part in the resolution of an assembled unit, as long as none of them gives
up, the names of the unit follow the order of precedence. -/
theorem run_follows_precedence {draft : Source.Draft} {unit : String} {tree : Tree}
    (assembled : draft.assemble unit = .ok tree) (registry : Registry)
    (calm : ∀ entry ∈ registry.resolvers, ∀ request, ∃ offer,
      entry.2.resolve request = .ok offer) :
    Precedence tree registry (run tree registry) := by
  have numbers := Source.assemble_numbers assembled
  have obeys := run_obeys numbers registry calm
  have globals : (contextOf tree registry).globals = itemNames tree.items := rfl
  refine ⟨fun n member name declares => ?_, fun item member places n sees => ?_,
    fun key asked free => ?_, fun key i offered n member use uses b there target => ?_⟩
  · exact ((run_links numbers registry).linked n member).declared declares
  · obtain ⟨scope, locals, obey⟩ := obeys.sees member sees
    exact obeys.resolves globals locals obey
  · refine obeys.orderly.answers key asked ?_
    rw [globals]
    exact (lookup_zipIdx_eq_none 0).mpr free
  · obtain ⟨item, among, places, sees⟩ := exists_sees member
    obtain ⟨scope, locals, obey⟩ := obeys.sees among sees
    exact obey.kind obeys.orderly globals locals offered uses there target

/-- A resolver that offers values, functions and classes, some of them under names that a unit
declares itself. -/
def lender : Extension.Resolver where
  name := "lender"
  resolve := fun request =>
    let offer (kind : Descriptor.Kind) : Option Descriptor :=
      some { name := request.name, kind := kind, ty := .int, origin := .synthetic "lender" none }
    .ok <| match request.name, request.kind with
      | "amount", .value | "pay", .value => offer .localVar
      | "amount", .call | "coin", .type => offer .function
      | "Coin", .type => offer .cls
      | _, _ => none

/-- The registry of the lender alone. -/
def lendingRegistry : Registry :=
  Registry.empty.push ⟨"lending", "lender"⟩ (.resolver lender) none none

/-- `pay(amount: Coin, amount: int)` uses locals, itself, what the lender offers, and names of
nothing. -/
def lending : Source.Draft where
  items :=
    [ .function () "pay" [] [⟨(), "amount", ⟨(), "Coin"⟩⟩, ⟨(), "amount", ⟨(), "int"⟩⟩] none
        [ .letBind () "x" (some ⟨(), "coin"⟩) (.ref () "amount"),
          .letBind () "x" none (.ref () "x"),
          .eval () (.binary () .add (.ref () "pay") (.ref () "x")),
          .eval () (.binary () .add (.call () "amount" []) (.call () "x" [])),
          .eval () (.ref () "nobody") ] ]

theorem lendingRegistry_calm : ∀ entry ∈ lendingRegistry.resolvers, ∀ request, ∃ offer,
    entry.2.resolve request = .ok offer := by
  have resolvers : lendingRegistry.resolvers =
      [(⟨⟨"lending", "lender"⟩, 0, 0, none, .resolver lender⟩, lender)] := by
    rw [Registry.resolvers, Registry.extensionsFor, List.mergeSort_of_pairwise (by decide)]
    rfl
  intro entry member request
  rw [resolvers, List.mem_singleton] at member
  rw [member]
  exact ⟨_, rfl⟩

/-- Offers of types, one name that is offered for two uses, and a local that hides one of them. -/
theorem run_follows_precedence_lending : ∃ tree, lending.assemble "lending" = .ok tree ∧
    (∀ entry ∈ lendingRegistry.resolvers, ∀ request, ∃ offer,
      entry.2.resolve request = .ok offer) ∧
    (run tree lendingRegistry).synthetic.map (·.1) =
      [("Coin", .type), ("amount", .value), ("coin", .type), ("amount", .call)] ∧
    ((run tree lendingRegistry).diagnostics.map fun d => (d.code, d.location.order)) =
      [("E0001", 3), ("E0002", 6), ("E0004", 12), ("E0002", 17), ("E0002", 19)] ∧
    Precedence tree lendingRegistry (run tree lendingRegistry) := by
  have assembled : lending.assemble "lending" = .ok _ := rfl
  exact ⟨_, assembled, lendingRegistry_calm, by decide +kernel, by decide +kernel,
    run_follows_precedence assembled lendingRegistry lendingRegistry_calm⟩

end StagedCompiler.Resolution
