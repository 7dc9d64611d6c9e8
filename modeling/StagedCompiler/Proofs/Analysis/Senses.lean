import StagedCompiler.Proofs.Analysis.Consulting
import StagedCompiler.Proofs.Analysis.LinkedUnits

/-!
# The sense of a name

What a use of a name comes to is its `Sense`: a type that needs no descriptor, a descriptor, or nothing
at all.  A construct bears a sense if it is bound accordingly and if exactly the uses that come to
nothing are reported as leading nowhere (`Bears`).

`Obeys` says which sense a construct bears among given locals and type parameters.  A part of
resolution that works on constructs makes them obey (`Marks`), and what obeys keeps doing so while work
goes on elsewhere: names that were looked up stay settled (`Obeys.way`).  Here this is proved of types,
members and signatures.
-/

namespace StagedCompiler.Resolution

open Source (Typed Item TypeRef Site SiteId)

/-- What a use of a name comes to. -/
inductive Sense : Type
  | reserved (ty : Ty)
  | target (i : DescriptorId)
  | nothing

namespace Sense

/-- The sense of a name that was looked up. -/
def of : Option DescriptorId → Sense
  | some i => .target i
  | none => .nothing

/-- Whether a construct with this sense is bound accordingly. -/
def Fits (b : Binding) : Sense → Prop
  | .reserved ty => b.ty = ty ∧ b.target = none ∧ b.flags.unresolved = false
  | .target i => b.target = some i ∧ b.flags.unresolved = false
  | .nothing => b.ty = .error ∧ b.target = none ∧ b.flags.unresolved = true

/-- How often a use of this sense is reported as leading nowhere. -/
def lost : Sense → Nat
  | .reserved _ | .target _ => 0
  | .nothing => 1

/-- A sense fits bindings that differ in other remarks alike. -/
theorem Fits.alike {b b' : Binding} {sense : Sense} (fits : sense.Fits b) (alike : Alike b b')
    (remarks : b'.flags.unresolved = b.flags.unresolved) : sense.Fits b' := by
  cases sense with
  | reserved ty => exact ⟨alike.ty.trans fits.1, alike.target.trans fits.2.1, remarks.trans fits.2.2⟩
  | target i => exact ⟨alike.target.trans fits.1, remarks.trans fits.2⟩
  | nothing => exact ⟨alike.ty.trans fits.1, alike.target.trans fits.2.1, remarks.trans fits.2.2⟩

end Sense

/-- A construct bears a sense: it is bound accordingly, and reported if it comes to nothing. -/
structure Bears (s : State) (site : Site) (sense : Sense) : Prop where
  bound : ∃ b, s.bindings.get? site.id = some b ∧ sense.Fits b
  lost : lostAt s site.id = sense.lost

/-- A construct bears its sense while work goes on at others. -/
theorem Bears.way {first : DescriptorId} {ids : List SiteId} {s s' : State} {site : Site}
    {sense : Sense} (bears : Bears s site sense) (way : Way first ids s s') (apart : site.id ∉ ids) :
    Bears s' site sense := by
  obtain ⟨b, there, fits⟩ := bears.bound
  obtain ⟨b', there', alike⟩ := way.frame _ apart b there
  exact ⟨⟨b', there', fits.alike alike (way.remarks _ apart b b' there there')⟩,
    (way.lost _ apart).trans bears.lost⟩

/-! ## Constructs that obey -/

/-- The sense that a reference to a type bears.  What it depends on has been looked up. -/
def TypeObeys (ctx : Context) (typeParams : List String) (s : State) (t : TypeRef Site) : Prop :=
  match reserved? typeParams t.name with
  | some ty => Bears s t.site (.reserved ty)
  | none => (t.name, .type) ∈ s.asked ∧ Bears s t.site (.of (classOutside ctx s t.name))

/-- The sense that a construct bears among the given type parameters and locals.  What it depends on
has been looked up. -/
def Obeys (ctx : Context) (typeParams : List String) (scope : Scope) (s : State) :
    Source.Node → Prop
  | .expr (.ref site name) =>
    (name, .value) ∈ s.asked ∧
      Bears s site (.of ((scope.lookup name).or (outside ctx s name .value))) ∧
      (scope.lookup name = none → (ctx.globals.lookup name).isSome →
        ReportedAt s typeCode site)
  | .expr (.call site callee _) =>
    (callee, .call) ∈ s.asked ∧ Bears s site (.of (outside ctx s callee .call))
  | .typeRef t => TypeObeys ctx typeParams s t
  | _ => True

section Obeys

variable {items : List (Item Site)} {ctx : Context} {typeParams : List String} {scope : Scope}
  {ids : List SiteId} {s s' : State}

/-- A type obeys while work goes on at other constructs, as its name is settled. -/
theorem TypeObeys.way (globals : ctx.globals = itemNames items) (orderly : Orderly items ctx s)
    {t : TypeRef Site} (obeys : TypeObeys ctx typeParams s t) (way : Way items.length ids s s')
    (apart : t.site.id ∉ ids) : TypeObeys ctx typeParams s' t := by
  unfold TypeObeys at obeys ⊢
  split at obeys
  · exact obeys.way way apart
  · obtain ⟨asked, bears⟩ := obeys
    refine ⟨(way.asked _ asked).1, ?_⟩
    rw [classOutside_way globals orderly asked way]
    exact bears.way way apart

/-- What obeys keeps doing so while work goes on elsewhere. -/
theorem Obeys.way (globals : ctx.globals = itemNames items) (orderly : Orderly items ctx s)
    {n : Source.Node} (obeys : Obeys ctx typeParams scope s n) (way : Way items.length ids s s')
    (apart : n.id ∉ ids) : Obeys ctx typeParams scope s' n := by
  cases n with
  | expr e =>
      cases e with
      | ref site name =>
          obtain ⟨asked, bears, misused⟩ := obeys
          refine ⟨(way.asked _ asked).1, ?_, fun free item => (misused free item).moves way.toMoves⟩
          rw [outside_way asked way]
          exact bears.way way apart
      | call site callee args =>
          obtain ⟨asked, bears⟩ := obeys
          refine ⟨(way.asked _ asked).1, ?_⟩
          rw [outside_way asked way]
          exact bears.way way apart
      | int | bool | str | binary => trivial
  | typeRef t => exact TypeObeys.way globals orderly obeys way apart
  | item | field | param | stmt => trivial

/-- A construct that refers to nothing obeys anyway. -/
theorem obeys_of_refers {n : Source.Node} (idle : n.refers? = none) :
    Obeys ctx typeParams scope s n := by
  cases n with
  | expr e =>
      cases e with
      | ref | call => cases idle
      | int | bool | str | binary => trivial
  | typeRef t => cases idle
  | item | field | param | stmt => trivial

end Obeys

/-! ## Ways that mark constructs -/

/-- The way from `s` to `s'` makes the given constructs obey. -/
structure Marks (items : List (Item Site)) (ctx : Context) (typeParams : List String)
    (scope : Scope) (ns : List Source.Node) (s s' : State) : Prop
    extends Walks items ctx (ns.map Source.Node.id) s s' where
  obey : ∀ n ∈ ns, Obeys ctx typeParams scope s' n

/-- Constructs that resolution has not come to: they are distinct, and none of them is reported. -/
structure Ahead (ns : List Source.Node) (s : State) : Prop where
  placed : Placed ns s
  clean : ∀ n ∈ ns, lostAt s n.id = 0

section Marks

variable {items : List (Item Site)} {ctx : Context} {typeParams : List String} {scope : Scope}
  {ns ms : List Source.Node} {n : Source.Node} {ids : List SiteId} {s s' s'' : State}

/-- What lies ahead of several constructs is the first one and then the others. -/
theorem Ahead.of_cons (ahead : Ahead (n :: ns) s) :
    n.id < s.bindings.slots.size ∧ lostAt s n.id = 0 ∧ n.id ∉ ns.map Source.Node.id ∧ Ahead ns s := by
  obtain ⟨here, outside, rest⟩ := ahead.placed.of_cons
  obtain ⟨clean, others⟩ := List.forall_mem_cons.mp ahead.clean
  exact ⟨here, clean, outside, rest, others⟩

theorem Ahead.of_append (ahead : Ahead (ns ++ ms) s) :
    Ahead ns s ∧ Ahead ms s ∧ ∀ id ∈ ns.map Source.Node.id, id ∉ ms.map Source.Node.id := by
  obtain ⟨left, right, apart⟩ := ahead.placed.of_append
  obtain ⟨cleanLeft, cleanRight⟩ := List.forall_mem_append.mp ahead.clean
  exact ⟨⟨left, cleanLeft⟩, ⟨right, cleanRight⟩, apart⟩

/-- Work on other constructs leaves alone what lies ahead. -/
theorem Ahead.walks (ahead : Ahead ns s) (walks : Walks items ctx ids s s')
    (apart : ∀ id ∈ ids, id ∉ ns.map Source.Node.id) : Ahead ns s' := by
  refine ⟨ahead.placed.of_slots walks.way.slots, fun n member => ?_⟩
  rw [walks.way.lost n.id fun touched => apart _ touched (List.mem_map_of_mem member)]
  exact ahead.clean n member

/-- A step that binds no construct makes none obey, and keeps all that do. -/
theorem Walks.marks (walks : Walks items ctx [] s s') :
    Marks items ctx typeParams scope [] s s' :=
  ⟨walks, by simp⟩

/-- A construct that uses no name obeys. -/
theorem Walks.marks_idle (walks : Walks items ctx [n.id] s s') (idle : n.refers? = none) :
    Marks items ctx typeParams scope [n] s s' :=
  ⟨walks, List.forall_mem_singleton.mpr (obeys_of_refers idle)⟩

/-- What two ways in sequence mark, if the second one does not work where the first one did. -/
theorem Marks.append (globals : ctx.globals = itemNames items)
    (first : Marks items ctx typeParams scope ns s s')
    (second : Marks items ctx typeParams scope ms s' s'')
    (apart : ∀ id ∈ ns.map Source.Node.id, id ∉ ms.map Source.Node.id) :
    Marks items ctx typeParams scope (ns ++ ms) s s'' := by
  refine ⟨?_, ?_⟩
  · rw [List.map_append]
    exact first.toWalks.trans second.toWalks
  · rw [List.forall_mem_append]
    refine ⟨fun n member => ?_, second.obey⟩
    exact (first.obey n member).way globals first.orderly second.way
      (apart _ (List.mem_map_of_mem member))

theorem Marks.after (first : Walks items ctx [] s s')
    (second : Marks items ctx typeParams scope ms s' s'') :
    Marks items ctx typeParams scope ms s s'' :=
  ⟨first.trans second.toWalks, second.obey⟩

/-- Constructs obey still after a step that binds none. -/
theorem Marks.before (globals : ctx.globals = itemNames items)
    (first : Marks items ctx typeParams scope ns s s') (second : Walks items ctx [] s' s'') :
    Marks items ctx typeParams scope ns s s'' := by
  have both := first.append globals second.marks (by simp)
  rwa [List.append_nil] at both

theorem Marks.of_mem_iff (marks : Marks items ctx typeParams scope ns s s')
    (same : ∀ n, n ∈ ns ↔ n ∈ ms) : Marks items ctx typeParams scope ms s s' := by
  refine ⟨marks.toWalks.mono fun id member => ?_, fun n member => ?_⟩
  · obtain ⟨n, among, rfl⟩ := List.mem_map.mp member
    exact List.mem_map_of_mem ((same n).mp among)
  · exact marks.obey n ((same n).mpr member)

/-- A construct is marked behind the ones that it consists of. -/
theorem Marks.close (globals : ctx.globals = itemNames items)
    (marks : Marks items ctx typeParams scope ns s s')
    (closed : Marks items ctx typeParams scope [n] s' s'')
    (outside : n.id ∉ ns.map Source.Node.id) :
    Marks items ctx typeParams scope (n :: ns) s s'' := by
  refine (marks.append globals closed fun id member same => ?_).of_mem_iff (by simp [or_comm])
  rw [List.map_singleton, List.mem_singleton] at same
  exact outside (same ▸ member)

/-- A construct that uses no name can stand among what is marked. -/
theorem Marks.cons_idle (marks : Marks items ctx typeParams scope ns s s')
    (idle : n.refers? = none) : Marks items ctx typeParams scope (n :: ns) s s' := by
  refine ⟨marks.toWalks.mono (List.subset_cons_self _ _), ?_⟩
  rw [List.forall_mem_cons]
  exact ⟨obeys_of_refers idle, marks.obey⟩

/-- Binding a construct lets it bear the sense that the binding fits. -/
theorem bind_bears (orderly : Orderly items ctx s) {site : Site} {b : Binding}
    (bound : site.id < s.bindings.slots.size) (sense : Sense) (fits : sense.Fits b)
    (lost : lostAt s site.id = sense.lost) :
    Leaves (bind site b) s fun _ s' => Walks items ctx [site.id] s s' ∧ Bears s' site sense := by
  refine (bind_walks orderly b bound).mono ?_
  intro _ s' post
  obtain ⟨walks, there, same⟩ := post
  exact ⟨walks, ⟨b, there, fits⟩, same.trans lost⟩

end Marks

/-! ## Types -/

section Types

variable {items : List (Item Site)} {ctx : Context} {s : State}

/-- A use of a name bears the sense of what is said of it, once the name has been looked up, and all
other complaints are reported. -/
theorem resolveUse_bears (calm : Calm ctx) (orderly : Orderly items ctx s) {site : Site}
    (bound : site.id < s.bindings.slots.size) (clean : lostAt s site.id = 0) {name : String}
    {kind : ReferenceKind} {verdict : Option DescriptorId → Descriptor.Table → Verdict Binding}
    {means : State → Option DescriptorId}
    (points : ∀ s', Walks items ctx [] s s' →
      Points site s'.descriptors (means s') (verdict (outside ctx s' name kind) s'.descriptors)) :
    Leaves (resolveUse ctx site name kind verdict) s fun _ s' => ∃ s₁, Walks items ctx [] s s₁ ∧
      (name, kind) ∈ s₁.asked ∧ Walks items ctx [site.id] s₁ s' ∧ Bears s' site (.of (means s₁)) ∧
      ∀ c ∈ (verdict (outside ctx s₁ name kind) s₁.descriptors).complaints,
        c.code ≠ unresolvedCode → ReportedAt s' c.code c.site := by
  refine (lookupGlobal_walks calm orderly name kind).bind ?_
  intro _ s₁ post
  obtain ⟨walks₁, asked, rfl⟩ := post
  have bound₁ : site.id < s₁.bindings.slots.size := walks₁.way.slots ▸ bound
  have clean₁ : lostAt s₁ site.id = 0 := (walks₁.way.lost _ List.not_mem_nil).trans clean
  have points := points s₁ walks₁
  refine .judge ?_
  generalize said : verdict (outside ctx s₁ name kind) s₁.descriptors = v at points ⊢
  generalize is : means s₁ = target at points
  cases points with
  | @refers i d ty complaints flags entry resolved found =>
      refine (complain_walks walks₁.orderly found).bind ?_
      intro _ s₂ post
      obtain ⟨walks₂, reported⟩ := post
      refine (bind_bears walks₂.orderly (walks₂.way.slots ▸ bound₁) (.target i) ⟨rfl, ?_⟩
        ((walks₂.way.lost _ List.not_mem_nil).trans clean₁)).bind ?_
      · rw [← resolved]
        exact Bool.false_or _
      intro _ s₃ post
      obtain ⟨walks₃, bears⟩ := post
      refine .pure ⟨s₁, walks₁, asked, walks₂.trans walks₃, is ▸ bears, ?_⟩
      rw [said]
      exact fun c member _ => (reported c member).moves walks₃.way.toMoves
  | lost =>
      refine (report_lost walks₁.orderly site _).bind ?_
      intro _ s₂ post
      obtain ⟨walks₂, counted⟩ := post
      refine (bind_bears walks₂.orderly (walks₂.way.slots ▸ bound₁) .nothing ⟨rfl, rfl, rfl⟩
        (counted.trans (congrArg (· + 1) clean₁))).bind ?_
      intro _ s₃ post
      obtain ⟨walks₃, bears⟩ := post
      refine .pure ⟨s₁, walks₁, asked, walks₂.again walks₃, is ▸ bears, ?_⟩
      rw [said]
      simp

/-- A reference to a type bears the sense of its name. -/
theorem resolveType_marks (globals : ctx.globals = itemNames items) (calm : Calm ctx)
    (orderly : Orderly items ctx s) (typeParams : List String) (scope : Scope) {t : TypeRef Site}
    (bound : t.site.id < s.bindings.slots.size) (clean : lostAt s t.site.id = 0) :
    Leaves (resolveType ctx typeParams t) s fun _ s' =>
      Marks items ctx typeParams scope [.typeRef t] s s' := by
  have marked : ∀ {s' : State}, Walks items ctx [t.site.id] s s' → TypeObeys ctx typeParams s' t →
      Marks items ctx typeParams scope [.typeRef t] s s' :=
    fun walks obeys => ⟨walks, List.forall_mem_singleton.mpr obeys⟩
  rw [resolveType_eq]
  cases reserved : reserved? typeParams t.name with
  | some ty =>
      refine (bind_bears orderly bound (.reserved ty) ⟨rfl, rfl, rfl⟩ clean).bind ?_
      intro _ s' post
      obtain ⟨walks, bears⟩ := post
      refine .pure (marked walks ?_)
      rw [TypeObeys, reserved]
      exact bears
  | none =>
      refine (resolveUse_bears calm orderly bound clean fun s' _ => typeVerdict_points t _ _).mono ?_
      intro _ s' post
      obtain ⟨s₁, walks₁, asked, walks₂, bears, _⟩ := post
      refine marked (walks₁.trans walks₂) ?_
      rw [TypeObeys, reserved]
      refine ⟨(walks₂.way.asked _ asked).1, ?_⟩
      rw [classOutside_way globals walks₁.orderly asked walks₂.way, ← classAt_outside]
      exact bears

end Types

/-! ## Declarations -/

/-- The descriptor that the construct at a place declares. -/
def declared? (s : State) (site : Site) : Option DescriptorId :=
  (s.bindings.get? site.id).bind (·.declares)

/-- A construct declares a descriptor, and no resolver offered it. -/
structure Introduces (s : State) (site : Site) (i : DescriptorId) : Prop where
  declared : declared? s site = some i
  own : Own s i

/-- The locals in scope are the ones that are declared at the given places under the given names. -/
def Locals (s : State) : List (String × Site) → Scope → Prop :=
  List.Forall₂ fun place entry => place.1 = entry.1 ∧ Introduces s place.2 entry.2

section Members

variable {items : List (Item Site)} {ctx : Context} {typeParams : List String} {scope : Scope}
  {first : DescriptorId} {ids : List SiteId} {s s' : State}

/-- A declaration keeps its descriptor while work goes on at other constructs. -/
theorem declared?_way {site : Site} {i : DescriptorId} (declared : declared? s site = some i)
    (way : Way first ids s s') (apart : site.id ∉ ids) : declared? s' site = some i := by
  obtain ⟨b, there, declares⟩ := Option.bind_eq_some_iff.mp declared
  obtain ⟨b', there', alike⟩ := way.frame _ apart b there
  exact Option.bind_eq_some_iff.mpr ⟨b', there', alike.declares.trans declares⟩

theorem Introduces.way {site : Site} {i : DescriptorId} (introduces : Introduces s site i)
    (way : Way first ids s s') (apart : site.id ∉ ids) : Introduces s' site i :=
  ⟨declared?_way introduces.declared way apart, introduces.own.way way⟩

/-- The locals in scope stay those of their places. -/
theorem Locals.way {places : List (String × Site)} (locals : Locals s places scope)
    (way : Way first ids s s') (apart : ∀ place ∈ places, place.2.id ∉ ids) :
    Locals s' places scope := by
  induction locals with
  | nil => exact .nil
  | cons here _ ih =>
      rw [List.forall_mem_cons] at apart
      exact .cons ⟨here.1, here.2.way way apart.1⟩ (ih apart.2)

/-- A name is in scope if it is among the places, and then the first place of the name counts. -/
theorem Locals.lookup {places : List (String × Site)} (locals : Locals s places scope)
    (name : String) :
    (places.lookup name = none ∧ scope.lookup name = none) ∨
      ∃ site i, places.lookup name = some site ∧ scope.lookup name = some i ∧
        Introduces s site i := by
  induction locals with
  | nil => exact .inl ⟨rfl, rfl⟩
  | @cons place entry _ _ here _ ih =>
      rw [List.lookup_cons, List.lookup_cons, here.1]
      split
      · exact .inr ⟨place.2, entry.2, rfl, rfl, here.2⟩
      · exact ih

/-- Describing and binding a declaration introduces it. -/
theorem declare_walks (orderly : Orderly items ctx s) {site : Site}
    (bound : site.id < s.bindings.slots.size) (name : String) (kind : Descriptor.Kind)
    (owner : DescriptorId) (ty : Ty) (flags : Binding.Flags) :
    Leaves (declare site name kind owner ty flags) s fun i s' =>
      Walks items ctx [site.id] s s' ∧ Introduces s' site i := by
  refine (describe_walks orderly _).bind ?_
  intro i s₁ post
  obtain ⟨walks₁, own⟩ := post
  refine (bind_walks walks₁.orderly _ (walks₁.way.slots ▸ bound)).bind ?_
  intro _ s₂ post
  obtain ⟨walks₂, there, _⟩ := post
  refine .pure ⟨walks₁.trans walks₂, ?_, own.way walks₂.way⟩
  exact Option.bind_eq_some_iff.mpr ⟨_, there, rfl⟩

variable (node : Typed Site → Source.Node) {kind : Descriptor.Kind}

/-- A member and its type obey, and the member introduces its descriptor. -/
theorem enterMember_marks (globals : ctx.globals = itemNames items) (calm : Calm ctx)
    (sites : ∀ m, (node m).site = m.site) (idle : ∀ m, (node m).refers? = none)
    (owner : DescriptorId) {m : Typed Site} (orderly : Orderly items ctx s)
    (ahead : Ahead [node m, .typeRef m.type] s) :
    Leaves (enterMember ctx owner kind typeParams m) s fun p s' =>
      Marks items ctx typeParams [] [node m, .typeRef m.type] s s' ∧
        Introduces s' m.site p.2 := by
  obtain ⟨here, _, outside, rest⟩ := ahead.of_cons
  obtain ⟨typeHere, typeClean, _, _⟩ := rest.of_cons
  have located : (node m).id = m.site.id := congrArg Site.id (sites m)
  refine (resolveType_marks globals calm orderly typeParams [] typeHere typeClean).bind ?_
  intro ty s₁ marks₁
  have bound : m.site.id < s₁.bindings.slots.size := marks₁.way.slots ▸ located ▸ here
  refine (declare_walks marks₁.orderly bound m.name kind owner ty {}).bind ?_
  intro i s₂ post
  obtain ⟨walks₂, introduces⟩ := post
  rw [← located] at walks₂
  exact .pure ⟨marks₁.close globals (walks₂.marks_idle (idle m)) outside, introduces⟩

/-- Members are marked, and each of them introduces its descriptor. -/
theorem resolveMembers_marks (globals : ctx.globals = itemNames items) (calm : Calm ctx)
    (sites : ∀ m, (node m).site = m.site) (idle : ∀ m, (node m).refers? = none)
    (owner : DescriptorId) (duplicate : String → String) (members : List (Typed Site))
    (seen : List String) {s : State} (orderly : Orderly items ctx s)
    (ahead : Ahead (memberNodes node members) s) :
    Leaves (resolveMembers ctx owner kind typeParams duplicate seen members) s fun ps s' =>
      Marks items ctx typeParams [] (memberNodes node members) s s' ∧
        List.Forall₂ (fun m p => Introduces s' m.site p.2) members ps := by
  induction members generalizing seen s with
  | nil => exact ⟨orderly.refl.marks, .nil⟩
  | cons m rest ih =>
      rw [memberNodes, List.flatMap_cons] at ahead ⊢
      rw [resolveMembers_cons]
      refine (judge_walks orderly (nameVerdict_namesFound m.site _ seen m.name _)).bind ?_
      intro _ s₁ post
      obtain ⟨walks₁, _⟩ := post
      obtain ⟨mine, later, apart⟩ := (ahead.walks walks₁ (by simp)).of_append
      refine (enterMember_marks node globals calm sites idle owner walks₁.orderly mine).bind ?_
      intro p s₂ post
      obtain ⟨marks₂, introduces⟩ := post
      refine (ih (m.name :: seen) marks₂.orderly (later.walks marks₂.toWalks apart)).bind ?_
      intro ps s₃ post
      obtain ⟨marks₃, others⟩ := post
      have away : m.site.id ∉ (memberNodes node rest).map Source.Node.id :=
        apart _ (by simp [← sites m, Source.Node.id])
      exact .pure ⟨.after walks₁ (marks₂.append globals marks₃ apart),
        .cons (introduces.way marks₃.way away) others⟩

end Members

/-! ## Signatures -/

/-- The parameters of an item with their places. -/
def paramSites : Item Site → List (String × Site)
  | .function _ _ _ params _ _ => params.map fun p => (p.name, p.site)
  | .cls _ _ _ => []

/-- What an item says about itself obeys, the item declares the given descriptor, and the given ones
are those of its parameters. -/
structure HeadObeys (ctx : Context) (s : State) (i : DescriptorId) (item : Item Site)
    (params : List DescriptorId) : Prop where
  obey : ∀ n ∈ headNodes item, Obeys ctx (typeParamsOf item) [] s n
  declared : declared? s item.site = some i
  params : Locals s (paramSites item).reverse (paramScope item params)

/-- Items with consecutive numbers, each with the descriptors of its parameters. -/
inductive HeadsObey (ctx : Context) (s : State) :
    DescriptorId → List (Item Site) → List (List DescriptorId) → Prop
  | nil {first : DescriptorId} : HeadsObey ctx s first [] []
  | cons {first : DescriptorId} {item : Item Site} {params : List DescriptorId}
      {rest : List (Item Site)} {more : List (List DescriptorId)} :
    HeadObeys ctx s first item params → HeadsObey ctx s (first + 1) rest more →
    HeadsObey ctx s first (item :: rest) (params :: more)

section Signatures

variable {items : List (Item Site)} {ctx : Context} {s s' : State}

/-- The members of an item are the locals of their places. -/
theorem locals_members {members : List (Typed Site)}
    {ps : List (Descriptor.Param × DescriptorId)}
    (introduced : List.Forall₂ (fun m p => Introduces s m.site p.2) members ps) :
    Locals s (members.map fun m => (m.name, m.site)).reverse
      (((members.map (·.name)).zip (ps.map (·.2))).reverse) := by
  rw [Locals, List.forall₂_reverse_iff]
  induction introduced with
  | nil => exact .nil
  | cons here _ ih => exact .cons ⟨rfl, here⟩ ih

theorem mem_memberNodes (node : Typed Site → Source.Node) {m : Typed Site}
    {members : List (Typed Site)} (member : m ∈ members) : node m ∈ memberNodes node members :=
  List.mem_flatMap.mpr ⟨m, member, List.mem_cons_self⟩

/-- The parameters of an item are among what is outside its body. -/
theorem mem_headNodes_param {item : Item Site} {place : String × Site}
    (member : place ∈ paramSites item) : place.2.id ∈ (headNodes item).map Source.Node.id := by
  cases item with
  | cls site name fields => cases member
  | function site name typeParams params returns body =>
      obtain ⟨p, among, rfl⟩ := List.mem_map.mp member
      have here := List.mem_append_left (returns.toList.map .typeRef) (mem_memberNodes .param among)
      exact List.mem_map_of_mem (f := Source.Node.id) (List.mem_cons_of_mem _ here)

/-- What is outside the body of an item obeys while work goes on elsewhere. -/
theorem HeadObeys.way (globals : ctx.globals = itemNames items) (orderly : Orderly items ctx s)
    {i : DescriptorId} {item : Item Site} {params : List DescriptorId} {ids : List SiteId}
    (head : HeadObeys ctx s i item params) (way : Way items.length ids s s')
    (apart : ∀ id ∈ (headNodes item).map Source.Node.id, id ∉ ids) :
    HeadObeys ctx s' i item params := by
  refine ⟨fun n member => ?_, ?_, ?_⟩
  · exact (head.obey n member).way globals orderly way (apart _ (List.mem_map_of_mem member))
  · refine declared?_way head.declared way (apart _ ?_)
    cases item <;> exact List.mem_cons_self
  · refine head.params.way way fun place member => apart _ (mem_headNodes_param ?_)
    exact List.mem_reverse.mp member

theorem HeadsObey.way (globals : ctx.globals = itemNames items) (orderly : Orderly items ctx s)
    {first : DescriptorId} {rest : List (Item Site)} {more : List (List DescriptorId)}
    {ids : List SiteId} (heads : HeadsObey ctx s first rest more) (way : Way items.length ids s s')
    (apart : ∀ id ∈ (rest.flatMap headNodes).map Source.Node.id, id ∉ ids) :
    HeadsObey ctx s' first rest more := by
  induction heads with
  | nil => exact .nil
  | cons here _ ih =>
      rw [List.flatMap_cons, List.map_append, List.forall_mem_append] at apart
      exact .cons (here.way globals orderly way apart.1) (ih apart.2)

/-- An item declares the descriptor that it is numbered with. -/
theorem enterSignature_marks (orderly : Orderly items ctx s) {i : DescriptorId}
    {item : Item Site} (there : items[i]? = some item) {f : Descriptor → Descriptor}
    (same : ∀ d, (f d).name = d.name ∧ (f d).kind = d.kind ∧ (f d).origin = d.origin) (ty : Ty)
    (typeParams : List String) (bound : item.site.id < s.bindings.slots.size) :
    Leaves (enterSignature i item.site f ty) s fun _ s' =>
      Marks items ctx typeParams [] [.item item] s s' ∧ declared? s' item.site = some i := by
  have inside := (List.getElem?_eq_some_iff.mp there).1
  have signed : Walks items ctx [] s { s with descriptors := s.descriptors.modify i f } := by
    refine orderly.of_same ?_ rfl rfl rfl
    refine { Way.refl items.length s with
      table := keeps_modify s.descriptors i same
      added := fun j d behind found => ?_ }
    show (s.descriptors.modify i f).get? j = some d
    rw [get?_modify, if_neg (Nat.ne_of_lt (Nat.lt_of_lt_of_le inside behind)), found]
  refine (modify_leaves _ s).bind ?_
  intro _ _ same
  subst same
  refine (bind_walks signed.orderly (.declaration ty i) bound).mono ?_
  intro _ s' post
  obtain ⟨walks, bound, _⟩ := post
  exact ⟨(signed.trans walks).marks_idle rfl, Option.bind_eq_some_iff.mpr ⟨_, bound, rfl⟩⟩

/-- The type that a function returns obeys. -/
theorem resolveReturns_marks (globals : ctx.globals = itemNames items) (calm : Calm ctx)
    (orderly : Orderly items ctx s) (typeParams : List String) {returns : Option (TypeRef Site)}
    (ahead : Ahead (returns.toList.map .typeRef) s) :
    Leaves (resolveReturns ctx typeParams returns) s fun _ s' =>
      Marks items ctx typeParams [] (returns.toList.map .typeRef) s s' := by
  cases returns with
  | none => exact orderly.refl.marks
  | some t =>
      obtain ⟨here, clean, _⟩ := ahead.of_cons
      exact resolveType_marks globals calm orderly typeParams [] here clean

/-- What an item says about itself obeys. -/
theorem resolveSignature_marks (globals : ctx.globals = itemNames items) (calm : Calm ctx)
    (orderly : Orderly items ctx s) {i : DescriptorId} {item : Item Site}
    (there : items[i]? = some item) (ahead : Ahead (headNodes item) s) :
    Leaves (resolveSignature ctx i item) s fun params s' =>
      Walks items ctx ((headNodes item).map Source.Node.id) s s' ∧
        HeadObeys ctx s' i item params := by
  cases item with
  | cls site name fields =>
      rw [headNodes] at ahead
      obtain ⟨here, _, outside, members⟩ := ahead.of_cons
      rw [resolveSignature_cls]
      refine (resolveMembers_marks .field globals calm (fun _ => rfl) (fun _ => rfl) i _ fields []
        orderly members).bind ?_
      intro ps s₁ post
      obtain ⟨marks₁, _⟩ := post
      refine (enterSignature_marks marks₁.orderly there (fun d => ⟨by rfl, by rfl, by rfl⟩) (.cls i)
        [] (marks₁.way.slots ▸ here)).bind ?_
      intro _ s₂ post
      obtain ⟨marks₂, declared⟩ := post
      have marks := marks₁.close globals marks₂ outside
      exact .pure ⟨marks.toWalks, marks.obey, declared, by simp [Locals, paramSites, paramScope]⟩
  | function site name typeParams params returns body =>
      rw [headNodes] at ahead
      obtain ⟨here, _, outside, rest⟩ := ahead.of_cons
      obtain ⟨members, returned, apart⟩ := rest.of_append
      rw [resolveSignature_function]
      refine (resolveMembers_marks .param globals calm (fun _ => rfl) (fun _ => rfl) i _ params []
        orderly members).bind ?_
      intro ps s₁ post
      obtain ⟨marks₁, introduced⟩ := post
      refine (resolveReturns_marks globals calm marks₁.orderly typeParams
        (returned.walks marks₁.toWalks apart)).bind ?_
      intro result s₂ marks₂
      have marks := marks₁.append globals marks₂ apart
      refine (enterSignature_marks marks₂.orderly there (fun d => ⟨by rfl, by rfl, by rfl⟩) result
        typeParams (marks.way.slots ▸ here)).bind ?_
      intro _ s₃ post
      obtain ⟨marks₃, declared⟩ := post
      have closed := marks.close globals marks₃ outside
      refine .pure ⟨closed.toWalks, closed.obey, declared, ?_⟩
      -- What is bound behind the parameters is the result type and the function itself.
      refine (locals_members introduced).way (marks₂.way.trans marks₃.way) fun place member => ?_
      obtain ⟨p, among, rfl⟩ := List.mem_map.mp (List.mem_reverse.mp member)
      have mine := List.mem_map_of_mem (f := Source.Node.id) (mem_memberNodes .param among)
      rw [List.mem_append, not_or]
      refine ⟨apart _ mine, fun same => outside ?_⟩
      rw [List.map_singleton, List.mem_singleton] at same
      rw [List.map_append, List.mem_append, ← same]
      exact .inl mine

/-- All that is outside of bodies obeys, and parameters introduce their descriptors. -/
theorem resolveSignatures_marks (globals : ctx.globals = itemNames items) (calm : Calm ctx)
    {rest : List (Item Site)} {first : DescriptorId} (suffix : Suffix items first rest)
    {s : State} (orderly : Orderly items ctx s) (ahead : Ahead (rest.flatMap headNodes) s) :
    Leaves (resolveSignatures ctx first rest) s fun more s' =>
      Walks items ctx ((rest.flatMap headNodes).map Source.Node.id) s s' ∧
        HeadsObey ctx s' first rest more := by
  induction rest generalizing first s with
  | nil => exact ⟨orderly.refl, .nil⟩
  | cons item rest ih =>
      rw [List.flatMap_cons] at ahead ⊢
      obtain ⟨here, later, apart⟩ := ahead.of_append
      refine (resolveSignature_marks globals calm orderly suffix.head here).bind ?_
      intro params s₁ post
      obtain ⟨walks₁, head⟩ := post
      refine (ih suffix.tail walks₁.orderly (later.walks walks₁ apart)).bind ?_
      intro more s₂ post
      obtain ⟨walks₂, heads⟩ := post
      rw [List.map_append]
      exact .pure ⟨walks₁.trans walks₂,
        .cons (head.way globals walks₁.orderly walks₂.way apart) heads⟩

end Signatures

end StagedCompiler.Resolution
