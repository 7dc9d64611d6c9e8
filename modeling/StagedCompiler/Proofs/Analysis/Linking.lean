import StagedCompiler.Proofs.Analysis.Places

/-!
# What constructs are bound to, whoever takes part

Whatever the resolvers of a run offer and whatever is reported on the way, resolution binds every
declaration to a descriptor of its own and every use of a name to a descriptor of that name, unless
the name leads nowhere and an error says so (`Linked`).

One step of resolution works on some constructs and leaves the others as they are, apart from remarks
(`Moves`); it keeps an invariant of the state (`Steady`): items are described under their own numbers,
resolvers were shown what is still there (`Stems`), and no resolver has failed unless one of them can.
`Links` puts these together for the constructs that a step works on, and steps in sequence link what
they link one by one (`Links.append`).
-/

namespace StagedCompiler.Resolution

open Source (Typed Item TypeRef Site SiteId)

/-! ## Tables -/

theorem mem_of_lookup {α β : Type} [BEq α] [LawfulBEq α] {a : α} {b : β} {l : List (α × β)}
    (looked : l.lookup a = some b) : (a, b) ∈ l := by
  obtain ⟨before, behind, rfl, _⟩ := List.lookup_eq_some_iff.mp looked
  simp

/-- `D'` has the descriptors of `D` under the same numbers, perhaps with other signatures. -/
def Keeps (D D' : Descriptor.Table) : Prop :=
  ∀ i d, D.get? i = some d →
    ∃ d', D'.get? i = some d' ∧ d'.name = d.name ∧ d'.kind = d.kind ∧ d'.origin = d.origin

section Tables

variable {D D' D'' : Descriptor.Table} {i : DescriptorId} {name : String}

/-- A table that only grows keeps what its descriptors stand for. -/
theorem Extends.keeps (extended : Extends D D') : Keeps D D' :=
  fun i d found => ⟨d, extended i d found, rfl, rfl, rfl⟩

theorem Keeps.refl (D : Descriptor.Table) : Keeps D D := (Extends.refl D).keeps

theorem Keeps.trans (first : Keeps D D') (second : Keeps D' D'') : Keeps D D'' := by
  intro i d found
  obtain ⟨d', found', name', kind', origin'⟩ := first i d found
  obtain ⟨d'', found'', name'', kind'', origin''⟩ := second i d' found'
  exact ⟨d'', found'', name''.trans name', kind''.trans kind', origin''.trans origin'⟩

/-- Filling in a signature keeps what descriptors stand for: name, kind and origin. -/
theorem keeps_modify (D : Descriptor.Table) (i : DescriptorId) {f : Descriptor → Descriptor}
    (same : ∀ d, (f d).name = d.name ∧ (f d).kind = d.kind ∧ (f d).origin = d.origin) :
    Keeps D (D.modify i f) := by
  intro j d found
  rw [get?_modify]
  split
  · exact ⟨f d, by rw [found]; rfl, same d⟩
  · exact ⟨d, found, rfl, rfl, rfl⟩

theorem Keeps.contains (kept : Keeps D D') (known : D.contains i = true) :
    D'.contains i = true := by
  obtain ⟨d, found⟩ := contains_iff.mp known
  obtain ⟨d', found', _⟩ := kept i d found
  exact contains_iff.mpr ⟨d', found'⟩

/-- A binding that is known stays known. -/
theorem Known.keeps {b : Binding} (known : Known D b) (kept : Keeps D D') : Known D' b :=
  ⟨fun i member => kept.contains (known.1 i member),
    fun i member => kept.contains (known.2 i member)⟩

theorem known_unresolved (D : Descriptor.Table) : Known D .unresolved :=
  ⟨fun _ member => (by cases member), fun _ member => (by cases member)⟩

/-- A number belongs to a descriptor of a name. -/
def Names (D : Descriptor.Table) (i : DescriptorId) (name : String) : Prop :=
  ∃ d, D.get? i = some d ∧ d.name = name

/-- A descriptor keeps its name. -/
theorem Names.keeps (names : Names D i name) (kept : Keeps D D') : Names D' i name := by
  obtain ⟨d, found, named⟩ := names
  obtain ⟨d', found', named', _⟩ := kept i d found
  exact ⟨d', found', named'.trans named⟩

theorem Names.contains (names : Names D i name) : D.contains i = true := by
  obtain ⟨d, found, _⟩ := names
  exact contains_iff.mpr ⟨d, found⟩

/-- A number belongs to the descriptor of the declaration at a place. -/
def Describes (D : Descriptor.Table) (i : DescriptorId) (site : Site) (name : String)
    (kind : Descriptor.Kind) : Prop :=
  ∃ d, D.get? i = some d ∧ d.name = name ∧ d.kind = kind ∧ d.origin = .source site.id

theorem Describes.keeps {site : Site} {kind : Descriptor.Kind}
    (describes : Describes D i site name kind) (kept : Keeps D D') :
    Describes D' i site name kind := by
  obtain ⟨d, found, named, kinded, origin⟩ := describes
  obtain ⟨d', found', named', kinded', origin'⟩ := kept i d found
  exact ⟨d', found', named'.trans named, kinded'.trans kinded, origin'.trans origin⟩

/-- The descriptor of a declaration has the name of the declaration. -/
theorem Describes.names {site : Site} {kind : Descriptor.Kind}
    (describes : Describes D i site name kind) : Names D i name := by
  obtain ⟨d, found, named, _⟩ := describes
  exact ⟨d, found, named⟩

/-- Where a descriptor comes from: a declaration of the unit, or the offer of a resolver to which
nothing was shown that the table does not have. -/
inductive Stems (ctx : Context) (D : Descriptor.Table) (d : Descriptor) : Prop
  | source {id : SiteId} : d.origin = .source id → Stems ctx D d
  | offered {record : Registry.Record} {resolver : Extension.Resolver}
      {request : Extension.Request} :
    (record, resolver) ∈ ctx.resolvers → resolver.resolve request = .ok (some d) →
    Keeps request.descriptors D → Stems ctx D d

/-- Where a descriptor comes from does not change. -/
theorem Stems.keeps {ctx : Context} {d : Descriptor} (stems : Stems ctx D d) (kept : Keeps D D') :
    Stems ctx D' d := by
  cases stems with
  | source origin => exact .source origin
  | offered among answered shown => exact .offered among answered (shown.trans kept)

end Tables

/-! ## Constructs -/

section Linked

variable (s : State)

/-- A construct is bound to a descriptor of its own. -/
def Declares (site : Site) (name : String) (kind : Descriptor.Kind) : Prop :=
  ∃ b i, s.bindings.get? site.id = some b ∧ b.declares = some i ∧
    Describes s.descriptors i site name kind

/-- A construct is bound to a descriptor of the name that it uses, or an error was reported. -/
def Uses (site : Site) (name : String) : Prop :=
  ∃ b, s.bindings.get? site.id = some b ∧ (∀ i ∈ b.target, Names s.descriptors i name) ∧
    (b.target = none → s.diagnostics ≠ [])

/-- A reference to a type is bound to a reserved type or to a type parameter. -/
def Reserved (t : TypeRef Site) : Prop :=
  ∃ b, s.bindings.get? t.site.id = some b ∧
    (Ty.builtin? t.name = some b.ty ∨ b.ty = .param t.name)

variable {s} in
/-- A construct that is bound to a descriptor of a name uses the name. -/
theorem Uses.of_reference {site : Site} {name : String} {ty : Ty} {i : DescriptorId}
    {flags : Binding.Flags}
    (there : s.bindings.get? site.id = some ((Binding.reference ty i).withFlags flags))
    (names : Names s.descriptors i name) : Uses s site name := by
  refine ⟨_, there, fun j member => ?_, fun missing => by cases missing⟩
  obtain rfl := Option.some.inj member
  exact names

variable {s} in
/-- A construct that is unresolved uses the name, which leads nowhere, if an error says so. -/
theorem Uses.of_unresolved {site : Site} {name : String}
    (there : s.bindings.get? site.id = some .unresolved) (loud : s.diagnostics ≠ []) :
    Uses s site name :=
  ⟨_, there, fun _ member => (by cases member), fun _ => loud⟩

variable {s} in
/-- If nothing is reported then a use of a name has a target. -/
theorem Uses.target {site : Site} {name : String} (uses : Uses s site name)
    (silent : s.diagnostics = []) : ∃ b i, s.bindings.get? site.id = some b ∧ b.target = some i ∧
      Names s.descriptors i name := by
  obtain ⟨b, there, names, loud⟩ := uses
  cases target : b.target with
  | none => exact absurd silent (loud target)
  | some i => exact ⟨b, i, there, target, names i target⟩

/-- What a construct is bound to. -/
def Linked : Source.Node → Prop
  | .item i => Declares s i.site i.name (itemKind i)
  | .field f => Declares s f.site f.name .field
  | .param p => Declares s p.site p.name .param
  | .stmt (.letBind site name _ _) => Declares s site name .localVar
  | .stmt (.ret _ _) | .stmt (.eval _ _) => True
  | .typeRef t => Reserved s t ∨ Uses s t.site t.name
  | .expr (.ref site name) => Uses s site name
  | .expr (.call site callee _) => Uses s site callee
  | .expr e => (s.bindings.get? e.site.id).isSome = true

end Linked

/-- The same binding apart from remarks. -/
structure Alike (b b' : Binding) : Prop where
  ty : b'.ty = b.ty
  target : b'.target = b.target
  declares : b'.declares = b.declares

theorem Alike.refl (b : Binding) : Alike b b := ⟨rfl, rfl, rfl⟩

theorem Alike.trans {b b' b'' : Binding} (first : Alike b b') (second : Alike b' b'') :
    Alike b b'' :=
  ⟨second.ty.trans first.ty, second.target.trans first.target,
    second.declares.trans first.declares⟩

/-- `s'` is behind `s`, and bindings outside the given constructs are the same apart from remarks. -/
structure Moves (touched : List SiteId) (s s' : State) : Prop where
  table : Keeps s.descriptors s'.descriptors
  slots : s'.bindings.slots.size = s.bindings.slots.size
  reports : Reports s s'
  frame : ∀ id, id ∉ touched → ∀ b, s.bindings.get? id = some b →
    ∃ b', s'.bindings.get? id = some b' ∧ Alike b b'

section Moves

variable {ids jds : List SiteId} {s s' s'' : State}

theorem Moves.of_same (table : Keeps s.descriptors s'.descriptors)
    (bindings : s'.bindings = s.bindings) (reports : Reports s s') : Moves ids s s' :=
  ⟨table, by rw [bindings], reports, fun id _ b there => ⟨b, by rw [bindings, there], .refl b⟩⟩

/-- Steps in sequence work on what both of them work on. -/
theorem Moves.trans (first : Moves ids s s') (second : Moves jds s' s'') :
    Moves (ids ++ jds) s s'' := by
  refine ⟨first.table.trans second.table, second.slots.trans first.slots,
    first.reports.trans second.reports, fun id outside b there => ?_⟩
  rw [List.mem_append, not_or] at outside
  obtain ⟨b', there', alike'⟩ := first.frame id outside.1 b there
  obtain ⟨b'', there'', alike''⟩ := second.frame id outside.2 b' there'
  exact ⟨b'', there'', alike'.trans alike''⟩

theorem Moves.mono (moves : Moves ids s s') (subset : ids ⊆ jds) : Moves jds s s' :=
  ⟨moves.table, moves.slots, moves.reports,
    fun id outside => moves.frame id fun inside => outside (subset inside)⟩

/-- If there are diagnostics, there still are later on. -/
theorem Moves.loud (moves : Moves ids s s') (loud : s.diagnostics ≠ []) : s'.diagnostics ≠ [] :=
  fun silent => loud (moves.reports.silent silent)

/-- A declaration stays bound to its descriptor while work goes on at other constructs. -/
theorem Declares.moves {site : Site} {name : String} {kind : Descriptor.Kind}
    (declares : Declares s site name kind) (moves : Moves ids s s') (apart : site.id ∉ ids) :
    Declares s' site name kind := by
  obtain ⟨b, i, there, declared, describes⟩ := declares
  obtain ⟨b', there', alike⟩ := moves.frame _ apart b there
  exact ⟨b', i, there', alike.declares.trans declared, describes.keeps moves.table⟩

/-- A use of a name stays bound to what the name leads to while work goes on at other constructs. -/
theorem Uses.moves {site : Site} {name : String} (uses : Uses s site name)
    (moves : Moves ids s s') (apart : site.id ∉ ids) : Uses s' site name := by
  obtain ⟨b, there, target, loud⟩ := uses
  obtain ⟨b', there', alike⟩ := moves.frame _ apart b there
  refine ⟨b', there', fun i member => ?_, fun missing => ?_⟩
  · rw [alike.target] at member
    exact (target i member).keeps moves.table
  · rw [alike.target] at missing
    exact moves.loud (loud missing)

/-- What is linked stays linked while work goes on elsewhere. -/
theorem Linked.moves {n : Source.Node} (linked : Linked s n) (moves : Moves ids s s')
    (apart : n.id ∉ ids) : Linked s' n := by
  have bound : ∀ site : Site, site.id ∉ ids → (s.bindings.get? site.id).isSome = true →
      (s'.bindings.get? site.id).isSome = true := by
    intro site outside there
    obtain ⟨b, there⟩ := Option.isSome_iff_exists.mp there
    obtain ⟨b', there', _⟩ := moves.frame _ outside b there
    exact Option.isSome_of_eq_some there'
  cases n with
  | item i => exact Declares.moves linked moves apart
  | field f => exact Declares.moves linked moves apart
  | param p => exact Declares.moves linked moves apart
  | stmt stmt =>
      cases stmt with
      | letBind site name type value => exact Declares.moves linked moves apart
      | ret site value => exact trivial
      | eval site value => exact trivial
  | typeRef t =>
      rcases linked with ⟨b, there, reserved⟩ | uses
      · obtain ⟨b', there', alike⟩ := moves.frame _ apart b there
        refine Or.inl ⟨b', there', ?_⟩
        rw [alike.ty]
        exact reserved
      · exact Or.inr (uses.moves moves apart)
  | expr e =>
      cases e with
      | ref site name => exact Uses.moves linked moves apart
      | call site callee args => exact Uses.moves linked moves apart
      | int site n => exact bound site apart linked
      | bool site b => exact bound site apart linked
      | str site t => exact bound site apart linked
      | binary site op lhs rhs => exact bound site apart linked

end Moves

/-! ## The invariant -/

/-- No resolver of a run gives up. -/
def Calm (ctx : Context) : Prop :=
  ∀ entry ∈ ctx.resolvers, ∀ request, ∃ offer, entry.2.resolve request = .ok offer

/-- What holds of the state all the way. -/
structure Steady (items : List (Item Site)) (ctx : Context) (s : State) : Prop where
  fault : Calm ctx → s.fault = none
  items : ∀ i item, items[i]? = some item →
    Describes s.descriptors i item.site item.name (itemKind item)
  offers : ∀ name kind i, s.synthetic.lookup (name, kind) = some i → Names s.descriptors i name
  stems : ∀ i d, s.descriptors.get? i = some d → Stems ctx s.descriptors d
  known : ∀ id b, s.bindings.get? id = some b → Known s.descriptors b

/-- The way from `s` to `s'` links the given constructs. -/
structure Links (items : List (Item Site)) (ctx : Context) (ns : List Source.Node)
    (s s' : State) : Prop where
  steady : Steady items ctx s'
  moves : Moves (ns.map Source.Node.id) s s'
  linked : ∀ n ∈ ns, Linked s' n

section Links

variable {items : List (Item Site)} {ctx : Context} {ns ms : List Source.Node} {s s' s'' : State}

theorem Steady.refl (steady : Steady items ctx s) : Links items ctx [] s s :=
  ⟨steady, .of_same (.refl _) rfl (.of_eq rfl), by simp⟩

/-- What two ways in sequence link, if the second one does not work where the first one did. -/
theorem Links.append (first : Links items ctx ns s s') (second : Links items ctx ms s' s'')
    (apart : ∀ id ∈ ns.map Source.Node.id, id ∉ ms.map Source.Node.id) :
    Links items ctx (ns ++ ms) s s'' := by
  refine ⟨second.steady, ?_, ?_⟩
  · rw [List.map_append]
    exact first.moves.trans second.moves
  · rw [List.forall_mem_append]
    refine ⟨fun n member => ?_, second.linked⟩
    exact (first.linked n member).moves second.moves (apart _ (List.mem_map_of_mem member))

/-- A way that links nothing changes nothing about what is linked behind it. -/
theorem Links.after (first : Links items ctx [] s s') (second : Links items ctx ms s' s'') :
    Links items ctx ms s s'' :=
  first.append second (by simp)

/-- Behind what a step links nothing has to be linked. -/
theorem Links.before (first : Links items ctx ns s s') (second : Links items ctx [] s' s'') :
    Links items ctx ns s s'' := by
  have both := first.append second (by simp)
  rwa [List.append_nil] at both

theorem Links.of_mem_iff (links : Links items ctx ns s s') (same : ∀ n, n ∈ ns ↔ n ∈ ms) :
    Links items ctx ms s s' := by
  refine ⟨links.steady, links.moves.mono fun id member => ?_, fun n member => ?_⟩
  · obtain ⟨n, among, rfl⟩ := List.mem_map.mp member
    exact List.mem_map_of_mem ((same n).mp among)
  · exact links.linked n ((same n).mpr member)

/-- A construct is linked behind the ones that it consists of. -/
theorem Links.close {n : Source.Node} (links : Links items ctx ns s s')
    (closed : Links items ctx [n] s' s'') (outside : n.id ∉ ns.map Source.Node.id) :
    Links items ctx (n :: ns) s s'' := by
  refine (links.append closed fun id member same => ?_).of_mem_iff (by simp [or_comm])
  rw [List.map_singleton, List.mem_singleton] at same
  exact outside (same ▸ member)

/-- A construct that nothing has to be known about can stand among what is linked. -/
theorem Links.cons_idle (links : Links items ctx ns s s') {n : Source.Node}
    (idle : ∀ s, Linked s n) : Links items ctx (n :: ns) s s' := by
  refine ⟨links.steady, links.moves.mono (List.subset_cons_self _ _), ?_⟩
  rw [List.forall_mem_cons]
  exact ⟨idle s', links.linked⟩

/-- Descriptors that are added or signed, and what is reported, leave all bindings as they are. -/
theorem Steady.of_same (steady : Steady items ctx s)
    (table : Keeps s.descriptors s'.descriptors) (bindings : s'.bindings = s.bindings)
    (reports : Reports s s') (fault : s'.fault = s.fault) (synthetic : s'.synthetic = s.synthetic)
    (stems : ∀ i d, s'.descriptors.get? i = some d → Stems ctx s'.descriptors d) :
    Links items ctx [] s s' := by
  refine ⟨⟨?_, fun i item there => (steady.items i item there).keeps table, ?_, stems, ?_⟩,
    .of_same table bindings reports, by simp⟩
  · rw [fault]
    exact steady.fault
  · rw [synthetic]
    exact fun name kind i offered => (steady.offers name kind i offered).keeps table
  · rw [bindings]
    exact fun id b there => (steady.known id b there).keeps table

/-- With a new descriptor of known origin all origins are known. -/
theorem stems_insert {D : Descriptor.Table} {d : Descriptor}
    (stems : ∀ i e, D.get? i = some e → Stems ctx D e) (new : Stems ctx (D.insert d) d) :
    ∀ i e, (D.insert d).get? i = some e → Stems ctx (D.insert d) e := by
  intro i e found
  rw [get?_insert] at found
  split at found
  · exact Option.some.inj found ▸ new
  · exact (stems i e found).keeps (insert_extends D d).keeps

end Links

/-! ## Steps -/

section Primitives

variable {items : List (Item Site)} {ctx : Context} {s : State}

/-- An error links nothing and changes no descriptor. -/
theorem report_leaves (steady : Steady items ctx s) (code : String) (site : Site)
    (message : String) :
    Leaves (report ctx code site message) s fun _ s' =>
      Links items ctx [] s s' ∧ s'.descriptors = s.descriptors :=
  ⟨steady.of_same (.refl _) rfl (report_grows ctx site code message s) rfl rfl steady.stems, rfl⟩

theorem get?_flag (b : Bindings) (id i : SiteId) (flags : Binding.Flags) :
    (b.flag id flags).get? i =
      if id = i then (b.get? i).map (·.withFlags flags) else b.get? i := by
  unfold Bindings.get? Bindings.flag
  rw [Array.getElem?_modify]
  split
  · cases b.slots[i]? with
    | none => rfl
    | some slot => cases slot <;> rfl
  · rfl

/-- A remark on a binding changes neither what it refers to nor its type. -/
theorem flag_leaves (steady : Steady items ctx s) (site : Site) (flags : Binding.Flags) :
    Leaves (flag site flags) s fun _ s' =>
      Links items ctx [] s s' ∧ s'.descriptors = s.descriptors := by
  have alike : ∀ id b, s.bindings.get? id = some b →
      ∃ b', (s.bindings.flag site.id flags).get? id = some b' ∧ Alike b b' := by
    intro id b there
    rw [get?_flag, there]
    split
    · exact ⟨_, rfl, rfl, rfl, rfl⟩
    · exact ⟨b, rfl, .refl b⟩
  refine ⟨⟨⟨steady.fault, steady.items, steady.offers, steady.stems, fun id b' there' => ?_⟩,
    ⟨.refl _, Array.size_modify, .of_eq rfl, fun id _ => alike id⟩, by simp⟩, rfl⟩
  have there' : (s.bindings.flag site.id flags).get? id = some b' := there'
  rw [get?_flag] at there'
  split at there'
  · obtain ⟨b, there, rfl⟩ := Option.map_eq_some_iff.mp there'
    exact steady.known id b there
  · exact steady.known id b' there'

/-- Complaints change no descriptor and no link. -/
theorem complain_leaves (steady : Steady items ctx s) (complaints : List Complaint) :
    Leaves (complain ctx complaints) s fun _ s' =>
      Links items ctx [] s s' ∧ s'.descriptors = s.descriptors := by
  induction complaints generalizing s with
  | nil => exact ⟨steady.refl, rfl⟩
  | cons c rest ih =>
      refine (report_leaves steady c.code c.site c.message).bind ?_
      rintro _ s₁ ⟨reported, table⟩
      cases c.remarked with
      | false =>
          refine (ih reported.steady).mono ?_
          exact fun _ s₂ post => ⟨reported.after post.1, post.2.trans table⟩
      | true =>
          refine (flag_leaves reported.steady c.site mismatch).bind ?_
          rintro _ s₂ ⟨flagged, table'⟩
          refine (ih flagged.steady).mono ?_
          exact fun _ s₃ post =>
            ⟨reported.after (flagged.after post.1), post.2.trans (table'.trans table)⟩

/-- A verdict is given and complained about, which links nothing. -/
theorem judge_leaves {α : Type} (steady : Steady items ctx s)
    (verdict : Descriptor.Table → Verdict α) :
    Leaves (judge ctx verdict) s fun a s' =>
      Links items ctx [] s s' ∧ s'.descriptors = s.descriptors ∧
        ((verdict s.descriptors).complaints ≠ [] → s'.diagnostics ≠ []) ∧
        a = (verdict s.descriptors).value := by
  obtain ⟨links, table⟩ := complain_leaves steady (verdict s.descriptors).complaints
  exact ⟨links, table, fun some => complain_not_silent ctx some s, rfl⟩

/-- A declaration gets a new descriptor with its origin. -/
theorem describe_leaves (steady : Steady items ctx s) {d : Descriptor} (site : Site)
    (origin : d.origin = .source site.id) :
    Leaves (describe d) s fun i s' =>
      Links items ctx [] s s' ∧ Describes s'.descriptors i site d.name d.kind := by
  have entry : (s.descriptors.insert d).get? s.descriptors.size = some d := by
    rw [get?_insert, if_pos rfl]
  refine ⟨steady.of_same (insert_extends s.descriptors d).keeps rfl (.of_eq rfl) rfl rfl ?_,
    d, entry, rfl, rfl, origin⟩
  exact stems_insert steady.stems (.source origin)

/-- Binding a construct links it if the binding is one for it. -/
theorem bind_leaves (steady : Steady items ctx s) {n : Source.Node} {b : Binding}
    (bound : n.id < s.bindings.slots.size) (known : Known s.descriptors b)
    (links : ∀ s', s'.bindings.get? n.id = some b → s'.descriptors = s.descriptors →
      s'.diagnostics = s.diagnostics → Linked s' n) :
    Leaves (bind n.site b) s fun _ s' => Links items ctx [n] s s' := by
  have slots : ((Resolution.bind n.site b).run s).2.bindings = s.bindings.insert n.id b := rfl
  refine ⟨⟨steady.fault, steady.items, steady.offers, steady.stems, fun id b' there => ?_⟩,
    ⟨.refl _, Array.size_setIfInBounds, .of_eq rfl, fun id outside b' there => ?_⟩, ?_⟩
  · rw [slots, get?_insert_binding _ _ _ _ bound] at there
    split at there
    · exact Option.some.inj there ▸ known
    · exact steady.known id b' there
  · have other : id ≠ n.id := fun same => outside (List.mem_singleton.mpr same)
    refine ⟨b', ?_, .refl b'⟩
    rw [slots, get?_insert_binding _ _ _ _ bound, if_neg other, there]
  · rw [List.forall_mem_singleton]
    refine links _ ?_ rfl rfl
    rw [slots, get?_insert_binding _ _ _ _ bound, if_pos rfl]

/-- What is declared is linked to a descriptor of its own. -/
theorem declare_leaves (steady : Steady items ctx s) {n : Source.Node}
    (bound : n.id < s.bindings.slots.size) {name : String} {kind : Descriptor.Kind}
    (owner : DescriptorId) (ty : Ty) (flags : Binding.Flags)
    (linked : ∀ s' : State, Declares s' n.site name kind → Linked s' n) :
    Leaves (declare n.site name kind owner ty flags) s fun i s' =>
      Links items ctx [n] s s' ∧ Names s'.descriptors i name := by
  refine (describe_leaves steady n.site rfl).bind ?_
  rintro i s₁ ⟨links₁, describes⟩
  obtain ⟨d, entry, _⟩ := id describes
  have known : Known s₁.descriptors ((Binding.declaration ty i).withFlags flags) :=
    known_declaration entry ty
  refine (bind_leaves (n := n) links₁.steady (links₁.moves.slots ▸ bound) known ?_).bind ?_
  · exact fun s' there table _ => linked s' ⟨_, i, there, rfl, table ▸ describes⟩
  · intro _ s₂ links₂
    exact .pure ⟨links₁.after links₂, describes.names.keeps links₂.moves.table⟩

end Primitives

/-! ## Names and types -/

section Lookup

variable {items : List (Item Site)} {ctx : Context} {s : State}

/-- An offer for a name and a use is a descriptor of that name. -/
theorem Steady.offer {s' : State} (steady : Steady items ctx s) {name : String}
    {kind : ReferenceKind} {d : Descriptor} (named : d.name = name)
    (stems : Stems ctx (s.descriptors.insert d) d) (fault : s'.fault = s.fault)
    (reports : Reports s s') (bindings : s'.bindings = s.bindings)
    (table : s'.descriptors = s.descriptors.insert d)
    (synthetic : s'.synthetic = s.synthetic ++ [((name, kind), s.descriptors.size)]) :
    Links items ctx [] s s' := by
  have kept : Keeps s.descriptors s'.descriptors := table ▸ (insert_extends s.descriptors d).keeps
  refine ⟨⟨?_, fun i item there => (steady.items i item there).keeps kept, ?_, ?_, ?_⟩,
    .of_same kept bindings reports, by simp⟩
  · rw [fault]
    exact steady.fault
  · intro other use i looked
    rw [synthetic, List.lookup_append, List.lookup_cons] at looked
    cases old : s.synthetic.lookup (other, use) with
    | some j =>
        rw [old, Option.some_or, Option.some.injEq] at looked
        exact looked ▸ (steady.offers other use j old).keeps kept
    | none =>
        rw [old, Option.none_or] at looked
        split at looked
        · rename_i same
          obtain ⟨rfl, _⟩ := Prod.mk.inj (beq_iff_eq.mp same)
          obtain rfl := Option.some.inj looked
          refine ⟨d, ?_, named⟩
          rw [table, get?_insert, if_pos rfl]
        · cases looked
  · rw [table]
    exact stems_insert steady.stems stems
  · rw [bindings]
    exact fun id b there => (steady.known id b there).keeps kept

/-- Resolvers add at most a descriptor of the name that they are asked for. -/
theorem askResolvers_leaves (name : String) (kind : ReferenceKind)
    {resolvers : List (Registry.Record × Extension.Resolver)}
    (among : ∀ entry ∈ resolvers, entry ∈ ctx.resolvers) (steady : Steady items ctx s) :
    Leaves (askResolvers ctx name kind resolvers) s fun _ s' => Links items ctx [] s s' := by
  induction resolvers generalizing s with
  | nil => exact steady.refl
  | cons entry rest ih =>
      rw [List.forall_mem_cons] at among
      obtain ⟨here, later⟩ := among
      obtain ⟨record, resolver⟩ := entry
      refine (get_leaves s).bind ?_
      rintro _ _ ⟨rfl, rfl⟩
      rename_i s
      refine (modify_leaves _ s).bind ?_
      rintro _ asked rfl
      have quiet : ∀ consultations, Links items ctx [] s { s with consultations := consultations } :=
        fun _ => steady.of_same (.refl _) rfl (.of_eq rfl) rfl rfl steady.stems
      have onward := fun consultations => (quiet consultations).after
        (ih later (quiet consultations).steady)
      cases answered : resolver.resolve ⟨name, kind, s.descriptors⟩ with
      | error panic =>
          refine ⟨⟨fun calm => ?_, steady.items, steady.offers, steady.stems, steady.known⟩,
            .of_same (.refl _) rfl (.of_eq rfl), by simp⟩
          obtain ⟨offer, given⟩ := calm _ here ⟨name, kind, s.descriptors⟩
          rw [answered] at given
          cases given
      | ok offer =>
          cases offer with
          | none => exact onward _
          | some offer =>
              show Leaves (ite _ _ _) _ _
              split
              · exact onward _
              · rename_i named
                split
                · exact quiet _
                · have offered : Stems ctx (s.descriptors.insert offer) offer :=
                    .offered here answered (insert_extends s.descriptors offer).keeps
                  exact steady.offer (not_ne_iff.mp named) offered rfl (.of_eq rfl) rfl rfl rfl

/-- Whatever resolvers offer, asking them links nothing and keeps the invariant. -/
theorem consult_leaves (steady : Steady items ctx s) (name : String) (kind : ReferenceKind) :
    Leaves (consult ctx name kind) s fun _ s' => Links items ctx [] s s' := by
  refine (get_leaves s).bind ?_
  rintro _ _ ⟨rfl, rfl⟩
  rename_i s
  show Leaves (ite _ _ _) _ _
  split
  · exact steady.refl
  · have noted : Links items ctx [] s { s with asked := (name, kind) :: s.asked } :=
      steady.of_same (.refl _) rfl (.of_eq rfl) rfl rfl steady.stems
    refine (modify_leaves _ s).bind ?_
    rintro _ _ rfl
    refine (askResolvers_leaves name kind (fun _ member => member) noted.steady).mono ?_
    exact fun _ _ links => noted.after links

/-- What a name stands for outside functions has that name. -/
theorem lookupGlobal_leaves (globals : ctx.globals = itemNames items) (steady : Steady items ctx s)
    (name : String) (kind : ReferenceKind) :
    Leaves (lookupGlobal ctx name kind) s fun found s' =>
      Links items ctx [] s s' ∧ ∀ i ∈ found, Names s'.descriptors i name := by
  refine (consult_leaves steady name kind).bind ?_
  intro _ s' links
  refine ⟨links, fun i found => ?_⟩
  have found : (ctx.globals.lookup name).or (s'.synthetic.lookup (name, kind)) = some i := found
  cases looked : ctx.globals.lookup name with
  | some j =>
      rw [looked, Option.some_or, Option.some.injEq] at found
      rw [globals] at looked
      obtain ⟨k, item, place, there, named⟩ := lookup_zipIdx_eq_some looked
      rw [Nat.zero_add] at place
      rw [← found, place, ← named]
      exact (links.steady.items k item there).names
  | none =>
      rw [looked, Option.none_or] at found
      exact links.steady.offers name kind i found

/-- A use of a name is linked if what is said of it points at something of that name, or nowhere. -/
theorem resolveUse_leaves (globals : ctx.globals = itemNames items) (steady : Steady items ctx s)
    {n : Source.Node} (bound : n.id < s.bindings.slots.size) {name : String} {kind : ReferenceKind}
    {verdict : Option DescriptorId → Descriptor.Table → Verdict Binding}
    (points : ∀ found D, Keeps s.descriptors D → (∀ i ∈ found, Names D i name) →
      ∃ means, (∀ i ∈ means, Names D i name) ∧ Points n.site D means (verdict found D))
    (linked : ∀ s' : State, Uses s' n.site name → Linked s' n) :
    Leaves (resolveUse ctx n.site name kind verdict) s fun _ s' => Links items ctx [n] s s' := by
  refine (lookupGlobal_leaves globals steady name kind).bind ?_
  rintro found s₁ ⟨links₁, names⟩
  obtain ⟨means, names, points⟩ := points found _ links₁.moves.table names
  refine (judge_leaves links₁.steady _).bind ?_
  rintro _ s₂ ⟨links₂, table, loud, rfl⟩
  have links := links₁.after links₂
  have bound₂ : n.id < s₂.bindings.slots.size := links.moves.slots ▸ bound
  generalize verdict found s₁.descriptors = v at points loud
  cases points with
  | @refers i d ty complaints flags entry =>
      rw [← table] at entry
      refine (bind_leaves links₂.steady bound₂ (known_reference entry ty flags) ?_).bind ?_
      · intro s' there table' _
        refine linked s' (.of_reference there ?_)
        rw [table', table]
        exact names i rfl
      · exact fun _ _ links₃ => .pure (links.after links₃)
  | lost =>
      refine (bind_leaves links₂.steady bound₂ (known_unresolved _) ?_).bind ?_
      · exact fun s' there _ reports => linked s' (.of_unresolved there (reports ▸ loud (by simp)))
      · exact fun _ _ links₃ => .pure (links.after links₃)

/-- A reference to a type is linked. -/
theorem resolveType_leaves (globals : ctx.globals = itemNames items) (steady : Steady items ctx s)
    (typeParams : List String) {t : TypeRef Site} (bound : t.site.id < s.bindings.slots.size) :
    Leaves (resolveType ctx typeParams t) s fun _ s' => Links items ctx [.typeRef t] s s' := by
  rw [resolveType_eq]
  cases reserved : reserved? typeParams t.name with
  | some ty =>
      refine (bind_leaves (n := .typeRef t) steady bound (known_typed _ ty) ?_).bind ?_
      · exact fun s' there _ _ => .inl ⟨_, there, (reserved?_eq_some reserved).imp id (·.2.2)⟩
      · exact fun _ _ links => .pure links
  | none =>
      refine resolveUse_leaves (n := .typeRef t) globals steady bound ?_ fun _ uses => .inr uses
      refine fun found D _ names => ⟨_, fun i member => ?_, typeVerdict_points t found D⟩
      obtain ⟨entry, given, rfl⟩ := Option.map_eq_some_iff.mp member
      exact names entry.1 (classAt_eq_some given).1

end Lookup

end StagedCompiler.Resolution
