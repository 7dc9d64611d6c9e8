import StagedCompiler.Proofs.Analysis.LinkedUnits

/-!
# What resolution notes about types and signatures

The exact bindings and descriptors that a run without diagnostics leaves behind, whatever resolvers
take part: `TypeNoted` for a reference to a type, `MemberNoted` for a member of an item and
`HeadNoted` for an item outside its body.

A name that is used outside functions leads to an item of the unit or else to an offer (`Leads`).  The
numbers of offers and of members are behind those of the items, so the signature of an item can be
filled in later without touching them (`Revises`).
-/

namespace StagedCompiler.Resolution

open Source (Typed Item TypeRef Site SiteId)

variable {items : List (Item Site)} {ctx : Context} {s s' s'' : State}

/-! ## Where names lead -/

/-- No descriptor has the type of what could not be resolved. -/
def Proper (D : Descriptor.Table) : Prop := ∀ i d, D.get? i = some d → d.ty ≠ .error

/-- No resolver of a run offers anything of the type of what could not be resolved, unless it was shown
something of that type. -/
def Honest (ctx : Context) : Prop :=
  ∀ entry ∈ ctx.resolvers, ∀ request, Proper request.descriptors →
    ∀ d, entry.2.resolve request = .ok (some d) → d.ty ≠ .error

/-- What a resolver offers for a use of a name that no item has. -/
structure Offered (ctx : Context) (D : Descriptor.Table) (name : String) (kind : ReferenceKind)
    (i : DescriptorId) : Prop where
  absent : ctx.globals.lookup name = none
  behind : ctx.globals.length ≤ i
  answered : ∃ entry ∈ ctx.resolvers, ∃ request d, request.name = name ∧ request.kind = kind ∧
    entry.2.resolve request = .ok (some d) ∧ d.name = name ∧ D.get? i = some d

/-- What a use of a name leads to outside functions: an item, or else an offer. -/
inductive Leads (ctx : Context) (D : Descriptor.Table) (name : String) (kind : ReferenceKind)
    (i : DescriptorId) : Prop
  | item : ctx.globals.lookup name = some i → Leads ctx D name kind i
  | offer : Offered ctx D name kind i → Leads ctx D name kind i

/-! ## Frames -/

/-- `s'` is behind `s`: descriptors keep what they describe, their signatures change at the given
numbers only, and bindings at the given constructs only. -/
structure Revises (edited : List DescriptorId) (touched : List SiteId) (s s' : State) : Prop where
  amends : Amends edited touched s s'
  keeps : Keeps s.descriptors s'.descriptors

/-- A step that only describes and binds fills in no signature. -/
theorem Later.revises {touched : List SiteId} (later : Later touched s s') :
    Revises [] touched s s' :=
  ⟨later.amends, later.table.keeps⟩

/-- Steps in sequence fill in the signatures and touch the constructs of both. -/
theorem Revises.trans {is js : List DescriptorId} {ids jds : List SiteId}
    (first : Revises is ids s s') (second : Revises js jds s' s'') :
    Revises (is ++ js) (ids ++ jds) s s'' :=
  ⟨first.amends.trans second.amends, first.keeps.trans second.keeps⟩

theorem Revises.mono {is js : List DescriptorId} {ids jds : List SiteId}
    (revises : Revises is ids s s') (edited : is ⊆ js) (touched : ids ⊆ jds) :
    Revises js jds s s' :=
  ⟨revises.amends.mono edited touched, revises.keeps⟩

section Frames

variable {edited : List DescriptorId} {touched : List SiteId} {name : String}
  {kind : ReferenceKind} {i : DescriptorId}

/-- An offer stays what it is while signatures of items are filled in, because its number is behind
theirs. -/
theorem Offered.revises (offered : Offered ctx s.descriptors name kind i)
    (revises : Revises edited touched s s') (small : ∀ j ∈ edited, j < ctx.globals.length) :
    Offered ctx s'.descriptors name kind i := by
  obtain ⟨absent, behind, entry, among, request, d, named, used, answered, same, found⟩ := offered
  have unedited : i ∉ edited := fun member => Nat.not_lt.mpr behind (small i member)
  exact ⟨absent, behind, entry, among, request, d, named, used, answered, same,
    revises.amends.table i d unedited found⟩

/-- A name keeps leading where it leads while signatures of items are filled in. -/
theorem Leads.revises (leads : Leads ctx s.descriptors name kind i)
    (revises : Revises edited touched s s') (small : ∀ j ∈ edited, j < ctx.globals.length) :
    Leads ctx s'.descriptors name kind i := by
  cases leads with
  | item found => exact .item found
  | offer offered => exact .offer (offered.revises revises small)

theorem Leads.later (leads : Leads ctx s.descriptors name kind i) (later : Later touched s s') :
    Leads ctx s'.descriptors name kind i :=
  leads.revises later.revises (by simp)

end Frames

/-! ## The invariant -/

/-- A binding of a known type and without remarks about errors, which is marked as synthetic exactly if
its target is. -/
structure Clean (D : Descriptor.Table) (b : Binding) : Prop where
  proper : b.ty ≠ .error
  resolved : b.flags.unresolved = false
  fits : b.flags.typeMismatch = false
  marked : ∀ i ∈ b.target, ∃ d, D.get? i = some d ∧ b.flags.synthetic = d.isSynthetic
  unmarked : b.target = none → b.flags.synthetic = false

section Clean

variable {D D' : Descriptor.Table} {ty : Ty} {i : DescriptorId}

/-- A type that is no error is a clean binding, and so is a declaration of such a type. -/
theorem clean_typed (proper : ty ≠ .error) : Clean D (.typed ty) :=
  ⟨proper, rfl, rfl, fun _ member => (by cases member), fun _ => rfl⟩

theorem clean_declaration (proper : ty ≠ .error) : Clean D (.declaration ty i) :=
  ⟨proper, rfl, rfl, fun _ member => (by cases member), fun _ => rfl⟩

/-- A reference is clean if its remark says of the descriptor what is true of it. -/
theorem clean_reference {d : Descriptor} (entry : D.get? i = some d) (proper : ty ≠ .error) :
    Clean D ((Binding.reference ty i).withFlags (syntheticFlag d)) :=
  ⟨proper, rfl, rfl, fun _ member => ⟨d, Option.some.inj member ▸ entry, rfl⟩,
    fun missing => by cases missing⟩

/-- A clean binding stays clean while the table keeps what descriptors stand for. -/
theorem Clean.keeps {b : Binding} (clean : Clean D b) (kept : Keeps D D') : Clean D' b := by
  refine ⟨clean.proper, clean.resolved, clean.fits, fun i member => ?_, clean.unmarked⟩
  obtain ⟨d, entry, marked⟩ := clean.marked i member
  obtain ⟨d', entry', _, _, origin⟩ := kept i d entry
  refine ⟨d', entry', ?_⟩
  unfold Descriptor.isSynthetic at marked ⊢
  rw [marked, origin]

end Clean

/-- What holds of the state along a run without diagnostics, whatever resolvers take part. -/
structure Sure (items : List (Item Site)) (ctx : Context) (s : State) : Prop where
  silent : s.diagnostics = []
  items : ∀ i item, items[i]? = some item →
    Describes s.descriptors i item.site item.name (itemKind item)
  offers : ∀ name kind i, s.synthetic.lookup (name, kind) = some i →
    Offered ctx s.descriptors name kind i
  types : Honest ctx → Proper s.descriptors
  clean : Honest ctx → ∀ id b, s.bindings.get? id = some b → Clean s.descriptors b

/-- A run without diagnostics from `s` to `s'`. -/
structure Proceeds (items : List (Item Site)) (ctx : Context) (touched : List SiteId)
    (s s' : State) : Prop where
  sure : Sure items ctx s'
  later : Later touched s s'

section Proceeds

variable {ids jds : List SiteId}

theorem Sure.refl (sure : Sure items ctx s) : Proceeds items ctx [] s s := ⟨sure, .refl _ _⟩

/-- Steps in sequence that keep the invariant bind what both of them bind. -/
theorem Proceeds.trans (first : Proceeds items ctx ids s s') (second : Proceeds items ctx jds s' s'') :
    Proceeds items ctx (ids ++ jds) s s'' :=
  ⟨second.sure, first.later.trans second.later⟩

theorem Proceeds.mono (proceeds : Proceeds items ctx ids s s') (subset : ids ⊆ jds) :
    Proceeds items ctx jds s s' :=
  ⟨proceeds.sure, proceeds.later.mono subset⟩

/-- Behind a step that binds nothing. -/
theorem Proceeds.after (first : Proceeds items ctx [] s s') (second : Proceeds items ctx ids s' s'') :
    Proceeds items ctx ids s s'' :=
  first.trans second

/-- There are as many names outside functions as items. -/
theorem length_globals (globals : ctx.globals = itemNames items) :
    ctx.globals.length = items.length := by
  rw [globals, itemNames, List.length_map, List.length_zipIdx]

/-- The numbers of the items are below the size of the table. -/
theorem Sure.length_le (globals : ctx.globals = itemNames items) (sure : Sure items ctx s) :
    ctx.globals.length ≤ s.descriptors.size := by
  rw [length_globals globals]
  by_contra short
  rw [Nat.not_le] at short
  obtain ⟨d, found, _⟩ := sure.items _ _ (List.getElem?_eq_getElem short)
  exact Nat.lt_irrefl _ (Array.getElem?_eq_some_iff.mp found).1

/-- Descriptors that are added leave everything else as it is. -/
theorem Sure.of_extends (sure : Sure items ctx s)
    (table : Extends s.descriptors s'.descriptors) (bindings : s'.bindings = s.bindings)
    (silent : s'.diagnostics = s.diagnostics)
    (offers : ∀ name kind i, s'.synthetic.lookup (name, kind) = some i →
      s.synthetic.lookup (name, kind) = some i ∨ Offered ctx s'.descriptors name kind i)
    (types : Honest ctx → ∀ i d, s'.descriptors.get? i = some d →
      s.descriptors.get? i = some d ∨ d.ty ≠ .error) : Proceeds items ctx [] s s' := by
  have later : Later [] s s' := ⟨table, by rw [bindings], fun id _ => by rw [bindings]⟩
  refine ⟨⟨silent.trans sure.silent, ?_, ?_, ?_, ?_⟩, later⟩
  · exact fun i item there => (sure.items i item there).keeps table.keeps
  · intro name kind i looked
    rcases offers name kind i looked with old | new
    · exact (sure.offers name kind i old).revises later.revises (by simp)
    · exact new
  · intro honest i d found
    rcases types honest i d found with old | new
    · exact sure.types honest i d old
    · exact new
  · rw [bindings]
    exact fun honest id b there => (sure.clean honest id b there).keeps table.keeps

/-- A new descriptor has a number behind those of the items, and the invariant is kept if its type is
no error where resolvers are honest. -/
theorem describe_sure (globals : ctx.globals = itemNames items) (sure : Sure items ctx s)
    {d : Descriptor} (honest : Honest ctx → d.ty ≠ .error) :
    Leaves (describe d) s fun i s' =>
      Proceeds items ctx [] s s' ∧ s'.descriptors.get? i = some d ∧ ctx.globals.length ≤ i := by
  have entry : (s.descriptors.insert d).get? s.descriptors.size = some d := by
    rw [get?_insert, if_pos rfl]
  have proceeds : Proceeds items ctx [] s ((describe d).run s).2 := by
    refine sure.of_extends (insert_extends _ d) rfl rfl (fun _ _ _ => .inl) fun given i e found => ?_
    have found : (s.descriptors.insert d).get? i = some e := found
    rw [get?_insert] at found
    split at found
    · exact .inr (Option.some.inj found ▸ honest given)
    · exact .inl found
  exact ⟨proceeds, entry, sure.length_le globals⟩

/-- Binding a construct keeps the invariant if the binding is clean where resolvers are honest. -/
theorem bind_sure (sure : Sure items ctx s) {site : Site} {b : Binding}
    (bound : site.id < s.bindings.slots.size) (clean : Honest ctx → Clean s.descriptors b) :
    Leaves (bind site b) s fun _ s' =>
      Proceeds items ctx [site.id] s s' ∧ s'.descriptors = s.descriptors ∧
        s'.bindings.get? site.id = some b := by
  have slots : ((Resolution.bind site b).run s).2.bindings = s.bindings.insert site.id b := rfl
  have later : Later [site.id] s ((Resolution.bind site b).run s).2 := by
    refine ⟨.refl _, Array.size_setIfInBounds, fun id outside => ?_⟩
    rw [slots, get?_insert_binding _ _ _ _ bound,
      if_neg fun same => outside (List.mem_singleton.mpr same)]
  refine ⟨⟨⟨sure.silent, sure.items, sure.offers, sure.types, ?_⟩, later⟩, rfl, ?_⟩
  · intro honest id b' there
    rw [slots, get?_insert_binding _ _ _ _ bound] at there
    split at there
    · exact Option.some.inj there ▸ clean honest
    · exact sure.clean honest id b' there
  · rw [slots, get?_insert_binding _ _ _ _ bound, if_pos rfl]

/-- A declaration is bound to a new descriptor. -/
theorem declare_sure (globals : ctx.globals = itemNames items) (sure : Sure items ctx s)
    {site : Site} (bound : site.id < s.bindings.slots.size) (name : String) (kind : Descriptor.Kind)
    (owner : DescriptorId) {ty : Ty} (proper : Honest ctx → ty ≠ .error) :
    Leaves (declare site name kind owner ty {}) s fun i s' =>
      Proceeds items ctx [site.id] s s' ∧ (∃ d, s'.descriptors.get? i = some d ∧ d.name = name ∧
        d.kind = kind ∧ d.ty = ty) ∧ ctx.globals.length ≤ i ∧
        s'.bindings.get? site.id = some (.declaration ty i) := by
  refine (describe_sure globals sure proper).bind ?_
  rintro i s₁ ⟨proceeds₁, entry, behind⟩
  refine (bind_sure proceeds₁.sure (proceeds₁.later.slots ▸ bound) fun honest =>
    clean_declaration (i := i) (proper honest)).bind ?_
  rintro _ s₂ ⟨proceeds₂, _, there⟩
  exact .pure ⟨proceeds₁.after proceeds₂,
    ⟨_, proceeds₂.later.table _ _ entry, rfl, rfl, rfl⟩, behind, there⟩

end Proceeds

/-! ## Looking up names -/

section Lookup

/-- The table with an offer for a use of a name. -/
theorem Sure.offer (globals : ctx.globals = itemNames items) (sure : Sure items ctx s)
    {entry : Registry.Record × Extension.Resolver} {request : Extension.Request} {d : Descriptor}
    (named : d.name = request.name) (absent : ctx.globals.lookup request.name = none)
    (among : entry ∈ ctx.resolvers) (answered : entry.2.resolve request = .ok (some d))
    (shown : request.descriptors = s.descriptors) (bindings : s'.bindings = s.bindings)
    (silent : s'.diagnostics = s.diagnostics)
    (table : s'.descriptors = s.descriptors.insert d)
    (synthetic : s'.synthetic =
      s.synthetic ++ [((request.name, request.kind), s.descriptors.size)]) :
    Proceeds items ctx [] s s' := by
  refine sure.of_extends (table ▸ insert_extends _ d) bindings silent (fun other use i looked => ?_)
    fun honest i e found => ?_
  · rw [synthetic, List.lookup_append] at looked
    cases old : s.synthetic.lookup (other, use) with
    | some j =>
        rw [old, Option.some_or] at looked
        exact .inl looked
    | none =>
        rw [old, Option.none_or, List.lookup_cons] at looked
        split at looked
        · rename_i same
          obtain ⟨rfl, rfl⟩ := Prod.mk.inj (beq_iff_eq.mp same)
          obtain rfl := Option.some.inj looked
          refine .inr ⟨absent, sure.length_le globals, entry, among, request, d, rfl, rfl, answered,
            named, ?_⟩
          rw [table, get?_insert, if_pos rfl]
        · cases looked
  · rw [table, get?_insert] at found
    split at found
    · obtain rfl := Option.some.inj found
      exact .inr (honest _ among _ (shown ▸ sure.types honest) _ answered)
    · exact .inl found

/-- Resolvers add at most an offer for the name that they are asked for. -/
theorem askResolvers_sure (globals : ctx.globals = itemNames items) (name : String)
    (kind : ReferenceKind) {resolvers : List (Registry.Record × Extension.Resolver)}
    (among : ∀ entry ∈ resolvers, entry ∈ ctx.resolvers) (sure : Sure items ctx s) :
    Leaves (askResolvers ctx name kind resolvers) s fun _ s' => Proceeds items ctx [] s s' := by
  induction resolvers generalizing s with
  | nil => exact sure.refl
  | cons entry rest ih =>
      rw [List.forall_mem_cons] at among
      obtain ⟨here, later⟩ := among
      obtain ⟨record, resolver⟩ := entry
      refine (get_leaves s).bind ?_
      rintro _ _ ⟨rfl, rfl⟩
      rename_i s
      refine (modify_leaves _ s).bind ?_
      rintro _ asked rfl
      have quiet : ∀ consultations,
          Proceeds items ctx [] s { s with consultations := consultations } :=
        fun _ => sure.of_extends (.refl _) rfl rfl (fun _ _ _ => .inl) fun _ _ _ => .inl
      have onward := fun consultations => (quiet consultations).after
        (ih later (quiet consultations).sure)
      cases answered : resolver.resolve ⟨name, kind, s.descriptors⟩ with
      | error panic =>
          exact sure.of_extends (.refl _) rfl rfl (fun _ _ _ => .inl) fun _ _ _ => .inl
      | ok offer =>
          cases offer with
          | none => exact onward _
          | some offer =>
              show Leaves (ite _ _ _) _ _
              split
              · exact onward _
              · rename_i named
                split
                · exact quiet _
                · rename_i absent
                  have absent : ctx.globals.lookup name = none := by
                    rwa [Option.not_isSome_iff_eq_none] at absent
                  exact sure.offer globals (not_ne_iff.mp named) absent here answered rfl rfl rfl
                    rfl rfl

/-- Whatever resolvers offer, asking them binds nothing and keeps the invariant. -/
theorem consult_sure (globals : ctx.globals = itemNames items) (sure : Sure items ctx s)
    (name : String) (kind : ReferenceKind) :
    Leaves (consult ctx name kind) s fun _ s' => Proceeds items ctx [] s s' := by
  refine (get_leaves s).bind ?_
  rintro _ _ ⟨rfl, rfl⟩
  rename_i s
  show Leaves (ite _ _ _) _ _
  split
  · exact sure.refl
  · have noted : Proceeds items ctx [] s { s with asked := (name, kind) :: s.asked } :=
      sure.of_extends (.refl _) rfl rfl (fun _ _ _ => .inl) fun _ _ _ => .inl
    refine (modify_leaves _ s).bind ?_
    rintro _ _ rfl
    refine (askResolvers_sure globals name kind (fun _ member => member) noted.sure).mono ?_
    exact fun _ _ proceeds => noted.after proceeds

/-- What a name leads to is a descriptor of that name. -/
theorem Leads.names (globals : ctx.globals = itemNames items) (sure : Sure items ctx s)
    {name : String} {kind : ReferenceKind} {i : DescriptorId}
    (leads : Leads ctx s.descriptors name kind i) : Names s.descriptors i name := by
  cases leads with
  | item looked =>
      rw [globals] at looked
      obtain ⟨k, item, place, there, named⟩ := lookup_zipIdx_eq_some looked
      rw [place, Nat.zero_add, ← named]
      exact (sure.items k item there).names
  | offer offered =>
      obtain ⟨_, _, _, d, _, _, _, named, entry⟩ := offered.answered
      exact ⟨d, entry, named⟩

/-- A use of a name leads to a descriptor of that name. -/
theorem lookupGlobal_sure (globals : ctx.globals = itemNames items) (sure : Sure items ctx s)
    (name : String) (kind : ReferenceKind) :
    Leaves (lookupGlobal ctx name kind) s fun found s' =>
      Proceeds items ctx [] s s' ∧ ∀ i ∈ found, Leads ctx s'.descriptors name kind i := by
  refine (consult_sure globals sure name kind).bind ?_
  intro _ s' proceeds
  refine ⟨proceeds, fun i found => ?_⟩
  have found : (ctx.globals.lookup name).or (s'.synthetic.lookup (name, kind)) = some i := found
  cases looked : ctx.globals.lookup name with
  | some j =>
      rw [looked, Option.some_or, Option.some.injEq] at found
      exact .item (found ▸ looked)
  | none =>
      rw [looked, Option.none_or] at found
      exact .offer (proceeds.sure.offers name kind i found)

/-- A use of a name is bound as the verdict says, unless there are complaints. -/
theorem resolveUse_sure (globals : ctx.globals = itemNames items) (sure : Sure items ctx s)
    {site : Site} (bound : site.id < s.bindings.slots.size) {name : String} {kind : ReferenceKind}
    {verdict : Option DescriptorId → Descriptor.Table → Verdict Binding}
    (clean : Honest ctx → ∀ found D, Extends s.descriptors D → Proper D →
      (∀ i ∈ found, Names D i name) → (verdict found D).complaints = [] →
      Clean D (verdict found D).value) :
    Passes (resolveUse ctx site name kind verdict) s fun ty s' =>
      Proceeds items ctx [site.id] s s' ∧ ∃ found,
        (∀ i ∈ found, Leads ctx s'.descriptors name kind i ∧ Names s'.descriptors i name) ∧
        (verdict found s'.descriptors).complaints = [] ∧
        s'.bindings.get? site.id = some (verdict found s'.descriptors).value ∧
        ty = (verdict found s'.descriptors).value.ty := by
  refine (lookupGlobal_sure globals sure name kind).andThen ?_
  rintro found s₁ ⟨proceeds₁, leads⟩
  have names : ∀ i ∈ found, Names s₁.descriptors i name :=
    fun i member => (leads i member).names globals proceeds₁.sure
  refine (judge_passes ctx (verdict found) s₁).bind
    (fun b => finishExpr_grows site b) ?_
  rintro _ _ ⟨rfl, silent, rfl⟩
  refine (bind_sure proceeds₁.sure (proceeds₁.later.slots ▸ bound) fun honest => clean honest found _
    proceeds₁.later.table (proceeds₁.sure.types honest) names silent).andThen ?_
  rintro _ s₂ ⟨proceeds₂, table, there⟩
  refine .pure ⟨proceeds₁.after proceeds₂, found, ?_⟩
  rw [table]
  exact ⟨fun i member => ⟨leads i member, names i member⟩, silent, there, rfl⟩

end Lookup

/-! ## Types -/

/-- What a reference to a type is bound to, and the type that it stands for. -/
inductive TypeNoted (ctx : Context) (b : Bindings) (D : Descriptor.Table) (typeParams : List String)
    (t : TypeRef Site) : Ty → Prop
  | builtin {ty : Ty} : Ty.builtin? t.name = some ty → b.get? t.site.id = some (.typed ty) →
    TypeNoted ctx b D typeParams t ty
  | param : Ty.builtin? t.name = none → t.name ∈ typeParams →
    b.get? t.site.id = some (.typed (.param t.name)) →
    TypeNoted ctx b D typeParams t (.param t.name)
  | cls {i : DescriptorId} {d : Descriptor} : Ty.builtin? t.name = none → t.name ∉ typeParams →
    Leads ctx D t.name .type i → D.get? i = some d → d.kind = .cls →
    b.get? t.site.id = some ((Binding.reference (.cls i) i).withFlags (syntheticFlag d)) →
    TypeNoted ctx b D typeParams t (.cls i)

/-- No built-in type is the type of errors. -/
theorem builtin?_ne_error {name : String} {ty : Ty} (found : Ty.builtin? name = some ty) :
    ty ≠ .error := by
  unfold Ty.builtin? at found
  rintro rfl
  split at found <;> cases found

/-- A type that is noted is not the type of errors. -/
theorem TypeNoted.ne_error {b : Bindings} {D : Descriptor.Table} {typeParams : List String}
    {t : TypeRef Site} {ty : Ty} (noted : TypeNoted ctx b D typeParams t ty) : ty ≠ .error := by
  cases noted with
  | builtin found _ => exact builtin?_ne_error found
  | param _ _ _ => simp
  | cls _ _ _ _ _ _ => simp

theorem syntheticFlag_eq {d d' : Descriptor} (origin : d'.origin = d.origin) :
    syntheticFlag d' = syntheticFlag d := by
  unfold syntheticFlag Descriptor.isSynthetic
  rw [origin]

/-- What is noted about a type stays so while signatures of items are filled in and other constructs
are bound. -/
theorem TypeNoted.revises {edited : List DescriptorId} {touched : List SiteId}
    {typeParams : List String} {t : TypeRef Site} {ty : Ty}
    (noted : TypeNoted ctx s.bindings s.descriptors typeParams t ty)
    (revises : Revises edited touched s s') (small : ∀ j ∈ edited, j < ctx.globals.length)
    (apart : t.site.id ∉ touched) :
    TypeNoted ctx s'.bindings s'.descriptors typeParams t ty := by
  have same := revises.amends.frame _ apart
  cases noted with
  | builtin found there => exact .builtin found (same.trans there)
  | param none member there => exact .param none member (same.trans there)
  | @cls i d none notParam leads entry kind there =>
      obtain ⟨d', entry', _, kind', origin⟩ := revises.keeps i d entry
      refine .cls none notParam (leads.revises revises small) entry' (kind'.trans kind) ?_
      rw [same, there, syntheticFlag_eq origin]

theorem TypeNoted.later {touched : List SiteId} {typeParams : List String} {t : TypeRef Site}
    {ty : Ty} (noted : TypeNoted ctx s.bindings s.descriptors typeParams t ty)
    (later : Later touched s s') (apart : t.site.id ∉ touched) :
    TypeNoted ctx s'.bindings s'.descriptors typeParams t ty :=
  noted.revises later.revises (by simp) apart

/-- A reference to a type is bound to what it stands for, unless an error is reported. -/
theorem resolveType_sure (globals : ctx.globals = itemNames items) (sure : Sure items ctx s)
    (typeParams : List String) {t : TypeRef Site} (bound : t.site.id < s.bindings.slots.size) :
    Passes (resolveType ctx typeParams t) s fun ty s' =>
      Proceeds items ctx [t.site.id] s s' ∧
        TypeNoted ctx s'.bindings s'.descriptors typeParams t ty := by
  rw [resolveType_eq]
  cases reserved : reserved? typeParams t.name with
  | some ty =>
      rcases reserved?_eq_some reserved with builtin | ⟨builtin, member, rfl⟩
      · refine (bind_sure sure bound fun _ => clean_typed (builtin?_ne_error builtin)).andThen ?_
        rintro _ s' ⟨proceeds, _, there⟩
        exact .pure ⟨proceeds, .builtin builtin there⟩
      · refine (bind_sure sure bound fun _ => clean_typed (by simp : Ty.param t.name ≠ .error)).andThen ?_
        rintro _ s' ⟨proceeds, _, there⟩
        exact .pure ⟨proceeds, .param builtin member there⟩
  | none =>
      obtain ⟨builtin, member⟩ := reserved?_eq_none reserved
      refine (resolveUse_sure globals sure bound ?_).mono ?_
      · intro _ found D _ _ _ silent
        obtain ⟨i, d, rfl, entry, _, value⟩ := typeVerdict_silent silent
        exact value ▸ clean_reference entry (by simp)
      · rintro _ s' ⟨proceeds, found, leads, silent, there, rfl⟩
        obtain ⟨i, d, rfl, entry, kind, value⟩ := typeVerdict_silent silent
        rw [value] at there ⊢
        exact ⟨proceeds, .cls builtin member (leads i rfl).1 entry kind there⟩

/-! ## Members -/

/-- What a member is bound to: a descriptor behind those of the items, with the name and the type of
the member. -/
structure MemberNoted (ctx : Context) (b : Bindings) (D : Descriptor.Table) (kind : Descriptor.Kind)
    (typeParams : List String) (m : Typed Site) (p : Descriptor.Param × DescriptorId) : Prop where
  type : TypeNoted ctx b D typeParams m.type p.1.ty
  declared : b.get? m.site.id = some (.declaration p.1.ty p.2)
  entry : ∃ d, D.get? p.2 = some d ∧ d.name = m.name ∧ d.kind = kind ∧ d.ty = p.1.ty
  behind : ctx.globals.length ≤ p.2

/-- What is noted about a member stays so: its descriptor is behind those of the items. -/
theorem MemberNoted.revises {kind : Descriptor.Kind} {typeParams : List String} {m : Typed Site}
    {p : Descriptor.Param × DescriptorId} {edited : List DescriptorId} {touched : List SiteId}
    (noted : MemberNoted ctx s.bindings s.descriptors kind typeParams m p)
    (revises : Revises edited touched s s') (small : ∀ j ∈ edited, j < ctx.globals.length)
    (apart : ∀ id ∈ memberIds m, id ∉ touched) :
    MemberNoted ctx s'.bindings s'.descriptors kind typeParams m p := by
  obtain ⟨type, declared, ⟨d, entry, described⟩, behind⟩ := noted
  rw [memberIds, List.forall_mem_cons, List.forall_mem_singleton] at apart
  have unedited : p.2 ∉ edited := fun member => Nat.not_lt.mpr behind (small _ member)
  exact ⟨type.revises revises small apart.2, (revises.amends.frame _ apart.1).trans declared,
    ⟨d, revises.amends.table _ _ unedited entry, described⟩, behind⟩

theorem MemberNoted.forall₂_revises {kind : Descriptor.Kind} {typeParams : List String}
    {members : List (Typed Site)} {ps : List (Descriptor.Param × DescriptorId)}
    {edited : List DescriptorId} {touched : List SiteId}
    (each : List.Forall₂ (MemberNoted ctx s.bindings s.descriptors kind typeParams) members ps)
    (revises : Revises edited touched s s') (small : ∀ j ∈ edited, j < ctx.globals.length)
    (apart : ∀ m ∈ members, ∀ id ∈ memberIds m, id ∉ touched) :
    List.Forall₂ (MemberNoted ctx s'.bindings s'.descriptors kind typeParams) members ps := by
  induction each with
  | nil => exact .nil
  | cons first _ ih =>
      rw [List.forall_mem_cons] at apart
      exact .cons (first.revises revises small apart.1) (ih apart.2)

/-- A member is noted, unless an error is reported about its type. -/
theorem enterMember_sure (globals : ctx.globals = itemNames items) (sure : Sure items ctx s)
    (owner : DescriptorId) (kind : Descriptor.Kind) (typeParams : List String) {m : Typed Site}
    (nodup : (memberIds m).Nodup) (bound : ∀ id ∈ memberIds m, id < s.bindings.slots.size) :
    Passes (enterMember ctx owner kind typeParams m) s fun p s' =>
      Proceeds items ctx (memberIds m) s s' ∧
        MemberNoted ctx s'.bindings s'.descriptors kind typeParams m p := by
  rw [memberIds, List.forall_mem_cons, List.forall_mem_singleton] at bound
  have grows : ∀ ty, Grows (do
      let id ← declare m.site m.name kind owner ty {}
      return ((⟨m.name, ty⟩ : Descriptor.Param), id)) := fun ty =>
    (declare_grows m.site m.name kind owner ty {}).bind fun _ => .pure _
  refine (resolveType_sure globals sure typeParams bound.2).bind grows ?_
  rintro ty s₁ ⟨proceeds₁, type₁⟩
  refine (declare_sure globals proceeds₁.sure (proceeds₁.later.slots ▸ bound.1) m.name kind owner
    fun _ => type₁.ne_error).andThen ?_
  rintro i s₂ ⟨proceeds₂, entry, behind, there⟩
  have other : m.type.site.id ∉ [m.site.id] := by
    intro same
    rw [memberIds, List.nodup_cons] at nodup
    exact nodup.1 (List.mem_singleton.mp same ▸ List.mem_cons_self)
  refine .pure ⟨(proceeds₁.trans proceeds₂).mono ?_, type₁.later proceeds₂.later other, there, entry,
    behind⟩
  intro id member
  rw [List.mem_append, List.mem_singleton, List.mem_singleton] at member
  rw [memberIds, List.mem_cons, List.mem_singleton]
  exact member.symm

/-- Members are noted one by one, unless an error is reported; later members do not touch the numbers
of earlier ones. -/
theorem resolveMembers_sure (globals : ctx.globals = itemNames items) (owner : DescriptorId)
    (kind : Descriptor.Kind) (typeParams : List String) (duplicate : String → String)
    {members : List (Typed Site)} (seen : List String) {s : State} (sure : Sure items ctx s)
    (nodup : (members.flatMap memberIds).Nodup)
    (bound : ∀ id ∈ members.flatMap memberIds, id < s.bindings.slots.size) :
    Passes (resolveMembers ctx owner kind typeParams duplicate seen members) s fun ps s' =>
      Proceeds items ctx (members.flatMap memberIds) s s' ∧
        List.Forall₂ (MemberNoted ctx s'.bindings s'.descriptors kind typeParams) members ps := by
  induction members generalizing seen s with
  | nil => exact .pure ⟨sure.refl, .nil⟩
  | cons m rest ih =>
      rw [List.flatMap_cons] at nodup bound ⊢
      rw [List.forall_mem_append] at bound
      obtain ⟨mine, others, disjoint⟩ := List.nodup_append.mp nodup
      have later : ∀ p, Grows (do
          let more ← resolveMembers ctx owner kind typeParams duplicate (m.name :: seen) rest
          return p :: more) := fun p =>
        ((resolveMembers_follows 0 owner kind typeParams duplicate rest _).grows ctx).bind
          fun _ => .pure _
      rw [resolveMembers_cons]
      refine (judge_passes ctx _ s).bind
        (fun _ => ((enterMember_follows 0 owner kind typeParams m).grows ctx).bind later) ?_
      rintro _ _ ⟨rfl, _⟩
      refine (enterMember_sure globals sure owner kind typeParams mine bound.1).bind later ?_
      rintro p s₁ ⟨proceeds₁, noted₁⟩
      have bound₁ : ∀ id ∈ rest.flatMap memberIds, id < s₁.bindings.slots.size := by
        rw [proceeds₁.later.slots]
        exact bound.2
      refine (ih (m.name :: seen) proceeds₁.sure others bound₁).bind (fun _ => .pure _) ?_
      rintro ps s₂ ⟨proceeds₂, each⟩
      refine .pure ⟨proceeds₁.trans proceeds₂, .cons ?_ each⟩
      exact noted₁.revises proceeds₂.later.revises (by simp)
        fun id inside among => disjoint id inside id among rfl

/-! ## Items -/

/-- What the result type that a function states is bound to. -/
inductive ReturnsNoted (ctx : Context) (b : Bindings) (D : Descriptor.Table)
    (typeParams : List String) : Option (TypeRef Site) → Ty → Prop
  | nothing : ReturnsNoted ctx b D typeParams none .unit
  | value {t : TypeRef Site} {ty : Ty} : TypeNoted ctx b D typeParams t ty →
    ReturnsNoted ctx b D typeParams (some t) ty

/-- The type that an item gives when it is called.  A class gives its own type. -/
inductive ResultNoted (ctx : Context) (b : Bindings) (D : Descriptor.Table) (i : DescriptorId) :
    Item Site → Ty → Prop
  | function {site : Site} {name : String} {typeParams : List String} {params : List (Typed Site)}
      {returns : Option (TypeRef Site)} {body : List (Source.Stmt Site)} {ty : Ty} :
    ReturnsNoted ctx b D typeParams returns ty →
    ResultNoted ctx b D i (.function site name typeParams params returns body) ty
  | cls {site : Site} {name : String} {fields : List (Typed Site)} :
    ResultNoted ctx b D i (.cls site name fields) (.cls i)

/-- What is noted about the result of an item stays so while other items are worked on. -/
theorem ResultNoted.revises {i : DescriptorId} {item : Item Site} {ty : Ty}
    {edited : List DescriptorId} {touched : List SiteId}
    (noted : ResultNoted ctx s.bindings s.descriptors i item ty)
    (revises : Revises edited touched s s') (small : ∀ j ∈ edited, j < ctx.globals.length)
    (apart : ∀ t ∈ returnsOf item, t.site.id ∉ touched) :
    ResultNoted ctx s'.bindings s'.descriptors i item ty := by
  cases noted with
  | cls => exact .cls
  | function returns =>
      cases returns with
      | nothing => exact .function .nothing
      | value type => exact .function (.value (type.revises revises small (apart _ rfl)))

/-- What the item with number `i` is bound to: descriptor `i`, which has the types of its members and
of its result; `params` are the descriptors of a function's parameters. -/
structure HeadNoted (ctx : Context) (b : Bindings) (D : Descriptor.Table) (i : DescriptorId)
    (item : Item Site) (params : List DescriptorId) : Prop where
  described : ∃ d ps, D.get? i = some d ∧ d.params.map (·.ty) = ps.map (·.1.ty) ∧
    b.get? item.site.id = some (.declaration d.ty i) ∧ ResultNoted ctx b D i item d.ty ∧
    List.Forall₂ (MemberNoted ctx b D (memberKind item) (typeParamsOf item))
      (Typing.members item) ps ∧
    (itemKind item = .function → params = ps.map (·.2))

/-- What is noted about an item outside its body stays so while the signatures of other items are
filled in. -/
theorem HeadNoted.revises {i : DescriptorId} {item : Item Site} {params edited : List DescriptorId}
    {touched : List SiteId} (noted : HeadNoted ctx s.bindings s.descriptors i item params)
    (revises : Revises edited touched s s') (unedited : i ∉ edited)
    (small : ∀ j ∈ edited, j < ctx.globals.length) (apart : ∀ id ∈ headIds item, id ∉ touched) :
    HeadNoted ctx s'.bindings s'.descriptors i item params := by
  obtain ⟨d, ps, entry, listed, there, result, each, function⟩ := noted.described
  refine ⟨d, ps, revises.amends.table _ _ unedited entry, listed,
    (revises.amends.frame _ (apart _ List.mem_cons_self)).trans there,
    result.revises revises small fun t member => apart _ (mem_headIds_returns member),
    MemberNoted.forall₂_revises each revises small fun m member id inside => ?_, function⟩
  exact apart id (mem_headIds_member member inside)

/-- The signature of an item is filled in and the item is bound. -/
theorem enterSignature_sure (globals : ctx.globals = itemNames items) (sure : Sure items ctx s)
    {i : DescriptorId} {item : Item Site} (there : items[i]? = some item)
    {f : Descriptor → Descriptor}
    (same : ∀ d, (f d).name = d.name ∧ (f d).kind = d.kind ∧ (f d).origin = d.origin) (ty : Ty)
    (result : ∀ d, (f d).ty = ty) (proper : ty ≠ .error) {site : Site}
    (bound : site.id < s.bindings.slots.size) :
    Leaves (enterSignature i site f ty) s fun _ s' =>
      Sure items ctx s' ∧ Revises [i] [site.id] s s' ∧
        (∃ d, s.descriptors.get? i = some d ∧ s'.descriptors.get? i = some (f d)) ∧
        s'.bindings.get? site.id = some (.declaration ty i) := by
  have kept := keeps_modify s.descriptors i same
  have small : i < ctx.globals.length := by
    rw [length_globals globals]
    exact (List.getElem?_eq_some_iff.mp there).1
  obtain ⟨entry, found, _⟩ := sure.items i item there
  have revised : Revises [i] [] s { s with descriptors := s.descriptors.modify i f } := by
    refine ⟨⟨fun j d outside at_j => ?_, rfl, fun _ _ => rfl⟩, kept⟩
    show (s.descriptors.modify i f).get? j = some d
    rw [get?_modify, if_neg fun same => outside (List.mem_singleton.mpr same.symm), at_j]
  have sure₁ : Sure items ctx { s with descriptors := s.descriptors.modify i f } := by
    refine ⟨sure.silent, fun j other at_j => (sure.items j other at_j).keeps kept, ?_, ?_,
      fun honest id b bound => (sure.clean honest id b bound).keeps kept⟩
    · intro name kind j looked
      refine (sure.offers name kind j looked).revises revised ?_
      rw [List.forall_mem_singleton]
      exact small
    · intro honest j d at_j
      have at_j : (s.descriptors.modify i f).get? j = some d := at_j
      rw [get?_modify] at at_j
      split at at_j
      · obtain ⟨e, _, rfl⟩ := Option.map_eq_some_iff.mp at_j
        rw [result]
        exact proper
      · exact sure.types honest j d at_j
  have entry' : (s.descriptors.modify i f).get? i = some (f entry) := by
    rw [get?_modify, if_pos rfl, found]
    rfl
  refine (modify_leaves _ s).bind ?_
  rintro _ _ rfl
  refine (bind_sure sure₁ bound fun _ => clean_declaration proper).mono ?_
  rintro _ s' ⟨proceeds, _, bound'⟩
  exact ⟨proceeds.sure, revised.trans proceeds.later.revises,
    ⟨entry, found, proceeds.later.table _ _ entry'⟩, bound'⟩

/-- What a function returns is noted, unless an error is reported. -/
theorem resolveReturns_sure (globals : ctx.globals = itemNames items) (sure : Sure items ctx s)
    (typeParams : List String) {returns : Option (TypeRef Site)}
    (bound : ∀ t ∈ returns, t.site.id < s.bindings.slots.size) :
    Passes (resolveReturns ctx typeParams returns) s fun ty s' =>
      Proceeds items ctx (returns.toList.map (·.site.id)) s s' ∧ ty ≠ .error ∧
        ReturnsNoted ctx s'.bindings s'.descriptors typeParams returns ty := by
  cases returns with
  | none =>
      have proper : Ty.unit ≠ .error := by simp
      exact .pure ⟨sure.refl, proper, .nothing⟩
  | some t =>
      refine (resolveType_sure globals sure typeParams (bound t rfl)).mono ?_
      exact fun ty s' post => ⟨post.1, post.2.ne_error, .value post.2⟩

theorem lt_length_globals (globals : ctx.globals = itemNames items) {i : DescriptorId}
    {item : Item Site} (there : items[i]? = some item) : ∀ j ∈ [i], j < ctx.globals.length := by
  rw [List.forall_mem_singleton, length_globals globals]
  exact (List.getElem?_eq_some_iff.mp there).1

/-- A class is noted with its fields, unless an error is reported.  Only its own signature is filled
in. -/
theorem resolveSignature_cls_sure (globals : ctx.globals = itemNames items) (sure : Sure items ctx s)
    {i : DescriptorId} {site : Site} {name : String} {fields : List (Typed Site)}
    (there : items[i]? = some (.cls site name fields)) (nodup : (headIds (.cls site name fields)).Nodup)
    (bound : ∀ id ∈ headIds (.cls site name fields), id < s.bindings.slots.size) :
    Passes (resolveSignature ctx i (.cls site name fields)) s fun params s' =>
      Sure items ctx s' ∧ Revises [i] (headIds (.cls site name fields)) s s' ∧
        HeadNoted ctx s'.bindings s'.descriptors i (.cls site name fields) params := by
  have placed := headPlaced nodup bound
  have small := lt_length_globals globals there
  rw [resolveSignature_cls]
  refine (resolveMembers_sure globals i .field [] _ [] sure placed.distinct placed.inside).bind
    (fun _ => (enterSignature_grows i site _ _).bind fun _ => .pure _) ?_
  rintro ps s₁ ⟨proceeds₁, each⟩
  refine (enterSignature_sure globals proceeds₁.sure there (fun d => ⟨by rfl, by rfl, by rfl⟩)
    (.cls i) (fun d => by rfl) (by simp) (proceeds₁.later.slots ▸ placed.here)).andThen ?_
  rintro _ s₂ ⟨sure₂, revises, ⟨d, _, entry⟩, declared⟩
  refine .pure ⟨sure₂, (proceeds₁.later.revises.trans revises).mono (by simp) ?_,
    _, ps, entry, by rw [List.map_map]; rfl, declared, .cls, ?_, fun is => by cases is⟩
  · intro id member
    rw [List.mem_append, List.mem_singleton] at member
    rw [headIds, List.mem_cons, List.mem_append]
    exact member.elim (fun m => Or.inr (Or.inl m)) Or.inl
  · refine MemberNoted.forall₂_revises each revises small fun m member id among same => ?_
    rw [List.mem_singleton] at same
    exact placed.notMember (List.mem_flatMap.mpr ⟨m, member, same ▸ among⟩)

/-- A function is noted with its parameters and its result, unless an error is reported.  Only its own
signature is filled in. -/
theorem resolveSignature_function_sure (globals : ctx.globals = itemNames items)
    (sure : Sure items ctx s) {i : DescriptorId} {site : Site} {name : String}
    {typeParams : List String} {params : List (Typed Site)} {returns : Option (TypeRef Site)}
    {body : List (Source.Stmt Site)}
    (there : items[i]? = some (.function site name typeParams params returns body))
    (nodup : (headIds (.function site name typeParams params returns body)).Nodup)
    (bound : ∀ id ∈ headIds (.function site name typeParams params returns body),
      id < s.bindings.slots.size) :
    Passes (resolveSignature ctx i (.function site name typeParams params returns body)) s
      fun ids s' => Sure items ctx s' ∧
        Revises [i] (headIds (.function site name typeParams params returns body)) s s' ∧
        HeadNoted ctx s'.bindings s'.descriptors i
          (.function site name typeParams params returns body) ids := by
  have placed := headPlaced nodup bound
  have small := lt_length_globals globals there
  rw [resolveSignature_function]
  refine (resolveMembers_sure globals i .param typeParams _ [] sure placed.distinct
    placed.inside).bind (fun _ => ((resolveReturns_follows 0 typeParams returns).grows ctx).bind
      fun _ => (enterSignature_grows i site _ _).bind fun _ => .pure _) ?_
  rintro ps s₁ ⟨proceeds₁, each⟩
  refine (resolveReturns_sure globals proceeds₁.sure typeParams
    fun t member => proceeds₁.later.slots ▸ placed.returned t member).bind
      (fun _ => (enterSignature_grows i site _ _).bind fun _ => .pure _) ?_
  rintro result s₂ ⟨proceeds₂, proper, returned⟩
  have noted : ResultNoted ctx s₂.bindings s₂.descriptors i
      (.function site name typeParams params returns body) result := .function returned
  have proceeds := proceeds₁.trans proceeds₂
  refine (enterSignature_sure globals proceeds₂.sure there (fun d => ⟨by rfl, by rfl, by rfl⟩)
    result (fun d => by rfl) proper (proceeds.later.slots ▸ placed.here)).andThen ?_
  rintro _ s₃ ⟨sure₃, revises, ⟨d, _, entry⟩, declared⟩
  -- The signature is entered at the site and the number of the item, and what was noted before it is
  -- about neither.
  refine .pure ⟨sure₃, (proceeds.later.revises.trans revises).mono (by simp) ?_,
    _, ps, entry, by rw [List.map_map]; rfl, declared, noted.revises revises small ?_, ?_,
    fun _ => rfl⟩
  · intro id member
    rw [List.mem_append, List.mem_append, List.mem_singleton] at member
    rw [headIds, List.mem_cons, List.mem_append]
    exact member.elim Or.inr Or.inl
  · intro t member same
    have among : t.site.id ∈ returns.toList.map (·.site.id) :=
      List.mem_map_of_mem (Option.mem_toList.mpr member)
    exact placed.notReturned (List.mem_singleton.mp same ▸ among)
  · refine MemberNoted.forall₂_revises each (proceeds₂.later.revises.trans revises) small
      fun m member id among same => ?_
    have among := List.mem_flatMap.mpr ⟨m, member, among⟩
    rw [List.mem_append, List.mem_singleton] at same
    rcases same with later | same
    · exact placed.disjoint id among later
    · exact placed.notMember (same ▸ among)

/-- What an item says about itself is noted, unless an error is reported. -/
theorem resolveSignature_sure (globals : ctx.globals = itemNames items) (sure : Sure items ctx s)
    {i : DescriptorId} {item : Item Site} (there : items[i]? = some item)
    (nodup : (headIds item).Nodup) (bound : ∀ id ∈ headIds item, id < s.bindings.slots.size) :
    Passes (resolveSignature ctx i item) s fun params s' =>
      Sure items ctx s' ∧ Revises [i] (headIds item) s s' ∧
        HeadNoted ctx s'.bindings s'.descriptors i item params := by
  cases item with
  | cls site name fields => exact resolveSignature_cls_sure globals sure there nodup bound
  | function site name typeParams params returns body =>
      exact resolveSignature_function_sure globals sure there nodup bound

/-- Items with consecutive numbers, each with the descriptors of its parameters. -/
def HeadsNoted (ctx : Context) (b : Bindings) (D : Descriptor.Table) (first : DescriptorId)
    (heads : List (Item Site × List DescriptorId)) : Prop :=
  ∀ k item params, heads[k]? = some (item, params) → HeadNoted ctx b D (first + k) item params

/-- Items are noted if the first one is and the others are. -/
theorem HeadsNoted.cons {b : Bindings} {D : Descriptor.Table} {first : DescriptorId}
    {item : Item Site} {params : List DescriptorId} {rest : List (Item Site × List DescriptorId)}
    (head : HeadNoted ctx b D first item params) (heads : HeadsNoted ctx b D (first + 1) rest) :
    HeadsNoted ctx b D first ((item, params) :: rest) := by
  intro k other others found
  cases k with
  | zero =>
      obtain ⟨rfl, rfl⟩ := Prod.mk.inj (Option.some.inj found)
      exact head
  | succ k =>
      have later := heads k other others found
      rwa [Nat.add_assoc, Nat.add_comm 1 k] at later

theorem HeadsNoted.tail {b : Bindings} {D : Descriptor.Table} {first : DescriptorId}
    {head : Item Site × List DescriptorId} {rest : List (Item Site × List DescriptorId)}
    (heads : HeadsNoted ctx b D first (head :: rest)) : HeadsNoted ctx b D (first + 1) rest := by
  intro k item params found
  rw [Nat.add_assoc, Nat.add_comm 1 k]
  exact heads (k + 1) item params found

/-- All signatures are noted, unless an error is reported. -/
theorem resolveSignatures_sure (globals : ctx.globals = itemNames items) {rest : List (Item Site)}
    {first : DescriptorId} (suffix : Suffix items first rest) {s : State} (sure : Sure items ctx s)
    (nodup : (rest.flatMap headIds).Nodup)
    (bound : ∀ id ∈ rest.flatMap headIds, id < s.bindings.slots.size) :
    Passes (resolveSignatures ctx first rest) s fun more s' =>
      Sure items ctx s' ∧ Revises (List.range' first rest.length) (rest.flatMap headIds) s s' ∧
        more.length = rest.length ∧
        HeadsNoted ctx s'.bindings s'.descriptors first (rest.zip more) := by
  induction rest generalizing first s with
  | nil =>
      refine .pure ⟨sure, (Later.refl [] s).revises, rfl, fun k item params found => ?_⟩
      cases found
  | cons item rest ih =>
      rw [List.flatMap_cons] at nodup bound ⊢
      rw [List.forall_mem_append] at bound
      obtain ⟨mine, others, disjoint⟩ := List.nodup_append.mp nodup
      rw [resolveSignatures]
      refine (resolveSignature_sure globals sure suffix.head mine bound.1).bind
        (fun _ => ((resolveSignatures_follows (Nat.le_refl _)).grows ctx).bind fun _ => .pure _) ?_
      rintro params s₁ ⟨sure₁, revises₁, head₁⟩
      have bound₁ : ∀ id ∈ rest.flatMap headIds, id < s₁.bindings.slots.size := by
        rw [revises₁.amends.slots]
        exact bound.2
      refine (ih suffix.tail sure₁ others bound₁).bind (fun _ => .pure _) ?_
      rintro more s₂ ⟨sure₂, revises₂, length, heads₂⟩
      have small : ∀ j ∈ List.range' (first + 1) rest.length, j < ctx.globals.length := by
        intro j member
        obtain ⟨low, high⟩ := List.mem_range'_1.mp member
        have last : j - (first + 1) < rest.length := by omega
        have there := suffix.tail _ _ (List.getElem?_eq_getElem last)
        rw [Nat.add_sub_cancel' low] at there
        rw [length_globals globals]
        exact (List.getElem?_eq_some_iff.mp there).1
      refine .pure ⟨sure₂, revises₁.trans revises₂, congrArg (· + 1) length,
        .cons (head₁.revises revises₂ (fun member => ?_) small ?_) heads₂⟩
      · exact Nat.not_succ_le_self _ (List.mem_range'_1.mp member).1
      · exact fun id member among => disjoint id member id among rfl

end StagedCompiler.Resolution
