import StagedCompiler.Analysis
import StagedCompiler.Proofs.Analysis.Agenda
import StagedCompiler.Proofs.Analysis.Precedence

/-!
# One hearing for each name and use

What a run through a list of tasks leaves behind: the record of who was asked is that of its hearings
(`Performs.consultations`), there is one hearing for each name and use that is looked up, in the order of
the first look-ups (`Performs.keys`), and the table grows by the declarations and by the offers that are
taken (`Performs.countP`, `Performs.of_mem`).

From this the consultation of resolvers that never give up is described for a whole unit
(`run_consults_in_order`).
-/

namespace StagedCompiler.Resolution

open Source (Typed Item TypeRef Site SiteId Expr Stmt)

/-- The name and use that a task looks up. -/
def Task.key? : Task → Option (String × ReferenceKind)
  | .look key => some key
  | .declare _ _ _ _ => none

/-- What a task describes. -/
def Task.outline? : Task → Option Outline
  | .look _ => none
  | .declare site name kind owner => some (name, kind, some owner, .source site.id)

/-- The names and uses that are looked up, in order. -/
def lookups (tasks : List Task) : List (String × ReferenceKind) := tasks.filterMap Task.key?

/-- What is described, in order. -/
def described (tasks : List Task) : List Outline := tasks.filterMap Task.outline?

section Tasks

variable (key : String × ReferenceKind) (site : Site) (name : String) (kind : Descriptor.Kind)
  (owner : DescriptorId) (tasks tasks' : List Task)

theorem lookups_look : lookups (.look key :: tasks) = key :: lookups tasks := rfl

theorem described_look : described (.look key :: tasks) = described tasks := rfl

theorem described_declare : described (.declare site name kind owner :: tasks) =
    (name, kind, some owner, .source site.id) :: described tasks := rfl

end Tasks

/-! ## Tables that grow -/

/-- `D'` has what `D` has under the same numbers, signatures of items apart, and more behind it. -/
structure Grown (ctx : Context) (D D' : Descriptor.Table) : Prop where
  outlines : outlines D <+: outlines D'
  behind : ∀ i d, ctx.globals.length ≤ i → D.get? i = some d → D'.get? i = some d

section Grown

variable {ctx : Context} {D D' D'' : Descriptor.Table}

theorem Grown.refl (ctx : Context) (D : Descriptor.Table) : Grown ctx D D :=
  ⟨List.prefix_refl _, fun _ _ _ found => found⟩

/-- Additions behind additions are additions. -/
theorem Grown.trans (first : Grown ctx D D') (second : Grown ctx D' D'') : Grown ctx D D'' :=
  ⟨first.outlines.trans second.outlines,
    fun i d behind found => second.behind i d behind (first.behind i d behind found)⟩

theorem length_outlines (D : Descriptor.Table) : (outlines D).length = D.size := by
  rw [outlines, List.length_map, Array.length_toList]
  rfl

theorem Grown.size_le (grown : Grown ctx D D') : D.size ≤ D'.size := by
  rw [← length_outlines, ← length_outlines]
  exact grown.outlines.length_le

/-- What a descriptor says besides its signature stays. -/
theorem exists_get?_of_grown (grown : Grown ctx D D') {i : DescriptorId} {d : Descriptor}
    (found : D.get? i = some d) : ∃ d', D'.get? i = some d' ∧ outline d' = outline d := by
  have here : (outlines D)[i]? = some (outline d) := by
    rw [outlines, List.getElem?_map, Array.getElem?_toList]
    exact congrArg (Option.map outline) found
  obtain ⟨inside, is⟩ := List.getElem?_eq_some_iff.mp here
  have later := List.prefix_iff_getElem?.mp grown.outlines i inside
  rw [is, outlines, List.getElem?_map, Array.getElem?_toList] at later
  exact Option.map_eq_some_iff.mp later

/-- A new descriptor comes last. -/
theorem outlines_insert (D : Descriptor.Table) (d : Descriptor) :
    outlines (D.insert d) = outlines D ++ [outline d] := by
  rw [outlines, outlines, Descriptor.Table.insert, Array.toList_push, List.map_append]
  rfl

theorem grown_insert (ctx : Context) (D : Descriptor.Table) (d : Descriptor) :
    Grown ctx D (D.insert d) :=
  ⟨outlines_insert D d ▸ List.prefix_append _ _, fun i e _ found => insert_extends D d i e found⟩

theorem Rests.grown {s s' : State} (rests : Rests ctx s s') :
    Grown ctx s.descriptors s'.descriptors :=
  ⟨rests.outlines ▸ List.prefix_refl _, fun i _ behind found => (rests.behind i behind).trans found⟩

/-- A hearing adds the descriptor that is taken, if there is one. -/
theorem descriptors_heard (ctx : Context) (h : Hearing) (s : State) :
    outlines (heard ctx h s).descriptors =
      outlines s.descriptors ++ ((h.taken? ctx).map outline).toList := by
  unfold heard
  cases h.taken? ctx with
  | none => exact (List.append_nil _).symm
  | some d => exact outlines_insert s.descriptors d

theorem grown_heard (ctx : Context) (h : Hearing) (s : State) :
    Grown ctx s.descriptors (heard ctx h s).descriptors := by
  unfold heard
  cases h.taken? ctx with
  | none => exact .refl ctx _
  | some d => exact grown_insert ctx _ d

/-- What is taken has the next number of the table that the resolvers were shown. -/
theorem get?_heard {h : Hearing} {s : State} {d : Descriptor}
    (shown : s.descriptors = h.shown) (taken : h.taken? ctx = some d) :
    (heard ctx h s).descriptors.get? h.shown.size = some d := by
  rw [heard, taken, Option.elim_some, shown, get?_insert, if_pos rfl]

end Grown

/-! ## What a run leaves behind -/

namespace Performs

variable {ctx : Context} {tasks : List Task} {hearings : List Hearing} {s s' : State}

/-- After a resolver has given up nobody is asked. -/
theorem stopped (performs : Performs ctx tasks hearings s s') {fault : Fault}
    (stop : s.fault = some fault) : hearings = [] ∧ s'.fault = some fault := by
  induction performs with
  | done => exact ⟨rfl, stop⟩
  | rest rests _ ih => exact ih (rests.fault.trans stop)
  | known _ _ ih => exact ih stop
  | ask none _ _ _ => cases none.symm.trans stop
  | declare _ _ _ _ _ ih => exact ih stop

/-- The record of consultations goes on with those of the hearings, each in the order of the resolvers.
-/
theorem consultations (performs : Performs ctx tasks hearings s s') :
    s'.consultations =
      s.consultations ++ hearings.flatMap fun h => (h.asked ctx).map h.consultation := by
  induction performs with
  | done => exact (List.append_nil _).symm
  | rest rests _ ih => rw [ih, rests.consultations]
  | known _ _ ih => exact ih
  | ask _ _ _ ih =>
      rw [ih, List.flatMap_cons, ← List.append_assoc]
      rfl
  | declare _ _ _ _ _ ih => exact ih

/-- The numbers of the offers that are taken go on in the order of the hearings. -/
theorem synthetic (performs : Performs ctx tasks hearings s s') :
    s'.synthetic = s.synthetic ++ hearings.filterMap (·.number? ctx) := by
  induction performs with
  | done => exact (List.append_nil _).symm
  | rest rests _ ih => rw [ih, rests.synthetic]
  | known _ _ ih => exact ih
  | @ask key _ _ s _ _ _ _ ih =>
      rw [ih, heard, List.append_assoc, List.filterMap_cons]
      cases (Hearing.mk key s.descriptors).number? ctx <;> rfl
  | declare _ _ _ _ _ ih => exact ih

/-- There is one hearing for each name and use that is new, in the order of the look-ups. -/
theorem keys (performs : Performs ctx tasks hearings s s') (calm : s'.fault = none) :
    hearings.map (·.key) =
      ((lookups tasks).filter fun key => !s.asked.contains key).eraseDups := by
  induction performs with
  | done => rfl
  | rest rests _ ih => rw [ih calm, rests.asked]
  | known settled performs ih =>
      rcases settled with stop | old
      · obtain ⟨fault, stop⟩ := Option.isSome_iff_exists.mp stop
        cases calm.symm.trans (performs.stopped stop).2
      · rw [ih calm, lookups_look, List.filter_cons_of_neg]
        simpa using old
  | ask _ new _ ih =>
      rw [lookups_look, List.filter_cons_of_pos (by simpa using new), List.eraseDups_cons,
        List.map_cons, ih calm, List.filter_filter]
      refine congrArg (_ :: List.eraseDups ·) (List.filter_congr fun other _ => ?_)
      simp only [heard, List.contains_cons, Bool.not_or]
  | declare _ _ _ _ _ ih => exact ih calm

/-- A run through tasks only adds descriptors. -/
theorem grown (performs : Performs ctx tasks hearings s s') :
    Grown ctx s.descriptors s'.descriptors := by
  induction performs with
  | done => exact .refl ctx _
  | rest rests _ ih => exact rests.grown.trans ih
  | known _ _ ih => exact ih
  | ask _ _ _ ih => exact (grown_heard ctx _ _).trans ih
  | declare _ _ _ _ _ ih => exact (grown_insert ctx _ _).trans ih

/-- The table grows by what is declared and by what is offered and taken. -/
theorem countP (performs : Performs ctx tasks hearings s s') (p : Outline → Bool) :
    (outlines s'.descriptors).countP p = (outlines s.descriptors).countP p +
      (described tasks).countP p +
      (hearings.filterMap (·.taken? ctx)).countP (p ∘ outline) := by
  induction performs with
  | done => rfl
  | rest rests _ ih => rw [ih, rests.outlines]
  | known _ _ ih => exact ih
  | @ask key _ _ s _ _ _ _ ih =>
      rw [ih, descriptors_heard, List.countP_append, described_look, List.filterMap_cons]
      cases (Hearing.mk key s.descriptors).taken? ctx with
      | none => rfl
      | some d =>
          simp only [Option.map_some, Option.toList_some, List.countP_cons, List.countP_nil,
            Function.comp_apply]
          omega
  | @declare site d owner _ _ _ s _ origin container _ _ _ ih =>
      have entry : outline d = (d.name, d.kind, some owner, .source site.id) := by
        rw [outline, origin, container]
      rw [ih, entered, outlines_insert, entry, List.countP_append, List.countP_singleton,
        described_declare, List.countP_cons]
      omega

/-- The run up to a hearing, and from there on. -/
theorem of_mem (performs : Performs ctx tasks hearings s s') {h : Hearing} (member : h ∈ hearings) :
    ∃ before behind early late s₁, tasks = before ++ .look h.key :: behind ∧
      hearings = early ++ h :: late ∧ Performs ctx before early s s₁ ∧ s₁.descriptors = h.shown ∧
      Performs ctx behind late (heard ctx h s₁) s' := by
  induction performs with
  | done => cases member
  | rest rests _ ih =>
      obtain ⟨before, behind, early, late, s₁, rfl, rfl, first, shown, second⟩ := ih member
      exact ⟨before, behind, early, late, s₁, rfl, rfl, .rest rests first, shown, second⟩
  | known settled _ ih =>
      obtain ⟨before, behind, early, late, s₁, rfl, rfl, first, shown, second⟩ := ih member
      exact ⟨_ :: before, behind, early, late, s₁, rfl, rfl, .known settled first, shown, second⟩
  | @ask key _ _ s _ fault new performs ih =>
      rcases List.mem_cons.mp member with rfl | later
      · exact ⟨[], _, [], _, s, rfl, rfl, .done, rfl, performs⟩
      · obtain ⟨before, behind, early, late, s₁, rfl, rfl, first, shown, second⟩ := ih later
        exact ⟨_ :: before, behind, _ :: early, late, s₁, rfl, rfl, .ask fault new first, shown,
          second⟩
  | declare origin container declares ty _ ih =>
      obtain ⟨before, behind, early, late, s₁, rfl, rfl, first, shown, second⟩ := ih member
      exact ⟨_ :: before, behind, early, late, s₁, rfl, rfl,
        .declare origin container declares ty first, shown, second⟩

/-- Nobody is heard about what has been asked for before. -/
theorem new (performs : Performs ctx tasks hearings s s') : ∀ h ∈ hearings, h.key ∉ s.asked := by
  induction performs with
  | done => exact fun _ none => by cases none
  | rest rests _ ih => exact rests.asked ▸ ih
  | known _ _ ih => exact ih
  | ask _ new _ ih =>
      refine List.forall_mem_cons.mpr ⟨new, fun h member old => ih h member ?_⟩
      exact List.mem_cons_of_mem _ old
  | declare _ _ _ _ _ ih => exact ih

/-- What a name and use lead to is settled at their hearing. -/
theorem lookup (performs : Performs ctx tasks hearings s s') {h : Hearing} (member : h ∈ hearings) :
    (hearings.filterMap (·.number? ctx)).lookup h.key = (h.taken? ctx).map fun _ => h.shown.size := by
  have other : ∀ (rest : List Hearing) (key : String × ReferenceKind),
      (∀ h ∈ rest, h.key ≠ key) → (rest.filterMap (·.number? ctx)).lookup key = none := by
    intro rest key differ
    refine List.lookup_eq_none_iff.mpr fun entry among => ?_
    obtain ⟨h, inside, is⟩ := List.mem_filterMap.mp among
    obtain ⟨_, _, rfl⟩ := Option.map_eq_some_iff.mp is
    exact bne_iff_ne.mpr (Ne.symm (differ h inside))
  induction performs with
  | done => cases member
  | rest rests _ ih => exact ih member
  | known _ _ ih => exact ih member
  | @ask key _ rest s _ _ _ performs ih =>
      have later : ∀ h ∈ rest, h.key ≠ key := fun h inside same =>
        performs.new h inside (same ▸ List.mem_cons_self)
      rcases List.mem_cons.mp member with rfl | inside
      · rw [List.filterMap_cons, Hearing.number?]
        cases (Hearing.mk key s.descriptors).taken? ctx with
        | none => exact other _ _ later
        | some d => rw [Option.map_some, List.lookup_cons_self]; rfl
      · rw [List.filterMap_cons, Hearing.number?]
        cases (Hearing.mk key s.descriptors).taken? ctx with
        | none => exact ih inside
        | some d =>
            show List.lookup h.key ((key, _) :: _) = _
            rw [List.lookup_cons, beq_false_of_ne (later h inside)]
            exact ih inside
  | declare _ _ _ _ _ ih => exact ih member

/-- What resolvers are shown stays. -/
theorem grown_of_mem (performs : Performs ctx tasks hearings s s') {h : Hearing}
    (member : h ∈ hearings) : Grown ctx h.shown s'.descriptors := by
  obtain ⟨_, _, _, _, s₁, _, _, _, shown, onward⟩ := performs.of_mem member
  exact shown ▸ (grown_heard ctx h s₁).trans onward.grown

/-- An offer that is taken stays under its number. -/
theorem get?_taken (performs : Performs ctx tasks hearings s s')
    (inside : ctx.globals.length ≤ s.descriptors.size) {h : Hearing} (member : h ∈ hearings)
    {d : Descriptor} (taken : h.taken? ctx = some d) :
    s'.descriptors.get? h.shown.size = some d := by
  obtain ⟨_, _, _, _, s₁, _, _, first, shown, onward⟩ := performs.of_mem member
  refine onward.grown.behind _ d ?_ (get?_heard shown taken)
  exact shown ▸ Nat.le_trans inside first.grown.size_le

/-- What is described on the way is in the table. -/
theorem mem_outlines (performs : Performs ctx tasks hearings s s') {o : Outline}
    (member : o ∈ described tasks) : o ∈ outlines s'.descriptors := by
  have grows := performs.countP (· == o)
  have counted : 0 < (described tasks).countP (· == o) :=
    List.countP_pos_iff.mpr ⟨o, member, beq_self_eq_true o⟩
  obtain ⟨o', among, same⟩ := List.countP_pos_iff.mp
    (show 0 < (outlines s'.descriptors).countP (· == o) by omega)
  exact beq_iff_eq.mp same ▸ among

/-- A construct that declares something behind the items has the type of what it declares. -/
def Typed (ctx : Context) (s : State) : Prop :=
  ∀ id b i, s.bindings.get? id = some b → b.declares = some i → ctx.globals.length ≤ i →
    ∃ d, s.descriptors.get? i = some d ∧ d.ty = b.ty

/-- Declarations behind the items keep the type of what they declare. -/
theorem typed (performs : Performs ctx tasks hearings s s') (start : Typed ctx s) : Typed ctx s' := by
  induction performs with
  | done => exact start
  | rest rests _ ih =>
      refine ih fun id b' i there' declares behind => ?_
      obtain ⟨b, there, was, same⟩ := rests.declares id b' i there' declares behind
      obtain ⟨d, entry, ty⟩ := start id b i there was behind
      exact ⟨d, (rests.behind i behind).trans entry, ty.trans same⟩
  | known _ _ ih => exact ih start
  | ask _ _ _ ih =>
      refine ih fun id b i there declares behind => ?_
      obtain ⟨d, entry, ty⟩ := start id b i there declares behind
      exact ⟨d, (grown_heard ctx _ _).behind i d behind entry, ty⟩
  | @declare site d _ b _ _ s _ _ _ declares ty _ ih =>
      refine ih fun id b' i there' declares' behind => ?_
      rcases get?_insert_elim there' with rfl | there
      · obtain rfl := Option.some.inj (declares'.symm.trans declares)
        exact ⟨d, by rw [entered, get?_insert, if_pos rfl], ty.symm⟩
      · obtain ⟨d', entry, same⟩ := start id b' i there declares' behind
        exact ⟨d', insert_extends s.descriptors d i d' entry, same⟩

end Performs

/-! ## Resolvers that never give up -/

section Calm

variable {ctx : Context}

theorem through_congr {α : Type} {p q : α → Bool} {l : List α} (same : ∀ a ∈ l, p a = q a) :
    through p l = through q l := by
  induction l with
  | nil => rfl
  | cons a rest ih =>
      rw [List.forall_mem_cons] at same
      rw [through, through, same.1, ih same.2]

/-- A resolver that does not give up ends a hearing by a proper offer only. -/
theorem reply?_calm (calm : Calm ctx) (h : Hearing) {entry : Registry.Record × Extension.Resolver}
    (member : entry ∈ ctx.resolvers) :
    h.reply? entry = (offer? h.request entry.2).map .ok := by
  obtain ⟨offer, answered⟩ := calm entry member h.request
  unfold Hearing.reply? offer?
  rw [answered]
  cases offer with
  | none => rfl
  | some offer =>
      show (if offer.name = h.key.1 then _ else _) =
        Option.map _ (if offer.name = h.key.1 then some offer else none)
      split <;> rfl

/-- If nobody gives up, resolvers are asked up to the first one that makes a proper offer. -/
theorem asked_calm (calm : Calm ctx) (h : Hearing) :
    h.asked ctx = through (fun entry => (offer? h.request entry.2).isSome) ctx.resolvers :=
  through_congr fun entry member => by rw [reply?_calm calm h member, Option.isSome_map]

/-- If nobody gives up, the first reply is the first proper offer. -/
theorem findSome?_reply? (calm : Calm ctx) (h : Hearing) :
    ctx.resolvers.findSome? h.reply? = (firstOffer? h.request ctx.resolvers).map .ok := by
  have each : ∀ entry ∈ ctx.resolvers, h.reply? entry = (offer? h.request entry.2).map .ok :=
    fun entry member => reply?_calm calm h member
  unfold firstOffer?
  generalize ctx.resolvers = resolvers at each
  induction resolvers with
  | nil => rfl
  | cons entry rest ih =>
      rw [List.forall_mem_cons] at each
      rw [List.findSome?_cons, List.findSome?_cons, each.1, ih each.2]
      cases offer? h.request entry.2 <;> rfl

/-- What is taken at a hearing: nothing for the name of an item, and else the first proper offer. -/
def granted? (items : List (Item Site)) (resolvers : List (Registry.Record × Extension.Resolver))
    (h : Hearing) : Option Descriptor :=
  if items.any fun item => item.name == h.key.1 then none else firstOffer? h.request resolvers

/-- A name stands for an item exactly if one of the items has it. -/
theorem lookup_itemNames_isSome (items : List (Item Site)) (name : String) :
    ((itemNames items).lookup name).isSome = items.any fun item => item.name == name := by
  rw [Bool.eq_iff_iff, ← not_iff_not, Bool.not_eq_true, Option.isSome_eq_false_iff,
    Option.isNone_iff_eq_none, Bool.not_eq_true, List.any_eq_false]
  refine (lookup_zipIdx_eq_none 0).trans (forall₂_congr fun item _ => ?_)
  rw [beq_iff_eq]

/-- If nobody gives up, what is taken is the first proper offer for a name that no item has. -/
theorem taken?_calm {items : List (Item Site)} (globals : ctx.globals = itemNames items)
    (calm : Calm ctx) (h : Hearing) : h.taken? ctx = granted? items ctx.resolvers h := by
  unfold Hearing.taken? granted?
  rw [findSome?_reply? calm, ← lookup_itemNames_isSome items, ← globals]
  cases ctx.globals.lookup h.key.1 with
  | none => cases firstOffer? h.request ctx.resolvers <;> rfl
  | some i => cases firstOffer? h.request ctx.resolvers <;> rfl

/-- Where nobody gives up there is no fault. -/
theorem Performs.calm {tasks : List Task} {hearings : List Hearing} {s s' : State}
    (performs : Performs ctx tasks hearings s s') (calm : Calm ctx) (start : s.fault = none) :
    s'.fault = none := by
  induction performs with
  | done => exact start
  | rest rests _ ih => exact ih (rests.fault.trans start)
  | known _ _ ih => exact ih start
  | @ask key _ _ s _ _ _ _ ih =>
      refine ih ?_
      show (Hearing.mk key s.descriptors).fault? ctx = none
      rw [Hearing.fault?, findSome?_reply? calm]
      cases firstOffer? _ ctx.resolvers <;> rfl
  | declare _ _ _ _ _ ih => exact ih start

end Calm

/-! ## What a unit declares -/

/-- What a construct of the item with the given number declares. -/
def declaration? (owner : DescriptorId) : Source.Node → Option Outline
  | .item i => some (i.name, itemKind i, none, .source i.site.id)
  | .field f => some (f.name, .field, some owner, .source f.site.id)
  | .param p => some (p.name, .param, some owner, .source p.site.id)
  | .stmt (.letBind site name _ _) => some (name, .localVar, some owner, .source site.id)
  | .stmt (.ret _ _) | .stmt (.eval _ _) | .typeRef _ | .expr _ => none

/-- What the constructs of a unit declare, in document order. -/
def declarations (items : List (Item Site)) : List Outline :=
  items.zipIdx.flatMap fun entry => entry.1.nodes.filterMap (declaration? entry.2)

section Declarations

mutual

/-- All that is in an expression is an expression. -/
theorem expr_of_mem_nodes {n : Source.Node} :
    ∀ e : Expr Site, n ∈ e.nodes → ∃ e', n = .expr e'
  | .int site v | .bool site v | .str site v | .ref site v => fun inside =>
      ⟨_, List.mem_singleton.mp inside⟩
  | .call _ _ args => fun inside => by
      rcases List.mem_cons.mp inside with rfl | deeper
      · exact ⟨_, rfl⟩
      · exact expr_of_mem_exprListNodes args deeper
  | .binary _ _ lhs rhs => fun inside => by
      rcases List.mem_cons.mp inside with rfl | deeper
      · exact ⟨_, rfl⟩
      · exact (List.mem_append.mp deeper).elim (expr_of_mem_nodes lhs) (expr_of_mem_nodes rhs)

theorem expr_of_mem_exprListNodes {n : Source.Node} :
    ∀ es : List (Expr Site), n ∈ Source.exprListNodes es → ∃ e', n = .expr e'
  | [] => fun inside => by cases inside
  | e :: rest => fun inside =>
      (List.mem_append.mp inside).elim (expr_of_mem_nodes e) (expr_of_mem_exprListNodes rest)

end

/-- There is no item in a statement. -/
theorem item_notMem_stmt (i : Item Site) (stmt : Stmt Site) : .item i ∉ stmt.nodes := by
  have apart : ∀ e : Expr Site, .item i ∉ e.nodes := fun e inside => by
    obtain ⟨_, is⟩ := expr_of_mem_nodes e inside
    cases is
  cases stmt with
  | letBind site name type value => simp [Stmt.nodes, apart]
  | ret site value => simp [Stmt.nodes, apart]
  | eval site value => simp [Stmt.nodes, apart]

/-- An item has no other item in it. -/
theorem exists_nodes_eq (item : Item Site) :
    ∃ inner, item.nodes = .item item :: inner ∧ ∀ i, .item i ∉ inner := by
  refine ⟨_, rfl, fun i => ?_⟩
  cases item with
  | cls site name fields => simp
  | function site name typeParams params returns body => simp [item_notMem_stmt]

/-- The task of a construct within an item describes what the construct declares. -/
theorem declaration?_eq (typeParams : List String) (owner : DescriptorId) {n : Source.Node}
    (inner : ∀ i, n ≠ .item i) :
    (task? typeParams owner n).bind Task.outline? = declaration? owner n := by
  cases n with
  | item i => exact absurd rfl (inner i)
  | field f => rfl
  | param p => rfl
  | typeRef t =>
      rw [task?]
      split <;> rfl
  | stmt stmt => cases stmt <;> rfl
  | expr e => cases e <;> rfl

/-- An item declares itself, and then what its parts declare. -/
theorem filterMap_declaration? (item : Item Site) (typeParams : List String) (owner : DescriptorId) :
    item.nodes.filterMap (declaration? owner) =
      (item.name, itemKind item, none, .source item.site.id) ::
        item.nodes.filterMap fun n => (task? typeParams owner n).bind Task.outline? := by
  obtain ⟨inner, nodes, apart⟩ := exists_nodes_eq item
  have own : declaration? owner (.item item) =
      some (item.name, itemKind item, none, .source item.site.id) := rfl
  rw [nodes, List.filterMap_cons_some own, List.filterMap_cons_none rfl]
  refine congrArg _ (List.filterMap_congr fun n inside => ?_)
  exact (declaration?_eq typeParams owner fun i is => apart i (is ▸ inside)).symm

/-- At the start the table lists the items in order. -/
theorem outlines_itemDescriptors (items : List (Item Site)) :
    outlines (itemDescriptors items) = items.zipIdx.flatMap fun entry =>
      [(entry.1.name, itemKind entry.1, none, .source entry.1.site.id)] := by
  have numbered : ∀ first : Nat, items.map (fun i =>
      ((i.name, itemKind i, none, .source i.site.id) : Outline)) =
        (items.zipIdx first).flatMap fun entry =>
          [(entry.1.name, itemKind entry.1, none, .source entry.1.site.id)] := by
    intro first
    induction items generalizing first with
    | nil => rfl
    | cons item rest ih =>
        rw [List.zipIdx_cons, List.map_cons, List.flatMap_cons, ih (first + 1)]
        rfl
  rw [outlines, itemDescriptors, List.map_map]
  exact numbered 0

/-- The items and what is described on the way are what the unit declares. -/
theorem declarations_perm (items : List (Item Site)) :
    (outlines (itemDescriptors items) ++ described (unitTasks items)).Perm (declarations items) := by
  have inner := (unitTasks_perm items).filterMap Task.outline?
  rw [List.filterMap_flatMap] at inner
  rw [outlines_itemDescriptors]
  refine (inner.append_left _).trans ((List.flatMap_append_perm _ _ _).trans ?_)
  refine .flatMap (.refl _) fun entry _ => ?_
  rw [List.filterMap_filterMap, filterMap_declaration? entry.1 (typeParamsOf entry.1)]
  exact .refl _

end Declarations

/-! ## Units -/

/-- The name and use that a construct looks up: reserved types and the given type parameters are not
looked up. -/
def looked? (typeParams : List String) : Source.Node → Option (String × ReferenceKind)
  | .typeRef t => if (reserved? typeParams t.name).isSome then none else some (t.name, .type)
  | n => reference? n

/-- A name and a use are looked up exactly if a construct of an item looks them up. -/
theorem mem_lookups (items : List (Item Site)) (key : String × ReferenceKind) :
    key ∈ lookups (unitTasks items) ↔
      ∃ item ∈ items, ∃ n ∈ item.nodes, looked? (typeParamsOf item) n = some key := by
  have each : ∀ (typeParams : List String) (owner : DescriptorId) (n : Source.Node),
      (task? typeParams owner n).bind Task.key? = looked? typeParams n := by
    intro typeParams owner n
    cases n with
    | item i => rfl
    | field f => rfl
    | param p => rfl
    | typeRef t =>
        rw [task?, looked?]
        split <;> rfl
    | stmt stmt => cases stmt <;> rfl
    | expr e => cases e <;> rfl
  have perm := (unitTasks_perm items).filterMap Task.key?
  rw [List.filterMap_flatMap] at perm
  rw [lookups, perm.mem_iff, List.mem_flatMap]
  constructor
  · intro post
    obtain ⟨entry, among, inside⟩ := post
    rw [List.filterMap_filterMap, List.mem_filterMap] at inside
    obtain ⟨n, there, looked⟩ := inside
    exact ⟨entry.1, List.fst_mem_of_mem_zipIdx among, n, there, (each _ _ n).symm.trans looked⟩
  · intro post
    obtain ⟨item, among, n, there, looked⟩ := post
    obtain ⟨i, here⟩ := List.getElem?_of_mem among
    refine ⟨(item, i), List.mem_zipIdx_iff_getElem?.mpr here, ?_⟩
    rw [List.filterMap_filterMap, List.mem_filterMap]
    exact ⟨n, there, (each _ _ n).trans looked⟩

/-- What a call of an assembled unit comes to if no resolver gives up. -/
theorem call_bears {tree : Tree} (numbers : tree.nodes.map Source.Node.id = List.range tree.size)
    {registry : Registry} (calm : Calm (contextOf tree registry)) {place : Site} {callee : String}
    {args : List (Expr Site)} (node : .expr (.call place callee args) ∈ tree.nodes) :
    Bears (run tree registry) place
      (.of (globalTarget tree.items (run tree registry) callee .call)) := by
  have obeys := run_obeys numbers registry calm
  obtain ⟨item, among, places, sees⟩ := exists_sees node
  obtain ⟨scope, locals, obey⟩ := obeys.sees among sees
  exact (obeys.resolves rfl locals obey).2

/-- The hearings in the resolution of a unit, one for each name and use. -/
structure HeardInOrder (tree : Tree) (registry : Registry) (hearings : List Hearing) : Prop where
  /-- The names and uses come in the order in which they are first looked up. -/
  keys : hearings.map (·.key) = (lookups (unitTasks tree.items)).eraseDups
  /-- Every value and callee is looked up, and every type that is neither reserved nor a type
  parameter of its item. -/
  uses : ∀ key, key ∈ hearings.map (·.key) ↔
    ∃ item ∈ tree.items, ∃ n ∈ item.nodes, looked? (typeParamsOf item) n = some key
  /-- The resolvers are asked in order, up to the first that makes a proper offer. -/
  record : ∀ log, (analyze tree registry log).consultations = hearings.flatMap fun h =>
    (through (fun entry => (offer? h.request entry.2).isSome) registry.resolvers).map h.consultation
  /-- What they are shown stays. -/
  shown : ∀ h ∈ hearings,
    Grown (contextOf tree registry) h.shown (run tree registry).descriptors
  /-- The first proper offer is taken, unless an item has the name, and gets the next number. -/
  synthetic : (run tree registry).synthetic = hearings.filterMap fun h =>
    (granted? tree.items registry.resolvers h).map fun _ => (h.key, h.shown.size)
  entries : ∀ h ∈ hearings, ∀ d, granted? tree.items registry.resolvers h = some d →
    (run tree registry).descriptors.get? h.shown.size = some d
  /-- Nothing else is added to what the unit declares. -/
  table : (outlines (run tree registry).descriptors).Perm (declarations tree.items ++
    (hearings.filterMap (granted? tree.items registry.resolvers)).map outline)

/-- Resolution starts with the items. -/
theorem size_startOf (tree : Tree) (registry : Registry) :
    (contextOf tree registry).globals.length = (startOf tree).descriptors.size := by
  rw [length_globals rfl, ← length_outlines, startOf, outlines, itemDescriptors, List.length_map,
    List.length_map]

/-- Nothing is bound when resolution starts. -/
theorem typed_start (tree : Tree) (registry : Registry) :
    Performs.Typed (contextOf tree registry) (startOf tree) := by
  intro id b i there
  unfold startOf Bindings.get? Bindings.ofSize at there
  rw [Array.getElem?_replicate] at there
  split at there <;> cases there

/-- Resolvers that never give up are consulted once for each name and use, in the order of the first
look-ups and then of the registry, and the first proper offer is taken unless an item has the name.  They
are shown the table as it stands at the hearing. -/
theorem run_consults_in_order (tree : Tree) (registry : Registry)
    (calm : ∀ entry ∈ registry.resolvers, ∀ request, ∃ offer,
      entry.2.resolve request = .ok offer) :
    ∃ hearings, Performs (contextOf tree registry) (unitTasks tree.items) hearings (startOf tree)
        (run tree registry) ∧
      HeardInOrder tree registry hearings := by
  obtain ⟨hearings, performs⟩ := run_performs tree registry
  have calm : Calm (contextOf tree registry) := calm
  have taken : ∀ h : Hearing,
      h.taken? (contextOf tree registry) = granted? tree.items registry.resolvers h :=
    taken?_calm rfl calm
  have keys : hearings.map (·.key) = (lookups (unitTasks tree.items)).eraseDups := by
    rw [performs.keys (performs.calm calm rfl)]
    refine congrArg List.eraseDups (List.filter_eq_self.mpr fun _ _ => rfl)
  refine ⟨hearings, performs, keys, fun key => ?_, fun _ => ?_,
    fun h member => performs.grown_of_mem member, ?_, fun h member d granted => ?_, ?_⟩
  · rw [keys, List.mem_eraseDups, mem_lookups]
  · refine performs.consultations.trans ((List.nil_append _).trans ?_)
    exact List.flatMap_congr fun h _ => by rw [asked_calm calm h]; rfl
  · refine performs.synthetic.trans ((List.nil_append _).trans ?_)
    exact List.filterMap_congr fun h _ => by rw [Hearing.number?, taken h]
  · exact performs.get?_taken (Nat.le_of_eq (size_startOf tree registry)) member
      ((taken h).trans granted)
  · refine (List.perm_iff_count.mpr fun o => ?_).trans
      ((declarations_perm tree.items).append_right _)
    have grows := performs.countP (· == o)
    rw [← List.countP_map, funext taken] at grows
    rw [List.count_append, List.count_append]
    exact grows

/-- A resolver that offers what a list says. -/
def teller (name : String) (offers : List ((String × ReferenceKind) × Descriptor)) :
    Extension.Resolver where
  name := name
  resolve request := .ok (offers.lookup (request.name, request.kind))

/-- A resolver that offers something of another name for `amount`, and for `pay` what is an item of
`lending` already. -/
def gossip : Extension.Resolver :=
  let offer (name : String) : Descriptor :=
    { name := name, kind := .localVar, ty := .int, origin := .synthetic "gossip" none }
  teller "gossip" [(("amount", .value), offer "sum"), (("pay", .value), offer "pay")]

/-- A resolver that offers `nobody`. -/
def echo : Extension.Resolver :=
  teller "echo" [(("nobody", .value),
    { name := "nobody", kind := .localVar, ty := .int, origin := .synthetic "echo" none })]

/-- The registry of the lender, with the gossip before it and the echo behind it. -/
def crowdedRegistry : Registry :=
  (lendingRegistry.push ⟨"crowd", "echo"⟩ (.resolver echo) (some 1) none).push
    ⟨"crowd", "gossip"⟩ (.resolver gossip) (some (-1)) none

theorem crowdedRegistry_resolvers : crowdedRegistry.resolvers =
    [ (⟨⟨"crowd", "gossip"⟩, -1, 2, none, .resolver gossip⟩, gossip),
      (⟨⟨"lending", "lender"⟩, 0, 0, none, .resolver lender⟩, lender),
      (⟨⟨"crowd", "echo"⟩, 1, 1, none, .resolver echo⟩, echo) ] := by
  have sorted : crowdedRegistry.extensionsFor .syntheticDescriptors =
      [ ⟨⟨"crowd", "gossip"⟩, -1, 2, none, .resolver gossip⟩,
        ⟨⟨"lending", "lender"⟩, 0, 0, none, .resolver lender⟩,
        ⟨⟨"crowd", "echo"⟩, 1, 1, none, .resolver echo⟩ ] := by
    simp [Registry.extensionsFor, crowdedRegistry, lendingRegistry, Registry.push, Registry.empty,
      List.mergeSort, Registry.Record.le, Registry.Record.point, Extension.point]
  rw [Registry.resolvers, sorted]
  rfl

theorem crowdedRegistry_calm : ∀ entry ∈ crowdedRegistry.resolvers, ∀ request, ∃ offer,
    entry.2.resolve request = .ok offer := by
  rw [crowdedRegistry_resolvers]
  simp only [List.forall_mem_cons]
  exact ⟨fun _ => ⟨_, rfl⟩, fun _ => ⟨_, rfl⟩, fun _ => ⟨_, rfl⟩, fun _ none => by cases none⟩

/-- Three resolvers in a unit that looks up names of four uses: `gossip` is asked first because of its
order, and nobody behind `lender` where it makes an offer. -/
theorem run_consults_in_order_crowded : ∃ tree, lending.assemble "lending" = .ok tree ∧
    (∀ entry ∈ crowdedRegistry.resolvers, ∀ request, ∃ offer,
      entry.2.resolve request = .ok offer) ∧
    ((run tree crowdedRegistry).consultations.map fun c => (c.resolver.name, c.name, c.kind)) =
      [("gossip", "Coin", .type), ("lender", "Coin", .type),
        ("gossip", "amount", .value), ("lender", "amount", .value),
        ("gossip", "coin", .type), ("lender", "coin", .type),
        ("gossip", "x", .value), ("lender", "x", .value), ("echo", "x", .value),
        ("gossip", "pay", .value),
        ("gossip", "amount", .call), ("lender", "amount", .call),
        ("gossip", "x", .call), ("lender", "x", .call), ("echo", "x", .call),
        ("gossip", "nobody", .value), ("lender", "nobody", .value), ("echo", "nobody", .value)] ∧
    (run tree crowdedRegistry).synthetic.map (·.1) =
      [("Coin", .type), ("amount", .value), ("coin", .type), ("amount", .call),
        ("nobody", .value)] ∧
    ∃ hearings, Performs (contextOf tree crowdedRegistry) (unitTasks tree.items) hearings
        (startOf tree) (run tree crowdedRegistry) ∧
      HeardInOrder tree crowdedRegistry hearings := by
  have assembled : lending.assemble "lending" = .ok _ := rfl
  refine ⟨_, assembled, crowdedRegistry_calm, ?_, ?_,
    run_consults_in_order _ crowdedRegistry crowdedRegistry_calm⟩
  · rw [Resolution.run, crowdedRegistry_resolvers]
    decide +kernel
  · rw [Resolution.run, crowdedRegistry_resolvers]
    decide +kernel

end StagedCompiler.Resolution
