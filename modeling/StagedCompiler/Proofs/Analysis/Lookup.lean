import StagedCompiler.Proofs.Analysis.Reports
import StagedCompiler.Proofs.Typing.Judgement

/-!
# Looking up names in a unit of the host

If no extension but the host's takes part, a name stands for an item of the unit or, in a call, for a
function of the host (`lookupGlobal_spec`).  Along a run the state keeps a record of what was asked for
and offered (`Standing`), the table only grows (`Extends`), and bindings change only where a step works
(`Later`).
-/

namespace StagedCompiler.Resolution

open Typing (index_unique)

/-! ## Tables that grow -/

/-- `D'` has the descriptors of `D` under the same numbers. -/
def Extends (D D' : Descriptor.Table) : Prop := ∀ i d, D.get? i = some d → D'.get? i = some d

theorem Extends.refl (D : Descriptor.Table) : Extends D D := fun _ _ found => found

theorem Extends.trans {D D' D'' : Descriptor.Table} (first : Extends D D')
    (second : Extends D' D'') : Extends D D'' :=
  fun i d found => second i d (first i d found)

/-- A number is of the table exactly if there is a descriptor of that number. -/
theorem contains_iff {D : Descriptor.Table} {i : DescriptorId} :
    D.contains i = true ↔ ∃ d, D.get? i = some d := by
  unfold Descriptor.Table.contains Descriptor.Table.get? Descriptor.Table.size
  rw [decide_eq_true_iff]
  constructor
  · intro bound
    exact ⟨_, Array.getElem?_eq_getElem bound⟩
  · intro given
    rcases given with ⟨d, found⟩
    exact (Array.getElem?_eq_some_iff.mp found).1

theorem get?_insert (D : Descriptor.Table) (d : Descriptor) (i : DescriptorId) :
    (D.insert d).get? i = if i = D.size then some d else D.get? i :=
  Array.getElem?_push

/-- A new descriptor leaves the others alone. -/
theorem insert_extends (D : Descriptor.Table) (d : Descriptor) : Extends D (D.insert d) := by
  intro i e found
  have bound : i < D.size := (Array.getElem?_eq_some_iff.mp found).1
  rw [get?_insert, if_neg (Nat.ne_of_lt bound), found]

/-- The table has the descriptors that a binding names. -/
def Known (D : Descriptor.Table) (b : Binding) : Prop :=
  (∀ i ∈ b.target, D.contains i = true) ∧ ∀ i ∈ b.declares, D.contains i = true

/-! ## Units of the host -/

/-- The context of a unit whose items have distinct names and that no extension but the host's takes
part in. -/
structure Plain (items : List (Source.Item Source.Site)) (ctx : Context) : Prop where
  names : (items.map Source.Item.name).Nodup
  globals : ctx.globals = itemNames items
  resolvers : ctx.resolvers = Registry.host.resolvers

/-- A name has no number exactly if no item has it. -/
theorem lookup_zipIdx_eq_none {items : List (Source.Item Source.Site)} {name : String} (first : Nat) :
    ((items.zipIdx first).map fun (i, id) => (i.name, id)).lookup name = none ↔
      ∀ item ∈ items, item.name ≠ name := by
  induction items generalizing first with
  | nil => simp
  | cons item rest ih =>
      rw [List.zipIdx_cons, List.map_cons, List.lookup_cons, List.forall_mem_cons, ← ih (first + 1)]
      by_cases same : name = item.name
      · simp [same]
      · simp [beq_false_of_ne same, Ne.symm same]

/-- The number of a name is that of an item of that name. -/
theorem lookup_zipIdx_eq_some {items : List (Source.Item Source.Site)} {name : String} {first i : Nat}
    (found : ((items.zipIdx first).map fun (i, id) => (i.name, id)).lookup name = some i) :
    ∃ j item, i = first + j ∧ items[j]? = some item ∧ item.name = name := by
  induction items generalizing first with
  | nil => cases found
  | cons item rest ih =>
      rw [List.zipIdx_cons, List.map_cons, List.lookup_cons] at found
      by_cases same : name = item.name
      · rw [same, beq_self_eq_true] at found
        obtain rfl := Option.some.inj found
        exact ⟨0, item, rfl, rfl, same.symm⟩
      · rw [beq_false_of_ne same] at found
        obtain ⟨j, other, place, there, named⟩ := ih found
        exact ⟨j + 1, other, by omega, there, named⟩

namespace Plain

variable {items : List (Source.Item Source.Site)} {ctx : Context}

/-- A name is free outside functions exactly if no item has it. -/
theorem lookup_eq_none_iff (plain : Plain items ctx) {name : String} :
    ctx.globals.lookup name = none ↔ ∀ item ∈ items, item.name ≠ name := by
  rw [plain.globals]
  exact lookup_zipIdx_eq_none 0

/-- As names are distinct, a name stands for the item that has it. -/
theorem lookup_eq_some_iff (plain : Plain items ctx) {name : String} {i : DescriptorId} :
    ctx.globals.lookup name = some i ↔ ∃ item, items[i]? = some item ∧ item.name = name := by
  have found : ∀ {j : DescriptorId}, ctx.globals.lookup name = some j →
      ∃ item, items[j]? = some item ∧ item.name = name := by
    intro j found
    rw [plain.globals] at found
    obtain ⟨k, item, place, there, named⟩ := lookup_zipIdx_eq_some found
    rw [Nat.zero_add] at place
    exact ⟨item, place ▸ there, named⟩
  constructor
  · exact found
  · intro given
    rcases given with ⟨item, there, named⟩
    cases looked : ctx.globals.lookup name with
    | none =>
        have absent := plain.lookup_eq_none_iff.mp looked
        exact absurd named (absent item (List.mem_of_getElem? there))
    | some j =>
        obtain ⟨other, there', named'⟩ := found looked
        rw [index_unique plain.names there' there (named'.trans named.symm)]

end Plain

/-- What resolvers have been asked for and have offered in a unit of the host. -/
structure Host (ctx : Context) (s : State) : Prop where
  fault : s.fault = none
  offers : ∀ name kind id, s.synthetic.lookup (name, kind) = some id →
    kind = .call ∧ ctx.globals.lookup name = none ∧
      ∃ d, Extension.builtin? name = some d ∧ s.descriptors.get? id = some d
  asked : ∀ name, s.asked.contains (name, .call) = true → ctx.globals.lookup name = none →
    (Extension.builtin? name).isSome = true → (s.synthetic.lookup (name, .call)).isSome = true

/-- The records of the host stay as they are if nothing is asked for and the table only grows. -/
theorem Host.of_extends {ctx : Context} {s s' : State} (host : Host ctx s)
    (extended : Extends s.descriptors s'.descriptors) (fault : s'.fault = s.fault)
    (synthetic : s'.synthetic = s.synthetic) (asked : s'.asked = s.asked) : Host ctx s' := by
  refine ⟨fault.trans host.fault, fun name kind id found => ?_, ?_⟩
  · rw [synthetic] at found
    obtain ⟨call, absent, d, offered, there⟩ := host.offers name kind id found
    exact ⟨call, absent, d, offered, extended id d there⟩
  · rw [asked, synthetic]
    exact host.asked

/-- The host has one resolver, that of its built-in functions. -/
theorem host_resolvers : ∃ record,
    Registry.host.resolvers = [(record, Extension.builtins)] := by
  refine ⟨⟨⟨Registry.hostPlugin, Extension.builtins.name⟩, 0, 0, none, .resolver Extension.builtins⟩,
    ?_⟩
  simp [Registry.host, Registry.resolvers, Registry.extensionsFor, Registry.push, Registry.empty,
    Registry.Record.point, Extension.point]

/-- What a name stands for outside functions. -/
inductive Global (ctx : Context) (D : Descriptor.Table) (name : String) (kind : ReferenceKind) :
    Option DescriptorId → Prop
  | item {i : DescriptorId} : ctx.globals.lookup name = some i → Global ctx D name kind (some i)
  | host {i : DescriptorId} {d : Descriptor} : ctx.globals.lookup name = none → kind = .call →
    Extension.builtin? name = some d → D.get? i = some d → Global ctx D name kind (some i)
  | nothing : ctx.globals.lookup name = none → (kind = .call → Extension.builtin? name = none) →
    Global ctx D name kind none

/-- What a step that looks for a name leaves alone. -/
structure Quiet (ctx : Context) (s s' : State) : Prop where
  host : Host ctx s'
  table : Extends s.descriptors s'.descriptors
  bindings : s'.bindings = s.bindings
  diagnostics : s'.diagnostics = s.diagnostics

/-- A built-in function has the name that it is found by. -/
theorem builtin?_name {name : String} {d : Descriptor} (found : Extension.builtin? name = some d) :
    d.name = name := by
  obtain ⟨entry, looked, rfl⟩ := Option.map_eq_some_iff.mp found
  have same := List.find?_some looked
  exact beq_iff_eq.mp same

section Consult

variable {items : List (Source.Item Source.Site)} {ctx : Context}

/-- Where the host offers nothing, or its offer is not taken because an item has the name, asking it
leaves a consultation behind and nothing else. -/
theorem askResolvers_host_idle {record : Registry.Record} {name : String} {kind : ReferenceKind}
    (s : State) (idle : kind = .call → ctx.globals.lookup name = none →
      Extension.builtin? name = none) :
    (askResolvers ctx name kind [(record, Extension.builtins)]).run s =
      ((), { s with consultations :=
        s.consultations ++ [⟨record.id, name, kind, s.descriptors.size⟩] }) := by
  by_cases call : kind = .call
  · subst call
    cases offered : Extension.builtin? name with
    | none =>
        simp only [askResolvers, Extension.builtins, Registry.Record.answer, if_true, offered]
        rfl
    | some d =>
        cases taken : ctx.globals.lookup name with
        | none => cases offered.symm.trans (idle rfl taken)
        | some i =>
            simp only [askResolvers, Extension.builtins, Registry.Record.answer, if_true, offered,
              builtin?_name offered, taken, ne_eq, not_true_eq_false, if_false, Option.isSome_some]
            rfl
  · simp only [askResolvers, Extension.builtins, Registry.Record.answer, if_neg call]
    rfl

/-- A function of the host for a name that no item has is taken. -/
theorem askResolvers_host_taken {record : Registry.Record} {name : String} {d : Descriptor}
    (s : State) (offered : Extension.builtin? name = some d)
    (absent : ctx.globals.lookup name = none) :
    (askResolvers ctx name .call [(record, Extension.builtins)]).run s =
      ((), { s with
        consultations := s.consultations ++ [⟨record.id, name, .call, s.descriptors.size⟩]
        descriptors := s.descriptors.insert d
        synthetic := s.synthetic ++ [((name, .call), s.descriptors.size)] }) := by
  simp only [askResolvers, Extension.builtins, Registry.Record.answer, if_true, offered,
    builtin?_name offered, absent, ne_eq, not_true_eq_false, if_false, Option.isSome_none,
    Bool.false_eq_true]
  rfl

/-- Asking the host for a name adds the function of that name, unless an item has the name. -/
theorem askResolvers_host {record : Registry.Record} {name : String} {kind : ReferenceKind}
    {s s' : State}
    (ran : ((askResolvers ctx name kind [(record, Extension.builtins)]).run s).2 = s') :
    s'.bindings = s.bindings ∧ s'.diagnostics = s.diagnostics ∧ s'.fault = s.fault ∧
      s'.asked = s.asked ∧
      (s'.descriptors = s.descriptors ∧ s'.synthetic = s.synthetic ∧
          (kind = .call → ctx.globals.lookup name = none → Extension.builtin? name = none) ∨
        ∃ d, kind = .call ∧ ctx.globals.lookup name = none ∧ Extension.builtin? name = some d ∧
          s'.descriptors = s.descriptors.insert d ∧
          s'.synthetic = s.synthetic ++ [((name, kind), s.descriptors.size)]) := by
  by_cases idle : kind = .call → ctx.globals.lookup name = none → Extension.builtin? name = none
  · rw [askResolvers_host_idle s idle] at ran
    subst ran
    exact ⟨rfl, rfl, rfl, rfl, Or.inl ⟨rfl, rfl, idle⟩⟩
  · rw [Classical.not_imp, Classical.not_imp] at idle
    obtain ⟨rfl, absent, some⟩ := idle
    obtain ⟨d, offered⟩ := Option.ne_none_iff_exists'.mp some
    rw [askResolvers_host_taken s offered absent] at ran
    subst ran
    exact ⟨rfl, rfl, rfl, rfl, Or.inr ⟨d, rfl, absent, offered, rfl, rfl⟩⟩

/-- What a name leads to in a unit of the host, if the resolver has been asked where that matters. -/
theorem Host.global {s : State} (host : Host ctx s) {name : String} {kind : ReferenceKind}
    (settled : kind = .call → ctx.globals.lookup name = none →
      (Extension.builtin? name).isSome = true → (s.synthetic.lookup (name, kind)).isSome = true) :
    Global ctx s.descriptors name kind
      ((ctx.globals.lookup name).or (s.synthetic.lookup (name, kind))) := by
  cases item : ctx.globals.lookup name with
  | some i => exact .item item
  | none =>
      rw [Option.none_or]
      cases offered : s.synthetic.lookup (name, kind) with
      | some i =>
          obtain ⟨call, _, d, builtin, there⟩ := host.offers name kind i offered
          exact .host item call builtin there
      | none =>
          refine .nothing item fun call => ?_
          cases builtin : Extension.builtin? name with
          | none => rfl
          | some d =>
              have asked := settled call item (by rw [builtin]; rfl)
              rw [offered] at asked
              cases asked

/-- A name for which the host has nothing. -/
theorem Host.refuse {s s' : State} (host : Host ctx s) {name : String} {kind : ReferenceKind}
    (fault : s'.fault = s.fault) (asked : s'.asked = (name, kind) :: s.asked)
    (table : s'.descriptors = s.descriptors) (synthetic : s'.synthetic = s.synthetic)
    (refused : kind = .call → ctx.globals.lookup name = none → Extension.builtin? name = none) :
    Host ctx s' := by
  refine ⟨fault.trans host.fault, ?_, ?_⟩
  · rw [synthetic, table]
    exact host.offers
  · intro other member absent offered
    rw [asked, List.contains_cons, Bool.or_eq_true, beq_iff_eq] at member
    rw [synthetic]
    rcases member with same | member
    · obtain ⟨rfl, rfl⟩ := Prod.mk.inj same
      rw [refused rfl absent] at offered
      cases offered
    · exact host.asked other member absent offered

/-- A name for which the host describes a function. -/
theorem Host.offer {s s' : State} (host : Host ctx s) {name : String} {d : Descriptor}
    (fault : s'.fault = s.fault) (asked : s'.asked = (name, .call) :: s.asked)
    (absent : ctx.globals.lookup name = none) (builtin : Extension.builtin? name = some d)
    (table : s'.descriptors = s.descriptors.insert d)
    (synthetic : s'.synthetic = s.synthetic ++ [((name, .call), s.descriptors.size)]) :
    Host ctx s' ∧ (s'.synthetic.lookup (name, .call)).isSome = true := by
  have found : ∀ key, s'.synthetic.lookup key = (s.synthetic.lookup key).or
      (if key = (name, .call) then some s.descriptors.size else none) := by
    intro key
    rw [synthetic, List.lookup_append, List.lookup_cons]
    by_cases same : key = (name, ReferenceKind.call)
    · rw [if_pos same, same, beq_self_eq_true]
    · rw [if_neg same, beq_false_of_ne same]
      rfl
  have here : (s'.synthetic.lookup (name, .call)).isSome = true := by
    rw [found, if_pos rfl, Option.isSome_or, Option.isSome_some, Bool.or_true]
  refine ⟨⟨fault.trans host.fault, ?_, ?_⟩, here⟩
  · intro other use i looked
    rw [found] at looked
    cases old : s.synthetic.lookup (other, use) with
    | some j =>
        rw [old, Option.some_or, Option.some.injEq] at looked
        subst looked
        obtain ⟨call, none, e, offered, there⟩ := host.offers other use j old
        exact ⟨call, none, e, offered, table ▸ insert_extends s.descriptors d j e there⟩
    | none =>
        rw [old, Option.none_or] at looked
        split at looked
        · rename_i same
          obtain ⟨rfl, rfl⟩ := Prod.mk.inj same
          obtain rfl := Option.some.inj looked
          refine ⟨rfl, absent, d, builtin, ?_⟩
          rw [table, get?_insert]
          exact if_pos rfl
        · cases looked
  · intro other member none offered
    rw [asked, List.contains_cons, Bool.or_eq_true, beq_iff_eq] at member
    rcases member with same | member
    · obtain ⟨rfl, _⟩ := Prod.mk.inj same
      exact here
    · rw [found, Option.isSome_or, host.asked other member none offered, Bool.true_or]

/-- Asking for a name keeps the record of what was offered. -/
theorem consult_host (plain : Plain items ctx) {s : State} (host : Host ctx s) (name : String)
    (kind : ReferenceKind) :
    Quiet ctx s ((consult ctx name kind).run s).2 ∧
      (kind = .call → ctx.globals.lookup name = none → (Extension.builtin? name).isSome = true →
        ((((consult ctx name kind).run s).2).synthetic.lookup (name, kind)).isSome = true) := by
  have unfolded : (consult ctx name kind).run s =
      (if s.fault.isSome || s.asked.contains (name, kind) then pure () else do
        modify fun s => { s with asked := (name, kind) :: s.asked }
        askResolvers ctx name kind ctx.resolvers : Step Unit).run s := rfl
  rw [host.fault, Option.isSome_none, Bool.false_or] at unfolded
  by_cases before : s.asked.contains (name, kind) = true
  · have step : (consult ctx name kind).run s = ((), s) := by
      rw [unfolded, if_pos before]
      rfl
    rw [step]
    refine ⟨⟨host, .refl _, rfl, rfl⟩, ?_⟩
    intro same
    subst same
    exact host.asked name before
  · obtain ⟨record, resolvers⟩ := host_resolvers
    have step : (consult ctx name kind).run s =
        (askResolvers ctx name kind [(record, Extension.builtins)]).run
          { s with asked := (name, kind) :: s.asked } := by
      rw [unfolded, if_neg before, ← resolvers, ← plain.resolvers]
      rfl
    generalize ran : ((consult ctx name kind).run s).2 = s'
    rw [step] at ran
    obtain ⟨bindings, diagnostics, fault, asked, change⟩ := askResolvers_host ran
    rcases change with ⟨table, synthetic, refused⟩ | ⟨d, rfl, absent, builtin, table, synthetic⟩
    · have host' := host.refuse fault asked table synthetic refused
      refine ⟨⟨host', table ▸ .refl _, bindings, diagnostics⟩, ?_⟩
      intro call absent offered
      rw [refused call absent] at offered
      cases offered
    · obtain ⟨host', here⟩ := host.offer fault asked absent builtin table synthetic
      have extended : Extends s.descriptors s'.descriptors := by
        rw [table]
        exact insert_extends s.descriptors d
      exact ⟨⟨host', extended, bindings, diagnostics⟩, fun _ _ _ => here⟩

/-- In a unit of the host a name stands for an item or, in a call, for a function of the host. -/
theorem lookupGlobal_spec (plain : Plain items ctx) {s : State} (host : Host ctx s) (name : String)
    (kind : ReferenceKind) :
    Quiet ctx s ((lookupGlobal ctx name kind).run s).2 ∧
      Global ctx ((lookupGlobal ctx name kind).run s).2.descriptors name kind
        ((lookupGlobal ctx name kind).run s).1 := by
  obtain ⟨quiet, settled⟩ := consult_host plain host name kind
  exact ⟨quiet, quiet.host.global settled⟩

end Consult

/-! ## What always holds -/

/-- What holds of the state along a run in a unit of the host: what was offered is on record, and items
are described under their own numbers. -/
structure Standing (items : List (Source.Item Source.Site)) (ctx : Context) (s : State) : Prop where
  host : Host ctx s
  items : ∀ i item, items[i]? = some item →
    ∃ d, s.descriptors.get? i = some d ∧ d.name = item.name ∧ d.kind = itemKind item

namespace Standing

variable {items : List (Source.Item Source.Site)} {ctx : Context} {s s' : State}

/-- The state keeps standing if the table grows and nothing is asked for. -/
theorem of_extends (standing : Standing items ctx s)
    (extended : Extends s.descriptors s'.descriptors) (fault : s'.fault = s.fault)
    (synthetic : s'.synthetic = s.synthetic) (asked : s'.asked = s.asked) : Standing items ctx s' := by
  refine ⟨standing.host.of_extends extended fault synthetic asked, fun i item there => ?_⟩
  obtain ⟨d, found, rest⟩ := standing.items i item there
  exact ⟨d, extended i d found, rest⟩

theorem quiet (standing : Standing items ctx s) (quiet : Quiet ctx s s') :
    Standing items ctx s' := by
  refine ⟨quiet.host, fun i item there => ?_⟩
  obtain ⟨d, found, rest⟩ := standing.items i item there
  exact ⟨d, quiet.table i d found, rest⟩

theorem length_le (standing : Standing items ctx s) : items.length ≤ s.descriptors.size := by
  by_contra short
  rw [Nat.not_le] at short
  obtain ⟨d, found, _⟩ := standing.items _ _ (List.getElem?_eq_getElem short)
  exact Nat.lt_irrefl _ (Array.getElem?_eq_some_iff.mp found).1

end Standing

theorem get?_modify (D : Descriptor.Table) (i j : DescriptorId) (f : Descriptor → Descriptor) :
    (D.modify i f).get? j = if i = j then (D.get? j).map f else D.get? j :=
  Array.getElem?_modify

/-- The descriptor of an item may change as long as its name and its kind stay. -/
theorem Standing.modify {items : List (Source.Item Source.Site)} {ctx : Context} {s : State}
    (standing : Standing items ctx s) (plain : Plain items ctx) {i : DescriptorId}
    {item : Source.Item Source.Site} (there : items[i]? = some item) {f : Descriptor → Descriptor}
    (keeps : ∀ d, (f d).name = d.name ∧ (f d).kind = d.kind) :
    Standing items ctx { s with descriptors := s.descriptors.modify i f } := by
  obtain ⟨entry, found, named, _⟩ := standing.items i item there
  refine ⟨⟨standing.host.fault, ?_, standing.host.asked⟩, ?_⟩
  · intro name kind j offered
    obtain ⟨call, absent, d, builtin, at_j⟩ := standing.host.offers name kind j offered
    refine ⟨call, absent, d, builtin, ?_⟩
    rw [get?_modify, if_neg ?_, at_j]
    intro same
    subst same
    obtain rfl := Option.some.inj (found.symm.trans at_j)
    have looked : ctx.globals.lookup name = some i :=
      plain.lookup_eq_some_iff.mpr ⟨item, there, named.symm.trans (builtin?_name builtin)⟩
    rw [absent] at looked
    cases looked
  · intro j other at_j
    obtain ⟨d, found', named', kind'⟩ := standing.items j other at_j
    rw [get?_modify]
    by_cases same : i = j
    · rw [if_pos same, found']
      exact ⟨f d, rfl, (keeps d).1.trans named', (keeps d).2.trans kind'⟩
    · rw [if_neg same]
      exact ⟨d, found', named', kind'⟩

/-! ## Frames -/

/-- `s'` is `s` with further descriptors and with other bindings at the given constructs only. -/
structure Later (touched : List Source.SiteId) (s s' : State) : Prop where
  table : Extends s.descriptors s'.descriptors
  slots : s'.bindings.slots.size = s.bindings.slots.size
  frame : ∀ id, id ∉ touched → s'.bindings.get? id = s.bindings.get? id

namespace Later

variable {ids jds : List Source.SiteId} {s s' s'' : State}

theorem refl (ids : List Source.SiteId) (s : State) : Later ids s s :=
  ⟨.refl _, rfl, fun _ _ => rfl⟩

theorem trans (first : Later ids s s') (second : Later jds s' s'') : Later (ids ++ jds) s s'' := by
  refine ⟨first.table.trans second.table, second.slots.trans first.slots, fun id outside => ?_⟩
  rw [List.mem_append, not_or] at outside
  rw [second.frame id outside.2, first.frame id outside.1]

theorem mono (later : Later ids s s') (subset : ids ⊆ jds) : Later jds s s' :=
  ⟨later.table, later.slots, fun id outside => later.frame id fun inside => outside (subset inside)⟩

end Later

/-- To bind a construct that has a place changes the binding at that place only. -/
theorem get?_insert_binding (b : Bindings) (id i : Source.SiteId) (binding : Binding)
    (bound : id < b.slots.size) :
    (b.insert id binding).get? i = if i = id then some binding else b.get? i := by
  unfold Bindings.get? Bindings.insert
  by_cases same : i = id
  · subst same
    rw [if_pos rfl, Array.getElem?_setIfInBounds_self_of_lt bound]
    rfl
  · rw [if_neg same, Array.getElem?_setIfInBounds_ne (Ne.symm same)]

end StagedCompiler.Resolution
