import StagedCompiler.Proofs.Analysis.Matching
import StagedCompiler.Proofs.Analysis.Findings

/-!
# Resolution reports what is found in signatures

`Finds x s found post` says of a step that it reports `found` and nothing else, whatever was reported
before, and that `post` holds of what it leaves behind.  Steps in sequence report what they report one
after another (`Finds.bind`).

In a unit of the host the state keeps its records (`Standing`) and the table only grows
(`Onward`), apart from the descriptors of items, which are given their signatures one by one
(`Spares`).  A type of the table and a type in words are related by `Shows`; as items have distinct
names, related types are compatible with the same types and have the same text.  At the end of the
first phase items have the signatures that `Findings.calleeOf` gives them (`Described`).
-/

namespace StagedCompiler.Resolution

open Source (Typed Item TypeRef Site)
open Findings (Finding Shown)

/-! ## Steps and what they report -/

/-- A diagnostic without its place. -/
def finding (d : Diagnostic) : Finding := (d.code, d.message)

/-- A complaint without its place. -/
def Complaint.finding (c : Complaint) : Finding := (c.code, c.message)

/-- A step reports the given findings and leaves behind what `post` says. -/
structure Finds {α : Type} (x : Step α) (s : State) (found : List Finding)
    (post : α → State → Prop) : Prop where
  reported : (x.run s).2.diagnostics.map finding = s.diagnostics.map finding ++ found
  holds : post (x.run s).1 (x.run s).2

namespace Finds

variable {α β : Type} {x : Step α} {f : α → Step β} {s : State} {found more : List Finding}
  {post : α → State → Prop} {post' : β → State → Prop}

theorem silent (same : (x.run s).2.diagnostics = s.diagnostics)
    (holds : post (x.run s).1 (x.run s).2) : Finds x s [] post :=
  ⟨by rw [same, List.append_nil], holds⟩

theorem pure {a : α} (holds : post a s) : Finds (Pure.pure a) s [] post :=
  .silent rfl holds

theorem mono {post' : α → State → Prop} (finds : Finds x s found post)
    (stronger : ∀ a s', post a s' → post' a s') : Finds x s found post' :=
  ⟨finds.reported, stronger _ _ finds.holds⟩

/-- Steps in sequence report what the first one reports and then what the second one does. -/
theorem bind (first : Finds x s found post)
    (next : ∀ a s', post a s' → Finds (f a) s' more post') :
    Finds (x >>= f) s (found ++ more) post' := by
  have second := next _ _ first.holds
  refine ⟨?_, second.holds⟩
  rw [← List.append_assoc, ← first.reported]
  exact second.reported

/-- Behind a step that reports nothing only the next one matters. -/
theorem andThen (first : Finds x s [] post)
    (next : ∀ a s', post a s' → Finds (f a) s' more post') : Finds (x >>= f) s more post' :=
  first.bind next

/-- Nothing is reported behind the last step that matters. -/
theorem finish (first : Finds x s found post)
    (next : ∀ a s', post a s' → Finds (f a) s' [] post') : Finds (x >>= f) s found post' := by
  have finds := first.bind next
  rw [List.append_nil] at finds
  exact finds

end Finds

variable {items : List (Item Site)} {ctx : Context} {s s' s'' : State}

/-- A run in a unit of the host that leaves the descriptors that there are as they are. -/
structure Onward (items : List (Item Site)) (ctx : Context) (s s' : State) : Prop where
  standing : Standing items ctx s'
  table : Extends s.descriptors s'.descriptors

theorem Onward.refl (standing : Standing items ctx s) : Onward items ctx s s :=
  ⟨standing, .refl _⟩

theorem Onward.trans (first : Onward items ctx s s') (second : Onward items ctx s' s'') :
    Onward items ctx s s'' :=
  ⟨second.standing, first.table.trans second.table⟩

/-- A report is one finding. -/
theorem report_finds (standing : Standing items ctx s) (code message : String) (site : Site) :
    Finds (report ctx code site message) s [(code, message)] fun _ s' =>
      Onward items ctx s s' ∧ s'.descriptors = s.descriptors := by
  refine ⟨?_, ⟨standing.of_extends (.refl _) rfl rfl rfl, .refl _⟩, rfl⟩
  exact List.map_append

/-- To bind a construct reports nothing, and neither does a remark on its binding. -/
theorem bind_finds (standing : Standing items ctx s) (site : Site) (b : Binding) :
    Finds (bind site b) s [] fun _ s' => Onward items ctx s s' :=
  .silent rfl ⟨standing.of_extends (.refl _) rfl rfl rfl, .refl _⟩

theorem flag_finds (standing : Standing items ctx s) (site : Site) (flags : Binding.Flags) :
    Finds (flag site flags) s [] fun _ s' =>
      Onward items ctx s s' ∧ s'.descriptors = s.descriptors :=
  .silent rfl ⟨⟨standing.of_extends (.refl _) rfl rfl rfl, .refl _⟩, rfl⟩

/-- Complaints change no descriptor. -/
theorem complain_finds (standing : Standing items ctx s) (complaints : List Complaint) :
    Finds (complain ctx complaints) s (complaints.map Complaint.finding) fun _ s' =>
      Onward items ctx s s' ∧ s'.descriptors = s.descriptors := by
  induction complaints generalizing s with
  | nil => exact .pure ⟨.refl standing, rfl⟩
  | cons c rest ih =>
      show Finds _ s ([c.finding] ++ rest.map Complaint.finding) _
      refine (report_finds standing c.code c.message c.site).bind ?_
      rintro _ s₁ ⟨onward₁, table₁⟩
      cases c.remarked with
      | false =>
          refine (ih onward₁.standing).mono ?_
          exact fun _ s₂ post => ⟨onward₁.trans post.1, post.2.trans table₁⟩
      | true =>
          refine (flag_finds onward₁.standing c.site mismatch).andThen ?_
          rintro _ s₂ ⟨onward₂, table₂⟩
          refine (ih onward₂.standing).mono ?_
          exact fun _ s₃ post =>
            ⟨(onward₁.trans onward₂).trans post.1, post.2.trans (table₂.trans table₁)⟩

/-- What is reported of a construct is what is said of it. -/
theorem judge_finds {α : Type} (standing : Standing items ctx s)
    (verdict : Descriptor.Table → Verdict α) :
    Finds (judge ctx verdict) s ((verdict s.descriptors).complaints.map Complaint.finding) fun a s' =>
      Onward items ctx s s' ∧ s'.descriptors = s.descriptors ∧ a = (verdict s.descriptors).value := by
  have complained := complain_finds standing (verdict s.descriptors).complaints
  exact ⟨complained.reported, complained.holds.1, complained.holds.2, rfl⟩

/-- A declaration reports nothing and describes itself behind the items. -/
theorem declare_finds (standing : Standing items ctx s) (site : Site) (name : String)
    (kind : Descriptor.Kind) (owner : DescriptorId) (ty : Ty) (flags : Binding.Flags) :
    Finds (declare site name kind owner ty flags) s [] fun i s' => Onward items ctx s s' ∧
      (∃ d, s'.descriptors.get? i = some d ∧ d.name = name ∧ d.kind = kind ∧ d.ty = ty) ∧
      items.length ≤ i := by
  obtain ⟨d, named, kinded, typed, described⟩ : ∃ d : Descriptor, d.name = name ∧ d.kind = kind ∧
      d.ty = ty ∧ ((declare site name kind owner ty flags).run s).2.descriptors =
        s.descriptors.insert d := ⟨_, rfl, rfl, rfl, rfl⟩
  have extended := insert_extends s.descriptors d
  rw [← described] at extended
  refine .silent rfl ⟨⟨standing.of_extends extended rfl rfl rfl, extended⟩,
    ⟨d, ?_, named, kinded, typed⟩, standing.length_le⟩
  rw [described]
  show (s.descriptors.insert d).get? s.descriptors.size = some d
  rw [get?_insert, if_pos rfl]

/-- What is reported of a use of a name is what is said of what the name stands for. -/
theorem resolveUse_finds (plain : Plain items ctx) (standing : Standing items ctx s) (site : Site)
    {name : String} {kind : ReferenceKind}
    {verdict : Option DescriptorId → Descriptor.Table → Verdict Binding} {said : List Finding}
    {holds : Ty → Prop}
    (told : ∀ found s', Onward items ctx s s' → Global ctx s'.descriptors name kind found →
      (verdict found s'.descriptors).complaints.map Complaint.finding = said ∧
        holds (verdict found s'.descriptors).value.ty) :
    Finds (resolveUse ctx site name kind verdict) s said fun ty s' =>
      Onward items ctx s s' ∧ holds ty := by
  obtain ⟨quiet, global⟩ := lookupGlobal_spec plain standing.host name kind
  have onward : Onward items ctx s ((lookupGlobal ctx name kind).run s).2 :=
    ⟨standing.quiet quiet, quiet.table⟩
  have looked : Finds (lookupGlobal ctx name kind) s [] fun found s' =>
      Onward items ctx s s' ∧ Global ctx s'.descriptors name kind found :=
    .silent quiet.diagnostics ⟨onward, global⟩
  refine looked.andThen ?_
  rintro found s₁ ⟨onward₁, global⟩
  obtain ⟨rfl, held⟩ := told found s₁ onward₁ global
  refine (judge_finds onward₁.standing (verdict found)).finish ?_
  rintro _ s₂ ⟨onward₂, _, rfl⟩
  exact (bind_finds onward₂.standing site _).andThen fun _ s₃ onward₃ =>
    .pure ⟨(onward₁.trans onward₂).trans onward₃, held⟩

/-! ## Types in words -/

/-- A type of a unit in words. -/
inductive Shows (items : List (Item Site)) : Ty → Shown → Prop
  | int : Shows items .int .int
  | bool : Shows items .bool .bool
  | str : Shows items .str .str
  | unit : Shows items .unit .unit
  | cls {i : DescriptorId} {item : Item Site} : items[i]? = some item →
    Shows items (.cls i) (.cls item.name)
  | param {name : String} : Shows items (.param name) (.param name)
  | error : Shows items .error .error

/-- A type has the text that it has in words. -/
theorem Shows.text {ty : Ty} {shown : Shown} (words : Shows items ty shown)
    (standing : Standing items ctx s) : s.descriptors.tyText ty = shown.text := by
  cases words with
  | @cls i item there =>
      obtain ⟨d, entry, named, _⟩ := standing.items i item there
      show ((s.descriptors.get? i).map (·.name)).getD _ = item.name
      rw [entry, ← named]
      rfl
  | _ => rfl

/-- Two classes are one if they have one name, so words tell types apart. -/
theorem Shows.accepts (names : (items.map Item.name).Nodup) {a b : Ty} {a' b' : Shown}
    (left : Shows items a a') (right : Shows items b b') : a.accepts b = a'.accepts b' := by
  cases left with
  | @cls i item there =>
      cases right with
      | @cls j other there' =>
          show (Ty.cls i == Ty.cls j) = (Shown.cls item.name == Shown.cls other.name)
          by_cases same : i = j
          · subst same
            obtain rfl := Option.some.inj (there.symm.trans there')
            rw [beq_self_eq_true, beq_self_eq_true]
          · have differ : item.name ≠ other.name := fun named =>
              same (Typing.index_unique names there there' named)
            rw [beq_false_of_ne (by simpa using same), beq_false_of_ne (by simpa using differ)]
      | _ => rfl
  | _ => cases right <;> rfl

theorem Shows.quoted (standing : Standing items ctx s) {ty : Ty} {shown : Shown}
    (words : Shows items ty shown) : quoted s.descriptors ty = shown.quoted := by
  unfold Resolution.quoted
  rw [words.text standing]
  rfl

/-- The item of a unit that a name stands for, without marks. -/
abbrev named (items : List (Item Site)) : String → Option (Item Unit) :=
  Findings.itemNamed (items.map Item.bare)

section Named

variable {name : String} {i : DescriptorId} {item : Item Site}

/-- As names are distinct, the name of an item gives the item back. -/
theorem named_of_getElem? (names : (items.map Item.name).Nodup) (there : items[i]? = some item) :
    named items item.name = some item.bare := by
  refine (Findings.itemNamed_eq_some_iff (by rwa [Source.map_bare_name])).mpr ⟨?_, item.bare_name⟩
  exact List.mem_map_of_mem (List.mem_of_getElem? there)

/-- A name that no item has gives nothing. -/
theorem named_eq_none (absent : ∀ item ∈ items, item.name ≠ name) : named items name = none := by
  unfold named Findings.itemNamed
  rw [List.find?_eq_none]
  intro other among
  obtain ⟨item, member, rfl⟩ := List.mem_map.mp among
  simpa using absent item member

theorem Plain.named_of_lookup (plain : Plain items ctx) (looked : ctx.globals.lookup name = some i) :
    ∃ item, items[i]? = some item ∧ named items name = some item.bare := by
  obtain ⟨item, there, rfl⟩ := plain.lookup_eq_some_iff.mp looked
  exact ⟨item, there, named_of_getElem? plain.names there⟩

theorem Plain.named_of_absent (plain : Plain items ctx) (looked : ctx.globals.lookup name = none) :
    named items name = none :=
  named_eq_none (plain.lookup_eq_none_iff.mp looked)

end Named

/-- A name is that of a class in words exactly if an item is a class of that name. -/
theorem isClass_iff (names : (items.map Item.name).Nodup) {name : String} :
    Findings.isClass (named items) name = true ↔
      ∃ (i : Nat) (site : Site) (fields : List (Typed Site)), items[i]? = some (.cls site name fields) := by
  constructor
  · intro is
    unfold Findings.isClass at is
    cases found : named items name with
    | none => rw [found] at is; cases is
    | some bare =>
        obtain ⟨among, called⟩ := (Findings.itemNamed_eq_some_iff (by rwa [Source.map_bare_name])).mp found
        obtain ⟨item, member, rfl⟩ := List.mem_map.mp among
        obtain ⟨i, there⟩ := List.mem_iff_getElem?.mp member
        cases item with
        | function => rw [found] at is; cases is
        | cls site name' fields =>
            obtain rfl : name' = name := called
            exact ⟨i, site, fields, there⟩
  · intro given
    rcases given with ⟨i, site, fields, there⟩
    have found : named items name = some _ := named_of_getElem? names there
    unfold Findings.isClass
    rw [found]
    rfl

/-- The same names are built-in types in words and in the table, and they show the same types. -/
theorem builtin?_shows (items : List (Item Site)) (name : String) :
    (Ty.builtin? name = none ∧ Shown.builtin? name = none) ∨
      ∃ ty shown, Ty.builtin? name = some ty ∧ Shown.builtin? name = some shown ∧
        Shows items ty shown := by
  unfold Shown.builtin? Ty.builtin?
  split
  · exact Or.inr ⟨_, _, rfl, rfl, .int⟩
  · exact Or.inr ⟨_, _, rfl, rfl, .bool⟩
  · exact Or.inr ⟨_, _, rfl, rfl, .str⟩
  · exact Or.inr ⟨_, _, rfl, rfl, .unit⟩
  · exact Or.inl ⟨rfl, rfl⟩

/-- The class of a name, with its descriptor. -/
inductive ClassNamed (items : List (Item Site)) (D : Descriptor.Table) (name : String) :
    Option (DescriptorId × Descriptor) → Prop
  | found {i : DescriptorId} {d : Descriptor} {site : Site} {fields : List (Typed Site)} :
    items[i]? = some (.cls site name fields) → D.get? i = some d →
    ClassNamed items D name (some (i, d))
  | missing : (∀ (i : Nat) site fields, items[i]? ≠ some (Item.cls site name fields)) →
    ClassNamed items D name none

/-- As a type a name stands for the class of that name. -/
theorem Global.classNamed (plain : Plain items ctx) (standing : Standing items ctx s) {name : String}
    {found : Option DescriptorId} (global : Global ctx s.descriptors name .type found) :
    ClassNamed items s.descriptors name (classAt s.descriptors found) := by
  cases global with
  | nothing absent _ =>
      refine .missing fun i site fields there => ?_
      exact plain.lookup_eq_none_iff.mp absent _ (List.mem_of_getElem? there) rfl
  | host _ call _ _ => cases call
  | @item i looked =>
      obtain ⟨item, there, named⟩ := plain.lookup_eq_some_iff.mp looked
      obtain ⟨d, entry, _, kind⟩ := standing.items i item there
      rw [classAt, Option.bind_some, entry, Option.bind_some]
      cases item with
      | cls site name' fields =>
          obtain rfl : name' = name := named
          have is : (d.kind == .cls) = true := by rw [kind]; rfl
          rw [if_pos is]
          exact .found there entry
      | function site name' typeParams params returns body =>
          have is : ¬ (d.kind == .cls) = true := by rw [kind]; simp [itemKind]
          rw [if_neg is]
          refine .missing fun j site' fields there' => ?_
          have same := Typing.index_unique plain.names there there' named
          rw [same, there'] at there
          cases there

/-- A name that is a type has no findings and stands for that type. -/
theorem typeFindings_of_some {typeParams : List String} {t : TypeRef Site} {shown : Shown}
    (is : Findings.typeOf? (named items) typeParams t.name = some shown) :
    Findings.typeFindings (named items) typeParams t.bare = [] ∧
      Findings.typeOf (named items) typeParams t.bare = shown := by
  unfold Findings.typeFindings Findings.typeOf TypeRef.bare
  rw [is]
  exact ⟨rfl, rfl⟩

/-- A name of a type that is not reserved stands for the class of that name, or else it is reported. -/
theorem typeVerdict_finds (plain : Plain items ctx) (standing : Standing items ctx s)
    {typeParams : List String} {t : TypeRef Site} (builtin : Shown.builtin? t.name = none)
    (free : t.name ∉ typeParams) {found : Option DescriptorId}
    (global : Global ctx s.descriptors t.name .type found) :
    (typeVerdict t found s.descriptors).complaints.map Complaint.finding =
        Findings.typeFindings (named items) typeParams t.bare ∧
      Shows items (typeVerdict t found s.descriptors).value.ty
        (Findings.typeOf (named items) typeParams t.bare) := by
  have classed := global.classNamed plain standing
  have class? : Findings.typeOf? (named items) typeParams t.name =
      if Findings.isClass (named items) t.name then some (.cls t.name) else none := by
    rw [Findings.typeOf?, builtin]
    exact if_neg fun is => free (List.contains_iff_mem.mp is)
  unfold typeVerdict
  generalize classAt s.descriptors found = entry at classed
  cases classed with
  | @found i d site fields there entry =>
      rw [if_pos ((isClass_iff plain.names).mpr ⟨i, site, fields, there⟩)] at class?
      rw [(typeFindings_of_some class?).1, (typeFindings_of_some class?).2]
      exact ⟨rfl, .cls there⟩
  | missing absent =>
      rw [if_neg fun is => ?_] at class?
      · unfold Findings.typeFindings Findings.typeOf TypeRef.bare
        rw [class?]
        exact ⟨rfl, .error⟩
      · obtain ⟨i, site, fields, there⟩ := (isClass_iff plain.names).mp is
        exact absent i site fields there

/-- The name of a type is resolved to the type that it stands for; a name that stands for none is
reported. -/
theorem resolveType_finds (plain : Plain items ctx) (standing : Standing items ctx s)
    (typeParams : List String) (t : TypeRef Site) :
    Finds (resolveType ctx typeParams t) s (Findings.typeFindings (named items) typeParams t.bare)
      fun ty s' => Onward items ctx s s' ∧
        Shows items ty (Findings.typeOf (named items) typeParams t.bare) := by
  rw [resolveType_eq]
  rcases builtin?_shows items t.name with ⟨builtin, reserved⟩ | ⟨ty, shown, builtin, reserved, words⟩
  · by_cases member : t.name ∈ typeParams
    · have contained := List.contains_iff_mem.mpr member
      have is : Findings.typeOf? (named items) typeParams t.name = some (.param t.name) := by
        rw [Findings.typeOf?, reserved]
        exact if_pos contained
      rw [reserved?, builtin, Option.none_or, if_pos contained, (typeFindings_of_some is).1,
        (typeFindings_of_some is).2]
      exact (bind_finds standing _ _).andThen fun _ s' onward => .pure ⟨onward, .param⟩
    · rw [reserved?, builtin, Option.none_or,
        if_neg fun contained => member (List.contains_iff_mem.mp contained)]
      exact resolveUse_finds plain standing t.site fun found s' onward global =>
        typeVerdict_finds plain onward.standing reserved member global
  · have is : Findings.typeOf? (named items) typeParams t.name = some shown := by
      rw [Findings.typeOf?, reserved]
    rw [reserved?, builtin, Option.some_or, (typeFindings_of_some is).1, (typeFindings_of_some is).2]
    exact (bind_finds standing _ _).andThen fun _ s' onward => .pure ⟨onward, words⟩

/-! ## Members -/

/-- A member has a descriptor with its name and type. -/
structure Entered (items : List (Item Site)) (D : Descriptor.Table) (kind : Descriptor.Kind)
    (typeParams : List String) (m : Typed Site) (p : Descriptor.Param × DescriptorId) : Prop where
  name : p.1.name = m.name
  entry : ∃ d, D.get? p.2 = some d ∧ d.name = m.name ∧ d.kind = kind ∧ d.ty = p.1.ty
  words : Shows items p.1.ty (Findings.typeOf (named items) typeParams m.type.bare)
  fresh : items.length ≤ p.2

/-- A member stays entered as long as the descriptors behind the items stay. -/
theorem Entered.of_get? {D D' : Descriptor.Table} {kind : Descriptor.Kind} {typeParams : List String}
    {m : Typed Site} {p : Descriptor.Param × DescriptorId} (entered : Entered items D kind typeParams m p)
    (kept : ∀ i d, items.length ≤ i → D.get? i = some d → D'.get? i = some d) :
    Entered items D' kind typeParams m p := by
  obtain ⟨name, ⟨d, entry, described⟩, words, fresh⟩ := entered
  exact ⟨name, ⟨d, kept _ d fresh entry, described⟩, words, fresh⟩

/-- A member reports what is found in its type and is entered behind the items. -/
theorem enterMember_finds (plain : Plain items ctx) (standing : Standing items ctx s)
    (owner : DescriptorId) (kind : Descriptor.Kind) (typeParams : List String) (m : Typed Site) :
    Finds (enterMember ctx owner kind typeParams m) s
      (Findings.typeFindings (named items) typeParams m.type.bare) fun p s' =>
        Onward items ctx s s' ∧ Entered items s'.descriptors kind typeParams m p := by
  refine (resolveType_finds plain standing typeParams m.type).finish ?_
  rintro ty s₁ ⟨onward₁, words⟩
  refine (declare_finds onward₁.standing m.site m.name kind owner ty {}).andThen ?_
  rintro i s₂ ⟨onward₂, entry, fresh⟩
  exact .pure ⟨onward₁.trans onward₂, rfl, entry, words, fresh⟩

/-- Members report what is found in them one by one, and all of them are entered. -/
theorem resolveMembers_finds (plain : Plain items ctx) (standing : Standing items ctx s)
    (owner : DescriptorId) (kind : Descriptor.Kind) (typeParams : List String)
    (duplicate : String → String) (seen : List String) (members : List (Typed Site)) :
    Finds (resolveMembers ctx owner kind typeParams duplicate seen members) s
      (Findings.memberFindings (named items) typeParams duplicate seen (members.map Typed.bare))
      fun ps s' => Onward items ctx s s' ∧
        List.Forall₂ (Entered items s'.descriptors kind typeParams) members ps := by
  induction members generalizing seen s with
  | nil => exact .pure ⟨.refl standing, .nil⟩
  | cons m rest ih =>
      rw [resolveMembers_cons, List.map_cons, Findings.memberFindings]
      have named : ∀ D : Descriptor.Table,
          (nameVerdict seen m.name m.site (duplicate m.name) D).complaints.map Complaint.finding =
            if seen.contains m.bare.name then [(duplicateCode, duplicate m.bare.name)] else [] := by
        intro D
        have same : m.bare.name = m.name := rfl
        rw [same]
        unfold nameVerdict
        split <;> rfl
      rw [← named s.descriptors]
      refine (judge_finds standing _).bind ?_
      rintro _ s₁ ⟨onward₁, _⟩
      refine (enterMember_finds plain onward₁.standing owner kind typeParams m).bind ?_
      rintro p s₂ ⟨onward₂, entered⟩
      refine (ih onward₂.standing (m.name :: seen)).finish ?_
      rintro ps s₃ ⟨onward₃, each⟩
      refine .pure ⟨(onward₁.trans onward₂).trans onward₃, .cons ?_ each⟩
      exact entered.of_get? fun i d _ => onward₃.table i d

/-! ## Items -/

/-- The tables differ at most in the descriptors of items from number `first` on. -/
def Spares (items : List (Item Site)) (first : DescriptorId) (D D' : Descriptor.Table) : Prop :=
  ∀ i d, i < first ∨ items.length ≤ i → D.get? i = some d → D'.get? i = some d

section Spares

variable {first later : DescriptorId} {D D' D'' : Descriptor.Table}

theorem Extends.spares (extended : Extends D D') : Spares items first D D' :=
  fun i d _ => extended i d

/-- Tables that differ from one item on, and then from a later one on, differ from the former on. -/
theorem Spares.trans (before : Spares items first D D') (after : Spares items later D' D'')
    (le : first ≤ later) : Spares items first D D'' := by
  intro i d outside found
  refine after i d ?_ (before i d outside found)
  exact outside.imp (fun low => Nat.lt_of_lt_of_le low le) id

end Spares

/-- The item with number `i` is described by its signature; `params` are the descriptors of a function's
parameters. -/
def HeadFound (items : List (Item Site)) (D : Descriptor.Table) (i : DescriptorId)
    (item : Item Site) (params : List DescriptorId) : Prop :=
  ∃ d ps, D.get? i = some d ∧ d.params = ps.map (·.1) ∧
    Shows items d.ty (Findings.calleeOf (named items) item.bare).result ∧
    List.Forall₂ (Entered items D (memberKind item) (typeParamsOf item)) (Typing.members item) ps ∧
    (itemKind item = .function → params = ps.map (·.2))

/-- The signature of an item stays while those of later items are filled in. -/
theorem HeadFound.spares {D D' : Descriptor.Table} {i : DescriptorId} {item : Item Site}
    {params : List DescriptorId} (head : HeadFound items D i item params)
    (spares : Spares items (i + 1) D D') : HeadFound items D' i item params := by
  obtain ⟨d, ps, entry, listed, words, each, function⟩ := head
  refine ⟨d, ps, spares i d (Or.inl (Nat.lt_succ_self i)) entry, listed, words, each.imp ?_, function⟩
  intro m p entered
  exact entered.of_get? fun j d fresh => spares j d (Or.inr fresh)

/-- To fill in the signature of an item reports nothing and spares the items before it. -/
theorem enterSignature_finds (plain : Plain items ctx) (standing : Standing items ctx s)
    {i : DescriptorId} {item : Item Site} (there : items[i]? = some item)
    {f : Descriptor → Descriptor} (keeps : ∀ d, (f d).name = d.name ∧ (f d).kind = d.kind)
    (site : Site) (ty : Ty) :
    Finds (enterSignature i site f ty) s [] fun _ s' => Standing items ctx s' ∧
      Spares items i s.descriptors s'.descriptors ∧
      ∃ d, s'.descriptors.get? i = some (f d) := by
  obtain ⟨d, entry, _⟩ := standing.items i item there
  have small : i < items.length := (List.getElem?_eq_some_iff.mp there).1
  have modified : Standing items ctx { s with descriptors := s.descriptors.modify i f } :=
    standing.modify plain there keeps
  refine .silent rfl ⟨modified.of_extends (.refl _) rfl rfl rfl, fun j e outside found => ?_, d, ?_⟩
  · have other : i ≠ j := by
      rcases outside with low | high
      · exact Ne.symm (Nat.ne_of_lt low)
      · exact Nat.ne_of_lt (Nat.lt_of_lt_of_le small high)
    show (s.descriptors.modify i f).get? j = some e
    rw [get?_modify, if_neg other, found]
  · show (s.descriptors.modify i f).get? i = some (f d)
    rw [get?_modify, if_pos rfl, entry]
    rfl

/-- What a function returns reports what is found in its type. -/
theorem resolveReturns_finds (plain : Plain items ctx) (standing : Standing items ctx s)
    (typeParams : List String) (returns : Option (TypeRef Site)) :
    Finds (resolveReturns ctx typeParams returns) s
      ((returns.map TypeRef.bare).toList.flatMap (Findings.typeFindings (named items) typeParams))
      fun ty s' => Onward items ctx s s' ∧
        Shows items ty (Findings.returned (named items) typeParams (returns.map TypeRef.bare)) := by
  cases returns with
  | none => exact .pure ⟨.refl standing, .unit⟩
  | some t =>
      rw [Option.map_some, Option.toList_some, List.flatMap_singleton]
      exact resolveType_finds plain standing typeParams t

/-- An item is given its signature. -/
theorem resolveSignature_finds (plain : Plain items ctx) (standing : Standing items ctx s)
    {i : DescriptorId} {item : Item Site} (there : items[i]? = some item) :
    Finds (resolveSignature ctx i item) s (Findings.headFindings (named items) item.bare)
      fun params s' => Standing items ctx s' ∧ Spares items i s.descriptors s'.descriptors ∧
        HeadFound items s'.descriptors i item params := by
  cases item with
  | cls site name fields =>
      rw [resolveSignature_cls, Item.bare, Findings.headFindings]
      refine (resolveMembers_finds plain standing i .field [] _ [] fields).finish ?_
      intro ps s₁ post
      rcases post with ⟨onward₁, each⟩
      refine (enterSignature_finds plain onward₁.standing there (fun d => ⟨by rfl, by rfl⟩) site
        (.cls i)).andThen ?_
      intro _ s₂ post
      rcases post with ⟨standing₂, spares₂, d, entry⟩
      refine .pure ⟨standing₂, onward₁.table.spares.trans spares₂ (Nat.le_refl i), _, ps, entry, rfl,
        .cls there, each.imp ?_, fun is => by cases is⟩
      exact fun m p entered => entered.of_get? fun j d fresh => spares₂ j d (Or.inr fresh)
  | function site name typeParams params returns body =>
      rw [resolveSignature_function, Item.bare, Findings.headFindings]
      refine (resolveMembers_finds plain standing i .param typeParams _ [] params).bind ?_
      intro ps s₁ post
      rcases post with ⟨onward₁, each⟩
      refine (resolveReturns_finds plain onward₁.standing typeParams returns).finish ?_
      intro result s₂ post
      rcases post with ⟨onward₂, words⟩
      refine (enterSignature_finds plain onward₂.standing there (fun d => ⟨by rfl, by rfl⟩) site
        result).andThen ?_
      intro _ s₃ post
      rcases post with ⟨standing₃, spares₃, d, entry⟩
      have spares := onward₂.table.spares.trans spares₃ (Nat.le_refl i)
      refine .pure ⟨standing₃, onward₁.table.spares.trans spares (Nat.le_refl i), _, ps, entry, rfl,
        words, each.imp ?_, fun _ => rfl⟩
      exact fun m p entered => entered.of_get? fun j d fresh => spares j d (Or.inr fresh)

/-- Items with consecutive numbers are described by their signatures. -/
def HeadsFound (items : List (Item Site)) (D : Descriptor.Table) (first : DescriptorId)
    (rest : List (Item Site)) (params : List (List DescriptorId)) : Prop :=
  List.Forall₂ (fun entry params => HeadFound items D entry.2 entry.1 params) (rest.zipIdx first) params

/-- All items are given their signatures. -/
theorem resolveSignatures_finds (plain : Plain items ctx) (standing : Standing items ctx s)
    {first : DescriptorId} {rest : List (Item Site)} (suffix : Suffix items first rest) :
    Finds (resolveSignatures ctx first rest) s
      (rest.flatMap fun item => Findings.headFindings (named items) item.bare)
      fun params s' => Standing items ctx s' ∧ Spares items first s.descriptors s'.descriptors ∧
        HeadsFound items s'.descriptors first rest params := by
  induction rest generalizing first s with
  | nil => exact .pure ⟨standing, (Extends.refl _).spares, .nil⟩
  | cons item rest ih =>
      rw [resolveSignatures, List.flatMap_cons]
      refine (resolveSignature_finds plain standing suffix.head).bind ?_
      intro params s₁ post
      rcases post with ⟨standing₁, spares₁, head₁⟩
      refine (ih standing₁ suffix.tail).finish ?_
      intro more s₂ post
      rcases post with ⟨standing₂, spares₂, heads₂⟩
      refine .pure ⟨standing₂, spares₁.trans spares₂ (Nat.le_succ first), ?_⟩
      rw [HeadsFound, List.zipIdx_cons]
      exact .cons (head₁.spares spares₂) heads₂

/-- Items with distinct names are not reported. -/
theorem reportDuplicates_finds (seen : List String) (rest : List (Item Site))
    (new : NewNames Item.name seen rest) :
    Finds (reportDuplicates ctx seen rest) s [] fun _ s' => s' = s := by
  induction rest generalizing seen with
  | nil => exact .pure rfl
  | cons item rest ih =>
      obtain ⟨here, new⟩ := newNames_cons_iff.mp new
      rw [reportDuplicates, if_neg fun again => here (List.contains_iff_mem.mp again)]
      exact ih _ new

end StagedCompiler.Resolution
