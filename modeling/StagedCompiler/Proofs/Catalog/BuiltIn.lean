import StagedCompiler.Catalog.Builtin
import StagedCompiler.Analysis
import StagedCompiler.Lowering.Plan
import StagedCompiler.Proofs.Accessors.Rewriting
import StagedCompiler.Proofs.Analysis.Linking
import StagedCompiler.Proofs.Source.Numbering

/-!
# What built-in extensions can do

Whatever a manifest asks of the built-in catalog, its registry holds extensions of the host and of the
built-in plugins only (`discover_builtIn`).  None of them gives up, the only pass among them is the one
that lowers accessors, and the accessors of a table read fields that the table has
(`BuiltInOnly.subjectsKnown`).
-/

namespace StagedCompiler

open Source (bind_eq_ok)

/-- The extensions of the host and of the built-in plugins, with any options. -/
inductive Extension.BuiltIn : Extension → Prop
  | builtins : BuiltIn (.resolver Extension.builtins)
  | accessors (marker : String) : BuiltIn (.resolver (Accessors.resolver marker))
  | lowerAccessors : BuiltIn (.lowering Accessors.lowerAccessors)
  | naming (severity : Severity) : BuiltIn (.declarationChecker (NamingConvention.checker severity))
  | forbiddenCalls (names : List String) (severity : Severity) :
    BuiltIn (.callChecker (ForbiddenCalls.checker names severity))

/-- A registry of such extensions. -/
def Registry.BuiltInOnly (r : Registry) : Prop :=
  ∀ record ∈ r.records, record.extension.BuiltIn

/-! ## Discovery -/

/-- A plugin that contributes such extensions only. -/
def Plugin.Module.BuiltIn (m : Plugin.Module) : Prop :=
  ∀ options contributions, m.contributions options = .ok contributions →
    ∀ c ∈ contributions, c.extension.BuiltIn

/-- The plugin of accessors contributes its resolver and its pass, whatever its options are. -/
theorem accessors_contributions {options : PluginOptions} {contributions : List Plugin.Contribution}
    (given : Accessors.module.contributions options = .ok contributions) :
    ∃ marker, contributions = [.ofExtension (.resolver (Accessors.resolver marker)),
      .ofExtension (.lowering Accessors.lowerAccessors)] := by
  simp only [Accessors.module] at given
  split at given
  · cases given
  · exact ⟨_, (Except.ok.inj given).symm⟩

theorem naming_contributions {options : PluginOptions} {contributions : List Plugin.Contribution}
    (given : NamingConvention.module.contributions options = .ok contributions) :
    ∃ severity, contributions =
      [.ofExtension (.declarationChecker (NamingConvention.checker severity))] := by
  obtain ⟨severity, _, given⟩ := bind_eq_ok given
  exact ⟨severity, (Except.ok.inj given).symm⟩

/-- The plugin that forbids calls contributes one checker. -/
theorem forbiddenCalls_contributions {options : PluginOptions}
    {contributions : List Plugin.Contribution}
    (given : ForbiddenCalls.module.contributions options = .ok contributions) :
    ∃ names severity, contributions =
      [.ofExtension (.callChecker (ForbiddenCalls.checker names severity))] := by
  simp only [ForbiddenCalls.module] at given
  split at given
  · cases given
  · obtain ⟨severity, _, given⟩ := bind_eq_ok given
    exact ⟨_, severity, (Except.ok.inj given).symm⟩

theorem accessors_builtIn : Accessors.module.BuiltIn := by
  intro options contributions given
  obtain ⟨marker, rfl⟩ := accessors_contributions given
  rw [List.forall_mem_cons, List.forall_mem_singleton]
  exact ⟨.accessors marker, .lowerAccessors⟩

theorem naming_builtIn : NamingConvention.module.BuiltIn := by
  intro options contributions given
  obtain ⟨severity, rfl⟩ := naming_contributions given
  rw [List.forall_mem_singleton]
  exact .naming severity

theorem forbiddenCalls_builtIn : ForbiddenCalls.module.BuiltIn := by
  intro options contributions given
  obtain ⟨names, severity, rfl⟩ := forbiddenCalls_contributions given
  rw [List.forall_mem_singleton]
  exact .forbiddenCalls names severity

theorem Catalog.builtin_modules : Catalog.builtin.modules =
    [(Accessors.module.id, Accessors.module), (NamingConvention.module.id, NamingConvention.module),
      (ForbiddenCalls.module.id, ForbiddenCalls.module)] := rfl

/-- There are three built-in plugins. -/
theorem Catalog.builtin_get?_eq_some {id : String} {m : Plugin.Module}
    (found : Catalog.builtin.get? id = some m) :
    id = "accessors" ∧ m = Accessors.module ∨ id = "naming" ∧ m = NamingConvention.module ∨
      id = "forbid-calls" ∧ m = ForbiddenCalls.module := by
  unfold Catalog.get? at found
  obtain ⟨before, after, split, _⟩ := List.lookup_eq_some_iff.mp found
  have among : (id, m) ∈ Catalog.builtin.modules := by
    rw [split]
    simp
  simp only [builtin_modules, List.mem_cons, Prod.mk.injEq, List.not_mem_nil, or_false] at among
  exact among

theorem Catalog.builtin_get? {id : String} {m : Plugin.Module}
    (found : Catalog.builtin.get? id = some m) : m.BuiltIn := by
  rcases builtin_get?_eq_some found with ⟨_, rfl⟩ | ⟨_, rfl⟩ | ⟨_, rfl⟩
  · exact accessors_builtIn
  · exact naming_builtIn
  · exact forbiddenCalls_builtIn

/-- What every step of a fold that succeeds keeps. -/
theorem foldlM_keeps {ε α β : Type} {f : β → α → Except ε β} {P : β → Prop} {as : List α}
    (step : ∀ a ∈ as, ∀ b b', P b → f b a = .ok b' → P b') {b b' : β} (start : P b)
    (ran : as.foldlM f b = .ok b') : P b' := by
  induction as generalizing b with
  | nil =>
      obtain rfl := Except.ok.inj ran
      exact start
  | cons a rest ih =>
      rw [List.forall_mem_cons] at step
      rw [List.foldlM_cons] at ran
      obtain ⟨b₁, first, ran⟩ := bind_eq_ok ran
      exact ih step.2 (step.1 b b₁ start first) ran

namespace Registry

/-- One more built-in extension leaves all of them built-in. -/
theorem BuiltInOnly.push {r : Registry} (only : r.BuiltInOnly) {e : Extension} (builtIn : e.BuiltIn)
    (id : Extension.Id) (order : Option Int) (placement : Option Placement) :
    (r.push id e order placement).BuiltInOnly := by
  intro record member
  rcases List.mem_append.mp member with old | new
  · exact only record old
  · obtain rfl := List.mem_singleton.mp new
    exact builtIn

/-- So do several at once. -/
theorem BuiltInOnly.insertAll {r r' : Registry} (only : r.BuiltInOnly) {plugin : String}
    {order : Option Int} {placement : Option Placement} {contributions : List Plugin.Contribution}
    (builtIn : ∀ c ∈ contributions, c.extension.BuiltIn)
    (ran : r.insertAll plugin order placement contributions = .ok r') : r'.BuiltInOnly := by
  refine foldlM_keeps (fun c member r r' only inserted => ?_) only ran
  unfold insert at inserted
  dsimp only at inserted
  split at inserted
  · cases inserted
  · split at inserted
    · cases inserted
    · obtain rfl := Except.ok.inj inserted
      exact only.push (builtIn c member) _ _ _

/-- Enabling a built-in plugin registers built-in extensions only. -/
theorem BuiltInOnly.enable {r r' : Registry} (only : r.BuiltInOnly) {config : Manifest.Plugin}
    (ran : Registry.enable Catalog.builtin r config = .ok r') : r'.BuiltInOnly := by
  unfold Registry.enable at ran
  cases found : Catalog.builtin.get? config.id with
  | none =>
      rw [found] at ran
      cases ran
  | some m =>
      rw [found] at ran
      obtain ⟨_, _, ran⟩ := bind_eq_ok ran
      obtain ⟨contributions, given, ran⟩ := bind_eq_ok ran
      obtain ⟨r₁, inserted, ran⟩ := bind_eq_ok ran
      have only₁ := only.insertAll (Catalog.builtin_get? found _ _ given) inserted
      obtain rfl := Except.ok.inj ran
      exact only₁

theorem host_builtInOnly : host.BuiltInOnly := by
  intro record member
  obtain rfl := List.mem_singleton.mp member
  exact .builtins

/-- Discovery in the built-in catalog registers built-in extensions only. -/
theorem discover_builtIn {manifest : Manifest} {r : Registry}
    (discovered : discover manifest Catalog.builtin = .ok r) : r.BuiltInOnly :=
  foldlM_keeps (fun _ _ _ _ only ran => only.enable ran) host_builtInOnly discovered

/-! ## Extensions at work -/

section Points

variable {r : Registry} {record : Record}

/-- The extensions of one sort that work at a point are registered. -/
theorem mem_of_selected {α : Type} {e : α} (sort : α → Extension) {point : Extension.Point}
    {select : Record → Option (Record × α)}
    (selects : ∀ record entry, select record = some entry →
      entry.1 = record ∧ record.extension = sort entry.2)
    (member : (record, e) ∈ (r.extensionsFor point).filterMap select) :
    record ∈ r.records ∧ record.extension = sort e := by
  obtain ⟨other, among, is⟩ := List.mem_filterMap.mp member
  obtain ⟨rfl, extension⟩ := selects other _ is
  rw [extensionsFor, List.mem_mergeSort] at among
  exact ⟨(List.mem_filter.mp among).1, extension⟩

/-- What takes part as a resolver is registered as one, and likewise for checkers and passes. -/
theorem mem_resolvers {e : Extension.Resolver} (member : (record, e) ∈ r.resolvers) :
    record ∈ r.records ∧ record.extension = .resolver e :=
  mem_of_selected .resolver (fun _ _ is => by split at is <;> grind) member

theorem mem_declarationCheckers {e : Extension.DeclarationChecker}
    (member : (record, e) ∈ r.declarationCheckers) :
    record ∈ r.records ∧ record.extension = .declarationChecker e :=
  mem_of_selected .declarationChecker (fun _ _ is => by split at is <;> grind) member

theorem mem_callCheckers {e : Extension.CallChecker} (member : (record, e) ∈ r.callCheckers) :
    record ∈ r.records ∧ record.extension = .callChecker e :=
  mem_of_selected .callChecker (fun _ _ is => by split at is <;> grind) member

theorem mem_loweringPasses {e : Extension.Pass} (member : (record, e) ∈ r.loweringPasses) :
    record ∈ r.records ∧ record.extension = .lowering e :=
  mem_of_selected .lowering (fun _ _ is => by split at is <;> grind) member

end Points

namespace BuiltInOnly

variable {r : Registry}

/-- Built-in resolvers answer every request. -/
theorem calm (only : r.BuiltInOnly) {ctx : Resolution.Context} (resolvers : ctx.resolvers = r.resolvers) :
    Resolution.Calm ctx := by
  intro entry member request
  rw [resolvers] at member
  obtain ⟨among, extension⟩ := mem_resolvers member
  have builtIn := only _ among
  rw [extension] at builtIn
  generalize entry.2 = e at builtIn ⊢
  cases builtIn with
  | builtins => exact ⟨_, rfl⟩
  | accessors marker => exact ⟨_, rfl⟩

/-- Built-in checkers look at every site. -/
theorem runChecks_eq (only : r.BuiltInOnly) (tree : Tree) (b : Bindings) (D : Descriptor.Table) :
    ∃ checked, Checks.runChecks (Checks.invocations tree b D r) = .ok checked := by
  have each : ∀ i ∈ Checks.invocations tree b D r, ∃ findings, i.run = .ok findings := by
    intro i member
    rcases List.mem_append.mp member with declared | called
    · obtain ⟨⟨record, e⟩, checker, here⟩ := List.mem_flatMap.mp declared
      obtain ⟨site, _, rfl⟩ := List.mem_map.mp here
      obtain ⟨among, extension⟩ := mem_declarationCheckers checker
      have builtIn := only _ among
      rw [extension] at builtIn
      cases builtIn
      exact ⟨_, rfl⟩
    · obtain ⟨⟨record, e⟩, checker, here⟩ := List.mem_flatMap.mp called
      obtain ⟨site, _, rfl⟩ := List.mem_map.mp here
      obtain ⟨among, extension⟩ := mem_callCheckers checker
      have builtIn := only _ among
      rw [extension] at builtIn
      cases builtIn
      exact ⟨_, rfl⟩
  generalize Checks.invocations tree b D r = invocations at each ⊢
  induction invocations with
  | nil => exact ⟨[], rfl⟩
  | cons i rest ih =>
      rw [List.forall_mem_cons] at each
      obtain ⟨findings, ran⟩ := each.1
      obtain ⟨more, others⟩ := ih each.2
      refine ⟨findings ++ more, ?_⟩
      rw [Checks.runChecks, ran, others]
      rfl

/-- The only pass of a built-in plugin lowers accessors. -/
theorem loweringPasses_eq (only : r.BuiltInOnly) {record : Record} {pass : Extension.Pass}
    (member : (record, pass) ∈ r.loweringPasses) : pass = Accessors.lowerAccessors := by
  obtain ⟨among, extension⟩ := mem_loweringPasses member
  have builtIn := only _ among
  rw [extension] at builtIn
  cases builtIn
  rfl

end BuiltInOnly

end Registry

/-! ## Subjects of accessors -/

namespace Accessors

/-- What is offered is an accessor of a field in the table that the resolver was shown. -/
theorem offer?_eq_some {marker : String} {request : Extension.Request} {d : Descriptor}
    (offered : offer? marker request = some d) :
    ∃ id field owner, request.descriptors.get? id = some field ∧
      d = accessor request.name id field owner := by
  unfold offer? at offered
  dsimp only at offered
  split at offered
  · split at offered
    · rename_i id field only
      obtain ⟨owner, _, rfl⟩ := Option.map_eq_some_iff.mp offered
      have among : (id, field) ∈ fieldsNamed request.descriptors
          (request.name.toList.drop marker.toList.length) := by
        rw [only]
        exact List.mem_singleton_self _
      have listed := (List.mem_filter.mp among).1
      obtain ⟨⟨d, i⟩, place, is⟩ := List.mem_map.mp listed
      obtain ⟨rfl, rfl⟩ := Prod.mk.inj is
      rw [List.mem_zipIdx_iff_getElem?, Array.getElem?_toList] at place
      exact ⟨_, _, owner, place, rfl⟩
    · cases offered
  · cases offered

/-- An accessor reads a field of the table that its resolver was shown. -/
theorem offer?_subject {marker : String} {request : Extension.Request} {d : Descriptor}
    (offered : offer? marker request = some d) {extension : String} {field : DescriptorId}
    (origin : d.origin = .synthetic extension (some field)) :
    request.descriptors.contains field = true := by
  obtain ⟨id, entry, owner, found, rfl⟩ := offer?_eq_some offered
  simp only [accessor, Descriptor.Origin.synthetic.injEq, Option.some.injEq] at origin
  exact origin.2 ▸ Resolution.contains_iff.mpr ⟨entry, found⟩

end Accessors

/-- The accessors of a table that only built-in resolvers have added to read fields of the table. -/
theorem Registry.BuiltInOnly.subjectsKnown {r : Registry} (only : r.BuiltInOnly)
    {ctx : Resolution.Context} {D : Descriptor.Table}
    (stems : ∀ i d, D.get? i = some d → Resolution.Stems ctx D d)
    (resolvers : ctx.resolvers = r.resolvers) : Accessors.SubjectsKnown D := by
  intro i d field found origin
  cases stems i d found with
  | source source =>
      rw [source] at origin
      cases origin
  | @offered record resolver request member answered shown =>
      rw [resolvers] at member
      obtain ⟨among, extension⟩ := Registry.mem_resolvers member
      have builtIn := only _ among
      rw [extension] at builtIn
      cases builtIn with
      | builtins =>
          -- The host offers functions of its own, which are not synthetic.
          have offered := Except.ok.inj answered
          split at offered
          · obtain ⟨entry, _, rfl⟩ := Option.map_eq_some_iff.mp offered
            cases origin
          · cases offered
      | accessors marker =>
          exact shown.contains (Accessors.offer?_subject (Except.ok.inj answered) origin)

end StagedCompiler
