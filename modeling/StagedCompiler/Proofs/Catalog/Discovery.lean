import StagedCompiler.Manifest.Reader
import StagedCompiler.Proofs.Catalog.BuiltIn
import StagedCompiler.Proofs.Registry.Discovery
import StagedCompiler.Proofs.Text.Trimming

/-!
# Discovery among the built-in plugins

For every manifest that is accepted, discovery in the built-in catalog registers what the manifest asks
for, or it fails with the first thing that is wrong (`builtin_discovers_accepted`).

* The built-in catalog is sound (`Catalog.builtin_sound`), and a manifest that is accepted enables no
  plugin twice (`Manifest.once_of_parse`).
* Its plugins refuse an empty prefix, an unknown severity, and names without a name among them, and
  nothing else (`Catalog.builtin_contributions_eq_error_iff`).
-/

namespace StagedCompiler

/-! ## Identities in a manifest -/

namespace Manifest

/-- Plugins that pass the check are named once. -/
theorem once_of_checkPlugins {source : String} {seen : List String} {plugins : List Plugin}
    (accepted : checkPlugins source seen plugins = .ok ()) :
    (plugins.map (·.id)).Nodup ∧ ∀ p ∈ plugins, p.id ∉ seen := by
  induction plugins generalizing seen with
  | nil => exact ⟨List.nodup_nil, by simp⟩
  | cons p rest ih =>
      unfold checkPlugins at accepted
      split at accepted
      · cases accepted
      split at accepted
      · cases accepted
      rename_i fresh
      split at accepted
      · cases accepted
      obtain ⟨once, others⟩ := ih accepted
      simp only [List.mem_cons, not_or] at others
      rw [List.contains_iff_mem] at fresh
      rw [List.map_cons, List.nodup_cons, List.forall_mem_cons]
      refine ⟨⟨?_, once⟩, fresh, fun q member => (others q member).2⟩
      rintro again
      obtain ⟨q, member, same⟩ := List.mem_map.mp again
      exact (others q member).1 same

/-- A manifest that is accepted enables no plugin twice. -/
theorem once_of_parse {source : String} {manifest : Manifest}
    (accepted : parse source = .ok manifest) : (manifest.plugins.map (·.id)).Nodup := by
  unfold parse at accepted
  split at accepted
  · cases accepted
  split at accepted
  · cases accepted
  rename_i checked
  obtain rfl := Except.ok.inj accepted
  unfold check at checked
  split at checked
  · cases checked
  split at checked
  · cases checked
  exact (once_of_checkPlugins checked).1

end Manifest

/-! ## What the built-in plugins refuse -/

/-- The words for severities, in small letters. -/
def Severity.words : List String := ["error", "warning", "warn", "info"]

/-- A word is no severity exactly if it is none of the known ones, in any case. -/
theorem Severity.parse?_eq_none_iff {s : String} :
    Severity.parse? s = none ↔ Text.asciiLower s ∉ Severity.words := by
  unfold Severity.parse? Severity.words
  split <;> simp_all

/-- The option for the severity is refused exactly if its word is no severity. -/
theorem Plugin.severityOption_eq_error_iff {o : PluginOptions} {default : Severity} {e : ConfigError} :
    Plugin.severityOption o default = .error e ↔ ∃ word, o.get? "severity" = some word ∧
      Text.asciiLower word ∉ Severity.words ∧
      e = .invalidOption o.plugin "severity" word "expected one of: error, warning, info" := by
  unfold Plugin.severityOption
  cases o.get? "severity" with
  | none => exact iff_of_false nofun nofun
  | some word =>
      simp only [Option.some.injEq, exists_eq_left', ← Severity.parse?_eq_none_iff]
      cases Severity.parse? word with
      | none => simp only [Except.error.injEq, true_and, eq_comm]
      | some severity => exact iff_of_false nofun fun both => nomatch both.1

namespace ForbiddenCalls

/-- A list of names without a name: there is nothing in it but commas and blanks. -/
def Nameless (s : String) : Prop := ∀ c ∈ s.toList, c = ',' ∨ Text.isBlank c = true

/-- The part in front of the first comma, and the parts behind it. -/
theorem splitCommas_cons {c : Char} {rest part : List Char} {more : List (List Char)}
    (split : splitCommas rest = part :: more) : splitCommas (c :: rest) =
      if c = ',' then [] :: part :: more else (c :: part) :: more := by
  rw [splitCommas, split]
  simp only [beq_iff_eq]

theorem splitCommas_ne_nil (cs : List Char) : splitCommas cs ≠ [] := by
  cases cs with
  | nil => nofun
  | cons c rest =>
      rw [splitCommas]
      split
      · nofun
      · split <;> nofun

/-- There is nothing but blanks between the commas of a text if there is nothing but blanks and commas
in it. -/
theorem forall_blank_splitCommas_iff {cs : List Char} :
    (∀ part ∈ splitCommas cs, Text.Blank part) ↔ ∀ c ∈ cs, c = ',' ∨ Text.isBlank c = true := by
  induction cs with
  | nil => simp [splitCommas, Text.Blank]
  | cons c rest ih =>
      obtain ⟨part, more, split⟩ := List.exists_cons_of_ne_nil (splitCommas_ne_nil rest)
      rw [split, List.forall_mem_cons] at ih
      rw [splitCommas_cons split, List.forall_mem_cons, ← ih]
      by_cases comma : c = ','
      · simp [comma, Text.Blank]
      · rw [if_neg comma, List.forall_mem_cons, Text.Blank, List.forall_mem_cons, ← Text.Blank]
        simp only [comma, false_or, and_assoc]

/-- A list of names is empty exactly if there are only commas and blanks. -/
theorem parseNames_eq_nil_iff {s : String} : parseNames s = [] ↔ Nameless s := by
  rw [Nameless, ← forall_blank_splitCommas_iff, parseNames, List.filterMap_eq_nil_iff,
    List.forall_mem_map]
  refine forall₂_congr fun part _ => ?_
  rw [← Text.trimChars_eq_nil_iff]
  simp

end ForbiddenCalls

/-- What a built-in plugin refuses in its options, and the error that says so.  A list of names that is
not given has no name in it either; if there is none, the severity is not looked at. -/
inductive Plugin.BuiltInRefusal (o : PluginOptions) : ConfigError → Prop
  | emptyPrefix : o.plugin = "accessors" → o.get? "prefix" = some "" →
    BuiltInRefusal o
      (.invalidOption "accessors" "prefix" "" "the prefix must not be empty")
  | noNames {names : String} : o.plugin = "forbid-calls" → names = (o.get? "names").getD "" →
    ForbiddenCalls.Nameless names →
    BuiltInRefusal o
      (.invalidOption "forbid-calls" "names" names
        "list at least one function name, e.g. names = \"print, debug\"")
  | unknownSeverity {word : String} :
    o.plugin = "naming" ∨
      o.plugin = "forbid-calls" ∧ ¬ ForbiddenCalls.Nameless ((o.get? "names").getD "") →
    o.get? "severity" = some word → Text.asciiLower word ∉ Severity.words →
    BuiltInRefusal o
      (.invalidOption o.plugin "severity" word "expected one of: error, warning, info")

open Plugin (BuiltInRefusal)

/-- Making something of a result does not fail. -/
theorem bind_pure_eq_error_iff {ε α β : Type} {x : Except ε α} {f : α → β} {e : ε} :
    (x >>= fun a => pure (f a)) = .error e ↔ x = .error e := by
  cases x with
  | error e' => exact ⟨fun same => congrArg _ (Except.error.inj same),
      fun same => congrArg _ (Except.error.inj same)⟩
  | ok a => exact iff_of_false nofun nofun

section Refusals

variable {o : PluginOptions} {e : ConfigError}

/-- The plugin of accessors refuses its options exactly if they are refused by its documentation, and
with that error. -/
theorem accessors_contributions_eq_error_iff (own : o.plugin = "accessors") :
    Accessors.module.contributions o = .error e ↔ BuiltInRefusal o e := by
  have empty : ((o.get? "prefix").getD Accessors.defaultMarker).isEmpty = true ↔
      o.get? "prefix" = some "" := by
    cases o.get? "prefix" with
    | none => exact iff_of_false (by decide) nofun
    | some marker => rw [Option.getD_some, String.isEmpty_iff, Option.some.injEq]
  constructor
  · intro refused
    simp only [Accessors.module] at refused
    split at refused
    · rename_i marker
      have given := empty.mp marker
      obtain rfl := Except.error.inj refused
      rw [given]
      exact .emptyPrefix own given
    · cases refused
  · intro refusal
    cases refusal with
    | emptyPrefix _ given =>
        simp only [Accessors.module]
        rw [if_pos (empty.mpr given), given]
        rfl
    | noNames other => exact absurd (own.symm.trans other) (by decide)
    | unknownSeverity others =>
        rcases others with other | ⟨other, _⟩ <;> exact absurd (own.symm.trans other) (by decide)

/-- The same for the plugin that checks names. -/
theorem naming_contributions_eq_error_iff (own : o.plugin = "naming") :
    NamingConvention.module.contributions o = .error e ↔ BuiltInRefusal o e := by
  simp only [NamingConvention.module]
  rw [bind_pure_eq_error_iff, Plugin.severityOption_eq_error_iff]
  constructor
  · rintro ⟨word, given, unknown, rfl⟩
    exact .unknownSeverity (.inl own) given unknown
  · intro refusal
    cases refusal with
    | emptyPrefix other => exact absurd (own.symm.trans other) (by decide)
    | noNames other => exact absurd (own.symm.trans other) (by decide)
    | unknownSeverity _ given unknown => exact ⟨_, given, unknown, rfl⟩

/-- The same for the plugin that forbids calls. -/
theorem forbiddenCalls_contributions_eq_error_iff (own : o.plugin = "forbid-calls") :
    ForbiddenCalls.module.contributions o = .error e ↔ BuiltInRefusal o e := by
  have none : (ForbiddenCalls.parseNames ((o.get? "names").getD "")).isEmpty = true ↔
      ForbiddenCalls.Nameless ((o.get? "names").getD "") := by
    rw [List.isEmpty_iff, ForbiddenCalls.parseNames_eq_nil_iff]
  simp only [ForbiddenCalls.module]
  by_cases nameless : ForbiddenCalls.Nameless ((o.get? "names").getD "")
  · rw [if_pos (none.mpr nameless), Except.error.injEq]
    constructor
    · rintro rfl
      exact .noNames own rfl nameless
    · intro refusal
      cases refusal with
      | emptyPrefix other => exact absurd (own.symm.trans other) (by decide)
      | noNames _ given => exact given ▸ rfl
      | unknownSeverity others =>
          rcases others with other | ⟨_, named⟩
          · exact absurd (own.symm.trans other) (by decide)
          · exact absurd nameless named
  · rw [if_neg (mt none.mp nameless), bind_pure_eq_error_iff, Plugin.severityOption_eq_error_iff]
    constructor
    · rintro ⟨word, given, unknown, rfl⟩
      exact .unknownSeverity (.inr ⟨own, nameless⟩) given unknown
    · intro refusal
      cases refusal with
      | emptyPrefix other => exact absurd (own.symm.trans other) (by decide)
      | noNames _ given none => exact absurd (given ▸ none) nameless
      | unknownSeverity _ given unknown => exact ⟨_, given, unknown, rfl⟩

end Refusals

namespace Catalog

/-- The built-in plugins refuse their options for these reasons and for no others. -/
theorem builtin_contributions_eq_error_iff {o : PluginOptions} {m : Plugin.Module}
    (found : Catalog.builtin.get? o.plugin = some m) {e : ConfigError} :
    m.contributions o = .error e ↔ BuiltInRefusal o e := by
  rcases builtin_get?_eq_some found with ⟨own, rfl⟩ | ⟨own, rfl⟩ | ⟨own, rfl⟩
  · exact accessors_contributions_eq_error_iff own
  · exact naming_contributions_eq_error_iff own
  · exact forbiddenCalls_contributions_eq_error_iff own

/-! ## The built-in plugins are sound -/

/-- A plugin that contributes one extension, for its own point. -/
theorem sound_of_single {m : Plugin.Module} {id : String} (identity : m.id = id)
    (guest : id ≠ Registry.hostPlugin)
    (single : ∀ o contributions, m.contributions o = .ok contributions →
      ∃ e, contributions = [.ofExtension e]) : m.Sound id := by
  constructor
  · exact identity
  · exact guest
  · intro o contributions given
    obtain ⟨e, rfl⟩ := single o contributions given
    exact List.forall_mem_singleton.mpr rfl
  · intro o contributions given
    obtain ⟨e, rfl⟩ := single o contributions given
    exact List.pairwise_singleton _ _

theorem accessors_sound : Accessors.module.Sound "accessors" := by
  constructor
  · rfl
  · decide
  · intro o contributions given
    obtain ⟨marker, rfl⟩ := accessors_contributions given
    rw [List.forall_mem_cons, List.forall_mem_singleton]
    exact ⟨rfl, rfl⟩
  · -- The resolver and the pass have different points.
    intro o contributions given
    obtain ⟨marker, rfl⟩ := accessors_contributions given
    rw [List.pairwise_pair]
    intro same
    cases same

theorem naming_sound : NamingConvention.module.Sound "naming" := by
  apply sound_of_single rfl (by decide)
  intro o contributions given
  obtain ⟨severity, rfl⟩ := naming_contributions given
  exact ⟨_, rfl⟩

theorem forbiddenCalls_sound : ForbiddenCalls.module.Sound "forbid-calls" := by
  apply sound_of_single rfl (by decide)
  intro o contributions given
  obtain ⟨names, severity, rfl⟩ := forbiddenCalls_contributions given
  exact ⟨_, rfl⟩

/-- All built-in plugins contribute at the points that they say. -/
theorem builtin_sound : Catalog.builtin.Sound := by
  rw [Sound, builtin_modules, List.forall_mem_cons, List.forall_mem_cons, List.forall_mem_singleton]
  exact ⟨accessors_sound, naming_sound, forbiddenCalls_sound⟩

end Catalog

namespace Registry

/-- What discovery makes of a manifest that is accepted.  It never complains that an extension is
registered twice or at the wrong point.  It fails if the built-in catalog does not know a plugin, a
plugin has no option of some key, or a plugin refuses its options, and then with the first of these;
otherwise it registers what the plugins ask for. -/
theorem builtin_discovers_accepted {source : String} {manifest : Manifest}
    (accepted : Manifest.parse source = .ok manifest) :
    (∀ id point, discover manifest .builtin ≠ .error (.duplicateRegistration id point)) ∧
    (∀ id point found, discover manifest .builtin ≠ .error (.pointMismatch id point found)) ∧
    (∀ p ∈ manifest.plugins, ∀ m, Catalog.builtin.get? p.id = some m → ∀ e,
      m.contributions p.optionTexts = .error e ↔ BuiltInRefusal p.optionTexts e) ∧
    Discovers .builtin manifest.plugins (discover manifest .builtin) := by
  have discovers := discovers Catalog.builtin_sound (Manifest.once_of_parse accepted)
  have causes : ∀ e, discover manifest .builtin = .error e → e.code ∈
      ["trellis::unknown_plugin", "trellis::unknown_option", "trellis::invalid_option"] := by
    intro e failed
    obtain ⟨_, p, _, _, _, offence⟩ := (discovers.error_iff e).mp failed
    cases offence with
    | unknownPlugin => simp [ConfigError.code]
    | unknownOption => simp [ConfigError.code]
    | refused known _ refused =>
        have refusal := (Catalog.builtin_contributions_eq_error_iff known).mp refused
        cases refusal <;> simp [ConfigError.code]
  refine ⟨fun id point failed => ?_, fun id point found failed => ?_,
    fun p _ m known e => Catalog.builtin_contributions_eq_error_iff known, discovers⟩
  · exact absurd (causes _ failed) (by simp [ConfigError.code])
  · exact absurd (causes _ failed) (by simp [ConfigError.code])

/-- A manifest with two plugins, the first of them with an order key, a placement and an option. -/
def twoPlugins : String :=
  "[project]\nname = \"d\"\n\n[[plugins]]\nid = \"accessors\"\norder = 2\n" ++
    "placement = \"before:unroll\"\noptions.prefix = \"read_\"\n\n[[plugins]]\nid = \"naming\"\n"

/-- Two plugins with orders, options and a placement. -/
theorem builtin_discovers_accepted_twoPlugins :
    ∃ manifest, Manifest.parse twoPlugins = .ok manifest ∧
      Discovers .builtin manifest.plugins (discover manifest .builtin) ∧
      ((discover manifest .builtin).toOption.map fun r => r.records.map fun record =>
        (record.id.text, record.order, record.sequence, record.placement)) =
      some [("host/builtins", 0, 0, none), ("accessors/accessors", 2, 1, none),
        ("accessors/lower-accessors", 2, 2, some (.before "unroll")), ("naming/naming", 0, 3, none)] := by
  have outcome : ((Manifest.parse twoPlugins).toOption.bind fun manifest =>
      (discover manifest .builtin).toOption.map fun r => r.records.map fun record =>
        (record.id.text, record.order, record.sequence, record.placement)) =
      some [("host/builtins", 0, 0, none), ("accessors/accessors", 2, 1, none),
        ("accessors/lower-accessors", 2, 2, some (.before "unroll")),
        ("naming/naming", 0, 3, none)] := by decide +kernel
  obtain ⟨manifest, parsed, records⟩ := Option.bind_eq_some_iff.mp outcome
  have accepted := Source.eq_ok_of_toOption parsed
  exact ⟨manifest, accepted, (builtin_discovers_accepted accepted).2.2.2, records⟩

/-- The names are looked at before the severity, and the plugin behind that nobody knows is not. -/
example : discover ⟨"d", .native, [], none, [⟨"naming", none, none, []⟩,
      ⟨"forbid-calls", none, none, [("names", .string " , "), ("severity", .string "loud")]⟩,
      ⟨"unheard-of", none, none, []⟩]⟩ .builtin =
    .error (.invalidOption "forbid-calls" "names" " , "
      "list at least one function name, e.g. names = \"print, debug\"") := by
  rfl

end Registry

end StagedCompiler
