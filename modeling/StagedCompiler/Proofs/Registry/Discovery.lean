import Mathlib.Data.List.Forall2
import Mathlib.Data.List.Nodup
import StagedCompiler.Catalog.Basic
import StagedCompiler.Proofs.Registry.Registrations

/-!
# What discovery registers

The plugins that a manifest enables, looked up in a catalog one after another.

* A plugin is at fault if the catalog does not know it, or else for the first key that is no option of
  it, or else if it refuses its options (`Catalog.Offence`).  One that is not at fault asks for
  registrations (`Catalog.exists_asks_iff`), and enabling it makes them (`enable_of_asks`).
* If the catalog is sound and no plugin is enabled twice, nothing that is asked for is refused: the
  registry holds the host's own registrations and behind them those that the plugins ask for
  (`discovers`).  This is carried from plugin to plugin by `Holds` (`foldlM_enable`).
-/

namespace StagedCompiler

/-- An option that a plugin has. -/
def Plugin.Module.Declares (m : Plugin.Module) (key : String) : Prop :=
  ∃ spec ∈ m.options, spec.name = key

/-- A plugin under an identity.  It is the plugin's own and not the host's, and what the plugin
contributes are extensions for the points that it names, with different names at one point. -/
structure Plugin.Module.Sound (m : Plugin.Module) (id : String) : Prop where
  identity : m.id = id
  guest : id ≠ Registry.hostPlugin
  own : ∀ options contributions, m.contributions options = .ok contributions →
    ∀ c ∈ contributions, c.extension.point = c.point
  distinct : ∀ options contributions, m.contributions options = .ok contributions →
    contributions.Pairwise fun a b => a.point = b.point → a.extension.name ≠ b.extension.name

namespace Catalog

/-- All plugins of a catalog are sound. -/
def Sound (catalog : Catalog) : Prop :=
  ∀ entry ∈ catalog.modules, entry.2.Sound entry.1

/-- What is wrong with a plugin of a manifest.  Its identity is looked at first, then the keys of its
options in order, and then the plugin itself looks at their values. -/
inductive Offence (catalog : Catalog) (p : Manifest.Plugin) : ConfigError → Prop
  | unknownPlugin : p.id ∉ catalog.ids → Offence catalog p (.unknownPlugin p.id catalog.ids)
  | unknownOption {m : Plugin.Module} {before after : List String} {key : String} :
    catalog.get? p.id = some m → p.optionTexts.keys = before ++ key :: after →
    (∀ k ∈ before, m.Declares k) → ¬ m.Declares key →
    Offence catalog p (.unknownOption p.id key (m.options.map (·.name)))
  | refused {m : Plugin.Module} {e : ConfigError} :
    catalog.get? p.id = some m → (∀ key ∈ p.optionTexts.keys, m.Declares key) →
    m.contributions p.optionTexts = .error e → Offence catalog p e

/-- A plugin of a manifest with which something is wrong. -/
def AtFault (catalog : Catalog) (p : Manifest.Plugin) : Prop :=
  p.id ∉ catalog.ids ∨ ∃ m, catalog.get? p.id = some m ∧
    ((∃ key ∈ p.optionTexts.keys, ¬ m.Declares key) ∨ ∃ e, m.contributions p.optionTexts = .error e)

/-- What a plugin of a manifest asks for: what it contributes, in order, under its identity, with the
order key and the placement that the manifest gives. -/
inductive Asks (catalog : Catalog) (p : Manifest.Plugin) : List Registration → Prop
  | contributes {m : Plugin.Module} {contributions : List Plugin.Contribution} :
    catalog.get? p.id = some m → (∀ key ∈ p.optionTexts.keys, m.Declares key) →
    m.contributions p.optionTexts = .ok contributions →
    Asks catalog p
      (contributions.map fun c => ⟨p.id, c.point, c.extension, p.order, p.placement⟩)

/-- The error is that of the first plugin with which something is wrong. -/
def FirstOffence (catalog : Catalog) (plugins : List Manifest.Plugin) (e : ConfigError) : Prop :=
  ∃ before p after, plugins = before ++ p :: after ∧
    (∀ q ∈ before, ¬ catalog.AtFault q) ∧ catalog.Offence p e

variable {catalog : Catalog}

/-- A plugin is unknown exactly if no identity of the catalogue is its own. -/
theorem get?_eq_none_iff {id : String} : catalog.get? id = none ↔ id ∉ catalog.ids := by
  rw [get?, List.lookup_eq_none_iff, ids, List.mem_map]
  constructor
  · rintro other ⟨entry, member, rfl⟩
    exact bne_iff_ne.mp (other entry member) rfl
  · intro absent entry member
    exact bne_iff_ne.mpr fun same => absent ⟨entry, member, same.symm⟩

theorem Sound.get? (sound : catalog.Sound) {id : String} {m : Plugin.Module}
    (found : catalog.get? id = some m) : m.Sound id := by
  obtain ⟨before, after, split, _⟩ := List.lookup_eq_some_iff.mp found
  exact sound (id, m) (split ▸ List.mem_append_right before List.mem_cons_self)

/-! ## One plugin -/

theorem undeclared_iff {m : Plugin.Module} {key : String} :
    (!(m.options.map (·.name)).contains key) = true ↔ ¬ m.Declares key := by
  rw [Bool.not_eq_true', ← Bool.not_eq_true, List.contains_iff_mem, List.mem_map]
  rfl

/-- Options are accepted exactly if each of them is declared. -/
theorem checkOptions_eq_ok_iff {m : Plugin.Module} {o : PluginOptions} :
    Registry.checkOptions m o = .ok () ↔ ∀ key ∈ o.keys, m.Declares key := by
  have none : (o.keys.find? fun key => !(m.options.map (·.name)).contains key) = none ↔
      ∀ key ∈ o.keys, m.Declares key := by
    simp only [List.find?_eq_none, undeclared_iff, not_not]
  rw [← none, Registry.checkOptions]
  cases o.keys.find? fun key => !(m.options.map (·.name)).contains key with
  | none => exact iff_of_true rfl rfl
  | some key => exact iff_of_false nofun nofun

/-- They are refused exactly for the first one that is not declared. -/
theorem checkOptions_eq_error_iff {m : Plugin.Module} {o : PluginOptions} {e : ConfigError} :
    Registry.checkOptions m o = .error e ↔ ∃ before key after, o.keys = before ++ key :: after ∧
      (∀ k ∈ before, m.Declares k) ∧ ¬ m.Declares key ∧
      e = .unknownOption o.plugin key (m.options.map (·.name)) := by
  have some : ∀ key, (o.keys.find? fun key => !(m.options.map (·.name)).contains key) = some key ↔
      ¬ m.Declares key ∧ ∃ before after, o.keys = before ++ key :: after ∧
        ∀ k ∈ before, m.Declares k := by
    intro key
    have declared : ∀ k, (!!(m.options.map (·.name)).contains k) = true ↔ m.Declares k := by
      intro k
      rw [Bool.not_eq_true', ← Bool.not_eq_true, undeclared_iff, not_not]
    simp only [List.find?_eq_some_iff_append, undeclared_iff, declared]
  rw [Registry.checkOptions]
  constructor
  · intro failed
    cases found : o.keys.find? fun key => !(m.options.map (·.name)).contains key with
    | none =>
        simp only [found] at failed
        cases failed
    | some key =>
        simp only [found] at failed
        obtain ⟨missing, before, after, split, declared⟩ := (some key).mp found
        exact ⟨before, key, after, split, declared, missing, (Except.error.inj failed).symm⟩
  · rintro ⟨before, key, after, split, declared, missing, rfl⟩
    simp only [(some key).mpr ⟨missing, before, after, split, declared⟩]

/-- A plugin that is at fault fails with its own error, whatever is registered already. -/
theorem Offence.enable {p : Manifest.Plugin} {e : ConfigError} (offence : catalog.Offence p e)
    (r : Registry) : r.enable catalog p = .error e := by
  unfold Registry.enable
  cases offence with
  | unknownPlugin unknown => rw [get?_eq_none_iff.mpr unknown]
  | unknownOption known keys declared missing =>
      rw [known]
      have failed := checkOptions_eq_error_iff.mpr ⟨_, _, _, keys, declared, missing, rfl⟩
      dsimp only
      rw [failed]
      rfl
  | refused known declared refused =>
      rw [known]
      dsimp only
      rw [checkOptions_eq_ok_iff.mpr declared, refused]
      rfl

/-- A plugin has one offence at most. -/
theorem Offence.unique {p : Manifest.Plugin} {e e' : ConfigError} (offence : catalog.Offence p e)
    (other : catalog.Offence p e') : e = e' :=
  Except.error.inj ((offence.enable .host).symm.trans (other.enable .host))

/-- A plugin is at fault if there is an error that says why. -/
theorem exists_offence_iff {p : Manifest.Plugin} :
    (∃ e, catalog.Offence p e) ↔ catalog.AtFault p := by
  constructor
  · rintro ⟨e, offence⟩
    cases offence with
    | unknownPlugin unknown => exact .inl unknown
    | unknownOption known keys _ missing =>
        exact .inr ⟨_, known, .inl ⟨_, keys ▸ List.mem_append_right _ List.mem_cons_self, missing⟩⟩
    | refused known _ refused => exact .inr ⟨_, known, .inr ⟨e, refused⟩⟩
  · rintro (unknown | ⟨m, known, wrong⟩)
    · exact ⟨_, .unknownPlugin unknown⟩
    cases checked : Registry.checkOptions m p.optionTexts with
    | error e =>
        obtain ⟨_, _, _, keys, declared, missing, rfl⟩ := checkOptions_eq_error_iff.mp checked
        exact ⟨_, .unknownOption known keys declared missing⟩
    | ok _ =>
        have declared := checkOptions_eq_ok_iff.mp checked
        rcases wrong with ⟨key, member, missing⟩ | ⟨e, refused⟩
        · exact absurd (declared key member) missing
        · exact ⟨e, .refused known declared refused⟩

/-- A plugin asks for something if it is not at fault. -/
theorem exists_asks_iff {p : Manifest.Plugin} : (∃ gs, catalog.Asks p gs) ↔ ¬ catalog.AtFault p := by
  constructor
  · rintro ⟨gs, known, declared, given⟩
    rintro (unknown | ⟨m, known', ⟨key, member, missing⟩ | ⟨e, refused⟩⟩)
    · cases known.symm.trans (get?_eq_none_iff.mpr unknown)
    · obtain rfl := Option.some.inj (known.symm.trans known')
      exact missing (declared key member)
    · obtain rfl := Option.some.inj (known.symm.trans known')
      cases given.symm.trans refused
  · intro fine
    rw [AtFault, not_or, not_not, not_exists] at fine
    obtain ⟨listed, fine⟩ := fine
    cases known : catalog.get? p.id with
    | none => exact absurd listed (get?_eq_none_iff.mp known)
    | some m =>
        have right := fine m
        rw [and_iff_right known, not_or] at right
        have declared : ∀ key ∈ p.optionTexts.keys, m.Declares key := by
          intro key member
          by_contra missing
          exact right.1 ⟨key, member, missing⟩
        cases given : m.contributions p.optionTexts with
        | error e => exact absurd ⟨e, given⟩ right.2
        | ok contributions => exact ⟨_, .contributes known declared given⟩

/-- A plugin asks for registrations of its own, for the points of their extensions and under different
identities. -/
structure Requests (catalog : Catalog) (p : Manifest.Plugin) (gs : List Registration) : Prop where
  known : p.id ∈ catalog.ids
  plugin : ∀ g ∈ gs, g.plugin = p.id
  own : ∀ g ∈ gs, g.extension.point = g.point
  distinct : gs.Pairwise fun g h => g.point = h.point → g.id ≠ h.id

/-- What a plugin without offence asks for is what it requests. -/
theorem Asks.requests (sound : catalog.Sound) {p : Manifest.Plugin} {gs : List Registration}
    (asks : catalog.Asks p gs) : catalog.Requests p gs := by
  obtain ⟨known, _, given⟩ := asks
  have plugin := sound.get? known
  refine ⟨?_, ?_, ?_, ?_⟩
  · by_contra unknown
    cases known.symm.trans (get?_eq_none_iff.mpr unknown)
  · exact List.forall_mem_map.mpr fun _ _ => rfl
  · exact List.forall_mem_map.mpr (plugin.own _ _ given)
  · rw [List.pairwise_map]
    exact (plugin.distinct _ _ given).imp fun apart same id =>
      apart same (congrArg Extension.Id.name id)

/-! ## The first offence -/

/-- The first offence is that of the first plugin, or of a later one if that is not at fault. -/
theorem firstOffence_cons_iff {p : Manifest.Plugin} {rest : List Manifest.Plugin} {e : ConfigError} :
    catalog.FirstOffence (p :: rest) e ↔
      catalog.Offence p e ∨ ¬ catalog.AtFault p ∧ catalog.FirstOffence rest e := by
  constructor
  · rintro ⟨before, q, after, split, fine, offence⟩
    cases before with
    | nil =>
        obtain ⟨rfl, rfl⟩ := List.cons.inj split
        exact .inl offence
    | cons _ before =>
        obtain ⟨rfl, rfl⟩ := List.cons.inj split
        rw [List.forall_mem_cons] at fine
        exact .inr ⟨fine.1, before, q, after, rfl, fine.2, offence⟩
  · rintro (offence | ⟨fine, before, q, after, rfl, others, offence⟩)
    · exact ⟨[], p, rest, rfl, by simp, offence⟩
    · exact ⟨p :: before, q, after, rfl, List.forall_mem_cons.mpr ⟨fine, others⟩, offence⟩

theorem not_firstOffence_nil {e : ConfigError} : ¬ catalog.FirstOffence [] e := by
  rintro ⟨before, p, after, split, _⟩
  cases before <;> cases split

/-- There is one first offence. -/
theorem FirstOffence.unique {plugins : List Manifest.Plugin} {e e' : ConfigError}
    (first : catalog.FirstOffence plugins e) (other : catalog.FirstOffence plugins e') : e = e' := by
  induction plugins with
  | nil => exact absurd first not_firstOffence_nil
  | cons p rest ih =>
      rw [firstOffence_cons_iff] at first other
      rcases first with offence | ⟨fine, first⟩ <;> rcases other with offence' | ⟨fine', other⟩
      · exact offence.unique offence'
      · exact absurd (exists_offence_iff.mp ⟨e, offence⟩) fine'
      · exact absurd (exists_offence_iff.mp ⟨e', offence'⟩) fine
      · exact ih first other

/-- There is a first offence exactly if a plugin is at fault. -/
theorem exists_firstOffence_iff {plugins : List Manifest.Plugin} :
    (∃ e, catalog.FirstOffence plugins e) ↔ ∃ p ∈ plugins, catalog.AtFault p := by
  induction plugins with
  | nil => exact iff_of_false (fun ⟨_, first⟩ => not_firstOffence_nil first) (by simp)
  | cons p rest ih =>
      simp only [firstOffence_cons_iff, exists_or, exists_and_left, exists_offence_iff, ih,
        List.exists_mem_cons_iff]
      by_cases fault : catalog.AtFault p
      · exact iff_of_true (.inl fault) (.inl fault)
      · rw [and_iff_right fault]

end Catalog

namespace Registry

variable {catalog : Catalog}

/-- Registrations that are for the points of their extensions, with identities that are taken neither in
the registry nor among themselves, are all accepted. -/
theorem Holds.enlistAll_of_distinct {r : Registry} {gs more : List Registration} (holds : r.Holds gs)
    (own : ∀ g ∈ more, g.extension.point = g.point)
    (distinct : (gs ++ more).Pairwise fun g h => g.point = h.point → g.id ≠ h.id) :
    ∃ r', r.enlistAll more = .ok r' ∧ r'.Holds (gs ++ more) := by
  induction more generalizing r gs with
  | nil => exact ⟨r, rfl, by rwa [List.append_nil]⟩
  | cons g rest ih =>
      rw [List.forall_mem_cons] at own
      have free : r.isTaken g.point g.id = false := by
        rw [← Bool.not_eq_true, isTaken_iff]
        rintro ⟨record, held, point, id⟩
        obtain ⟨number, h, found, rfl⟩ := holds.mem_records.mp held
        have among := List.mem_of_getElem? found
        have apart := (List.pairwise_append.mp distinct).2.2 h among g List.mem_cons_self
        exact apart ((holds.own h among).symm.trans point) id
      have enlisted : r.enlist g =
          .ok { r with records := r.records ++ [g.record r.records.length] } := by
        rw [enlist_eq, if_neg (not_not.mpr own.1), free, if_neg Bool.false_ne_true]
      rw [List.append_cons] at distinct
      obtain ⟨r', later, holds'⟩ := ih (holds.enlist enlisted) own.2 distinct
      refine ⟨r', ?_, by rwa [List.append_cons]⟩
      rw [Registry.enlistAll, List.foldlM_cons, enlisted]
      exact later

/-- The contributions of a plugin are enlisted one after another. -/
theorem insertAll_eq (r : Registry) (plugin : String) (order : Option Int)
    (placement : Option Placement) (contributions : List Plugin.Contribution) :
    r.insertAll plugin order placement contributions =
      r.enlistAll (contributions.map fun c => ⟨plugin, c.point, c.extension, order, placement⟩) := by
  rw [enlistAll, List.foldlM_map]
  rfl

/-- Enabling a plugin that asks for registrations makes them, and notes down the plugin. -/
theorem enable_of_asks (sound : catalog.Sound) {p : Manifest.Plugin} {gs : List Registration}
    (asks : catalog.Asks p gs) (r : Registry) : ∃ summary, r.enable catalog p =
      (r.enlistAll gs).map fun r' => { r' with plugins := r'.plugins ++ [summary] } := by
  obtain ⟨known, declared, given⟩ := asks
  rename_i m contributions
  refine ⟨⟨m.id, m.description, p.order, p.placement, p.optionTexts⟩, ?_⟩
  unfold enable
  rw [known]
  dsimp only
  rw [Catalog.checkOptions_eq_ok_iff.mpr declared, given, ← (sound.get? known).identity,
    ← insertAll_eq]
  rfl

/-- The plugins of a manifest one after another.  None of them is enabled twice, nor are any of those
whose registrations the registry holds already. -/
theorem foldlM_enable (sound : catalog.Sound) {plugins : List Manifest.Plugin} {r : Registry}
    {held : List Registration} (holds : r.Holds held) (once : (plugins.map (·.id)).Nodup)
    (others : ∀ p ∈ plugins, p.id ∈ catalog.ids → ∀ g ∈ held, g.plugin ≠ p.id) :
    (∃ e, catalog.FirstOffence plugins e ∧ plugins.foldlM (enable catalog) r = .error e) ∨
      ∃ asked r', List.Forall₂ catalog.Asks plugins asked ∧
        plugins.foldlM (enable catalog) r = .ok r' ∧ r'.Holds (held ++ asked.flatten) := by
  induction plugins generalizing r held with
  | nil => exact .inr ⟨[], r, .nil, rfl, by simpa using holds⟩
  | cons p rest ih =>
      rw [List.map_cons, List.nodup_cons] at once
      rw [List.forall_mem_cons] at others
      simp only [List.foldlM_cons, Catalog.firstOffence_cons_iff]
      by_cases fault : catalog.AtFault p
      · obtain ⟨e, offence⟩ := Catalog.exists_offence_iff.mpr fault
        refine .inl ⟨e, .inl offence, ?_⟩
        rw [offence.enable r]
        rfl
      · obtain ⟨gs, asks⟩ := Catalog.exists_asks_iff.mpr fault
        obtain ⟨summary, enabled⟩ := enable_of_asks sound asks r
        have requests := asks.requests sound
        have distinct : (held ++ gs).Pairwise fun g h => g.point = h.point → g.id ≠ h.id := by
          refine List.pairwise_append.mpr ⟨holds.distinct, requests.distinct, ?_⟩
          intro g member h asked _ same
          exact others.1 requests.known g member
            ((congrArg Extension.Id.plugin same).trans (requests.plugin h asked))
        obtain ⟨r₁, enlisted, holds₁⟩ := holds.enlistAll_of_distinct requests.own distinct
        have apart : ∀ q ∈ rest, q.id ∈ catalog.ids → ∀ g ∈ held ++ gs, g.plugin ≠ q.id := by
          intro q member knows
          rw [List.forall_mem_append]
          refine ⟨others.2 q member knows, fun g asked same => once.1 ?_⟩
          rw [← requests.plugin g asked, same]
          exact List.mem_map_of_mem member
        have holds' : { r₁ with plugins := r₁.plugins ++ [summary] }.Holds (held ++ gs) :=
          ⟨holds₁.records, holds₁.own, holds₁.distinct⟩
        rw [enabled, enlisted]
        rcases ih holds' once.2 apart with ⟨e, first, failed⟩ | ⟨asked, r', others, ran, holds'⟩
        · exact .inl ⟨e, .inr ⟨fault, first⟩, failed⟩
        · refine .inr ⟨gs :: asked, r', .cons asks others, ran, ?_⟩
          rwa [List.flatten_cons, ← List.append_assoc]

/-- What discovery makes of the plugins of a manifest. -/
structure Discovers (catalog : Catalog) (plugins : List Manifest.Plugin)
    (outcome : Except ConfigError Registry) : Prop where
  /-- It fails if something is wrong with one of them and in no other case. -/
  fails_iff : (∃ e, outcome = .error e) ↔ ∃ p ∈ plugins, catalog.AtFault p
  /-- Its error is that of the first of them. -/
  error_iff : ∀ e, outcome = .error e ↔ catalog.FirstOffence plugins e
  /-- Otherwise the records are those of the host and then, plugin by plugin, of what it asks for, each
  with the number of its place. -/
  registers : (∀ p ∈ plugins, ¬ catalog.AtFault p) →
    ∃ r asked, outcome = .ok r ∧ List.Forall₂ catalog.Asks plugins asked ∧
      r.records = (Beginning.withHost.registrations ++ asked.flatten).zipIdx.map fun entry =>
        entry.1.record entry.2

/-- Discovery enlists what the plugins ask for, or fails with the first offence. -/
theorem discovers (sound : catalog.Sound) {manifest : Manifest}
    (once : (manifest.plugins.map (·.id)).Nodup) :
    Discovers catalog manifest.plugins (discover manifest catalog) := by
  have guests : ∀ p ∈ manifest.plugins, p.id ∈ catalog.ids →
      ∀ g ∈ Beginning.withHost.registrations, g.plugin ≠ p.id := by
    intro p _ known g member
    obtain rfl := List.mem_singleton.mp member
    obtain ⟨entry, member, same⟩ := List.mem_map.mp known
    exact fun host => (sound entry member).guest (same.trans host.symm)
  rcases foldlM_enable sound (Holds.beginning .withHost) once guests with
    ⟨e, first, failed⟩ | ⟨asked, r, asks, ran, holds⟩
  · have failed : discover manifest catalog = .error e := failed
    have error_iff : ∀ e', discover manifest catalog = .error e' ↔
        catalog.FirstOffence manifest.plugins e' := by
      intro e'
      rw [failed, Except.error.injEq]
      exact ⟨fun same => same ▸ first, first.unique⟩
    obtain ⟨p, member, fault⟩ := Catalog.exists_firstOffence_iff.mp ⟨e, first⟩
    exact ⟨iff_of_true ⟨e, failed⟩ ⟨p, member, fault⟩, error_iff,
      fun fine => absurd fault (fine p member)⟩
  · have ran : discover manifest catalog = .ok r := ran
    have fine : ∀ p ∈ manifest.plugins, ¬ catalog.AtFault p :=
      ((List.forall₂_and_left (p := fun p => ¬ catalog.AtFault p) _ _).mp
        (asks.imp fun _ gs asks => ⟨Catalog.exists_asks_iff.mp ⟨gs, asks⟩, asks⟩)).1
    have none : ¬ ∃ p ∈ manifest.plugins, catalog.AtFault p :=
      fun ⟨p, member, fault⟩ => fine p member fault
    refine ⟨iff_of_false (fun ⟨e, failed⟩ => ?_) none, fun e => iff_of_false (fun failed => ?_) ?_,
      fun _ => ⟨r, asked, ran, asks, holds.records⟩⟩
    · cases ran.symm.trans failed
    · cases ran.symm.trans failed
    · exact fun first => none (Catalog.exists_firstOffence_iff.mp ⟨e, first⟩)

end Registry

end StagedCompiler
