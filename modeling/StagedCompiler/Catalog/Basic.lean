import StagedCompiler.Registry

/-!
# The catalog of plugins

A plugin module makes extensions from options.  The catalog knows the modules by identity, and
`Registry.discover` registers what the plugins of a manifest contribute.
-/

namespace StagedCompiler

namespace Plugin

/-- An option that a plugin takes. -/
structure OptionSpec : Type where
  name : String
  description : String
  default? : Option String
  deriving DecidableEq, Repr

/-- An extension with the point that it is meant for. -/
structure Contribution : Type where
  point : Extension.Point
  extension : Extension

/-- An extension for its own point. -/
def Contribution.ofExtension (e : Extension) : Contribution := ⟨e.point, e⟩

/-- Makes extensions from options. -/
structure Module : Type where
  id : String
  description : String
  options : List OptionSpec := []
  contributions : PluginOptions → Except ConfigError (List Contribution)

/-- The severity that the options ask for. -/
def severityOption (options : PluginOptions) (default : Severity) : Except ConfigError Severity :=
  match options.get? "severity" with
  | none => .ok default
  | some value =>
    match Severity.parse? value with
    | some s => .ok s
    | none =>
      .error (.invalidOption options.plugin "severity" value
        "expected one of: error, warning, info")

end Plugin

/-- The plugins that a manifest can enable, in the order in which they became known. -/
structure Catalog : Type where
  modules : List (String × Plugin.Module) := []

namespace Catalog

/-- The catalog without plugins. -/
def empty : Catalog := {}

/-- Make a plugin known.  It takes the place of a plugin with the same identity. -/
def add (c : Catalog) (m : Plugin.Module) : Catalog := ⟨Assoc.put m.id m c.modules⟩

/-- The plugin with an identity. -/
def get? (c : Catalog) (id : String) : Option Plugin.Module := c.modules.lookup id

/-- The identities of the plugins. -/
def ids (c : Catalog) : List String := c.modules.map (·.1)

end Catalog

namespace Registry

/-- Register contributions of a plugin one after another. -/
def insertAll (r : Registry) (plugin : String) (order : Option Int) (placement : Option Placement)
    (contributions : List Plugin.Contribution) : Except ConfigError Registry :=
  contributions.foldlM (fun r c => r.insert plugin c.point c.extension order placement) r

/-- Check that a plugin has all options that it is given. -/
def checkOptions (m : Plugin.Module) (options : PluginOptions) : Except ConfigError Unit :=
  let known := m.options.map (·.name)
  match options.keys.find? fun key => !known.contains key with
  | some key => .error (.unknownOption options.plugin key known)
  | none => .ok ()

/-- Register what a plugin of a manifest contributes. -/
def enable (catalog : Catalog) (r : Registry) (config : Manifest.Plugin) :
    Except ConfigError Registry := do
  match catalog.get? config.id with
  | none => .error (.unknownPlugin config.id catalog.ids)
  | some m =>
    let options := config.optionTexts
    checkOptions m options
    let contributions ← m.contributions options
    let r ← r.insertAll m.id config.order config.placement contributions
    pure { r with
      plugins := r.plugins ++ [⟨m.id, m.description, config.order, config.placement, options⟩] }

/-- The registry of the host and the plugins of a manifest. -/
def discover (manifest : Manifest) (catalog : Catalog) : Except ConfigError Registry :=
  manifest.plugins.foldlM (enable catalog) host

end Registry

end StagedCompiler
