import StagedCompiler.Assoc
import StagedCompiler.Manifest.Placement
import StagedCompiler.Manifest.Target
import StagedCompiler.Path
import StagedCompiler.Toml.Value

/-!
# Manifests

What a project asks for: its name and target, the files of its units, where its artifacts go, and the
plugins that it enables.
-/

namespace StagedCompiler

/-- The options that a plugin is given, as texts. -/
structure PluginOptions : Type where
  plugin : String
  values : List (String × String) := []
  deriving DecidableEq, Repr

namespace PluginOptions

/-- The text that an option is given. -/
def get? (o : PluginOptions) (key : String) : Option String := o.values.lookup key

/-- The options that are given, in order. -/
def keys (o : PluginOptions) : List String := o.values.map (·.1)

end PluginOptions

namespace Manifest

/-- A plugin that a project enables. -/
structure Plugin : Type where
  id : String
  order : Option Int := none
  placement : Option Placement := none
  options : List (String × Toml.Value) := []

/-- The options of a plugin as texts. -/
def Plugin.optionTexts (p : Plugin) : PluginOptions :=
  ⟨p.id, p.options.map fun (key, v) => (key, v.scalarText)⟩

/-- The first option of a plugin whose value is no scalar. -/
def Plugin.nonScalar? (p : Plugin) : Option String :=
  (p.options.find? fun (_, v) => !v.isScalar).map (·.1)

end Manifest

/-- What a project asks for. -/
structure Manifest : Type where
  name : String
  target : Target := .native
  units : List Path := []
  outDir : Option Path := none
  plugins : List Manifest.Plugin := []

namespace Manifest

/-- The plugin with an identity. -/
def plugin? (m : Manifest) (id : String) : Option Plugin :=
  m.plugins.find? fun p => p.id == id

end Manifest

end StagedCompiler
