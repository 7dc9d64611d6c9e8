import StagedCompiler.Extension.Point
import StagedCompiler.Manifest.Target

/-!
# Configuration errors

What can be wrong with a project before any of its units is looked at.
-/

namespace StagedCompiler

/-- A mistake in the configuration of a project. -/
inductive ConfigError : Type where
  | duplicateRegistration (id : String) (point : Extension.Point)
  | pointMismatch (id : String) (point found : Extension.Point)
  | unknownPlugin (id : String) (available : List String)
  | unknownOption (plugin option : String) (expected : List String)
  | invalidOption (plugin option value reason : String)
  | duplicateUnit (unit : String)
  | unknownAnchor (pass anchor : String) (target : Target) (available : List String)
  deriving DecidableEq, Repr

namespace ConfigError

/-- Names in a row, with commas between them. -/
def commaList (names : List String) : String := ", ".intercalate names

/-- The message about a mistake. -/
def message : ConfigError → String
  | .duplicateRegistration id point =>
    "extension '" ++ id ++ "' is already registered for " ++ point.text
  | .pointMismatch id point found =>
    "extension '" ++ id ++ "' provides " ++ found.text ++ " and cannot be registered for " ++
      point.text
  | .unknownPlugin id _ => "unknown plugin '" ++ id ++ "'"
  | .unknownOption plugin option _ => "plugin '" ++ plugin ++ "' has no option '" ++ option ++ "'"
  | .invalidOption plugin option value _ =>
    "invalid value '" ++ value ++ "' for option '" ++ option ++ "' of plugin '" ++ plugin ++ "'"
  | .duplicateUnit unit => "unit name '" ++ unit ++ "' is used by more than one unit"
  | .unknownAnchor pass anchor _ _ =>
    "lowering pass '" ++ pass ++ "' is placed relative to unknown pass '" ++ anchor ++ "'"

/-- The code of a mistake. -/
def code : ConfigError → String
  | .duplicateRegistration _ _ => "trellis::duplicate_registration"
  | .pointMismatch _ _ _ => "trellis::point_mismatch"
  | .unknownPlugin _ _ => "trellis::unknown_plugin"
  | .unknownOption _ _ _ => "trellis::unknown_option"
  | .invalidOption _ _ _ _ => "trellis::invalid_option"
  | .duplicateUnit _ => "trellis::duplicate_unit"
  | .unknownAnchor _ _ _ _ => "trellis::unknown_anchor"

/-- What can be done about a mistake. -/
def help? : ConfigError → Option String
  | .duplicateRegistration _ _ =>
    some "each plugin may register an extension name only once per extension point"
  | .pointMismatch _ _ _ => none
  | .unknownPlugin _ available => some ("available plugins: " ++ commaList available)
  | .unknownOption _ _ expected =>
    some ("valid options: " ++ if expected.isEmpty then "none" else commaList expected)
  | .invalidOption _ _ _ reason => some reason
  | .duplicateUnit _ =>
    some "artifacts are named after their unit; set a distinct `unit` in one of the files"
  | .unknownAnchor _ _ target available =>
    some ("host passes for the " ++ target.text ++ " target: " ++ commaList available)

end ConfigError

end StagedCompiler
