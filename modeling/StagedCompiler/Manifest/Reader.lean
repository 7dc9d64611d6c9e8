import StagedCompiler.Manifest.Basic
import StagedCompiler.Text.Span
import StagedCompiler.Toml.Document

/-!
# Reading a manifest from its document

`Manifest.parse` reads a manifest and checks it.  A manifest holds no keys but the known ones.  The
project and each plugin may also be written as an array of their fields in order, of which those
behind the last field are ignored.
-/

namespace StagedCompiler.Manifest

open Toml

/-- Why a manifest could not be read. -/
inductive Fault : Type where
  | io (path : String)
  | parse
  | duplicatePlugin (id : String) (first second : Option Text.Span)
  | unsupportedOptionValue (plugin option : String) (span : Option Text.Span)
  | validation (message : String) (span : Option Text.Span)
  deriving DecidableEq, Repr

namespace Fault

/-- The message about a fault. -/
def message : Fault → String
  | .io path => "failed to read '" ++ path ++ "'"
  | .parse => "failed to parse trellis.toml"
  | .duplicatePlugin id _ _ => "plugin '" ++ id ++ "' is enabled more than once"
  | .unsupportedOptionValue plugin option _ =>
    "option '" ++ option ++ "' of plugin '" ++ plugin ++
      "' must be a string, integer, float or boolean"
  | .validation message _ => message

/-- The code of a fault. -/
def code? : Fault → Option String
  | .io _ => none
  | .parse => some "trellis::parse_error"
  | .duplicatePlugin _ _ _ => some "trellis::duplicate_plugin"
  | .unsupportedOptionValue _ _ _ => some "trellis::unsupported_option_value"
  | .validation _ _ => some "trellis::validation_error"

/-- What can be done about a fault. -/
def help? : Fault → Option String
  | .io _ => some "pass the manifest location with --config, or create a trellis.toml"
  | .duplicatePlugin id _ _ => some ("merge the two [[plugins]] entries for '" ++ id ++ "' into one")
  | .parse | .unsupportedOptionValue _ _ _ | .validation _ _ => none

/-- The places of the source that a fault points at, each with its label. -/
def labels : Fault → List (String × Text.Span)
  | .io _ | .parse => []
  | .duplicatePlugin _ first second =>
    first.toList.map ("first enabled here", ·) ++ second.toList.map ("enabled again here", ·)
  | .unsupportedOptionValue _ _ span => span.toList.map ("not a scalar", ·)
  | .validation message span => span.toList.map (message, ·)

end Fault

/-- The fault of a source that enables a plugin twice: it points at the first two places that give a
plugin this identity. -/
def duplicatePlugin (source id : String) : Fault :=
  let spans := Text.valueSpans source "id" id
  .duplicatePlugin id spans[0]? spans[1]?

/-- The fault of a source that gives an option a value that is no scalar. -/
def unsupportedOption (source plugin option : String) : Fault :=
  .unsupportedOptionValue plugin option (Text.keySpan? source option)

/-- Whether a table has no keys but the given ones. -/
def knows (keys : List String) (entries : Table) : Bool :=
  entries.all fun (key, _) => keys.contains key

/-- The field of a table by name, or of an array by place.  A table must not have other fields. -/
def field? (names : List String) (v : Value) : Option (Nat → Option Value) :=
  match v with
  | .table entries =>
    if knows names entries then
      some fun index => (names[index]?).bind fun name => entries.lookup name
    else none
  | .array items => some fun index => items[index]?
  | _ => none

/-- A field that may be left out: `d` if it is not there, or what `read` makes of it. -/
def optionalOr {α : Type} (d : α) (read : Value → Option α) : Option Value → Option α
  | none => some d
  | some v => read v

/-- A target: its word, or a table with the word as its only key and nothing there. -/
def target? : Value → Option Target
  | .string s => Target.ofText? s
  | .table [(s, .table [])] => Target.ofText? s
  | .table [(s, .array [])] => Target.ofText? s
  | _ => none

/-- A placement. -/
def placement? (v : Value) : Option Placement := do
  match Placement.parse (← v.string?) with
  | .ok p => some p
  | .error _ => none

/-- The options of a plugin: a table of plain data.  A date or time in its place is the one option
whose key is that of dates. -/
def options? : Value → Option Table
  | .table entries => Table.settle? entries
  | .datetime d => some [(Value.datetimeKey, .string d.text)]
  | _ => none

/-- A plugin that a project enables. -/
def Plugin.ofValue? (v : Value) : Option Plugin := do
  let field ← field? ["id", "order", "placement", "options"] v
  let id ← (field 0).bind Value.string?
  let order ← optionalOr none (fun v => v.integer?.map fun n => some n.toInt) (field 1)
  let placement ← optionalOr none (fun v => (placement? v).map some) (field 2)
  let options ← optionalOr [] options? (field 3)
  pure ⟨id, order, placement, options⟩

/-- The manifest that a document holds. -/
def ofTable? (t : Table) : Option Manifest := do
  if !knows ["project", "plugins"] t then none
  else
    let field ← field? ["name", "target", "units", "out_dir"] (← t.lookup "project")
    let name ← (field 0).bind Value.string?
    let target ← optionalOr .native target? (field 1)
    let units ← optionalOr [] Value.strings? (field 2)
    let outDir ← optionalOr none (fun v => v.string?.map some) (field 3)
    let plugins ← optionalOr [] (fun | .array items => items.mapM Plugin.ofValue? | _ => none)
      (t.lookup "plugins")
    pure ⟨name, target, units.map Path.mk, outDir.map Path.mk, plugins⟩

/-- The first path of a list that names the same place as one before it. -/
def repeatedPath? (seen : List Path) : List Path → Option Path
  | [] => none
  | p :: rest => if seen.any p.same then some p else repeatedPath? (p :: seen) rest

/-- Check the plugins of a manifest in order: each has an identity of its own, and options that are
scalars. -/
def checkPlugins (source : String) : List String → List Plugin → Except Fault Unit
  | _, [] => .ok ()
  | seen, p :: rest =>
    if Text.allBlank p.id then .error (.validation "plugin id cannot be empty" none)
    else if seen.contains p.id then .error (duplicatePlugin source p.id)
    else match p.nonScalar? with
      | some option => .error (unsupportedOption source p.id option)
      | none => checkPlugins source (p.id :: seen) rest

/-- Check a manifest: the project has a name, no unit is listed twice, and its plugins are in
order. -/
def check (source : String) (m : Manifest) : Except Fault Unit :=
  if Text.allBlank m.name then .error (.validation "project name cannot be empty" none)
  else match repeatedPath? [] m.units with
    | some p =>
      .error (.validation ("unit '" ++ p.text ++ "' is listed more than once")
        (Text.lastQuotedSpan? source p.text))
    | none => checkPlugins source [] m.plugins

/-- The manifest that a text holds. -/
def parse (source : String) : Except Fault Manifest :=
  match (Toml.parse source).bind ofTable? with
  | none => .error .parse
  | some m =>
    match check source m with
    | .error fault => .error fault
    | .ok () => .ok m

end StagedCompiler.Manifest
