import StagedCompiler.Project.Basic

/-!
# Reports

What the operations on a project print.  Diagnostics and faults go to the error stream, everything
else to the output stream.
-/

namespace StagedCompiler

/-- The lines of the two streams. -/
structure Printed : Type where
  out : List String := []
  err : List String := []
  deriving DecidableEq, Repr

namespace Printed

/-- The text of lines. -/
def textOf (lines : List String) : String := String.join (lines.map (· ++ "\n"))

/-- The lines of a heading with a rule below it as long as the heading has bytes. -/
def title (text : String) : List String :=
  [text, String.ofList (List.replicate text.utf8ByteSize '=')]

/-- A heading of a section. -/
def heading (name : String) : String := name ++ ":"

/-- A named value. -/
def keyValue (key value : String) : String := key ++ ": " ++ value

/-- A member of a list. -/
def bullet (text : String) : String := "  - " ++ text

/-- Numbered members of a list. -/
def numbered (texts : List String) : List String :=
  texts.zipIdx.map fun (text, i) => "  " ++ toString (i + 1) ++ ". " ++ text

/-- A section behind an empty line; one without members is left out. -/
def optionalSection (name : String) (members : List String) : List String :=
  if members.isEmpty then [] else ["", heading name] ++ members.map bullet

end Printed

namespace Project

open Printed

/-- The diagnostics and faults of a run. -/
def problems (r : RunReport) : List String :=
  r.diagnostics.map Diagnostic.text ++
    r.faults.map fun (unit, fault) => "error: " ++ unit ++ ": " ++ fault.message

/-- The empty line behind problems, if there are any. -/
def gap (r : RunReport) : List String := if (problems r).isEmpty then [] else [""]

/-- The report of a check. -/
def checkReport (config : Path) (r : RunReport) : Printed :=
  let passed := r.units.countP UnitReport.isSuccess
  let mark := if r.isSuccess then "✓ " else "✗ "
  let summary := toString passed ++ "/" ++ toString r.units.length ++ " units passed (" ++
    toString r.errorCount ++ " errors, " ++ toString r.warningCount ++ " warnings)"
  { out := gap r ++ [mark ++ config.text ++ ": " ++ summary], err := problems r }

/-- The report of a build. -/
def buildReport (target : Target) (outDir : Path) (snapshots : Option Path) (r : RunReport)
    (w : Written) : Printed :=
  let units := r.units.map fun u =>
    if u.isSuccess then "  + " ++ u.unit else "  - " ++ u.unit ++ " (failed)"
  { out := gap r ++ [keyValue "Target" target.text, keyValue "Output" outDir.text] ++
      snapshots.toList.map (fun dir => keyValue "Snapshots" dir.text) ++ ["", heading "Units"] ++
      units ++ optionalSection "Written" w.written ++ optionalSection "Unchanged" w.unchanged
    err := problems r }

/-- The lines about an extension point. -/
def pointLines (registry : Registry) (point : Extension.Point) : List String :=
  let records := registry.extensionsFor point
  let lines := records.zipIdx.map fun (record, i) =>
    let placement := match record.placement with
      | some p => ", " ++ p.text
      | none => ""
    "      " ++ toString (i + 1) ++ ". " ++ record.id.text ++ " (order " ++ toString record.order ++
      placement ++ ")"
  [bullet (keyValue point.text point.description)] ++
    if records.isEmpty then ["      (none)"] else lines

/-- The value that an option of a plugin has. -/
def optionValue (options : PluginOptions) (spec : Plugin.OptionSpec) : String :=
  match options.get? spec.name, spec.default? with
  | some value, _ => value
  | none, some value => value ++ " (default)"
  | none, none => "(unset)"

/-- The lines about a plugin. -/
def pluginLines (catalog : Catalog) (plugin : Registry.PluginSummary) : List String :=
  let specs := ((catalog.get? plugin.id).map (·.options)).getD []
  [bullet (keyValue plugin.id plugin.description)] ++
    specs.map fun spec => "      " ++ keyValue spec.name (optionValue plugin.options spec)

/-- The report that explains a pipeline. -/
def explainReport (file : ManifestFile) (p : Pipeline) (catalog : Catalog) : Printed :=
  let stages := Stage.all.map fun s => s.text ++ " - " ++ s.description
  let units := ", ".intercalate (file.manifest.units.map Path.text)
  let plugins := p.registry.plugins
  { out := title "Trellis Pipeline Explanation" ++ ["", keyValue "Input" file.path.text,
        "  " ++ keyValue "Project" file.manifest.name, "  " ++ keyValue "Target" p.target.text,
        "  " ++ keyValue "Units" units, "", heading "Stages"] ++ numbered stages ++
      ["", heading "Extension Points"] ++ Extension.Point.all.flatMap (pointLines p.registry) ++
      [""] ++
      (if plugins.isEmpty then []
        else [heading "Plugins"] ++ plugins.flatMap (pluginLines catalog) ++ [""]) ++
      [heading "Lowering Order"] ++ numbered p.plan.names }

section

variable {m : Type → Type} [Monad m] [FileStore m]

/-- What an operation prints, and whether all units succeeded. -/
structure Result : Type where
  ok : Bool
  printed : Printed

/-- The project file that is opened if no other one is named. -/
def defaultConfig : Path := ⟨"trellis.toml"⟩

/-- Check the project with the given manifest. -/
def runCheck (config : Path) : m (Except Failure Result) := do
  match ← prepare (m := m) config none with
  | .error failure => pure (.error failure)
  | .ok (project, pipeline) =>
    match ← check (m := m) pipeline project.units with
    | .error failure => pure (.error failure)
    | .ok report => pure (.ok ⟨report.isSuccess, checkReport config report⟩)

/-- Build the project with the given manifest. -/
def runBuild (config : Path) (outDir : Option Path) (target : Option Target)
    (snapshots : Option Path) : m (Except Failure Result) := do
  match ← prepare (m := m) config target with
  | .error failure => pure (.error failure)
  | .ok (project, pipeline) =>
    let outDir := outDir.getD project.file.outDir
    match ← build (m := m) pipeline project.units outDir snapshots with
    | .error failure => pure (.error failure)
    | .ok (report, written) =>
      pure (.ok ⟨report.isSuccess, buildReport pipeline.target outDir snapshots report written⟩)

/-- Explain the project with the given manifest. -/
def runExplain (config : Path) : m (Except Failure Result) := do
  match ← prepare (m := m) config none with
  | .error failure => pure (.error failure)
  | .ok (project, pipeline) =>
    pure (.ok ⟨true, explainReport project.file pipeline .builtin⟩)

end

end Project

end StagedCompiler
