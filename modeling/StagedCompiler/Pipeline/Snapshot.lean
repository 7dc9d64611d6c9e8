import StagedCompiler.Pipeline.Basic

/-!
# Snapshots

A snapshot is what is known about a unit behind a stage.  The snapshots of a run are listed by unit,
and those of one unit in the order in which they were taken, so the order in which units take turns
does not show.
-/

namespace StagedCompiler

/-- What is known about a unit behind a stage. -/
structure Snapshot : Type where
  unit : String
  stage : Stage
  bindings : Option (List Bindings.Summary)
  module : Option Module
  diagnostics : List Diagnostic

namespace Snapshot

/-- What is known about a unit now. -/
def capture (stage : Stage) (u : UnitState) : Snapshot where
  unit := u.tree.unit
  stage := stage
  bindings := u.analysis.map fun a => a.bindings.summarize u.tree a.descriptors
  module := u.module
  diagnostics := u.log.sorted

/-- The path of the file that a snapshot is written to. -/
def relativePath (s : Snapshot) : Path := ⟨s.unit⟩ / ⟨s.stage.text ++ ".json"⟩

/-- A list of snapshots as it is shown: by unit. -/
def listed (all : List Snapshot) : List Snapshot :=
  all.mergeSort fun a b => a.unit ≤ b.unit

end Snapshot

/-- The form of a binding in words. -/
def Bindings.Summary.toJson (s : Bindings.Summary) : Json :=
  .obj ([("path", .str s.path), ("ty", .str s.ty)] ++
    (s.target.toList.map fun t => ("target", .str t)) ++
    (s.declares.toList.map fun d => ("declares", .str d)) ++
    if s.flags.isEmpty then [] else [("flags", .arr (s.flags.map .str))])

/-- The form of a location. -/
def Location.toJson (l : Location) : Json :=
  .obj [("unit", .str l.unit), ("order", .nat l.order), ("path", .str l.path)]

/-- The form of a diagnostic. -/
def Diagnostic.toJson (d : Diagnostic) : Json :=
  .obj [("severity", .str d.severity.text), ("location", d.location.toJson),
    ("message", .str d.message), ("code", .str d.code),
    ("reporter", .obj [("name", .str d.reporter.name), ("rank", .nat d.reporter.rank)])]

/-- The form of a snapshot. -/
def Snapshot.toJson (s : Snapshot) : Json :=
  .obj ([("unit", .str s.unit), ("stage", .str s.stage.text)] ++
    (s.bindings.toList.map fun b => ("bindings", .arr (b.map Bindings.Summary.toJson))) ++
    (s.module.toList.map fun m => ("ir", m.toJson)) ++
    [("diagnostics", .arr (s.diagnostics.map Diagnostic.toJson))])

/-- The observer that keeps a snapshot behind every stage.  `keep` says what to do with one and gives
a message if that fails. -/
def Snapshot.observer {m : Type → Type} [Monad m] (keep : Snapshot → m (Option String)) :
    Observer m where
  name := "snapshot"
  observe moment stage u :=
    match moment with
    | .before => pure none
    | .after => keep (.capture stage u)

end StagedCompiler
