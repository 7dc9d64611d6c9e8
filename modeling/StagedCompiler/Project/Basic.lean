import StagedCompiler.Catalog.Builtin
import StagedCompiler.Manifest.Reader
import StagedCompiler.Pipeline.Snapshot
import StagedCompiler.Project.FileStore
import StagedCompiler.Source.Assembly

/-!
# Projects

A project is a manifest in a file and the units that it lists.  `Project.load` reads both, `check` and
`build` take the units through the pipeline, and `build` writes what comes out.
-/

namespace StagedCompiler

/-- A manifest and the file it was read from. -/
structure ManifestFile : Type where
  path : Path
  content : String
  manifest : Manifest

namespace ManifestFile

/-- The directory that the paths of a manifest start from. -/
def root (f : ManifestFile) : Path := f.path.parent?.getD ⟨"."⟩

/-- The files of the units. -/
def unitPaths (f : ManifestFile) : List Path := f.manifest.units.map (f.root / ·)

/-- The directory that artifacts go to if the manifest names none. -/
def defaultOutDir : Path := ⟨"build"⟩

/-- The directory that artifacts go to. -/
def outDir (f : ManifestFile) : Path := f.root / f.manifest.outDir.getD defaultOutDir

end ManifestFile

namespace Project

/-- Why an operation on a project failed. -/
inductive Failure : Type where
  | manifest (fault : Manifest.Fault)
  | source (fault : Source.Fault)
  | config (error : ConfigError)
  | artifact (unit : String)
  deriving DecidableEq, Repr

/-- The message about an artifact that could not be written. -/
def artifactMessage (unit : String) : String :=
  "Failed to write artifact for unit '" ++ unit ++ "'"

end Project

/-- A manifest with its units. -/
structure Project : Type where
  file : ManifestFile
  units : List Tree

namespace Project

section

variable {m : Type → Type} [Monad m] [FileStore m]

/-- Read a manifest from a file. -/
def openManifest (path : Path) : m (Except Manifest.Fault ManifestFile) := do
  match ← FileStore.readText (m := m) path with
  | .error _ => pure (.error (.io path.text))
  | .ok content =>
    match Manifest.parse content with
    | .error fault => pure (.error fault)
    | .ok manifest => pure (.ok ⟨path, content, manifest⟩)

/-- The name of a unit that does not name itself: that of its file. -/
def defaultUnitName (path : Path) : String := path.stem?.getD "unit"

/-- Read a unit from a file. -/
def readUnit (path : Path) : m (Except Source.Fault Tree) := do
  match ← FileStore.readText (m := m) path with
  | .error _ => pure (.error (.io path.text))
  | .ok content => pure (Tree.parse content (defaultUnitName path))

/-- Read units from files, up to the first that cannot be read. -/
def readUnits : List Path → m (Except Source.Fault (List Tree))
  | [] => pure (.ok [])
  | path :: rest => do
    match ← readUnit (m := m) path with
    | .error fault => pure (.error fault)
    | .ok tree =>
      match ← readUnits rest with
      | .error fault => pure (.error fault)
      | .ok more => pure (.ok (tree :: more))

/-- Read a project: its manifest, then its units, whose names must differ. -/
def load (path : Path) : m (Except Failure Project) := do
  match ← openManifest (m := m) path with
  | .error fault => pure (.error (.manifest fault))
  | .ok file =>
    match ← readUnits (m := m) file.unitPaths with
    | .error fault => pure (.error (.source fault))
    | .ok units =>
      match Pipeline.validateUnits units with
      | .error e => pure (.error (.config e))
      | .ok () => pure (.ok ⟨file, units⟩)

/-- The pipeline of a project, for a target or else for the one that the manifest names. -/
def pipeline (p : Project) (catalog : Catalog) (target : Option Target) :
    Except Failure Pipeline := do
  let result : Except ConfigError Pipeline := do
    let registry ← Registry.discover p.file.manifest catalog
    Pipeline.build registry (target.getD p.file.manifest.target)
  result.mapError .config

/-- Read a project and make its pipeline. -/
def prepare (path : Path) (target : Option Target) : m (Except Failure (Project × Pipeline)) := do
  match ← load (m := m) path with
  | .error failure => pure (.error failure)
  | .ok project =>
    pure ((project.pipeline .builtin target).map fun pipeline => (project, pipeline))

/-- Write a snapshot below a directory. -/
def writeSnapshot (dir : Path) (s : Snapshot) : m (Option String) := do
  match ← FileStore.writeFile (m := m) .always (dir / s.relativePath) s.toJson.pretty with
  | .ok _ => pure none
  | .error e => pure (some e.detail)

/-- What became of the artifacts of a build. -/
structure Written : Type where
  written : List String := []
  unchanged : List String := []
  deriving DecidableEq, Repr

/-- Write artifacts below a directory, up to the first that cannot be written. -/
def writeArtifacts (outDir : Path) : List Artifact → m (Except Failure Written)
  | [] => pure (.ok {})
  | a :: rest => do
    match ← FileStore.writeFile (m := m) .ifChanged (a.path outDir) a.content with
    | .error _ => pure (.error (.artifact a.unit))
    | .ok result =>
      match ← writeArtifacts outDir rest with
      | .error failure => pure (.error failure)
      | .ok w =>
        match result with
        | .written => pure (.ok { w with written := a.fileName :: w.written })
        | .unchanged => pure (.ok { w with unchanged := a.fileName :: w.unchanged })

/-- Analyse units. -/
def check (p : Pipeline) (units : List Tree) : m (Except Failure RunReport) := do
  pure ((← p.run (m := m) [] .check units).mapError .config)

/-- Compile units and write their artifacts, and snapshots if a directory is given for them. -/
def build (p : Pipeline) (units : List Tree) (outDir : Path) (snapshots : Option Path) :
    m (Except Failure (RunReport × Written)) := do
  let observers := snapshots.toList.map fun dir => Snapshot.observer (writeSnapshot (m := m) dir)
  match ← p.run observers .build units with
  | .error e => pure (.error (.config e))
  | .ok report =>
    match ← writeArtifacts (m := m) outDir (report.units.filterMap UnitReport.artifact?) with
    | .error failure => pure (.error failure)
    | .ok written => pure (.ok (report, written))

end

end Project

end StagedCompiler
