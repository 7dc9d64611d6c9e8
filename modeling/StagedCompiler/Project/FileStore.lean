import StagedCompiler.Path

/-!
# File stores

What a project needs of a file system, in any monad, and the rule by which generated files are
written: a file is not touched if it has the content already, unless it is to be written always.
-/

namespace StagedCompiler

/-- A place to read and write files.  An operation that fails gives the reason. -/
class FileStore (m : Type → Type) where
  /-- Whether there is a file or a directory at a path. -/
  isPresent : Path → m Bool
  /-- The text of a file. -/
  readText : Path → m (Except String String)
  /-- Make a directory and those it lies in. -/
  makeDirs : Path → m (Except String Unit)
  /-- Give a file a text. -/
  writeText : Path → String → m (Except String Unit)

namespace FileStore

/-- When to write a file that is there already. -/
inductive Overwrite : Type where
  | always
  | ifChanged
  deriving DecidableEq, Repr

/-- What became of a file. -/
inductive WriteResult : Type where
  | written
  | unchanged
  deriving DecidableEq, Repr

/-- What could not be done with a path when a file was to be written. -/
inductive WriteStep : Type where
  | read
  | create
  | write
  deriving DecidableEq, Repr

/-- The word for a step. -/
def WriteStep.text : WriteStep → String
  | .read => "read"
  | .create => "create"
  | .write => "write"

/-- Why a file could not be written: the step that failed, its path, and the reason. -/
structure WriteError : Type where
  step : WriteStep
  path : Path
  reason : String
  deriving DecidableEq, Repr

/-- The message about a file that could not be written. -/
def WriteError.message (e : WriteError) : String :=
  "failed to " ++ e.step.text ++ " " ++ e.path.text

/-- The message about a file that could not be written, with the reason. -/
def WriteError.detail (e : WriteError) : String :=
  e.message ++ ": " ++ e.reason

section

variable {m : Type → Type} [Monad m] [FileStore m]

/-- Make the directory that a path lies in. -/
def makeParent (path : Path) : m (Except WriteError Unit) := do
  match path.parent? with
  | none => pure (.ok ())
  | some parent =>
    if parent.text.isEmpty then pure (.ok ())
    else pure ((← makeDirs parent).mapError (⟨.create, parent, ·⟩))

/-- Write a file, and the directories it lies in. -/
def replaceFile (path : Path) (content : String) : m (Except WriteError WriteResult) := do
  match ← makeParent (m := m) path with
  | .error e => pure (.error e)
  | .ok () =>
    match ← writeText path content with
    | .error reason => pure (.error ⟨.write, path, reason⟩)
    | .ok () => pure (.ok .written)

/-- Write a file by the rule for files that are there already. -/
def writeFile (overwrite : Overwrite) (path : Path) (content : String) :
    m (Except WriteError WriteResult) := do
  if overwrite == .ifChanged && (← isPresent path) then
    match ← readText (m := m) path with
    | .error reason => pure (.error ⟨.read, path, reason⟩)
    | .ok existing =>
      if existing == content then pure (.ok .unchanged) else replaceFile path content
  else replaceFile path content

end

end FileStore

end StagedCompiler
