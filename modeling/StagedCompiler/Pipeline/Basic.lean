import StagedCompiler.Pipeline.Stage

/-!
# The pipeline

A `Pipeline` takes units through the stages.  Observers look on: each is shown the unit before and
behind every stage, in order, and can make the unit fail but not change it.  They may have effects of
their own in any monad; units do not see each other.
-/

namespace StagedCompiler

/-- Whether an observer is called before a stage or behind it. -/
inductive Moment : Type where
  | before
  | after
  deriving DecidableEq, Repr

/-- The word for a moment. -/
def Moment.text : Moment → String
  | .before => "before"
  | .after => "after"

/-- Looks on while units are compiled.  A message means that it failed. -/
structure Observer (m : Type → Type) : Type where
  name : String
  observe : Moment → Stage → UnitState → m (Option String)

/-- How the compilation of a unit ended. -/
inductive Outcome : Type where
  | compiled (artifact : Artifact)
  | checked
  | rejected
  | faulted (fault : Fault)
  deriving DecidableEq, Repr

/-- What is reported about a unit. -/
structure UnitReport : Type where
  unit : String
  diagnostics : List Diagnostic
  outcome : Outcome
  deriving DecidableEq, Repr

namespace UnitReport

/-- The artifact of a unit that was compiled. -/
def artifact? (r : UnitReport) : Option Artifact :=
  match r.outcome with
  | .compiled artifact => some artifact
  | .checked | .rejected | .faulted _ => none

/-- The fault of a unit that faulted. -/
def fault? (r : UnitReport) : Option Fault :=
  match r.outcome with
  | .faulted fault => some fault
  | .compiled _ | .checked | .rejected => none

/-- Whether a unit was compiled or passed its check. -/
def isSuccess (r : UnitReport) : Bool :=
  match r.outcome with
  | .compiled _ | .checked => true
  | .rejected | .faulted _ => false

end UnitReport

/-- What is reported about a run, unit by unit. -/
structure RunReport : Type where
  units : List UnitReport
  deriving DecidableEq, Repr

namespace RunReport

/-- Whether all units succeeded. -/
def isSuccess (r : RunReport) : Bool := r.units.all UnitReport.isSuccess

/-- The diagnostics of all units. -/
def diagnostics (r : RunReport) : List Diagnostic := r.units.flatMap (·.diagnostics)

/-- How many errors there are. -/
def errorCount (r : RunReport) : Nat := r.diagnostics.countP (·.severity.isError)

/-- How many warnings there are. -/
def warningCount (r : RunReport) : Nat := r.diagnostics.countP (·.severity.isWarning)

/-- The faults with the units they belong to. -/
def faults (r : RunReport) : List (String × Fault) :=
  r.units.filterMap fun u => u.fault?.map fun fault => (u.unit, fault)

end RunReport

/-- Whether units are only analysed or compiled. -/
inductive Mode : Type where
  | check
  | build
  deriving DecidableEq, Repr

/-- The stages of a mode. -/
def Mode.stages : Mode → List Stage
  | .check => [.analyze]
  | .build => Stage.all

/-- The extensions and the passes that units are compiled with. -/
structure Pipeline : Type where
  registry : Registry
  plan : Lowering.Plan

namespace Pipeline

/-- The pipeline of a registry for a target. -/
def build (registry : Registry) (target : Target) : Except ConfigError Pipeline := do
  pure ⟨registry, ← Lowering.Plan.build target registry⟩

/-- The target of a pipeline. -/
def target (p : Pipeline) : Target := p.plan.target

/-- The first name that a unit before it has. -/
def repeatedUnit? (seen : List String) : List Tree → Option String
  | [] => none
  | t :: rest => if seen.contains t.unit then some t.unit else repeatedUnit? (t.unit :: seen) rest

/-- Check that no two units have the same name. -/
def validateUnits (units : List Tree) : Except ConfigError Unit :=
  match repeatedUnit? [] units with
  | some unit => .error (.duplicateUnit unit)
  | none => .ok ()

section

variable {m : Type → Type} [Monad m]

/-- Show a unit to observers, up to the first that fails. -/
def notify (moment : Moment) (stage : Stage) (u : UnitState) :
    List (Observer m) → m (Except Fault Unit)
  | [] => pure (.ok ())
  | o :: rest => do
    match ← o.observe moment stage u with
    | some message => pure (.error (.observer o.name stage.text message))
    | none => notify moment stage u rest

/-- Take a unit through stages, up to the first that fails or halts it. -/
def runStages (p : Pipeline) (observers : List (Observer m)) :
    List Stage → UnitState → m (Except Fault Unit × UnitState)
  | [], u => pure (.ok (), u)
  | stage :: rest, u => do
    match ← notify .before stage u observers with
    | .error fault => pure (.error fault, u)
    | .ok () =>
      match stage.run p.registry p.plan u with
      | (.error fault, u) => pure (.error fault, u)
      | (.ok progress, u) =>
        match ← notify .after stage u observers with
        | .error fault => pure (.error fault, u)
        | .ok () =>
          match progress with
          | .halt => pure (.ok (), u)
          | .go => runStages p observers rest u

/-- How a unit ended, from what is known about it at the end. -/
def outcome (result : Except Fault Unit) (u : UnitState) : Outcome :=
  match result with
  | .error fault => .faulted fault
  | .ok () =>
    if u.log.hasErrors then .rejected
    else match u.artifact with
      | some artifact => .compiled artifact
      | none => .checked

/-- Take a unit through the stages of a mode. -/
def runUnit (p : Pipeline) (observers : List (Observer m)) (mode : Mode) (tree : Tree) :
    m UnitReport := do
  let (result, u) ← p.runStages observers mode.stages { tree := tree }
  pure ⟨tree.unit, u.log.sorted, outcome result u⟩

/-- Take units through the stages of a mode. -/
def run (p : Pipeline) (observers : List (Observer m)) (mode : Mode) (units : List Tree) :
    m (Except ConfigError RunReport) :=
  match validateUnits units with
  | .error e => pure (.error e)
  | .ok () => do
    let reports ← units.mapM (p.runUnit observers mode)
    pure (.ok ⟨reports⟩)

end

end Pipeline

end StagedCompiler
