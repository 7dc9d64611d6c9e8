import StagedCompiler.Analysis
import StagedCompiler.Artifact.Basic
import StagedCompiler.Lowering.Plan
import StagedCompiler.Module.OfTree

/-!
# Stages

The stages that every unit goes through, and what a unit carries from one to the next.  A unit that is
rejected stops behind analysis, and a unit that is bundled stops behind lowering.
-/

namespace StagedCompiler

/-- A stage of compilation. -/
inductive Stage : Type where
  | analyze
  | buildIr
  | lower
  | codegen
  deriving DecidableEq, Repr

namespace Stage

/-- Every stage, in order. -/
def all : List Stage := [.analyze, .buildIr, .lower, .codegen]

/-- The name of a stage. -/
def text : Stage → String
  | .analyze => "analyze"
  | .buildIr => "build-ir"
  | .lower => "lower"
  | .codegen => "codegen"

/-- What a stage does. -/
def description : Stage → String
  | .analyze => "Resolve references, type expressions and run checkers"
  | .buildIr => "Build the IR module from the resolved tree"
  | .lower => "Run host and plugin lowering passes"
  | .codegen => "Emit the target artifact"

end Stage

/-- What is known about a unit while it is compiled. -/
structure UnitState : Type where
  tree : Tree
  log : Diagnostic.Log := {}
  analysis : Option Analysis := none
  module : Option Module := none
  artifact : Option Artifact := none

/-- Whether a unit goes on to the next stage. -/
inductive Progress : Type where
  | go
  | halt
  deriving DecidableEq, Repr

namespace Stage

/-- The fault of a stage that came across a number out of range or an unfit node. -/
def stopFault (stage : Stage) (backend : String) : Listing.Stop → Fault
  | .unfit message => .codegen backend message
  | .outOfRange e => .invariant stage.text ("panicked: " ++ e.message)

/-- Make the artifact of a unit. -/
def emit (stage : Stage) (target : Target) (m : Module) (a : Analysis) (u : UnitState)
    (progress : Progress) : Except Fault Progress × UnitState :=
  match Artifact.generate target m a.descriptors with
  | .ok artifact => (.ok progress, { u with artifact := some artifact })
  | .error stop => (.error (stage.stopFault (Artifact.backendName target) stop), u)

/-- Take a unit through a stage. -/
def run (registry : Registry) (plan : Lowering.Plan) (stage : Stage) (u : UnitState) :
    Except Fault Progress × UnitState :=
  match stage with
  | .analyze =>
    let result := StagedCompiler.analyze u.tree registry u.log
    let u := { u with log := result.log }
    match result.outcome with
    | .error fault => (.error fault, u)
    | .ok .rejected => (.ok .halt, u)
    | .ok (.accepted a) => (.ok .go, { u with analysis := some a })
  | .buildIr =>
    match u.analysis with
    | none => (.error (.invariant stage.text "unit was not analyzed"), u)
    | some a =>
      match Module.ofTree u.tree a.bindings a.descriptors with
      | .error fault => (.error fault, u)
      | .ok m => (.ok .go, { u with module := some m })
  | .lower =>
    match u.module, u.analysis with
    | some m, some a =>
      match plan.run m a.descriptors with
      | (.error fault, m) => (.error fault, { u with module := some m })
      | (.ok (), m) =>
        let u := { u with module := some m }
        match plan.target with
        | .bundle => emit stage .bundle m a u .halt
        | .native => (.ok .go, u)
    | _, _ => (.error (.invariant stage.text "no IR to lower"), u)
  | .codegen =>
    match u.module, u.analysis with
    | some m, some a => emit stage plan.target m a u .go
    | _, _ => (.error (.invariant stage.text "no IR to generate from"), u)

end Stage

end StagedCompiler
