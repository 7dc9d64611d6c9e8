import StagedCompiler.Analysis.Checks
import StagedCompiler.Analysis.Resolution

/-!
# Analysis of a unit

`analyze` resolves a unit, has it checked, and decides whether it is accepted: a unit with an error
among its diagnostics is rejected.  Nothing is added to the log unless resolution and checks go
through, and the log of an accepted unit is sealed.
-/

namespace StagedCompiler

/-- What later stages know about a unit that is accepted. -/
structure Analysis : Type where
  bindings : Bindings
  descriptors : Descriptor.Table
  deriving Repr

/-- How an analysis ends. -/
inductive Analysis.Outcome : Type where
  | accepted (analysis : Analysis)
  | rejected

/-- The result of analysing a unit: how it ended, the log afterwards, and which resolvers were
asked. -/
structure Analysis.Result : Type where
  outcome : Except Fault Analysis.Outcome
  log : Diagnostic.Log
  consultations : List Resolution.Consultation

namespace Analysis

/-- Add diagnostics to a log one after another.  What was added before a sealed log refuses one stays
in it. -/
def addAll (log : Diagnostic.Log) : List Diagnostic → Except Fault Unit × Diagnostic.Log
  | [] => (.ok (), log)
  | d :: rest =>
    match log.push? d with
    | none => (.error (.lateDiagnostic d.text), log)
    | some log => addAll log rest

/-- What follows resolution: checks, the log, and the decision. -/
def conclude (tree : Tree) (registry : Registry) (log : Diagnostic.Log) (s : Resolution.State) :
    Except Fault Outcome × Diagnostic.Log :=
  match s.fault with
  | some fault => (.error fault, log)
  | none =>
    match Checks.runChecks (Checks.invocations tree s.bindings s.descriptors registry) with
    | .error fault => (.error fault, log)
    | .ok checked =>
      match addAll log (s.diagnostics ++ checked) with
      | (.error fault, log) => (.error fault, log)
      | (.ok (), log) =>
        if log.hasErrors then (.ok .rejected, log)
        else
          match s.bindings.freeze tree s.descriptors with
          | .error fault => (.error fault, log)
          | .ok bindings => (.ok (.accepted ⟨bindings, s.descriptors⟩), log.close)

end Analysis

/-- Analyse a unit and add what is found to a log. -/
def analyze (tree : Tree) (registry : Registry) (log : Diagnostic.Log) : Analysis.Result :=
  let s := Resolution.run tree registry
  let (outcome, log) := Analysis.conclude tree registry log s
  ⟨outcome, log, s.consultations⟩

end StagedCompiler
