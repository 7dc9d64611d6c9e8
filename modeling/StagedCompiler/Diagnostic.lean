import StagedCompiler.Location
import StagedCompiler.Text.Case

/-!
# Diagnostics

What is said about a unit to its author.  The diagnostics of a unit are collected in a
`Diagnostic.Log`, which is sealed once the unit is accepted; nothing can be added to it afterwards.
-/

namespace StagedCompiler

/-- How grave a diagnostic is. -/
inductive Severity : Type where
  | error
  | warning
  | info
  deriving DecidableEq, Repr, Inhabited

namespace Severity

/-- The word for a severity. -/
def text : Severity → String
  | .error => "error"
  | .warning => "warning"
  | .info => "info"

/-- The severity that a word stands for in any case of its letters. -/
def parse? (s : String) : Option Severity :=
  match Text.asciiLower s with
  | "error" => some .error
  | "warning" | "warn" => some .warning
  | "info" => some .info
  | _ => none

/-- Whether a unit with such a diagnostic is rejected. -/
def isError (s : Severity) : Bool := s == .error

/-- Whether such a diagnostic counts as a warning. -/
def isWarning (s : Severity) : Bool := s == .warning

end Severity

/-- Who reports a diagnostic.  At the same place, reporters of lower rank come first. -/
structure Reporter : Type where
  name : String
  rank : Nat
  deriving DecidableEq, Repr, Inhabited

/-- The host comes before all extensions. -/
def Reporter.host : Reporter := ⟨"host", 0⟩

/-- Extensions rank in the order of their registration. -/
def Reporter.extension (name : String) (sequence : Nat) : Reporter := ⟨name, sequence + 1⟩

/-- Something that is said about a place of a unit. -/
structure Diagnostic : Type where
  severity : Severity
  location : Location
  message : String
  code : String
  reporter : Reporter
  deriving DecidableEq, Repr, Inhabited

namespace Diagnostic

/-- An error that the host reports. -/
def hostError (code message : String) (location : Location) : Diagnostic :=
  ⟨.error, location, message, code, .host⟩

/-- The text of a diagnostic. -/
def text (d : Diagnostic) : String :=
  d.severity.text ++ "[" ++ d.code ++ "]: " ++ d.message ++ " (at " ++ d.location.text ++ ")"

/-- Whether `a` does not come after `b`: first by place, then by the rank of the reporter. -/
def le (a b : Diagnostic) : Bool :=
  (a.location.compare b.location).then (compare a.reporter.rank b.reporter.rank) != .gt

/-- The diagnostics of a unit in the order in which they were reported. -/
structure Log : Type where
  items : List Diagnostic := []
  isSealed : Bool := false
  deriving DecidableEq, Repr, Inhabited

namespace Log

/-- The log with nothing in it. -/
def empty : Log := {}

/-- The log with one more diagnostic; a sealed log takes none. -/
def push? (log : Log) (d : Diagnostic) : Option Log :=
  if log.isSealed then none else some { log with items := log.items ++ [d] }

/-- The log, closed to further diagnostics. -/
def close (log : Log) : Log := { log with isSealed := true }

/-- Whether there is an error among the diagnostics. -/
def hasErrors (log : Log) : Bool := log.items.any (·.severity.isError)

/-- How many errors there are. -/
def errorCount (log : Log) : Nat := log.items.countP (·.severity.isError)

/-- How many warnings there are. -/
def warningCount (log : Log) : Nat := log.items.countP (·.severity.isWarning)

/-- The diagnostics by place and rank; those that agree in both keep their order. -/
def sorted (log : Log) : List Diagnostic := log.items.mergeSort le

end Log

end Diagnostic

end StagedCompiler
