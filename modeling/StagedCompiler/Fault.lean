import StagedCompiler.Extension.Point
import StagedCompiler.Module.Verify

/-!
# Faults

What can go wrong inside the compiler or one of its extensions while it works on a unit.  A fault is
never the unit author's mistake, so it stands beside the diagnostics of the unit and not among them.
-/

namespace StagedCompiler

/-- A failure of the compiler or of an extension. -/
inductive Fault : Type where
  | invariant (stage message : String)
  | lateDiagnostic (message : String)
  | extensionPanicked (extension : String) (point : Extension.Point) (message : String)
  | malformedIr (pass : String) (violation : Module.Violation)
  | passAborted (pass message : String)
  | passPanicked (pass message : String)
  | observer (name stage message : String)
  | codegen (backend message : String)
  deriving DecidableEq, Repr

namespace Fault

/-- The message about a fault. -/
def message : Fault → String
  | .invariant stage message =>
    "internal invariant violated during " ++ stage ++ ": " ++ message
  | .lateDiagnostic message => "diagnostic reported after analysis completed: " ++ message
  | .extensionPanicked extension point message =>
    "extension '" ++ extension ++ "' panicked in " ++ point.text ++ ": " ++ message
  | .malformedIr pass _ => "lowering pass '" ++ pass ++ "' produced malformed IR"
  | .passAborted pass message => "lowering pass '" ++ pass ++ "' aborted: " ++ message
  | .passPanicked pass message => "lowering pass '" ++ pass ++ "' panicked: " ++ message
  | .observer name stage message =>
    "observer '" ++ name ++ "' failed at " ++ stage ++ ": " ++ message
  | .codegen backend message => backend ++ " backend failed: " ++ message

/-- The message about what is behind a fault. -/
def source? : Fault → Option String
  | .malformedIr _ violation => some violation.message
  | _ => none

/-- The extension that a fault is blamed on. -/
def extension? : Fault → Option String
  | .extensionPanicked extension _ _ => some extension
  | _ => none

/-- The lowering pass that a fault is blamed on. -/
def pass? : Fault → Option String
  | .malformedIr pass _ | .passAborted pass _ | .passPanicked pass _ => some pass
  | _ => none

end Fault

end StagedCompiler
