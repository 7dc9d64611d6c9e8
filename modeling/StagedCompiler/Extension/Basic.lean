import StagedCompiler.Diagnostic
import StagedCompiler.Extension.Point
import StagedCompiler.Manifest.Placement
import StagedCompiler.Manifest.Target
import StagedCompiler.Module.Basic
import StagedCompiler.Source.Tree

/-!
# Extensions

What extensions are shown at each extension point and what they answer.  An extension is a function
of what it is shown.  It can also give up: `Panic` is the text that it leaves behind.
-/

namespace StagedCompiler

/-- The text that code leaves behind when it gives up. -/
structure Panic : Type where
  message : String
  deriving DecidableEq, Repr

/-- The text of a panic that leaves nothing to read. -/
def Panic.unknown : Panic := ⟨"unknown panic payload"⟩

/-- How a name is used. -/
inductive ReferenceKind : Type where
  | value
  | call
  | type
  deriving DecidableEq, Repr

/-- The word for a use. -/
def ReferenceKind.text : ReferenceKind → String
  | .value => "value"
  | .call => "call"
  | .type => "type"

namespace Extension

/-- A name that is looked for, and the descriptors that are known. -/
structure Request : Type where
  name : String
  kind : ReferenceKind
  descriptors : Descriptor.Table

/-- Offers descriptors for names that a unit uses. -/
structure Resolver : Type where
  name : String
  resolve : Request → Except Panic (Option Descriptor)

/-- A declaration of a unit. -/
structure DeclarationSite : Type where
  node : Source.Node
  descriptor : Descriptor
  location : Location
  descriptors : Descriptor.Table

/-- A call of a unit whose callee is known. -/
structure CallSite : Type where
  node : Source.SiteId
  callee : Descriptor
  calleeId : DescriptorId
  arguments : Nat
  location : Location
  descriptors : Descriptor.Table

/-- What a checker has to say about a place. -/
structure Finding : Type where
  severity : Severity
  code : String
  message : String
  location : Location
  deriving DecidableEq, Repr

/-- The diagnostic that a reporter makes of a finding. -/
def Finding.diagnostic (f : Finding) (reporter : Reporter) : Diagnostic :=
  ⟨f.severity, f.location, f.message, f.code, reporter⟩

/-- Looks at declarations.  It is told the name that it reports under. -/
structure DeclarationChecker : Type where
  name : String
  check : String → DeclarationSite → Except Panic (List Finding)

/-- Looks at calls.  It is told the name that it reports under. -/
structure CallChecker : Type where
  name : String
  check : String → CallSite → Except Panic (List Finding)

/-- What a lowering pass is told besides the module: the descriptors, the identity that it runs
under, and the target. -/
structure PassContext : Type where
  descriptors : Descriptor.Table
  pass : String
  target : Target

/-- How a pass ended before its end. -/
inductive PassStop : Type where
  | aborted (message : String)
  | panicked (panic : Panic)
  deriving DecidableEq, Repr

/-- The module that a pass leaves behind, and how it stopped, if it did. -/
structure PassResult : Type where
  module : Module
  stop : Option PassStop := none

/-- Changes the module of a unit. -/
structure Pass : Type where
  name : String
  description : String := ""
  placement : Placement := .last
  idempotent : Bool := false
  run : PassContext → Module → PassResult

/-- The text of an abort that names the pass. -/
def abortText (pass message : String) : String := pass ++ " aborted: " ++ message

end Extension

/-- An extension of the compiler. -/
inductive Extension : Type where
  | resolver (r : Extension.Resolver)
  | declarationChecker (c : Extension.DeclarationChecker)
  | callChecker (c : Extension.CallChecker)
  | lowering (p : Extension.Pass)

namespace Extension

/-- Where an extension takes part. -/
def point : Extension → Point
  | .resolver _ => .syntheticDescriptors
  | .declarationChecker _ => .declarationChecker
  | .callChecker _ => .callChecker
  | .lowering _ => .irLowering

/-- The name of an extension. -/
def name : Extension → String
  | .resolver r => r.name
  | .declarationChecker c => c.name
  | .callChecker c => c.name
  | .lowering p => p.name

/-- The identity of an extension: the plugin it belongs to and its name. -/
structure Id : Type where
  plugin : String
  name : String
  deriving DecidableEq, Repr, Inhabited

/-- The text of an identity. -/
def Id.text (id : Id) : String := id.plugin ++ "/" ++ id.name

end Extension

end StagedCompiler
