import StagedCompiler.ConfigError
import StagedCompiler.Extension.Builtins
import StagedCompiler.Fault
import StagedCompiler.Manifest.Basic

/-!
# The registry of extensions

A `Registry` holds the extensions that take part in a run, in the order of their registration.  At
each point no identity is registered twice.  Extensions work in ascending order of their order key;
those with equal keys work in the order of their registration.
-/

namespace StagedCompiler

/-- A registered extension. -/
structure Registry.Record : Type where
  id : Extension.Id
  order : Int
  sequence : Nat
  placement : Option Placement
  extension : Extension

namespace Registry.Record

/-- Where a registered extension takes part. -/
def point (r : Record) : Extension.Point := r.extension.point

/-- Who a registered extension reports as. -/
def reporter (r : Record) : Reporter := .extension r.id.text r.sequence

/-- Whether `a` does not work after `b`. -/
def le (a b : Record) : Bool :=
  a.order < b.order || (a.order == b.order && a.sequence ≤ b.sequence)

/-- The answer of a registered extension, with a panic blamed on it. -/
def answer {α : Type} (r : Record) : Except Panic α → Except Fault α
  | .ok a => .ok a
  | .error panic => .error (.extensionPanicked r.id.text r.point panic.message)

end Registry.Record

/-- What is known about a plugin that a project enables. -/
structure Registry.PluginSummary : Type where
  id : String
  description : String
  order : Option Int
  placement : Option Placement
  options : PluginOptions

/-- The extensions that take part in a run. -/
structure Registry : Type where
  records : List Registry.Record := []
  plugins : List Registry.PluginSummary := []

namespace Registry

/-- The registry without extensions. -/
def empty : Registry := {}

/-- The plugin that the host's own extensions belong to. -/
def hostPlugin : String := "host"

/-- The registry with one more extension.  A lowering pass stands where the placement says or else
where the pass itself says. -/
def push (r : Registry) (id : Extension.Id) (extension : Extension) (order : Option Int)
    (placement : Option Placement) : Registry :=
  let placement := match extension with
    | .lowering pass => some (placement.getD pass.placement)
    | .resolver _ | .declarationChecker _ | .callChecker _ => none
  { r with records := r.records ++ [⟨id, order.getD 0, r.records.length, placement, extension⟩] }

/-- The registry of the host's own extensions. -/
def host : Registry :=
  empty.push ⟨hostPlugin, Extension.builtins.name⟩ (.resolver Extension.builtins) none none

/-- Whether an identity is taken at a point. -/
def isTaken (r : Registry) (point : Extension.Point) (id : Extension.Id) : Bool :=
  r.records.any fun record => record.point == point && record.id == id

/-- Register an extension of a plugin for a point.  It must be an extension for that point, and its
identity must be new there. -/
def insert (r : Registry) (plugin : String) (point : Extension.Point) (extension : Extension)
    (order : Option Int) (placement : Option Placement) : Except ConfigError Registry :=
  let id : Extension.Id := ⟨plugin, extension.name⟩
  if extension.point ≠ point then .error (.pointMismatch id.text point extension.point)
  else if r.isTaken point id then .error (.duplicateRegistration id.text point)
  else .ok (r.push id extension order placement)

/-- Register an extension of a plugin for a point, with its own placement. -/
def register (r : Registry) (plugin : String) (point : Extension.Point) (extension : Extension)
    (order : Option Int) : Except ConfigError Registry :=
  r.insert plugin point extension order none

/-- The extensions of a point in the order in which they work. -/
def extensionsFor (r : Registry) (point : Extension.Point) : List Record :=
  (r.records.filter fun record => record.point == point).mergeSort Record.le

/-- The resolvers in the order in which they are asked. -/
def resolvers (r : Registry) : List (Record × Extension.Resolver) :=
  (r.extensionsFor .syntheticDescriptors).filterMap fun record =>
    match record.extension with
    | .resolver e => some (record, e)
    | _ => none

/-- The declaration checkers in the order in which they check. -/
def declarationCheckers (r : Registry) : List (Record × Extension.DeclarationChecker) :=
  (r.extensionsFor .declarationChecker).filterMap fun record =>
    match record.extension with
    | .declarationChecker e => some (record, e)
    | _ => none

/-- The call checkers in the order in which they check. -/
def callCheckers (r : Registry) : List (Record × Extension.CallChecker) :=
  (r.extensionsFor .callChecker).filterMap fun record =>
    match record.extension with
    | .callChecker e => some (record, e)
    | _ => none

/-- The lowering passes in order. -/
def loweringPasses (r : Registry) : List (Record × Extension.Pass) :=
  (r.extensionsFor .irLowering).filterMap fun record =>
    match record.extension with
    | .lowering e => some (record, e)
    | _ => none

/-- How many extensions are registered. -/
def size (r : Registry) : Nat := r.records.length

end Registry

end StagedCompiler
