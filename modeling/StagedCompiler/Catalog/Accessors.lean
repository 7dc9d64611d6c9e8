import StagedCompiler.Catalog.Basic
import StagedCompiler.Lowering.HostPasses

/-!
# Accessors

A call of a marker followed by the name of a field reads that field.  The resolver offers a function
for such a call if exactly one class of the unit has a field of that name, and the pass puts a field
read in the place of each call of such a function.
-/

namespace StagedCompiler.Accessors

/-- The identity of the plugin. -/
def pluginId : String := "accessors"

/-- The identity that offered functions carry. -/
def extensionId : String := "accessors/accessors"

/-- The marker that calls begin with if no other one is chosen. -/
def defaultMarker : String := "get_"

/-- The fields of source classes that have a name. -/
def fieldsNamed (descriptors : Descriptor.Table) (name : List Char) :
    List (DescriptorId × Descriptor) :=
  descriptors.entries.filter fun (_, d) =>
    d.kind == .field && d.name.toList == name && !d.isSynthetic

/-- The function that reads a field. -/
def accessor (name : String) (id : DescriptorId) (field : Descriptor) (owner : DescriptorId) :
    Descriptor :=
  { name := name, kind := .function, params := [⟨"self", .cls owner⟩], ty := field.ty,
    container := some owner, origin := .synthetic extensionId (some id) }

/-- The function that a call of a name reads a field with. -/
def offer? (marker : String) (request : Extension.Request) : Option Descriptor :=
  let name := request.name.toList
  if request.kind = .call ∧ marker.toList.isPrefixOf name then
    match fieldsNamed request.descriptors (name.drop marker.toList.length) with
    | [(id, field)] => field.container.map (accessor request.name id field)
    | _ => none
  else none

/-- Offers accessors to calls that begin with the marker. -/
def resolver (marker : String) : Extension.Resolver where
  name := "accessors"
  resolve request := .ok (offer? marker request)

/-- The field that a call with one argument reads, if it calls an accessor. -/
def subject? (descriptors : Descriptor.Table) (n : Module.Node) : Option DescriptorId :=
  match n.kind, n.children, n.descriptor.bind descriptors.get? with
  | .call, [_], some d =>
    match d.origin with
    | .synthetic extension (some field) => if extension = extensionId then some field else none
    | _ => none
  | _, _, _ => none

/-- Put a field read in the place of a call of an accessor. -/
def lowerCall (descriptors : Descriptor.Table) (m : Module) :
    NodeId × Option NodeId → Except Module.OutOfRange Module
  | (_, none) => .ok m
  | (id, some parent) => do
    let n ← m.node id
    match subject? descriptors n with
    | none => pure m
    | some field =>
      let read := m.size
      let m := m.push { n with kind := .fieldGet, descriptor := some field }
      pure (← m.replaceChild parent id read).1

/-- Puts field reads in the places of calls of accessors. -/
def lowerAccessors : Extension.Pass where
  name := "lower-accessors"
  description := "Replace synthesized accessor calls with field reads"
  placement := .first
  idempotent := true
  run ctx m := Lowering.sweep (lowerCall ctx.descriptors) m.preorderWithParents m

/-- The plugin. -/
def module : Plugin.Module where
  id := pluginId
  description := "Synthesize field accessor functions and lower them to field reads"
  options := [⟨"prefix", "Prefix that marks a call as an accessor", some defaultMarker⟩]
  contributions options :=
    let marker := (options.get? "prefix").getD defaultMarker
    if marker.isEmpty then
      .error (.invalidOption pluginId "prefix" marker "the prefix must not be empty")
    else
      .ok [.ofExtension (.resolver (resolver marker)), .ofExtension (.lowering lowerAccessors)]

end StagedCompiler.Accessors
