import StagedCompiler.Json
import StagedCompiler.Module.Basic

/-!
# Descriptors and modules as JSON

The form in which a bundle writes types, descriptors and modules.  Every constructor writes the word
that tells it from the others, so the form determines the value.
-/

namespace StagedCompiler

/-- The form of a type. -/
def Ty.toJson : Ty → Json
  | .int => .str "Int"
  | .bool => .str "Bool"
  | .str => .str "Str"
  | .unit => .str "Unit"
  | .cls id => .obj [("Class", .nat id)]
  | .param name => .obj [("Param", .str name)]
  | .error => .str "Error"

namespace Descriptor

/-- The form of an origin. -/
def Origin.toJson : Origin → Json
  | .source node => .obj [("origin", .str "source"), ("node", .nat node)]
  | .synthetic extension subject =>
    .obj [("origin", .str "synthetic"), ("extension", .str extension),
      ("subject", .option .nat subject)]
  | .builtin => .obj [("origin", .str "builtin")]

/-- The form of a parameter. -/
def Param.toJson (p : Param) : Json :=
  .obj [("name", .str p.name), ("ty", p.ty.toJson)]

/-- The form of a descriptor. -/
def toJson (d : Descriptor) : Json :=
  .obj [("name", .str d.name), ("kind", .str d.kind.text), ("params", .arr (d.params.map Param.toJson)),
    ("type_params", .arr (d.typeParams.map .str)), ("ty", d.ty.toJson),
    ("container", .option .nat d.container), ("origin", d.origin.toJson)]

/-- The form of a table. -/
def Table.toJson (t : Table) : Json :=
  .obj [("descriptors", .arr (t.descriptors.toList.map Descriptor.toJson))]

end Descriptor

/-- The form of a constant. -/
def Constant.toJson : Constant → Json
  | .int n => .obj [("type", .str "int"), ("value", .int n.toInt)]
  | .bool b => .obj [("type", .str "bool"), ("value", .bool b)]
  | .str s => .obj [("type", .str "str"), ("value", .str s)]
  | .unit => .obj [("type", .str "unit")]

namespace Module

/-- The form of a node's kind. -/
def Kind.toJson (k : Kind) : Json :=
  .obj (("kind", .str k.text) :: match k with
    | .module name | .file name | .cls name | .field name | .function name | .param name
    | .letBind name => [("name", .str name)]
    | .constant value => [("value", value.toJson)]
    | .binary op => [("op", .str op.symbol)]
    | .block | .ret | .eval | .call | .fieldGet | .localRef => [])

/-- The form of a node. -/
def Node.toJson (n : Node) : Json :=
  .obj [("kind", n.kind.toJson), ("children", .arr (n.children.map .nat)),
    ("descriptor", .option .nat n.descriptor), ("ty", n.ty.toJson)]

/-- The form of a module. -/
def toJson (m : Module) : Json :=
  .obj [("nodes", .arr (m.nodes.toList.map Node.toJson)), ("root", .nat m.root)]

/-- The form of a unit in a bundle. -/
def bundleJson (m : Module) (unit : String) (descriptors : Descriptor.Table) : Json :=
  .obj [("unit", .str unit), ("descriptors", descriptors.toJson), ("ir", m.toJson)]

end Module

end StagedCompiler
