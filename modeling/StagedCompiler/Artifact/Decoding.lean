import StagedCompiler.Artifact.Encoding
import StagedCompiler.Word

/-!
# Descriptors and modules from JSON

The way back from the form in which a bundle writes types, descriptors and modules.  The fields of an
object are found by their names, in whatever order they stand, and fields that are not known are
ignored.
-/

namespace StagedCompiler

namespace Json

/-- The field of an object. -/
def field? (j : Json) (key : String) : Option Json :=
  match j with
  | .obj fields => fields.lookup key
  | _ => none

/-- The text of a string. -/
def str? : Json → Option String
  | .str s => some s
  | _ => none

/-- A truth value. -/
def bool? : Json → Option Bool
  | .bool b => some b
  | _ => none

/-- A number that is not negative. -/
def nat? : Json → Option Nat
  | .int n => if 0 ≤ n then some n.toNat else none
  | _ => none

/-- A number that a 64-bit integer can hold. -/
def int64? : Json → Option Int64
  | .int n => word? n
  | _ => none

/-- The items of an array, each read by `f`. -/
def items? {α : Type} (f : Json → Option α) : Json → Option (List α)
  | .arr items => items.mapM f
  | _ => none

/-- The field of an object, read by `f`. -/
def read? {α : Type} (j : Json) (key : String) (f : Json → Option α) : Option α :=
  (j.field? key).bind f

/-- The field of an object, read by `f`.  The value is missing if the field is null or not there. -/
def readOption? {α : Type} (j : Json) (key : String) (f : Json → Option α) : Option (Option α) :=
  match j.field? key with
  | none | some .null => some none
  | some v => (f v).map some

end Json

/-- The type that a form stands for. -/
def Ty.ofJson? (j : Json) : Option Ty :=
  match j.str? with
  | some "Int" => some .int
  | some "Bool" => some .bool
  | some "Str" => some .str
  | some "Unit" => some .unit
  | some "Error" => some .error
  | some _ => none
  | none => ((j.read? "Class" Json.nat?).map Ty.cls).or ((j.read? "Param" Json.str?).map Ty.param)

namespace Descriptor

/-- The origin that a form stands for. -/
def Origin.ofJson? (j : Json) : Option Origin := do
  match ← j.read? "origin" Json.str? with
  | "source" => pure (.source (← j.read? "node" Json.nat?))
  | "synthetic" =>
    pure (.synthetic (← j.read? "extension" Json.str?) (← j.readOption? "subject" Json.nat?))
  | "builtin" => pure .builtin
  | _ => none

/-- The parameter that a form stands for. -/
def Param.ofJson? (j : Json) : Option Param := do
  pure ⟨← j.read? "name" Json.str?, ← j.read? "ty" Ty.ofJson?⟩

/-- The descriptor that a form stands for. -/
def ofJson? (j : Json) : Option Descriptor := do
  pure {
    name := ← j.read? "name" Json.str?
    kind := ← (← j.read? "kind" Json.str?) |> Kind.ofText?
    params := ← j.read? "params" (Json.items? Param.ofJson?)
    typeParams := ← j.read? "type_params" (Json.items? Json.str?)
    ty := ← j.read? "ty" Ty.ofJson?
    container := ← j.readOption? "container" Json.nat?
    origin := ← j.read? "origin" Origin.ofJson? }

/-- The table that a form stands for. -/
def Table.ofJson? (j : Json) : Option Table := do
  pure ⟨(← j.read? "descriptors" (Json.items? Descriptor.ofJson?)).toArray⟩

end Descriptor

/-- The constant that a form stands for. -/
def Constant.ofJson? (j : Json) : Option Constant := do
  match ← j.read? "type" Json.str? with
  | "int" => pure (.int (← j.read? "value" Json.int64?))
  | "bool" => pure (.bool (← j.read? "value" Json.bool?))
  | "str" => pure (.str (← j.read? "value" Json.str?))
  | "unit" => pure .unit
  | _ => none

namespace Module

/-- The kind that a form stands for. -/
def Kind.ofJson? (j : Json) : Option Kind := do
  let name := j.read? "name" Json.str?
  match ← j.read? "kind" Json.str? with
  | "module" => name.map .module
  | "file" => name.map .file
  | "class" => name.map .cls
  | "field" => name.map .field
  | "function" => name.map .function
  | "param" => name.map .param
  | "block" => some .block
  | "let" => name.map .letBind
  | "return" => some .ret
  | "eval" => some .eval
  | "call" => some .call
  | "field_get" => some .fieldGet
  | "local" => some .localRef
  | "constant" => (j.read? "value" Constant.ofJson?).map .constant
  | "binary" => ((j.read? "op" Json.str?).bind Operator.ofSymbol?).map .binary
  | _ => none

/-- The node that a form stands for. -/
def Node.ofJson? (j : Json) : Option Node := do
  pure ⟨← j.read? "kind" Kind.ofJson?, ← j.read? "children" (Json.items? Json.nat?),
    ← j.readOption? "descriptor" Json.nat?, ← j.read? "ty" Ty.ofJson?⟩

/-- The module that a form stands for. -/
def ofJson? (j : Json) : Option Module := do
  pure ⟨(← j.read? "nodes" (Json.items? Node.ofJson?)).toArray, ← j.read? "root" Json.nat?⟩

end Module

end StagedCompiler
