/-!
# Types

The types of expressions.  A class type refers to the descriptor of its class.  `error` is the type
of what could not be resolved, and a `param` stands for a type that a call chooses; both are
compatible with everything, so that one mistake is not reported twice.
-/

namespace StagedCompiler

/-- The number of a descriptor in its table. -/
abbrev DescriptorId : Type := Nat

/-- A type. -/
inductive Ty : Type where
  | int
  | bool
  | str
  | unit
  | cls (id : DescriptorId)
  | param (name : String)
  | error
  deriving DecidableEq, Repr, Inhabited

namespace Ty

/-- The type that a reserved name stands for. -/
def builtin? (name : String) : Option Ty :=
  match name with
  | "int" => some .int
  | "bool" => some .bool
  | "str" => some .str
  | "unit" => some .unit
  | _ => none

/-- Whether two types are compatible: they are equal, or one of them is open. -/
def accepts (a b : Ty) : Bool :=
  match a, b with
  | .error, _ | _, .error | .param _, _ | _, .param _ => true
  | a, b => a == b

end Ty

end StagedCompiler
