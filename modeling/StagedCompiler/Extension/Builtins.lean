import StagedCompiler.Extension.Basic

/-!
# Declarations of the host

The functions that every unit can call: `print` and `assert`, each with one parameter and no result.
-/

namespace StagedCompiler.Extension

/-- The name, the parameter and the parameter's type of each function of the host. -/
def builtinFunctions : List (String × String × Ty) :=
  [("print", "message", .str), ("assert", "condition", .bool)]

/-- The descriptor of a function of the host. -/
def builtin? (name : String) : Option Descriptor :=
  (builtinFunctions.find? fun (f, _, _) => f == name).map fun (f, param, ty) =>
    { name := f, kind := .function, params := [⟨param, ty⟩], origin := .builtin }

/-- Offers the functions of the host to calls. -/
def builtins : Resolver where
  name := "builtins"
  resolve request :=
    .ok (if request.kind = .call then builtin? request.name else none)

end StagedCompiler.Extension
