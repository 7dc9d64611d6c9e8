import StagedCompiler.Catalog.Accessors
import StagedCompiler.Catalog.ForbiddenCalls
import StagedCompiler.Catalog.Naming

/-!
# The built-in catalog

The plugins that every project can enable.
-/

namespace StagedCompiler

/-- The catalog of the plugins that come with the compiler. -/
def Catalog.builtin : Catalog :=
  ((Catalog.empty.add Accessors.module).add NamingConvention.module).add ForbiddenCalls.module

end StagedCompiler
