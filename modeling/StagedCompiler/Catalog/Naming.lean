import StagedCompiler.Catalog.Basic

/-!
# Naming conventions

Classes are named in Pascal case and everything else in snake case.
-/

namespace StagedCompiler.NamingConvention

/-- What is wrong with the name of a declaration: a code and the style that is expected. -/
def lapse? (d : Descriptor) : Option (String × String) :=
  if d.kind = .cls then
    if Text.isPascalCase d.name then none else some ("N0002", "PascalCase")
  else if Text.isSnakeCase d.name then none
  else some ("N0001", "snake_case")

/-- Reports declarations that are not named as they should be. -/
def checker (severity : Severity) : Extension.DeclarationChecker where
  name := "naming"
  check _ site :=
    .ok ((lapse? site.descriptor).toList.map fun (code, expected) =>
      ⟨severity, code,
        site.descriptor.kind.text ++ " `" ++ site.descriptor.name ++ "` should be " ++ expected,
        site.location⟩)

/-- The plugin. -/
def module : Plugin.Module where
  id := "naming"
  description := "Check that classes are PascalCase and everything else is snake_case"
  options := [⟨"severity", "Severity of naming diagnostics", some "warning"⟩]
  contributions options := do
    let severity ← Plugin.severityOption options .warning
    pure [.ofExtension (.declarationChecker (checker severity))]

end StagedCompiler.NamingConvention
