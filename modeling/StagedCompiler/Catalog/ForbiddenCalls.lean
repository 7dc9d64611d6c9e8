import StagedCompiler.Catalog.Basic

/-!
# Forbidden calls

Calls of functions that a project does not want.
-/

namespace StagedCompiler.ForbiddenCalls

/-- The identity of the plugin. -/
def pluginId : String := "forbid-calls"

/-- The texts between the commas. -/
def splitCommas : List Char → List (List Char)
  | [] => [[]]
  | c :: rest =>
    if c == ',' then [] :: splitCommas rest
    else match splitCommas rest with
      | [] => [[c]]
      | part :: more => (c :: part) :: more

/-- The names of a list with commas, without the blanks around them. -/
def parseNames (s : String) : List String :=
  ((splitCommas s.toList).map Text.trimChars).filterMap fun cs =>
    if cs.isEmpty then none else some (String.ofList cs)

/-- Reports calls of the given functions. -/
def checker (names : List String) (severity : Severity) : Extension.CallChecker where
  name := "forbid-calls"
  check _ site :=
    .ok (if names.contains site.callee.name then
      [⟨severity, "F0001", "call to forbidden function `" ++ site.callee.name ++ "`", site.location⟩]
    else [])

/-- The plugin. -/
def module : Plugin.Module where
  id := pluginId
  description := "Report calls to functions listed in the `names` option"
  options :=
    [⟨"names", "Comma-separated function names", none⟩,
      ⟨"severity", "Severity of forbidden-call diagnostics", some "error"⟩]
  contributions options :=
    let given := (options.get? "names").getD ""
    let names := parseNames given
    if names.isEmpty then
      .error (.invalidOption pluginId "names" given
        "list at least one function name, e.g. names = \"print, debug\"")
    else do
      let severity ← Plugin.severityOption options .error
      pure [.ofExtension (.callChecker (checker names severity))]

end StagedCompiler.ForbiddenCalls
