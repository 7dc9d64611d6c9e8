import StagedCompiler.Analysis.Binding
import StagedCompiler.Registry

/-!
# Checks

After resolution the declaration checkers look at every declaration and then the call checkers at
every call whose callee is known.  `invocations` lists who looks at what, in order, and `runChecks`
does it; a checker that panics ends the checks.
-/

namespace StagedCompiler.Checks

/-- The declarations of a tree with what they declare, in document order. -/
def declarations (tree : Tree) (bindings : Bindings) (descriptors : Descriptor.Table) :
    List Extension.DeclarationSite :=
  tree.nodes.filterMap fun n =>
    if n.category == .declaration then do
      let binding ← bindings.get? n.id
      let descriptor ← binding.declares.bind descriptors.get?
      pure ⟨n, descriptor, tree.location n.site, descriptors⟩
    else none

/-- The calls of a tree with what they call, in document order. -/
def calls (tree : Tree) (bindings : Bindings) (descriptors : Descriptor.Table) :
    List Extension.CallSite :=
  tree.nodes.filterMap fun n =>
    match n with
    | .expr (.call site _ args) => do
      let binding ← bindings.get? site.id
      let calleeId ← binding.target
      let callee ← descriptors.get? calleeId
      pure ⟨site.id, callee, calleeId, args.length, tree.location site, descriptors⟩
    | _ => none

/-- A checker with a site that it looks at. -/
inductive Invocation : Type where
  | declaration (record : Registry.Record) (checker : Extension.DeclarationChecker)
      (site : Extension.DeclarationSite)
  | call (record : Registry.Record) (checker : Extension.CallChecker) (site : Extension.CallSite)

/-- What a checker reports about a site, in its own name. -/
def Invocation.run : Invocation → Except Fault (List Diagnostic)
  | .declaration record checker site => do
    let findings ← record.answer (checker.check record.reporter.name site)
    pure (findings.map (·.diagnostic record.reporter))
  | .call record checker site => do
    let findings ← record.answer (checker.check record.reporter.name site)
    pure (findings.map (·.diagnostic record.reporter))

/-- Who looks at what, in order. -/
def invocations (tree : Tree) (bindings : Bindings) (descriptors : Descriptor.Table)
    (registry : Registry) : List Invocation :=
  (registry.declarationCheckers.flatMap fun (record, checker) =>
    (declarations tree bindings descriptors).map (.declaration record checker)) ++
  (registry.callCheckers.flatMap fun (record, checker) =>
    (calls tree bindings descriptors).map (.call record checker))

/-- Run the checkers one after another and collect what they report. -/
def runChecks : List Invocation → Except Fault (List Diagnostic)
  | [] => .ok []
  | i :: rest => do
    let diagnostics ← i.run
    let more ← runChecks rest
    pure (diagnostics ++ more)

end StagedCompiler.Checks
