/-!
# Extension points

The closed set of places where an extension takes part in compilation.
-/

namespace StagedCompiler.Extension

/-- A place where an extension takes part in compilation. -/
inductive Point : Type where
  | syntheticDescriptors
  | declarationChecker
  | callChecker
  | irLowering
  deriving DecidableEq, Repr, Inhabited

namespace Point

/-- Every extension point, in the order in which compilation reaches them. -/
def all : List Point := [.syntheticDescriptors, .declarationChecker, .callChecker, .irLowering]

/-- The name of an extension point. -/
def text : Point → String
  | .syntheticDescriptors => "synthetic-descriptors"
  | .declarationChecker => "declaration-checker"
  | .callChecker => "call-checker"
  | .irLowering => "ir-lowering"

/-- The extension point that a name stands for. -/
def ofText? (s : String) : Option Point :=
  all.find? fun p => p.text == s

/-- What an extension does at a point. -/
def description : Point → String
  | .syntheticDescriptors => "Offer declarations for names ordinary resolution cannot find"
  | .declarationChecker => "Inspect every declaration after resolution"
  | .callChecker => "Inspect every resolved call after resolution"
  | .irLowering => "Transform the IR between construction and codegen"

end Point

end StagedCompiler.Extension
