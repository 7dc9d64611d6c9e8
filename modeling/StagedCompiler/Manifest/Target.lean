import StagedCompiler.Text.Case

/-!
# Targets

What a project is compiled to.
-/

namespace StagedCompiler

/-- A compilation target: a listing of instructions, or a bundle of the module and its
descriptors. -/
inductive Target : Type where
  | native
  | bundle
  deriving DecidableEq, Repr, Inhabited

namespace Target

/-- The word for a target. -/
def text : Target → String
  | .native => "native"
  | .bundle => "bundle"

/-- The target that a word stands for, written exactly so. -/
def ofText? (s : String) : Option Target :=
  [Target.native, .bundle].find? fun t => t.text == s

/-- The target that a word stands for in any case of its letters. -/
def parse? (s : String) : Option Target :=
  ofText? (Text.asciiLower s)

/-- The message about a word that stands for no target. -/
def unknownMessage (s : String) : String :=
  "unknown target '" ++ s ++ "', expected 'native' or 'bundle'"

end Target

end StagedCompiler
