/-!
# Binary operators

The operators of expressions, their symbols, and what they compute on 64-bit integers.
-/

namespace StagedCompiler

/-- A binary operator. -/
inductive Operator : Type where
  | add
  | sub
  | mul
  | div
  | eq
  | lt
  deriving DecidableEq, Repr, Inhabited

namespace Operator

/-- The symbol that a unit writes an operator as. -/
def symbol : Operator → String
  | .add => "+"
  | .sub => "-"
  | .mul => "*"
  | .div => "/"
  | .eq => "=="
  | .lt => "<"

/-- Every operator. -/
def all : List Operator := [.add, .sub, .mul, .div, .eq, .lt]

/-- The operator that a symbol stands for. -/
def ofSymbol? (s : String) : Option Operator :=
  all.find? fun op => op.symbol == s

/-- Equality and order compare; the other operators compute. -/
def isComparison : Operator → Bool
  | .eq | .lt => true
  | .add | .sub | .mul | .div => false

end Operator

end StagedCompiler
