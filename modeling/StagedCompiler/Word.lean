/-!
# Words

Which numbers fit into a machine word of some width.
-/

namespace StagedCompiler

/-- The 64-bit integer with a value, if there is one. -/
def word? (n : Int) : Option Int64 :=
  if Int64.minValue.toInt ≤ n ∧ n ≤ Int64.maxValue.toInt then some (Int64.ofInt n) else none

/-- Whether a number is a signed or an unsigned word of a width. -/
def isWord (bits : Nat) (n : Int) : Bool :=
  -(Nat.pow 2 (bits - 1) : Int) ≤ n && n < Nat.pow 2 bits

end StagedCompiler
