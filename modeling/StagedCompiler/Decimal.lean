/-!
# Decimal text of binary fractions

`shortest` finds, for a positive number `m · 2^q` of double precision, the decimal with the fewest
digits among those that are nearer to it than to any other number of that precision, and of these
the nearest; between two that are equally near it takes the larger.  `Decimal.positional` writes a
decimal without an exponent, and `floatText` puts the two together.
-/

namespace StagedCompiler

/-- The number `digits · 10 ^ exponent`. -/
structure Decimal : Type where
  digits : Nat
  exponent : Int
  deriving DecidableEq, Repr

namespace Decimal

/-- A number of double precision: `significand · 2 ^ exponent`, and whether the gap to the number
below is half as wide as the gap to the number above. -/
structure Binary : Type where
  significand : Nat
  exponent : Int
  narrowBelow : Bool

/-- `n · b ^ e` as a fraction of two natural numbers. -/
def scaled (n b : Nat) (e : Int) : Nat × Nat :=
  if 0 ≤ e then (n * b.pow e.toNat, 1) else (n, b.pow (-e).toNat)

/-- The exponent of the leading decimal digit of the fraction `num / den`. -/
def leadingExponent (num den : Nat) : Int :=
  if den ≤ num then ((Nat.toDigits 10 (num / den)).length : Int) - 1
  else -(((List.range 400).find? fun k => den ≤ num * Nat.pow 10 k).getD 400 : Int)

/-- The candidate `digits · 10 ^ exponent`, if it rounds to `x`: it lies between the midpoints to
the neighbours of `x`, which themselves round to `x` exactly if its significand is even.  The
result carries the distance to `x`, in quarters of its last place, over a denominator that all
candidates of one grid share. -/
def candidate? (x : Binary) (exponent : Int) (digits : Nat) : Option (Nat × Nat) :=
  let (xn, xd) := scaled 1 2 (x.exponent - 2)
  let (cn, cd) := scaled digits 10 exponent
  let value := 4 * x.significand * xn * cd
  let low := (4 * x.significand - if x.narrowBelow then 1 else 2) * xn * cd
  let high := (4 * x.significand + 2) * xn * cd
  let point := cn * xd
  let inside :=
    if x.significand % 2 == 0 then low ≤ point && point ≤ high else low < point && point < high
  if inside then some (digits, if value ≤ point then point - value else value - point) else none

/-- The nearest candidate on the grid of multiples of `10 ^ exponent`, if one rounds to `x`; of two
that are equally near it is the larger. -/
def onGrid? (x : Binary) (exponent : Int) : Option Decimal :=
  let (xn, xd) := scaled x.significand 2 x.exponent
  let (gn, gd) := scaled 1 10 exponent
  let below := (xn * gd) / (xd * gn)
  match candidate? x exponent below, candidate? x exponent (below + 1) with
  | none, none => none
  | some (d, _), none => some ⟨d, exponent⟩
  | none, some (d, _) => some ⟨d, exponent⟩
  | some (a, da), some (b, db) => some ⟨if da < db then a else b, exponent⟩

/-- The decimal with the fewest digits that rounds to `x`.  Seventeen digits are always enough. -/
def shortest (x : Binary) : Decimal :=
  let (num, den) := scaled x.significand 2 x.exponent
  let top := leadingExponent num den
  ((List.range 17).findSome? fun (n : Nat) => onGrid? x (top - (n : Int))).getD ⟨0, 0⟩

/-- The digits with trailing zeros moved into the exponent, as long as it is negative. -/
def trimZeros : Nat → Nat → Int → Nat × Int
  | 0, digits, exponent => (digits, exponent)
  | fuel + 1, digits, exponent =>
    if exponent < 0 && digits % 10 == 0 && digits != 0 then
      trimZeros fuel (digits / 10) (exponent + 1)
    else (digits, exponent)

/-- The decimal in positional notation: no exponent, no point in a whole number. -/
def positional (d : Decimal) : String :=
  let (digits, exponent) := trimZeros (Nat.toDigits 10 d.digits).length d.digits d.exponent
  let text := Nat.toDigits 10 digits
  if 0 ≤ exponent then String.ofList (text ++ List.replicate exponent.toNat '0')
  else
    let places := (-exponent).toNat
    let padded := List.replicate (places + 1 - text.length) '0' ++ text
    let whole := padded.length - places
    String.ofList (padded.take whole ++ ['.'] ++ padded.drop whole)

end Decimal

/-- The number that a bit pattern of double precision stands for, if it is finite and not zero. -/
def Decimal.Binary.ofBits? (bits : Nat) : Option Decimal.Binary :=
  let fraction : Nat := bits % Nat.pow 2 52
  let biased : Nat := bits / Nat.pow 2 52 % Nat.pow 2 11
  if biased == 2047 then none
  else if biased == 0 then if fraction == 0 then none else some ⟨fraction, -1074, false⟩
  else some ⟨fraction + Nat.pow 2 52, (biased : Int) - 1075, fraction == 0 && 1 < biased⟩

/-- The text of a float: the shortest decimal that reads back, in positional notation. -/
def floatText (x : Float) : String :=
  if x.isNaN then "NaN"
  else
    let bits := x.toBits.toNat
    let magnitude :=
      if x.isInf then "inf"
      else match Decimal.Binary.ofBits? bits with
        | none => "0"
        | some b => (Decimal.shortest b).positional
    if Nat.pow 2 63 ≤ bits then "-" ++ magnitude else magnitude

end StagedCompiler
