import StagedCompiler.Toml.Value

/-!
# Unquoted scalars

What a word in the place of a value means: a boolean, an integer in one of four bases, a float, or a
date or time.  Underscores may stand between digits, and a number has no superfluous leading zero.
How large a number is does not matter here: it is asked where the number is used.  So is whether an
integer consists of digits, if its outline is that of an integer: a base with nothing behind it, or
decimal digits with an underscore behind them and a digit of any base around every underscore.
-/

namespace StagedCompiler.Toml

/-- Whether a number begins with a zero that it could do without. -/
def hasLeadingZero (digits : List Char) : Bool :=
  digits.length > 1 && digits.head? == some '0'

/-- The sign of a number. -/
inductive Sign : Type where
  | plus
  | minus
  deriving DecidableEq

/-- The sign of a number, which may be left out, and what follows it. -/
def splitSign : List Char → Option Sign × List Char
  | '+' :: rest => (some .plus, rest)
  | '-' :: rest => (some .minus, rest)
  | cs => (none, cs)

/-- A number with a sign. -/
def signed (sign : Option Sign) (n : Nat) : Int :=
  if sign == some .minus then -n else n

/-- Digits of any base. -/
def isAnyDigit (c : Char) : Bool := (hexDigit? c).isSome

/-- Whether every underscore behind the first character stands between two digits of any base. -/
def underscoresFit : List Char → Bool
  | [] => true
  | [_] => true
  | [_, c] => c != '_'
  | c :: d :: e :: rest =>
    (d != '_' || (isAnyDigit c && isAnyDigit e)) && underscoresFit (d :: e :: rest)

/-- Whether a text without a sign has the outline of a decimal integer: digits, or digits with an
underscore behind them and no mark of a float further on. -/
def isDecimal (cs : List Char) : Bool :=
  let digits := cs.takeWhile Text.isDigitAscii
  !digits.isEmpty &&
    match cs.dropWhile Text.isDigitAscii with
    | [] => !hasLeadingZero digits
    | '_' :: rest =>
      digits.head? != some '0' && underscoresFit cs &&
        !rest.any fun c => c == '.' || c == 'e' || c == 'E' || c == ' '
    | _ => false

/-- The value of an integer in outline. -/
def decimalValue (sign : Option Sign) (cs : List Char) : Value :=
  let digits := cs.filter (· != '_')
  if digits.all Text.isDigitAscii then .integer (signed sign (ofDigits 10 digits)) else .badNumber

/-- The value of an integer with a base. -/
def basedValue? (base : Nat) (isDigit : Char → Bool) (cs : List Char) : Option Value :=
  if cs.isEmpty then some .badNumber
  else (digitRun? isDigit cs).map fun digits => .integer (ofDigits base digits)

/-- An integer. -/
def integer? (cs : List Char) : Option Value :=
  match cs with
  | '0' :: 'x' :: rest => basedValue? 16 isAnyDigit rest
  | '0' :: 'o' :: rest => basedValue? 8 (fun c => '0' ≤ c && c ≤ '7') rest
  | '0' :: 'b' :: rest => basedValue? 2 (fun c => c == '0' || c == '1') rest
  | cs =>
    let (sign, rest) := splitSign cs
    if isDecimal rest then some (decimalValue sign rest) else none

/-- The float nearest to `digits · 10 ^ exponent`, if it is finite.  Exponents so far from the range
of double precision that the number of digits cannot make up for them are decided at once. -/
def finiteFloat? (digits : List Char) (exponent : Int) : Option Float :=
  let n := ofDigits 10 digits
  if n == 0 then some 0
  else
    let magnitude : Int := (Nat.toDigits 10 n).length + exponent
    if 400 < magnitude then none
    else if magnitude < -400 then some 0
    else
      let x := Float.ofScientific n (exponent < 0) exponent.natAbs
      if x.isInf then none else some x

/-- A float with a sign. -/
def signedFloat (sign : Option Sign) (x : Float) : Float :=
  if sign == some .minus then -x else x

/-- The value of a float with a sign: the nearest float, unless it is too large. -/
def floatValue (sign : Option Sign) (digits : List Char) (exponent : Int) : Value :=
  match finiteFloat? digits exponent with
  | some x => .float (signedFloat sign x)
  | none => .badNumber

/-- The exponent of a float, which may be left out. -/
def exponent? : List Char → Option Int
  | [] => some 0
  | mark :: rest =>
    if mark == 'e' || mark == 'E' then do
      let (sign, digits) := splitSign rest
      pure (signed sign (ofDigits 10 (← digitRun? Text.isDigitAscii digits)))
    else none

/-- A float: a whole part, and a fraction or an exponent or both. -/
def float? (cs : List Char) : Option Value := do
  let (sign, rest) := splitSign cs
  if rest == "inf".toList then pure (.float (signedFloat sign (1 / 0)))
  else if rest == "nan".toList then pure (.float (signedFloat sign (0 / 0)))
  else
    let isMark := fun c => c == 'e' || c == 'E'
    let whole ← digitRun? Text.isDigitAscii (rest.takeWhile fun c => c != '.' && !isMark c)
    if hasLeadingZero whole then none
    else match rest.dropWhile fun c => c != '.' && !isMark c with
      | [] => none
      | '.' :: more => do
        let fraction ← digitRun? Text.isDigitAscii (more.takeWhile (!isMark ·))
        let exponent ← exponent? (more.dropWhile (!isMark ·))
        pure (floatValue sign (whole ++ fraction) (exponent - fraction.length))
      | more => do
        pure (floatValue sign whole (← exponent? more))

/-- The value of an unquoted scalar. -/
def scalar? (cs : List Char) : Option Value :=
  if cs == "true".toList then some (.boolean true)
  else if cs == "false".toList then some (.boolean false)
  else match Datetime.ofChars? cs with
    | some d => some (.datetime d)
    | none => (integer? cs).or (float? cs)

end StagedCompiler.Toml
