import StagedCompiler.Text.Printable

/-!
# Quoted text

The written form of a string constant: double quotes around it, a backslash escape for the quote,
the backslash and the common control characters, and the hexadecimal code in a braced escape for
every other character that is not shown as it is.  Which characters are shown is a parameter of
`quotedWith`; `quoted` shows the printable ones.
-/

namespace StagedCompiler.Text

/-- The digits of `n` in base 16, in lower case and without leading zeros. -/
def hex (n : Nat) : List Char :=
  Nat.toDigits 16 n

/-- The written form of one character inside double quotes. -/
def escapeChar (shown : Char → Bool) (c : Char) : List Char :=
  if c == '\x00' then ['\\', '0']
  else if c == '\t' then ['\\', 't']
  else if c == '\r' then ['\\', 'r']
  else if c == '\n' then ['\\', 'n']
  else if c == '\\' then ['\\', '\\']
  else if c == '"' then ['\\', '"']
  else if shown c then [c]
  else ['\\', 'u', '\x7b'] ++ hex c.toNat ++ ['\x7d']

/-- The written form of a string, in which the characters that `shown` holds of need no escape. -/
def quotedWith (shown : Char → Bool) (s : String) : String :=
  String.ofList (['"'] ++ s.toList.flatMap (escapeChar shown) ++ ['"'])

/-- The written form of a string. -/
def quoted (s : String) : String :=
  quotedWith isPrintable s

end StagedCompiler.Text
