/-!
# Blank characters

The white space that surrounds a name or a placement and does not belong to it.  `isBlank` is the
White_Space property of Unicode, and `trim` removes blanks from both ends of a text.
-/

namespace StagedCompiler.Text

/-- The characters with the White_Space property. -/
def isBlank (c : Char) : Bool :=
  let n := c.toNat
  (9 ≤ n && n ≤ 13) || n == 0x20 || n == 0x85 || n == 0xA0 || n == 0x1680 ||
    (0x2000 ≤ n && n ≤ 0x200A) || n == 0x2028 || n == 0x2029 || n == 0x202F || n == 0x205F ||
    n == 0x3000

/-- The text from its first character that is not blank. -/
def trimStart (cs : List Char) : List Char :=
  cs.dropWhile isBlank

/-- The text up to its last character that is not blank. -/
def trimEnd (cs : List Char) : List Char :=
  (cs.reverse.dropWhile isBlank).reverse

/-- The characters of a text without the blanks at both ends. -/
def trimChars (cs : List Char) : List Char :=
  trimEnd (trimStart cs)

/-- A text without the blanks at both ends. -/
def trim (s : String) : String :=
  String.ofList (trimChars s.toList)

/-- A text with nothing but blanks in it. -/
def allBlank (s : String) : Bool :=
  s.toList.all isBlank

end StagedCompiler.Text
