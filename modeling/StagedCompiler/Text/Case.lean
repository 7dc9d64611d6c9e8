/-!
# Naming styles

`isSnakeCase` and `isPascalCase` recognise the two styles that declarations are held to, and
`asciiLower` folds the case of the words that a configuration spells.  All three look at ASCII
letters only: a letter outside ASCII belongs to neither style, and no such letter folds to a letter
of a word that a configuration knows.
-/

namespace StagedCompiler.Text

/-- A letter between `a` and `z`. -/
def isLowerAscii (c : Char) : Bool := 'a' ≤ c && c ≤ 'z'

/-- A letter between `A` and `Z`. -/
def isUpperAscii (c : Char) : Bool := 'A' ≤ c && c ≤ 'Z'

/-- A digit between `0` and `9`. -/
def isDigitAscii (c : Char) : Bool := '0' ≤ c && c ≤ '9'

/-- An ASCII letter of either case. -/
def isAlphaAscii (c : Char) : Bool := isLowerAscii c || isUpperAscii c

/-- An ASCII letter or digit. -/
def isAlnumAscii (c : Char) : Bool := isAlphaAscii c || isDigitAscii c

/-- The characters after the first one of a snake case name.  `afterUnderscore` says that the
character before was an underscore that stands after the first place. -/
def snakeTail (afterUnderscore : Bool) : List Char → Bool
  | [] => true
  | c :: rest =>
    if c == '_' then
      if afterUnderscore then false else snakeTail true rest
    else if isLowerAscii c || isDigitAscii c then snakeTail false rest
    else false

/-- Lower case words and digits that single underscores separate; the first character is no digit.
An underscore in the first place does not count towards a doubled one. -/
def isSnakeCase (s : String) : Bool :=
  match s.toList with
  | [] => false
  | c :: rest => (isLowerAscii c || c == '_') && snakeTail false rest

/-- An upper case letter followed by letters and digits. -/
def isPascalCase (s : String) : Bool :=
  match s.toList with
  | [] => false
  | c :: rest => isUpperAscii c && rest.all isAlnumAscii

/-- The text with its ASCII capitals in lower case. -/
def asciiLower (s : String) : String :=
  String.ofList (s.toList.map Char.toLower)

end StagedCompiler.Text
