import StagedCompiler.Text.Blank
import StagedCompiler.Text.Case

/-!
# Names

Which texts can name a declaration, and which can name a unit.  A declaration's name is an ASCII
identifier; a unit's name becomes a file name, so it is one component of a path.
-/

namespace StagedCompiler.Source

/-- Why a text is no identifier. -/
inductive IdentifierFlaw : Type where
  | empty
  | badStart
  | badCharacter
  deriving DecidableEq, Repr

/-- The reason that is given for a flaw. -/
def IdentifierFlaw.reason : IdentifierFlaw → String
  | .empty => "name cannot be empty"
  | .badStart => "name must start with a letter or underscore"
  | .badCharacter => "name must contain only letters, numbers, and underscores"

/-- What is wrong with an identifier: it is a letter or an underscore followed by letters, digits and
underscores. -/
def identifierFlaw? (name : String) : Option IdentifierFlaw :=
  match name.toList with
  | [] => some .empty
  | c :: rest =>
    if !(Text.isAlphaAscii c || c == '_') then some .badStart
    else if rest.all fun c => Text.isAlnumAscii c || c == '_' then none
    else some .badCharacter

/-- Why a text cannot name a unit. -/
inductive UnitNameFlaw : Type where
  | blank
  | separator
  | dots
  deriving DecidableEq, Repr

/-- The reason that is given for a flaw. -/
def UnitNameFlaw.reason : UnitNameFlaw → String
  | .blank => "unit name cannot be empty"
  | .separator => "unit name cannot contain a path separator"
  | .dots => "unit name cannot contain '..'"

/-- Whether two dots stand side by side. -/
def hasDoubleDot : List Char → Bool
  | '.' :: '.' :: _ => true
  | _ :: rest => hasDoubleDot rest
  | [] => false

/-- What is wrong with the name of a unit. -/
def unitNameFlaw? (name : String) : Option UnitNameFlaw :=
  if Text.allBlank name then some .blank
  else if name.toList.any fun c => c == '/' || c == '\\' then some .separator
  else if hasDoubleDot name.toList then some .dots
  else none

end StagedCompiler.Source
