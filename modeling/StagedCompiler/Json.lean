import StagedCompiler.Text.Quoted

/-!
# JSON

The values that bundles and snapshots are written as, and their indented text.  The fields of an
object keep their order.
-/

namespace StagedCompiler

/-- A JSON value.  All numbers of the formats here are integers. -/
inductive Json : Type where
  | null
  | bool (b : Bool)
  | int (n : Int)
  | str (s : String)
  | arr (items : List Json)
  | obj (fields : List (String × Json))
  deriving Repr, Inhabited

namespace Json

/-- A natural number. -/
def nat (n : Nat) : Json := .int n

/-- A value that may be missing. -/
def option {α : Type} (f : α → Json) : Option α → Json
  | none => .null
  | some a => f a

/-- The escape of a control character: `\u` and four hexadecimal digits. -/
def controlEscape (c : Char) : List Char :=
  let digits := Text.hex c.toNat
  ['\\', 'u'] ++ List.replicate (4 - digits.length) '0' ++ digits

/-- The written form of a character in a string: only the quote, the backslash and the control
characters below the space are escaped. -/
def escapeChar (c : Char) : List Char :=
  if c == '"' then ['\\', '"']
  else if c == '\\' then ['\\', '\\']
  else if c == '\x08' then ['\\', 'b']
  else if c == '\x0c' then ['\\', 'f']
  else if c == '\n' then ['\\', 'n']
  else if c == '\r' then ['\\', 'r']
  else if c == '\t' then ['\\', 't']
  else if c.toNat < 0x20 then controlEscape c
  else [c]

/-- The written form of a string. -/
def stringText (s : String) : List Char :=
  ['"'] ++ s.toList.flatMap escapeChar ++ ['"']

/-- A new line that is indented by two spaces for each level. -/
def newline (level : Nat) : List Char :=
  '\n' :: List.replicate (2 * level) ' '

mutual

/-- The indented text of a value that stands at a level. -/
def render (level : Nat) : Json → List Char
  | .null => "null".toList
  | .bool b => (if b then "true" else "false").toList
  | .int n => (toString n).toList
  | .str s => stringText s
  | .arr [] => ['[', ']']
  | .arr (item :: rest) =>
    ['['] ++ newline (level + 1) ++ render (level + 1) item ++ renderItems (level + 1) rest ++
      newline level ++ [']']
  | .obj [] => ['\x7b', '\x7d']
  | .obj ((key, v) :: rest) =>
    ['\x7b'] ++ newline (level + 1) ++ stringText key ++ [':', ' '] ++ render (level + 1) v ++
      renderFields (level + 1) rest ++ newline level ++ ['\x7d']

/-- The text of the items of an array behind the first one. -/
def renderItems (level : Nat) : List Json → List Char
  | [] => []
  | item :: rest => [','] ++ newline level ++ render level item ++ renderItems level rest

/-- The text of the fields of an object behind the first one. -/
def renderFields (level : Nat) : List (String × Json) → List Char
  | [] => []
  | (key, v) :: rest =>
    [','] ++ newline level ++ stringText key ++ [':', ' '] ++ render level v ++
      renderFields level rest

end

/-- The indented text of a value. -/
def pretty (j : Json) : String := String.ofList (j.render 0)

end Json

end StagedCompiler
