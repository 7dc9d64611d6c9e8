/-!
# Indented text

A `Layout` is a text that grows line by line, each line at the level of indentation that holds when it
is added.
-/

namespace StagedCompiler

/-- What one level of indentation looks like. -/
inductive Indent : Type where
  | spaces (n : Nat)
  | tab
  deriving DecidableEq, Repr

namespace Indent

/-- The text of one level.  Two and eight spaces can be chosen; any other number stands for four. -/
def text : Indent → String
  | .spaces 2 => "  "
  | .spaces 8 => "        "
  | .spaces _ => "    "
  | .tab => "\t"

instance : Inhabited Indent := ⟨.spaces 4⟩

end Indent

/-- A text that grows line by line. -/
structure Layout : Type where
  level : Nat := 0
  indent : Indent := default
  text : String := ""

namespace Layout

/-- The text with nothing in it. -/
def empty (indent : Indent := default) : Layout := { indent := indent }

/-- Add a line at the current level. -/
def line (l : Layout) (s : String) : Layout :=
  { l with text := l.text ++ String.join (List.replicate l.level l.indent.text) ++ s ++ "\n" }

/-- Add an empty line, which is not indented. -/
def blank (l : Layout) : Layout := { l with text := l.text ++ "\n" }

/-- Indent the lines that follow by one level more. -/
def deeper (l : Layout) : Layout := { l with level := l.level + 1 }

/-- Indent the lines that follow by one level less; lines at the margin stay there. -/
def shallower (l : Layout) : Layout := { l with level := l.level - 1 }

/-- Add a header and, one level deeper, a body. -/
def block (l : Layout) (header : String) (body : Layout → Layout) : Layout :=
  (body (l.line header).deeper).shallower

/-- Add something if a condition holds. -/
def whenever (l : Layout) (condition : Bool) (f : Layout → Layout) : Layout :=
  if condition then f l else l

/-- Add something for each member of a list. -/
def each {α : Type} (l : Layout) (items : List α) (f : Layout → α → Layout) : Layout :=
  items.foldl f l

end Layout

end StagedCompiler
