import StagedCompiler.Text.Blank

/-!
# Spans of a source text

A `Span` is a range of bytes of a source text.  The searches below find the place that an error
points at: `occurrences` lists every place where a pattern begins, `disjointOccurrences` the places
that a reader meets who goes on behind each match, and the `…Span` functions turn such a place into
the span of the name inside the pattern.  Offsets count UTF-8 bytes.
-/

namespace StagedCompiler.Text

/-- A range of bytes: where it starts and how long it is. -/
structure Span : Type where
  offset : Nat
  length : Nat
  deriving DecidableEq, Repr

/-- How many bytes the characters take in UTF-8. -/
def byteLength : List Char → Nat
  | [] => 0
  | c :: rest => c.utf8Size + byteLength rest

/-- The byte offsets of all places where `pattern` begins, in ascending order; `offset` is that of
the text's first character. -/
def occurrences (pattern : List Char) : List Char → Nat → List Nat
  | [], offset => if pattern.isEmpty then [offset] else []
  | c :: rest, offset =>
    let later := occurrences pattern rest (offset + c.utf8Size)
    if pattern.isPrefixOf (c :: rest) then offset :: later else later

/-- The byte offsets of the matches of `pattern` that do not overlap, from left to right.  `skip`
counts the characters that still belong to the match before. -/
def disjointOccurrences (pattern : List Char) : Nat → List Char → Nat → List Nat
  | _, [], _ => []
  | skip + 1, c :: rest, offset => disjointOccurrences pattern skip rest (offset + c.utf8Size)
  | 0, c :: rest, offset =>
    if pattern.isPrefixOf (c :: rest) then
      offset :: disjointOccurrences pattern (pattern.length - 1) rest (offset + c.utf8Size)
    else disjointOccurrences pattern 0 rest (offset + c.utf8Size)

/-- The quotes that a TOML string can stand in. -/
def quotes : List Char := ['"', '\'']

/-- The text of an assignment of a quoted value to a key. -/
def assignment (key : String) (quote : Char) (value : String) : List Char :=
  key.toList ++ [' ', '=', ' ', quote] ++ value.toList ++ [quote]

/-- The span of the value in an assignment that begins at `offset`. -/
def assignedSpan (key value : String) (offset : Nat) : Span :=
  ⟨offset + byteLength key.toList + 4, byteLength value.toList⟩

/-- The first place where `key` is assigned the value in the given quotes. -/
def assignedSpan? (source key : String) (quote : Char) (value : String) : Option Span :=
  (occurrences (assignment key quote value) source.toList 0).head?.map (assignedSpan key value)

/-- Where a source first names `name`: as a `name` or a `callee` in double quotes, then in single
quotes. -/
def nameSpan? (source name : String) : Option Span :=
  quotes.findSome? fun quote =>
    ["name", "callee"].findSome? fun key => assignedSpan? source key quote name

/-- Where a source first names its unit `name`. -/
def unitSpan? (source name : String) : Option Span :=
  quotes.findSome? fun quote => assignedSpan? source "unit" quote name

/-- The last place where a value stands in double quotes. -/
def lastQuotedSpan? (source value : String) : Option Span :=
  (occurrences (['"'] ++ value.toList ++ ['"']) source.toList 0).getLast?.map fun offset =>
    ⟨offset + 1, byteLength value.toList⟩

/-- The lines of a text, each with its line feed. -/
def lines : List Char → List (List Char)
  | [] => []
  | c :: rest =>
    if c == '\n' then [c] :: lines rest
    else match lines rest with
      | [] => [[c]]
      | line :: more => (c :: line) :: more

/-- The span of `key` in a line that assigns it: nothing but blanks stands before the key, and
nothing but blanks between it and the equals sign. -/
def lineKeySpan? (key : List Char) (line : List Char) (offset : Nat) : Option Span :=
  let trimmed := trimStart line
  if key.isPrefixOf trimmed && (trimStart (trimmed.drop key.length)).head? == some '=' then
    some ⟨offset + (byteLength line - byteLength trimmed), byteLength key⟩
  else none

/-- The first of the given lines that assigns `key`; `offset` is that of the first line. -/
def firstKeySpan? (key : List Char) : List (List Char) → Nat → Option Span
  | [], _ => none
  | line :: rest, offset =>
    (lineKeySpan? key line offset).or (firstKeySpan? key rest (offset + byteLength line))

/-- The first line of a source that assigns `key`. -/
def keySpan? (source key : String) : Option Span :=
  firstKeySpan? key.toList (lines source.toList) 0

/-- The spans of all assignments of a quoted value to `key`, in ascending order. -/
def valueSpans (source key value : String) : List Span :=
  let spans := quotes.flatMap fun quote =>
    (disjointOccurrences (assignment key quote value) 0 source.toList 0).map (assignedSpan key value)
  spans.mergeSort fun a b => a.offset ≤ b.offset

end StagedCompiler.Text
