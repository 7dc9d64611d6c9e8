import StagedCompiler.Assoc
import StagedCompiler.Toml.Scalar
import StagedCompiler.Toml.Token

/-!
# TOML documents

`parse` reads a document into its table.  Values are read from the tokens with a bound on how deep
arrays and inline tables are nested.  The statements of a document then build one tree of `Entry`s,
which remembers how each table came about, because that decides what may still be added to it: a
table with a header of its own is closed to dotted keys and to a second header, a table that dotted
keys made is closed to headers, and an inline value is closed to everything.
-/

namespace StagedCompiler.Toml

/-- How deep arrays and inline tables may be nested. -/
def maxDepth : Nat := 80

/-- How many parts a dotted key may have. -/
def maxKeyParts : Nat := 80

/-- How a table of a document came about. -/
inductive Origin : Type where
  /-- It has a header. -/
  | header
  /-- The header of another table runs through it. -/
  | implied
  /-- A dotted key runs through it. -/
  | dotted
  deriving DecidableEq

/-- A part of a document that is being read. -/
inductive Entry : Type where
  | value (v : Value)
  | table (origin : Origin) (entries : List (String × Entry))
  | tables (all : List (List (String × Entry)))

/-- The entries of a table that is being read. -/
abbrev Entries : Type := List (String × Entry)

mutual

/-- The value that an entry holds. -/
def Entry.toValue : Entry → Value
  | .value v => v
  | .table _ entries => .table (entriesToValues entries)
  | .tables all => .array (tablesToValues all)

/-- The values that entries hold, in order of their keys. -/
def entriesToValues : List (String × Entry) → List (String × Value)
  | [] => []
  | (key, entry) :: rest => putSorted key entry.toValue (entriesToValues rest)

/-- The values of an array of tables. -/
def tablesToValues : List (List (String × Entry)) → List Value
  | [] => []
  | entries :: rest => .table (entriesToValues entries) :: tablesToValues rest

end

/-- Change the table at a path by `f`.  Tables on the way that are missing are made, as `dotted` or
as implied ones; a dotted path does not lead through a table with a header, and no path leads
through a value. -/
def descend (dotted : Bool) (f : Origin → Entries → Option Entries) :
    List String → Origin → Entries → Option Entries
  | [], origin, entries => f origin entries
  | key :: path, _, entries =>
    match entries.lookup key with
    | none => do
      let origin := if dotted then Origin.dotted else Origin.implied
      let inner ← descend dotted f path origin []
      pure (Assoc.put key (.table origin inner) entries)
    | some (.table origin inner) =>
      if dotted && origin == .header then none
      else do
        let inner ← descend dotted f path origin inner
        pure (Assoc.put key (.table origin inner) entries)
    | some (.tables all) =>
      match all.getLast? with
      | none => none
      | some last => do
        let last ← descend dotted f path .header last
        pure (Assoc.put key (.tables (all.dropLast ++ [last])) entries)
    | some (.value _) => none

/-- Assign a value to a dotted key below a table.  The key must be new, and a dotted key ends in a
table that dotted keys made. -/
def assign (entries : Entries) (path : List String) (key : String) (v : Value) : Option Entries :=
  descend true
    (fun origin inner =>
      if (origin == .dotted) == path.isEmpty then none
      else if (inner.lookup key).isSome then none
      else some (inner ++ [(key, .value v)]))
    path .header entries

/-- An assignment of a document: the key's path, its last part, and the value. -/
structure Assignment : Type where
  path : List String
  key : String
  value : Value

/-- Make all assignments in a table, one after another. -/
def assignAll (entries : Entries) (assignments : List Assignment) : Option Entries :=
  assignments.foldlM (fun entries a => assign entries a.path a.key a.value) entries

/-- The tokens from the first one that is no space. -/
def skipSpace : List Token → List Token
  | .space _ :: rest => rest
  | tokens => tokens

/-- The tokens from the first one that is neither a space nor a line end. -/
def skipLines (tokens : List Token) : List Token :=
  tokens.dropWhile fun
    | .space _ | .newline => true
    | _ => false

/-- The characters of a bare key. -/
def isKeyChar (c : Char) : Bool :=
  Text.isAlnumAscii c || c == '_' || c == '-'

/-- One part of a dotted key, and what follows it. -/
def keyPart? : List Token → Option (String × List Token)
  | .word cs :: rest => if cs.all isKeyChar then some (String.ofList cs, rest) else none
  | .string s :: rest => some (s, rest)
  | _ => none

/-- A dotted key of no more than the given number of parts, and what follows it and the spaces
behind it. -/
def keyOf? : Nat → List Token → Option (List String × List Token)
  | 0, _ => none
  | parts + 1, tokens => do
    let (part, rest) ← keyPart? (skipSpace tokens)
    match skipSpace rest with
    | .dot :: more => do
      let (key, rest) ← keyOf? parts more
      pure (part :: key, rest)
    | rest => pure ([part], rest)

/-- A dotted key, and what follows it and the spaces behind it. -/
def key? (tokens : List Token) : Option (List String × List Token) :=
  keyOf? maxKeyParts tokens

/-- The path and the last part of a key. -/
def splitKey? (parts : List String) : Option (List String × String) :=
  parts.getLast?.map fun last => (parts.dropLast, last)

/-- The characters of the words and dots in front, and what follows them. -/
def wordRun : List Token → List Char × List Token
  | .word cs :: rest => let (more, rest) := wordRun rest; (cs ++ more, rest)
  | .dot :: rest => let (more, rest) := wordRun rest; ('.' :: more, rest)
  | rest => ([], rest)

/-- The characters of an unquoted scalar, and what follows it.  One space may stand between a date
and a time. -/
def scalarRun (tokens : List Token) : List Char × List Token :=
  let (cs, rest) := wordRun tokens
  match rest with
  | .space [' '] :: .word (c :: more) :: after =>
    if ((date? cs).map (·.2)) == some [] && Text.isDigitAscii c then
      let (time, rest) := wordRun (.word (c :: more) :: after)
      (cs ++ ' ' :: time, rest)
    else (cs, rest)
  | _ => (cs, rest)

mutual

/-- A value, and what follows it; `depth` is how many arrays and inline tables it may nest. -/
def value? : Nat → Nat → List Token → Option (Value × List Token)
  | 0, _, _ => none
  | fuel + 1, depth, tokens =>
    match tokens with
    | .string s :: rest => some (.string s, rest)
    | .longString s :: rest => some (.string s, rest)
    | .openBracket :: rest =>
      match depth with
      | 0 => none
      | depth + 1 => do
        let (items, rest) ← items? fuel depth rest
        pure (.array items, rest)
    | .openBrace :: rest =>
      match depth with
      | 0 => none
      | depth + 1 => do
        let (assignments, rest) ← members? fuel depth rest
        let entries ← assignAll [] assignments
        pure (.table (entriesToValues entries), rest)
    | .word _ :: _ => do
      let (cs, rest) := scalarRun tokens
      pure (← scalar? cs, rest)
    | _ => none

/-- The values of an array up to its closing bracket, and what follows it. -/
def items? : Nat → Nat → List Token → Option (List Value × List Token)
  | 0, _, _ => none
  | fuel + 1, depth, tokens =>
    match skipLines tokens with
    | .closeBracket :: rest => some ([], rest)
    | tokens => do
      let (v, rest) ← value? fuel depth tokens
      match skipLines rest with
      | .closeBracket :: rest => pure ([v], rest)
      | .comma :: rest => do
        let (more, rest) ← items? fuel depth rest
        pure (v :: more, rest)
      | _ => none

/-- The assignments of an inline table up to its closing brace, and what follows it. -/
def members? : Nat → Nat → List Token → Option (List Assignment × List Token)
  | 0, _, _ => none
  | fuel + 1, depth, tokens =>
    match skipLines tokens with
    | .closeBrace :: rest => some ([], rest)
    | tokens => do
      let (parts, rest) ← key? tokens
      let (path, key) ← splitKey? parts
      match skipLines rest with
      | .equals :: rest => do
        let (v, rest) ← value? fuel depth (skipLines rest)
        match skipLines rest with
        | .closeBrace :: rest => pure ([⟨path, key, v⟩], rest)
        | .comma :: rest => do
          let (more, rest) ← members? fuel depth rest
          pure (⟨path, key, v⟩ :: more, rest)
        | _ => none
      | _ => none

end

/-- A line of a document. -/
inductive Line : Type where
  | assignment (a : Assignment)
  | tableHeader (key : List String)
  | arrayHeader (key : List String)

/-- What is left of a line behind its statement: nothing but spaces. -/
def endOfLine? (tokens : List Token) : Option (List Token) :=
  match skipSpace tokens with
  | [] => some []
  | .newline :: rest => some rest
  | _ => none

/-- One line that is not blank, and what follows it. -/
def line? (fuel : Nat) (tokens : List Token) : Option (Line × List Token) :=
  match tokens with
  | .openBracket :: .openBracket :: rest => do
    let (key, rest) ← key? rest
    match rest with
    | .closeBracket :: .closeBracket :: rest => pure (.arrayHeader key, ← endOfLine? rest)
    | _ => none
  | .openBracket :: rest => do
    let (key, rest) ← key? rest
    match rest with
    | .closeBracket :: rest => pure (.tableHeader key, ← endOfLine? rest)
    | _ => none
  | tokens => do
    let (parts, rest) ← key? tokens
    let (path, key) ← splitKey? parts
    match rest with
    | .equals :: rest => do
      let (v, rest) ← value? fuel maxDepth (skipSpace rest)
      pure (.assignment ⟨path, key, v⟩, ← endOfLine? rest)
    | _ => none

/-- The lines of a document that are not blank. -/
def lines? : Nat → List Token → Option (List Line)
  | fuel, tokens =>
    match skipLines tokens with
    | [] => some []
    | tokens =>
      match fuel with
      | 0 => none
      | fuel + 1 => do
        let (line, rest) ← line? (2 * tokens.length + 2) tokens
        let more ← lines? fuel rest
        pure (line :: more)

/-- The assignments up to the next header, and the lines from it on. -/
def section? : List Line → List Assignment × List Line
  | .assignment a :: rest => let (more, rest) := section? rest; (a :: more, rest)
  | rest => ([], rest)

/-- Open the table with a header and make its assignments.  Only a table that is new, or that the
headers of other tables implied, can be opened. -/
def openTable (root : Entries) (path : List String) (key : String)
    (assignments : List Assignment) : Option Entries :=
  descend false
    (fun _ entries =>
      match entries.lookup key with
      | none => do
        let inner ← assignAll [] assignments
        pure (Assoc.put key (.table .header inner) entries)
      | some (.table .implied inner) => do
        let inner ← assignAll inner assignments
        pure (Assoc.put key (.table .header inner) entries)
      | some _ => none)
    path .header root

/-- Add a table to an array of tables and make its assignments. -/
def addTable (root : Entries) (path : List String) (key : String)
    (assignments : List Assignment) : Option Entries :=
  descend false
    (fun _ entries => do
      let inner ← assignAll [] assignments
      match entries.lookup key with
      | none => pure (Assoc.put key (.tables [inner]) entries)
      | some (.tables all) => pure (Assoc.put key (.tables (all ++ [inner])) entries)
      | some _ => none)
    path .header root

/-- Add the sections of a document to its root table. -/
def addSections : Nat → Entries → List Line → Option Entries
  | _, root, [] => some root
  | 0, _, _ :: _ => none
  | fuel + 1, root, line :: rest =>
    let (assignments, rest) := section? rest
    match line with
    | .assignment _ => none
    | .tableHeader parts => do
      let (path, key) ← splitKey? parts
      addSections fuel (← openTable root path key assignments) rest
    | .arrayHeader parts => do
      let (path, key) ← splitKey? parts
      addSections fuel (← addTable root path key assignments) rest

/-- The table of a document, or nothing if it is no TOML document. -/
def parse (source : String) : Option Table := do
  let tokens ← tokenize source
  let all ← lines? tokens.length tokens
  let (assignments, sections) := section? all
  let root ← assignAll [] assignments
  pure (entriesToValues (← addSections sections.length root sections))

end StagedCompiler.Toml
