import StagedCompiler.Decimal
import StagedCompiler.Toml.Datetime
import StagedCompiler.Word

/-!
# TOML values

The data that a configuration document holds.  A table keeps its entries in ascending order of their
keys, whatever order the document writes them in, so two documents with the same entries are the
same value.

A document may write numbers of any size, and numbers that only look like numbers.  Which of them can
be used depends on who reads them: `isWithin` asks whether all integers of a value are words of some
width, and `settle?` takes a value as plain data, in which integers have 64 bits.
-/

namespace StagedCompiler.Toml

/-- A value of a TOML document. -/
inductive Value : Type where
  | string (s : String)
  | integer (n : Int)
  | float (x : Float)
  /-- A number in outline that stands for none: a float that is too large for double precision, or
  an integer with a character in it that is no digit, or without digits. -/
  | badNumber
  | boolean (b : Bool)
  | datetime (d : Datetime)
  | array (items : List Value)
  | table (entries : List (String × Value))
  deriving Inhabited

/-- The entries of a table, in ascending order of their keys. -/
abbrev Table : Type := List (String × Value)

/-- Put an entry at its place in a list of entries that ascends in the keys; an entry that has the
key is replaced. -/
def putSorted {α : Type} (key : String) (a : α) : List (String × α) → List (String × α)
  | [] => [(key, a)]
  | (k, b) :: rest =>
    if key = k then (key, a) :: rest
    else if key < k then (key, a) :: (k, b) :: rest
    else (k, b) :: putSorted key a rest

namespace Value

/-- Strings, integers, floats and booleans. -/
def isScalar : Value → Bool
  | .string _ | .integer _ | .float _ | .boolean _ => true
  | .badNumber | .datetime _ | .array _ | .table _ => false

/-- The text of a scalar; every other value has the empty text. -/
def scalarText : Value → String
  | .string s => s
  | .integer n => toString n
  | .float x => floatText x
  | .boolean b => if b then "true" else "false"
  | .badNumber | .datetime _ | .array _ | .table _ => ""

/-- The text of a string value. -/
def string? : Value → Option String
  | .string s => some s
  | _ => none

/-- The number of an integer value that has 64 bits. -/
def integer? : Value → Option Int64
  | .integer n => word? n
  | _ => none

/-- The truth value of a boolean value. -/
def boolean? : Value → Option Bool
  | .boolean b => some b
  | _ => none

/-- The strings of an array of nothing but strings. -/
def strings? : Value → Option (List String)
  | .array items => items.mapM string?
  | _ => none

mutual

/-- Whether all integers in a value are words of a width, signed or not, and no number in it is
bad. -/
def isWithin (bits : Nat) : Value → Bool
  | .integer n => isWord bits n
  | .badNumber => false
  | .array items => areWithin bits items
  | .table entries => entriesWithin bits entries
  | .string _ | .float _ | .boolean _ | .datetime _ => true

/-- Whether all values of a list are within a width. -/
def areWithin (bits : Nat) : List Value → Bool
  | [] => true
  | v :: rest => v.isWithin bits && areWithin bits rest

/-- Whether all values of a table are within a width. -/
def entriesWithin (bits : Nat) : List (String × Value) → Bool
  | [] => true
  | (_, v) :: rest => v.isWithin bits && entriesWithin bits rest

end

/-- The key that marks a table as a date or time: the text of the date or time is its value. -/
def datetimeKey : String := "$__toml_private_datetime"

mutual

/-- A value as plain data.  Its integers have 64 bits and none of its numbers is bad, and a table that
begins with the key of dates is the date that stands there; what else is in that table is not looked
at. -/
def settle? : Value → Option Value
  | .integer n => (word? n).map fun _ => .integer n
  | .badNumber => none
  | .array items => (settleItems? items).map .array
  | .table ((key, v) :: rest) =>
    if key == datetimeKey then
      match v with
      | .string s => (Datetime.ofChars? s.toList).map .datetime
      | _ => none
    else do
      let v ← v.settle?
      let rest ← settleEntries? rest
      pure (.table ((key, v) :: rest))
  | v => some v

/-- The values of a list as plain data. -/
def settleItems? : List Value → Option (List Value)
  | [] => some []
  | v :: rest => do
    let v ← v.settle?
    let rest ← settleItems? rest
    pure (v :: rest)

/-- The entries of a table as plain data. -/
def settleEntries? : List (String × Value) → Option (List (String × Value))
  | [] => some []
  | (key, v) :: rest => do
    let v ← v.settle?
    let rest ← settleEntries? rest
    pure ((key, v) :: rest)

end

/-- A value of a table is smaller than the table. -/
theorem sizeOf_lt_of_lookup {key : String} {v : Value} :
    ∀ {entries : List (String × Value)}, entries.lookup key = some v → sizeOf v < sizeOf entries
  | [], h => by simp at h
  | (k, w) :: rest, h => by
    rw [List.lookup_cons] at h
    split at h
    · cases h
      simp only [List.cons.sizeOf_spec, Prod.mk.sizeOf_spec]
      omega
    · have := sizeOf_lt_of_lookup h
      simp only [List.cons.sizeOf_spec]
      omega

end Value

/-- The entries of a table as plain data. -/
def Table.settle? (t : Table) : Option Table :=
  Value.settleEntries? t

end StagedCompiler.Toml
