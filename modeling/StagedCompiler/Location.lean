/-!
# Locations

Where a diagnostic is about: a unit, the place of the construct in document order, and the path of
the construct inside the unit.  Locations are ordered by unit and place; the path is there to be read.
-/

namespace StagedCompiler

/-- A place in a unit. -/
structure Location : Type where
  unit : String
  order : Nat
  path : String
  deriving DecidableEq, Repr, Inhabited

namespace Location

/-- Document order: first the unit, then the place inside it. -/
def compare (a b : Location) : Ordering :=
  (Ord.compare a.unit b.unit).then (Ord.compare a.order b.order)

/-- Whether `a` does not come after `b` in document order. -/
def le (a b : Location) : Bool :=
  a.compare b != .gt

/-- The unit, and the path behind a colon if there is one. -/
def text (l : Location) : String :=
  if l.path.isEmpty then l.unit else l.unit ++ ":" ++ l.path

end Location

end StagedCompiler
