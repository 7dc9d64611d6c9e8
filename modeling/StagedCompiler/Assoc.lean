/-!
# Insertion-ordered entries

A list of entries with distinct keys, in the order in which the keys came.  Reading is `List.lookup`;
`Assoc.put` keeps the place of a key that is there already.
-/

namespace StagedCompiler.Assoc

/-- Put an entry in the place of the one that has the key, or else behind all others. -/
def put {α : Type} (key : String) (a : α) : List (String × α) → List (String × α)
  | [] => [(key, a)]
  | (k, b) :: rest => if k = key then (key, a) :: rest else (k, b) :: put key a rest

/-- The entries that result from putting the given ones one after another. -/
def ofList {α : Type} (entries : List (String × α)) : List (String × α) :=
  entries.foldl (fun all (key, a) => put key a all) []

end StagedCompiler.Assoc
