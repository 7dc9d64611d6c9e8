import StagedCompiler.Source.Tree
import StagedCompiler.Toml.Document

/-!
# Reading a unit from its document

A construct is written as a table with a `kind`, or as an array that begins with the kind and goes on
with the fields in their order.  Fields that have a default may be left out, in an array from the end
on.  A table may hold other keys; an array may not hold more than the fields.  The numbers under the
other keys have to be readable too.
-/

namespace StagedCompiler.Source

open Toml

/-- The kind that a construct says it is. -/
def kind? : Value → Option String
  | .table entries => (entries.lookup "kind").bind Value.string?
  | .array (tag :: _) => tag.string?
  | _ => none

/-- The field of a construct that has the given place and name. -/
def field? (v : Value) (index : Nat) (name : String) : Option Value :=
  match v with
  | .table entries => entries.lookup name
  | .array (_ :: fields) => fields[index]?
  | _ => none

/-- Whether a construct has no more than the given number of fields. -/
def fits (v : Value) (fields : Nat) : Bool :=
  match v with
  | .array items => items.length ≤ fields + 1
  | _ => true

/-- A field is smaller than the construct it belongs to. -/
theorem sizeOf_lt_of_field? {v w : Value} {index : Nat} {name : String}
    (h : field? v index name = some w) : sizeOf w < sizeOf v := by
  unfold field? at h
  split at h
  · have := Value.sizeOf_lt_of_lookup h
    simp only [Value.table.sizeOf_spec]
    omega
  · have := List.sizeOf_lt_of_mem (List.mem_of_getElem? h)
    simp only [Value.array.sizeOf_spec, List.cons.sizeOf_spec]
    omega
  · cases h

/-- A text field that has to be there. -/
def textField? (v : Value) (index : Nat) (name : String) : Option String :=
  (field? v index name).bind Value.string?

/-- A field that may be left out: nothing, if it is not there, or what `read` makes of it. -/
def optional? {α : Type} (read : Value → Option α) : Option Value → Option (Option α)
  | none => some none
  | some v => (read v).map some

/-- A list field that may be left out. -/
def listField? {α : Type} (read : Value → Option α) : Option Value → Option (List α)
  | none => some []
  | some (.array items) => items.mapM read
  | some _ => none

/-- An operator: its symbol, or a table with the symbol as its only key and an empty table there. -/
def operator? : Value → Option Operator
  | .string s => Operator.ofSymbol? s
  | .table [(s, .table [])] => Operator.ofSymbol? s
  | _ => none

/-- An expression. -/
def expr? (v : Value) : Option (Expr Unit) :=
  match kind? v with
  | some "int" => do
    let value ← (field? v 0 "value").bind Value.integer?
    if fits v 1 then pure (.int () value) else none
  | some "bool" => do
    let value ← (field? v 0 "value").bind Value.boolean?
    if fits v 1 then pure (.bool () value) else none
  | some "str" => do
    let value ← textField? v 0 "value"
    if fits v 1 then pure (.str () value) else none
  | some "ref" => do
    let name ← textField? v 0 "name"
    if fits v 1 then pure (.ref () name) else none
  | some "call" => do
    let callee ← textField? v 0 "callee"
    let args ← match _h : field? v 1 "args" with
      | none => some []
      | some (.array items) => items.attach.mapM fun ⟨arg, _⟩ => expr? arg
      | some _ => none
    if fits v 2 then pure (.call () callee args) else none
  | some "binary" => do
    let op ← (field? v 0 "op").bind operator?
    let lhs ← match _h : field? v 1 "lhs" with
      | some lhs => expr? lhs
      | none => none
    let rhs ← match _h : field? v 2 "rhs" with
      | some rhs => expr? rhs
      | none => none
    if fits v 3 then pure (.binary () op lhs rhs) else none
  | _ => none
termination_by sizeOf v
decreasing_by
  · have hfield := sizeOf_lt_of_field? _h
    have hitem := List.sizeOf_lt_of_mem ‹_›
    simp only [Value.array.sizeOf_spec] at hfield
    omega
  · exact sizeOf_lt_of_field? _h
  · exact sizeOf_lt_of_field? _h

/-- A type name. -/
def typeRef? (v : Value) : Option (TypeRef Unit) :=
  v.string?.map (⟨(), ·⟩)

/-- A statement. -/
def stmt? (v : Value) : Option (Stmt Unit) :=
  match kind? v with
  | some "let" => do
    let name ← textField? v 0 "name"
    let type ← optional? typeRef? (field? v 1 "type")
    let value ← (field? v 2 "value").bind expr?
    if fits v 3 then pure (.letBind () name type value) else none
  | some "return" => do
    let value ← optional? expr? (field? v 0 "value")
    if fits v 1 then pure (.ret () value) else none
  | some "expr" => do
    let value ← (field? v 0 "value").bind expr?
    if fits v 1 then pure (.eval () value) else none
  | _ => none

/-- A name with its type: a table, or an array of the two. -/
def typed? : Value → Option (Typed Unit)
  | .table entries => do
    let name ← (entries.lookup "name").bind Value.string?
    let type ← (entries.lookup "type").bind typeRef?
    pure ⟨(), name, type⟩
  | .array [name, type] => do
    pure ⟨(), ← name.string?, ← typeRef? type⟩
  | _ => none

/-- An item. -/
def item? (v : Value) : Option (Item Unit) :=
  match kind? v with
  | some "function" => do
    let name ← textField? v 0 "name"
    let typeParams ← listField? Value.string? (field? v 1 "type_params")
    let params ← listField? typed? (field? v 2 "params")
    let returns ← optional? typeRef? (field? v 3 "returns")
    let body ← listField? stmt? (field? v 4 "body")
    if fits v 5 then pure (.function () name typeParams params returns body) else none
  | some "class" => do
    let name ← textField? v 0 "name"
    let fields ← listField? typed? (field? v 1 "fields")
    if fits v 2 then pure (.cls () name fields) else none
  | _ => none

/-- Whether the numbers of an entry of a document can be read: those inside items as words of 64
bits, those that belong to nothing known as words of 128 bits. -/
def isReadable (key : String) (v : Value) : Bool :=
  v.isWithin (if key == "items" then 64 else 128)

/-- The draft that a document holds. -/
def Draft.ofTable? (t : Table) : Option Draft := do
  if !t.all fun (key, v) => isReadable key v then none
  else
    let unit ← optional? Value.string? (t.lookup "unit")
    let items ← listField? item? (t.lookup "items")
    pure ⟨unit, items⟩

end StagedCompiler.Source
