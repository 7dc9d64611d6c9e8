import StagedCompiler.Ty

/-!
# Descriptors

A descriptor says what a name stands for.  Analysis makes one for every declaration of a unit,
extensions offer further ones, and the nodes of a module refer to them by their number in a
`Descriptor.Table`.
-/

namespace StagedCompiler

namespace Descriptor

/-- What a descriptor describes. -/
inductive Kind : Type where
  | function
  | cls
  | field
  | param
  | localVar
  deriving DecidableEq, Repr, Inhabited

/-- The word for a kind. -/
def Kind.text : Kind → String
  | .function => "function"
  | .cls => "class"
  | .field => "field"
  | .param => "param"
  | .localVar => "local"

/-- Every kind. -/
def Kind.all : List Kind := [.function, .cls, .field, .param, .localVar]

/-- The kind that a word stands for. -/
def Kind.ofText? (s : String) : Option Kind :=
  Kind.all.find? fun k => k.text == s

/-- Where a descriptor comes from: the source node that declares it, an extension (possibly on
behalf of another descriptor, its subject), or the host. -/
inductive Origin : Type where
  | source (node : Nat)
  | synthetic (extension : String) (subject : Option DescriptorId)
  | builtin
  deriving DecidableEq, Repr, Inhabited

/-- A parameter of something that can be called. -/
structure Param : Type where
  name : String
  ty : Ty
  deriving DecidableEq, Repr, Inhabited

end Descriptor

/-- What a name stands for. -/
structure Descriptor : Type where
  name : String
  kind : Descriptor.Kind
  params : List Descriptor.Param := []
  typeParams : List String := []
  ty : Ty := .unit
  container : Option DescriptorId := none
  origin : Descriptor.Origin
  deriving DecidableEq, Repr, Inhabited

namespace Descriptor

/-- Whether an extension offered the descriptor. -/
def isSynthetic (d : Descriptor) : Bool :=
  match d.origin with
  | .synthetic _ _ => true
  | .source _ | .builtin => false

/-- Functions and classes can be called. -/
def isCallable (d : Descriptor) : Bool :=
  match d.kind with
  | .function | .cls => true
  | .field | .param | .localVar => false

/-- The descriptors of a unit, each known by its number. -/
structure Table : Type where
  descriptors : Array Descriptor := #[]
  deriving DecidableEq, Repr, Inhabited

namespace Table

/-- The table without descriptors. -/
def empty : Table := {}

/-- How many descriptors a table has. -/
def size (t : Table) : Nat := t.descriptors.size

/-- The descriptor with a number. -/
def get? (t : Table) (id : DescriptorId) : Option Descriptor := t.descriptors[id]?

/-- Whether a number belongs to a descriptor. -/
def contains (t : Table) (id : DescriptorId) : Bool := id < t.size

/-- The table with one more descriptor, whose number is the size that the table had. -/
def insert (t : Table) (d : Descriptor) : Table := ⟨t.descriptors.push d⟩

/-- Change the descriptor with a number, if there is one. -/
def modify (t : Table) (id : DescriptorId) (f : Descriptor → Descriptor) : Table :=
  ⟨t.descriptors.modify id f⟩

/-- The descriptors with their numbers. -/
def entries (t : Table) : List (DescriptorId × Descriptor) :=
  t.descriptors.toList.zipIdx.map fun (d, id) => (id, d)

/-- The text of a descriptor number. -/
def idText (id : DescriptorId) : String := "d" ++ toString id

/-- The text of a type; a class goes by its name. -/
def tyText (t : Table) : Ty → String
  | .int => "int"
  | .bool => "bool"
  | .str => "str"
  | .unit => "unit"
  | .cls id => ((t.get? id).map (·.name)).getD (idText id)
  | .param name => name
  | .error => "\x7berror\x7d"

end Table

end Descriptor

end StagedCompiler
