import StagedCompiler.Descriptor
import StagedCompiler.Fault
import StagedCompiler.Source.Tree

/-!
# Bindings

What the constructs of a unit resolve to.  `Bindings` has one slot for each construct of a tree;
`freeze` checks that nothing is missing before later stages rely on them.
-/

namespace StagedCompiler

/-- Remarks about a binding. -/
structure Binding.Flags : Type where
  unresolved : Bool := false
  typeMismatch : Bool := false
  synthetic : Bool := false
  deriving DecidableEq, Repr, Inhabited

namespace Binding.Flags

/-- No remarks. -/
def none : Flags := {}

/-- The remarks of both. -/
def union (a b : Flags) : Flags :=
  ⟨a.unresolved || b.unresolved, a.typeMismatch || b.typeMismatch, a.synthetic || b.synthetic⟩

/-- The remarks as bits, the first one lowest. -/
def bits (f : Flags) : Nat :=
  f.unresolved.toNat + 2 * f.typeMismatch.toNat + 4 * f.synthetic.toNat

/-- The names of the remarks that are made. -/
def names (f : Flags) : List String :=
  (if f.unresolved then ["unresolved"] else []) ++
    (if f.typeMismatch then ["type_mismatch"] else []) ++
    (if f.synthetic then ["synthetic"] else [])

end Binding.Flags

/-- What a construct resolves to: its type, the descriptor it refers to, and the one it declares. -/
structure Binding : Type where
  ty : Ty
  target : Option DescriptorId := none
  declares : Option DescriptorId := none
  flags : Binding.Flags := {}
  deriving DecidableEq, Repr, Inhabited

namespace Binding

/-- A construct with a type. -/
def typed (ty : Ty) : Binding := { ty := ty }

/-- A reference to a descriptor. -/
def reference (ty : Ty) (target : DescriptorId) : Binding := { ty := ty, target := some target }

/-- A declaration of a descriptor. -/
def declaration (ty : Ty) (declares : DescriptorId) : Binding :=
  { ty := ty, declares := some declares }

/-- A reference that leads nowhere. -/
def unresolved : Binding := { ty := .error, flags := { unresolved := true } }

/-- The binding with further remarks. -/
def withFlags (b : Binding) (flags : Flags) : Binding := { b with flags := b.flags.union flags }

end Binding

/-- The bindings of a tree, by the number of the construct. -/
structure Bindings : Type where
  slots : Array (Option Binding)
  deriving DecidableEq, Repr, Inhabited

namespace Bindings

/-- No bindings for a tree of the given size. -/
def ofSize (n : Nat) : Bindings := ⟨Array.replicate n none⟩

/-- The binding of a construct. -/
def get? (b : Bindings) (id : Source.SiteId) : Option Binding := (b.slots[id]?).join

/-- Bind a construct.  A number outside the tree is ignored. -/
def insert (b : Bindings) (id : Source.SiteId) (binding : Binding) : Bindings :=
  ⟨b.slots.setIfInBounds id (some binding)⟩

/-- Add remarks to the binding of a construct, if it has one. -/
def flag (b : Bindings) (id : Source.SiteId) (flags : Binding.Flags) : Bindings :=
  ⟨b.slots.modify id (·.map (·.withFlags flags))⟩

/-- All bindings with the numbers of their constructs. -/
def entries (b : Bindings) : List (Source.SiteId × Binding) :=
  b.slots.toList.zipIdx.filterMap fun (slot, id) => slot.map fun binding => (id, binding)

/-- How many constructs are bound. -/
def size (b : Bindings) : Nat := b.entries.length

/-- Whether a construct has to be bound: declarations and references have to. -/
def isRequired (n : Source.Node) : Bool :=
  n.category == .declaration || n.refers?.isSome

/-- The first descriptor that a binding names and a table does not have. -/
def unknownDescriptor? (descriptors : Descriptor.Table) (b : Binding) : Option DescriptorId :=
  (b.target.toList ++ b.declares.toList).find? fun d => !descriptors.contains d

/-- Check the binding of one construct. -/
def checkNode (b : Bindings) (descriptors : Descriptor.Table) (n : Source.Node) :
    Except Fault Unit :=
  match b.get? n.id with
  | none =>
    if isRequired n then
      .error (.invariant "analyze"
        ("syntax node #" ++ toString n.id ++ " at " ++ n.site.path ++ " has no binding"))
    else .ok ()
  | some binding =>
    match unknownDescriptor? descriptors binding with
    | some d =>
      .error (.invariant "analyze"
        ("binding for " ++ n.site.path ++ " names unknown descriptor " ++
          Descriptor.Table.idText d))
    | none => .ok ()

/-- Check that every construct that has to be bound is, and that all descriptors exist. -/
def freeze (b : Bindings) (tree : Tree) (descriptors : Descriptor.Table) : Except Fault Bindings :=
  match tree.nodes.forM (b.checkNode descriptors) with
  | .ok () => .ok b
  | .error fault => .error fault

/-- A binding in words. -/
structure Summary : Type where
  path : String
  ty : String
  target : Option String
  declares : Option String
  flags : List String
  deriving DecidableEq, Repr

/-- The bindings of a tree in words, in document order. -/
def summarize (b : Bindings) (tree : Tree) (descriptors : Descriptor.Table) : List Summary :=
  let nameOf (id : Option DescriptorId) : Option String :=
    (id.bind descriptors.get?).map (·.name)
  b.entries.map fun (id, binding) =>
    { path := ((tree.nodes[id]?).map (·.site.path)).getD ""
      ty := descriptors.tyText binding.ty
      target := nameOf binding.target
      declares := nameOf binding.declares
      flags := binding.flags.names }

end Bindings

end StagedCompiler
