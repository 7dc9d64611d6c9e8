import StagedCompiler.Module.Basic

/-!
# Outlines

An `Outline` is the tree that a module stands for, without numbers.  `Outline.toModule` lays it out in
an arena, parents first and children in order, so that the number of a node is its place in the walk
from the root.
-/

namespace StagedCompiler.Module

/-- A tree of nodes. -/
inductive Outline : Type where
  | node (kind : Kind) (descriptor : Option DescriptorId) (ty : Ty) (children : List Outline)
  deriving Repr

namespace Outline

/-- The type of the topmost node. -/
def ty : Outline → Ty
  | .node _ _ ty _ => ty

mutual

/-- How many nodes an outline has. -/
def size : Outline → Nat
  | .node _ _ _ children => 1 + sizeAll children

/-- How many nodes outlines have together. -/
def sizeAll : List Outline → Nat
  | [] => 0
  | o :: rest => o.size + sizeAll rest

end

/-- The numbers of outlines that are laid out one after another from a number on. -/
def numbers : NodeId → List Outline → List NodeId
  | _, [] => []
  | next, o :: rest => next :: numbers (next + o.size) rest

mutual

/-- The nodes of an outline whose topmost node has the given number. -/
def layOut (id : NodeId) : Outline → List Node
  | .node kind descriptor ty children =>
    ⟨kind, numbers (id + 1) children, descriptor, ty⟩ :: layOutAll (id + 1) children

/-- The nodes of outlines that are laid out one after another from a number on. -/
def layOutAll (next : NodeId) : List Outline → List Node
  | [] => []
  | o :: rest => layOut next o ++ layOutAll (next + o.size) rest

end

/-- The module that an outline describes. -/
def toModule (o : Outline) : Module := ⟨(o.layOut 0).toArray, 0⟩

end Outline

end StagedCompiler.Module
