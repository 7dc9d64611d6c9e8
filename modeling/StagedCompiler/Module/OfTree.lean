import StagedCompiler.Analysis.Binding
import StagedCompiler.Module.Basic
import StagedCompiler.Module.Verify

/-!
# The module of a unit

`Module.ofTree` builds the module of a unit from its tree and its bindings.  Nodes are added to an arena
one by one, operands before what uses them and members before what has them, so a node names only
nodes that are there already, and no node has it as a child until the node above it is added.  The
file of the unit comes last and is put below the root, which was there from the start; then the module
is compacted, which puts its nodes into the order of the walk, and verified.

References to types become no nodes, because the types are in the bindings.
-/

namespace StagedCompiler.Module

open Source

/-- A fault of this stage. -/
def buildFault (message : String) : Fault := .invariant "build-ir" message

/-- The binding of a construct. -/
def bindingOf (bindings : Bindings) (site : Site) : Except Fault Binding :=
  match bindings.get? site.id with
  | some b => .ok b
  | none => .error (buildFault ("no binding for " ++ site.path))

/-- The descriptor that a construct declares, and its type. -/
def declaredBy (bindings : Bindings) (site : Site) : Except Fault (DescriptorId × Ty) := do
  let b ← bindingOf bindings site
  match b.declares with
  | some d => pure (d, b.ty)
  | none => .error (buildFault ("declaration " ++ site.path ++ " introduces no descriptor"))

/-- The descriptor that a construct refers to, and its type. -/
def targetOf (bindings : Bindings) (site : Site) : Except Fault (DescriptorId × Ty) := do
  let b ← bindingOf bindings site
  match b.target with
  | some d => pure (d, b.ty)
  | none => .error (buildFault ("reference " ++ site.path ++ " has no target"))

/-- A step of construction: it may add nodes to the arena, and it may end in a fault. -/
abbrev Building : Type → Type := StateT Module (Except Fault)

/-- The fault of construction that comes across a number out of range. -/
def inRange {α : Type} (access : Except OutOfRange α) : Except Fault α :=
  access.mapError fun e => buildFault ("panicked: " ++ e.message)

/-- Add a node to the arena and give its number. -/
def alloc (kind : Kind) (descriptor : Option DescriptorId) (ty : Ty) (children : List NodeId) :
    Building NodeId :=
  modifyGet fun m => (m.size, m.push ⟨kind, children, descriptor, ty⟩)

/-- The type of a node of the arena. -/
def typeOf (id : NodeId) : Building Ty := do
  return (← inRange ((← get).node id)).ty

mutual

/-- Add the nodes of an expression, its operands and arguments first. -/
def buildExpr (bindings : Bindings) : Expr Site → Building NodeId
  | .int _ n => alloc (.constant (.int n)) none .int []
  | .bool _ b => alloc (.constant (.bool b)) none .bool []
  | .str _ s => alloc (.constant (.str s)) none .str []
  | .ref site _ => do
    let (target, ty) ← targetOf bindings site
    alloc .localRef (some target) ty []
  | .call site _ args => do
    let (target, ty) ← targetOf bindings site
    let children ← buildExprs bindings args
    alloc .call (some target) ty children
  | .binary site op lhs rhs => do
    let b ← bindingOf bindings site
    let l ← buildExpr bindings lhs
    let r ← buildExpr bindings rhs
    alloc (.binary op) none b.ty [l, r]

/-- Add the nodes of expressions, one after another. -/
def buildExprs (bindings : Bindings) : List (Expr Site) → Building (List NodeId)
  | [] => pure []
  | e :: rest => do
    let id ← buildExpr bindings e
    let ids ← buildExprs bindings rest
    pure (id :: ids)

end

/-- Add the nodes of a statement.  An evaluation has the type of the node that it evaluates. -/
def buildStmt (bindings : Bindings) : Stmt Site → Building NodeId
  | .letBind site name _ value => do
    let (descriptor, ty) ← declaredBy bindings site
    let id ← buildExpr bindings value
    alloc (.letBind name) (some descriptor) ty [id]
  | .ret _ none => alloc .ret none .unit []
  | .ret _ (some value) => do
    let id ← buildExpr bindings value
    alloc .ret none .unit [id]
  | .eval _ value => do
    let id ← buildExpr bindings value
    let ty ← typeOf id
    alloc .eval none ty [id]

/-- Add the node of a member of an item. -/
def buildMember (bindings : Bindings) (kind : String → Kind) (member : Typed Site) :
    Building NodeId := do
  let (descriptor, ty) ← declaredBy bindings member.site
  alloc (kind member.name) (some descriptor) ty []

/-- Add the nodes of an item.  The statements of a function are in one block behind its parameters. -/
def buildItem (bindings : Bindings) : Item Site → Building NodeId
  | .cls site name fields => do
    let (descriptor, ty) ← declaredBy bindings site
    let children ← fields.mapM (buildMember bindings .field)
    alloc (.cls name) (some descriptor) ty children
  | .function site name _ params _ body => do
    let (descriptor, ty) ← declaredBy bindings site
    let children ← params.mapM (buildMember bindings .param)
    let stmts ← body.mapM (buildStmt bindings)
    let block ← alloc .block none .unit stmts
    alloc (.function name) (some descriptor) ty (children ++ [block])

/-- Add the nodes of a unit: its items, and the file that has them. -/
def buildFile (tree : Tree) (bindings : Bindings) : Building NodeId := do
  let items ← tree.items.mapM (buildItem bindings)
  alloc (.file tree.unit) none .unit items

/-- The module of a unit, verified against the descriptors. -/
def ofTree (tree : Tree) (bindings : Bindings) (descriptors : Descriptor.Table) :
    Except Fault Module := do
  let (file, m) ← buildFile tree bindings (.named tree.unit)
  let m ← inRange (m.pushChild m.root file)
  let m ← inRange m.compact
  match m.verify descriptors with
  | .ok () => pure m
  | .error violation => .error (buildFault violation.message)

end StagedCompiler.Module
