import StagedCompiler.Descriptor
import StagedCompiler.Operator
import StagedCompiler.Text.Quoted

/-!
# Modules

A `Module` is the intermediate form of a unit: an arena of nodes that name their children by number.
Nothing in the type forbids a child that does not exist, a node with two parents or a cycle; that is
what verification is for.  The edits below say so when they are given a number that is out of range,
and the walks go down at most as many steps as the arena has nodes, which is enough for every module
without a cycle.
-/

namespace StagedCompiler

/-- The number of a node in its module. -/
abbrev NodeId : Type := Nat

/-- A value that is known at compile time. -/
inductive Constant : Type where
  | int (n : Int64)
  | bool (b : Bool)
  | str (s : String)
  | unit
  deriving DecidableEq, Repr, Inhabited

/-- The text of a constant, in which characters that `shown` holds of need no escape. -/
def Constant.textWith (shown : Char → Bool) : Constant → String
  | .int n => toString n.toInt
  | .bool b => if b then "true" else "false"
  | .str s => Text.quotedWith shown s
  | .unit => "()"

/-- The text of a constant. -/
def Constant.text (c : Constant) : String :=
  c.textWith Text.isPrintable

namespace Module

/-- What a node is, and what its children are:

* a module has files, a file classes and functions, a class fields;
* a function has parameters and, behind them, one block;
* a block has statements: `letBind`, `ret`, `eval` and blocks;
* `letBind`, `eval` and `fieldGet` have one expression, `ret` at most one, `binary` two and `call`
  any number;
* fields, parameters, `localRef` and constants have none. -/
inductive Kind : Type where
  | module (name : String)
  | file (name : String)
  | cls (name : String)
  | field (name : String)
  | function (name : String)
  | param (name : String)
  | block
  | letBind (name : String)
  | ret
  | eval
  | call
  | fieldGet
  | localRef
  | constant (value : Constant)
  | binary (op : Operator)
  deriving DecidableEq, Repr, Inhabited

namespace Kind

/-- The word for a kind. -/
def text : Kind → String
  | .module _ => "module"
  | .file _ => "file"
  | .cls _ => "class"
  | .field _ => "field"
  | .function _ => "function"
  | .param _ => "param"
  | .block => "block"
  | .letBind _ => "let"
  | .ret => "return"
  | .eval => "eval"
  | .call => "call"
  | .fieldGet => "field_get"
  | .localRef => "local"
  | .constant _ => "constant"
  | .binary _ => "binary"

/-- Nodes that declare something. -/
def isDeclaration : Kind → Bool
  | .cls _ | .field _ | .function _ | .param _ | .letBind _ => true
  | _ => false

/-- Nodes that refer to a declaration. -/
def isReference : Kind → Bool
  | .call | .fieldGet | .localRef => true
  | _ => false

/-- Nodes that a block may hold. -/
def isStatement : Kind → Bool
  | .letBind _ | .ret | .eval | .block => true
  | _ => false

/-- Nodes that have a value. -/
def isExpression : Kind → Bool
  | .call | .fieldGet | .localRef | .constant _ | .binary _ => true
  | _ => false

/-- Nodes that are files of a module. -/
def isFile : Kind → Bool
  | .file _ => true
  | _ => false

/-- Nodes that are items of a file. -/
def isItem : Kind → Bool
  | .cls _ | .function _ => true
  | _ => false

/-- Nodes that are fields of a class. -/
def isField : Kind → Bool
  | .field _ => true
  | _ => false

/-- Nodes that are parameters of a function. -/
def isParam : Kind → Bool
  | .param _ => true
  | _ => false

/-- Nodes that are functions. -/
def isFunction : Kind → Bool
  | .function _ => true
  | _ => false

end Kind

/-- A node of a module. -/
structure Node : Type where
  kind : Kind
  children : List NodeId := []
  descriptor : Option DescriptorId := none
  ty : Ty := .unit
  deriving DecidableEq, Repr, Inhabited

/-- The text of a node number. -/
def idText (id : NodeId) : String := "n" ++ toString id

/-- A number that does not belong to a node of an arena. -/
structure OutOfRange : Type where
  size : Nat
  index : Nat
  deriving DecidableEq, Repr

/-- The message about a number that is out of range. -/
def OutOfRange.message (e : OutOfRange) : String :=
  "index out of bounds: the len is " ++ toString e.size ++ " but the index is " ++ toString e.index

end Module

/-- A unit in its intermediate form: an arena of nodes and the number of the root. -/
structure Module : Type where
  nodes : Array Module.Node
  root : NodeId
  deriving DecidableEq, Repr, Inhabited

namespace Module

/-- The module that has a name and nothing else. -/
def named (name : String) : Module :=
  ⟨#[{ kind := .module name }], 0⟩

/-- How many nodes the arena has, reachable or not. -/
def size (m : Module) : Nat := m.nodes.size

/-- The node with a number. -/
def get? (m : Module) (id : NodeId) : Option Node := m.nodes[id]?

/-- The node with a number, or the number as an error. -/
def node (m : Module) (id : NodeId) : Except OutOfRange Node :=
  match m.get? id with
  | some n => .ok n
  | none => .error ⟨m.size, id⟩

/-- The children of a node; a number that is out of range has none. -/
def childrenOf (m : Module) (id : NodeId) : List NodeId :=
  ((m.get? id).map (·.children)).getD []

/-- The kind of a node. -/
def kind? (m : Module) (id : NodeId) : Option Kind :=
  (m.get? id).map (·.kind)

/-- The name that the root gives the module; the empty text if the root is no module node. -/
def name (m : Module) : Except OutOfRange String := do
  match (← m.node m.root).kind with
  | .module name => pure name
  | _ => pure ""

/-- The arena with one more node, whose number is the size that the arena had. -/
def push (m : Module) (n : Node) : Module :=
  { m with nodes := m.nodes.push n }

/-- The arena with one node changed. -/
def update (m : Module) (id : NodeId) (f : Node → Node) : Module :=
  { m with nodes := m.nodes.modify id f }

/-- Change a node, unless its number is out of range. -/
def edit (m : Module) (id : NodeId) (f : Node → Node) : Except OutOfRange Module := do
  let _ ← m.node id
  pure (m.update id f)

/-- Give a node one more child, behind the others. -/
def pushChild (m : Module) (parent child : NodeId) : Except OutOfRange Module :=
  m.edit parent fun n => { n with children := n.children ++ [child] }

/-- Give a node another kind and other children; its descriptor and type stay. -/
def reshape (m : Module) (id : NodeId) (kind : Kind) (children : List NodeId) :
    Except OutOfRange Module :=
  m.edit id fun n => { n with kind := kind, children := children }

/-- Give a node other children. -/
def setChildren (m : Module) (id : NodeId) (children : List NodeId) : Except OutOfRange Module :=
  m.edit id fun n => { n with children := children }

/-- The list with the first occurrence of `old` replaced. -/
def replaceFirst (old new : NodeId) : List NodeId → List NodeId
  | [] => []
  | c :: rest => if c = old then new :: rest else c :: replaceFirst old new rest

/-- Put `new` in the first place where `old` is a child of `parent`, and say whether it was one. -/
def replaceChild (m : Module) (parent old new : NodeId) : Except OutOfRange (Module × Bool) := do
  let n ← m.node parent
  pure (m.update parent fun n => { n with children := replaceFirst old new n.children },
    n.children.contains old)

/-- A node and everything below it, parents first and children in order, down to a depth. -/
def visit (m : Module) : Nat → NodeId → List NodeId
  | 0, id => [id]
  | depth + 1, id => id :: (m.childrenOf id).flatMap (m.visit depth)

/-- Everything that the root reaches, parents first and children in order. -/
def preorder (m : Module) : List NodeId :=
  m.visit m.size m.root

/-- Everything that the root reaches, children before their parents and in reverse order. -/
def postorder (m : Module) : List NodeId :=
  m.preorder.reverse

/-- A node and everything below it, each with its parent, down to a depth. -/
def visitWithParents (m : Module) :
    Nat → Option NodeId → NodeId → List (NodeId × Option NodeId)
  | 0, parent, id => [(id, parent)]
  | depth + 1, parent, id =>
    (id, parent) :: (m.childrenOf id).flatMap (m.visitWithParents depth (some id))

/-- Everything that the root reaches with the parent it is reached from. -/
def preorderWithParents (m : Module) : List (NodeId × Option NodeId) :=
  m.visitWithParents m.size none m.root

/-- The functions that the root reaches. -/
def functions (m : Module) : Except OutOfRange (List NodeId) :=
  m.preorder.filterM fun id => do
    pure (← m.node id).kind.isFunction

/-- The first of the given numbers that belongs to no node. -/
def firstMissing? (m : Module) (ids : List NodeId) : Option NodeId :=
  ids.find? fun id => (m.get? id).isNone

/-- The new number of each old one: its last place in the order. -/
def renumbering (size : Nat) (order : List NodeId) : Array (Option NodeId) :=
  order.zipIdx.foldl (fun table (old, new) => table.setIfInBounds old (some new))
    (Array.replicate size none)

/-- The nodes in the given order, numbered from zero, with their children renumbered to match. -/
def renumbered (m : Module) (order : List NodeId) : Module :=
  let numbers := renumbering m.size order
  let nodes := order.filterMap fun old =>
    (m.get? old).map fun n =>
      { n with children := n.children.filterMap fun c => (numbers[c]?).join }
  ⟨nodes.toArray, 0⟩

/-- The module with nothing but what the root reaches, numbered in the order of the walk. -/
def compacted (m : Module) : Module :=
  m.renumbered m.preorder

/-- The compacted module, unless the walk meets a number that is out of range. -/
def compact (m : Module) : Except OutOfRange Module :=
  match m.firstMissing? m.preorder with
  | some id => .error ⟨m.size, id⟩
  | none => .ok m.compacted

end Module

end StagedCompiler
