import StagedCompiler.Location
import StagedCompiler.Operator

/-!
# Source trees

The constructs of a unit: items, statements and expressions.  The types carry a mark on every
construct, so the same types serve a draft without marks (`Draft`, marked with nothing) and a `Tree`,
in which every construct knows its `Site`: its number in document order and its path from the top of
the unit.  `Tree.nodes` lists all constructs of a tree in document order.
-/

namespace StagedCompiler

namespace Source

/-- The number of a construct in document order. -/
abbrev SiteId : Type := Nat

/-- The place of a construct: its number in document order and its path. -/
structure Site : Type where
  id : SiteId
  path : String
  deriving DecidableEq, Repr, Inhabited

/-- A reference to a type by its name. -/
structure TypeRef (α : Type) : Type where
  site : α
  name : String
  deriving DecidableEq, Repr

/-- A name with its type: a parameter of a function or a field of a class. -/
structure Typed (α : Type) : Type where
  site : α
  name : String
  type : TypeRef α
  deriving DecidableEq, Repr

/-- An expression. -/
inductive Expr (α : Type) : Type where
  | int (site : α) (value : Int64)
  | bool (site : α) (value : Bool)
  | str (site : α) (value : String)
  | ref (site : α) (name : String)
  | call (site : α) (callee : String) (args : List (Expr α))
  | binary (site : α) (op : Operator) (lhs rhs : Expr α)
  deriving Repr

/-- A statement. -/
inductive Stmt (α : Type) : Type where
  | letBind (site : α) (name : String) (type : Option (TypeRef α)) (value : Expr α)
  | ret (site : α) (value : Option (Expr α))
  | eval (site : α) (value : Expr α)
  deriving Repr

/-- An item of a unit. -/
inductive Item (α : Type) : Type where
  | function (site : α) (name : String) (typeParams : List String) (params : List (Typed α))
      (returns : Option (TypeRef α)) (body : List (Stmt α))
  | cls (site : α) (name : String) (fields : List (Typed α))
  deriving Repr

/-- The mark of an expression. -/
def Expr.site {α : Type} : Expr α → α
  | .int site _ | .bool site _ | .str site _ | .ref site _ | .call site _ _ | .binary site _ _ _ =>
    site

/-- The mark of a statement. -/
def Stmt.site {α : Type} : Stmt α → α
  | .letBind site _ _ _ | .ret site _ | .eval site _ => site

/-- The mark of an item. -/
def Item.site {α : Type} : Item α → α
  | .function site _ _ _ _ _ | .cls site _ _ => site

/-- The name of an item. -/
def Item.name {α : Type} : Item α → String
  | .function _ name _ _ _ _ | .cls _ name _ => name

/-- A unit as its document gives it: the name it may give itself, and items without marks. -/
structure Draft : Type where
  unit : Option String := none
  items : List (Item Unit) := []

/-- What sort of construct a node is. -/
inductive Category : Type where
  | declaration
  | statement
  | expression
  | typeReference
  deriving DecidableEq, Repr

/-- The word for a category. -/
def Category.text : Category → String
  | .declaration => "Declaration"
  | .statement => "Statement"
  | .expression => "Expression"
  | .typeReference => "TypeReference"

/-- Any construct of a tree. -/
inductive Node : Type where
  | item (i : Item Site)
  | field (f : Typed Site)
  | param (p : Typed Site)
  | typeRef (t : TypeRef Site)
  | stmt (s : Stmt Site)
  | expr (e : Expr Site)
  deriving Repr

namespace Node

/-- The place of a node. -/
def site : Node → Site
  | .item i => i.site
  | .field f => f.site
  | .param p => p.site
  | .typeRef t => t.site
  | .stmt s => s.site
  | .expr e => e.site

/-- The number of a node. -/
def id (n : Node) : SiteId := n.site.id

/-- The name that a node declares. -/
def declares? : Node → Option String
  | .item i => some i.name
  | .field f => some f.name
  | .param p => some p.name
  | .stmt (.letBind _ name _ _) => some name
  | .stmt (.ret _ _) | .stmt (.eval _ _) | .typeRef _ | .expr _ => none

/-- The name that a node refers to. -/
def refers? : Node → Option String
  | .typeRef t => some t.name
  | .expr (.ref _ name) => some name
  | .expr (.call _ callee _) => some callee
  | .item _ | .field _ | .param _ | .stmt _ | .expr _ => none

/-- What sort of construct a node is.  A `let` counts as a declaration. -/
def category : Node → Category
  | .item _ | .field _ | .param _ | .stmt (.letBind _ _ _ _) => .declaration
  | .stmt (.ret _ _) | .stmt (.eval _ _) => .statement
  | .typeRef _ => .typeReference
  | .expr _ => .expression

/-- The constructs that a node consists of, in document order. -/
def children : Node → List Node
  | .item (.function _ _ _ params returns body) =>
    params.map .param ++ returns.toList.map .typeRef ++ body.map .stmt
  | .item (.cls _ _ fields) => fields.map .field
  | .field f => [.typeRef f.type]
  | .param p => [.typeRef p.type]
  | .typeRef _ => []
  | .stmt (.letBind _ _ type value) => type.toList.map .typeRef ++ [.expr value]
  | .stmt (.ret _ value) => value.toList.map .expr
  | .stmt (.eval _ value) => [.expr value]
  | .expr (.call _ _ args) => args.map .expr
  | .expr (.binary _ _ lhs rhs) => [.expr lhs, .expr rhs]
  | .expr (.int _ _) | .expr (.bool _ _) | .expr (.str _ _) | .expr (.ref _ _) => []

end Node

mutual

/-- An expression and everything in it, in document order. -/
def Expr.nodes : Expr Site → List Node
  | .call site callee args => .expr (.call site callee args) :: exprListNodes args
  | .binary site op lhs rhs => .expr (.binary site op lhs rhs) :: (lhs.nodes ++ rhs.nodes)
  | .int site n => [.expr (.int site n)]
  | .bool site b => [.expr (.bool site b)]
  | .str site s => [.expr (.str site s)]
  | .ref site name => [.expr (.ref site name)]

/-- Expressions and everything in them, in document order. -/
def exprListNodes : List (Expr Site) → List Node
  | [] => []
  | e :: rest => e.nodes ++ exprListNodes rest

end

/-- A statement and everything in it, in document order. -/
def Stmt.nodes (s : Stmt Site) : List Node :=
  .stmt s :: match s with
    | .letBind _ _ type value => type.toList.map .typeRef ++ value.nodes
    | .ret _ value => value.toList.flatMap Expr.nodes
    | .eval _ value => value.nodes

/-- An item and everything in it, in document order. -/
def Item.nodes (i : Item Site) : List Node :=
  .item i :: match i with
    | .function _ _ _ params returns body =>
      params.flatMap (fun p => [.param p, .typeRef p.type]) ++ returns.toList.map .typeRef ++
        body.flatMap Stmt.nodes
    | .cls _ _ fields => fields.flatMap fun f => [.field f, .typeRef f.type]

end Source

/-- A unit whose constructs are numbered in document order. -/
structure Tree : Type where
  unit : String
  items : List (Source.Item Source.Site)
  deriving Repr

namespace Tree

/-- All constructs of a tree, in document order. -/
def nodes (t : Tree) : List Source.Node :=
  t.items.flatMap Source.Item.nodes

/-- How many constructs a tree has. -/
def size (t : Tree) : Nat := t.nodes.length

/-- The location of a construct. -/
def location (t : Tree) (site : Source.Site) : Location :=
  ⟨t.unit, site.id, site.path⟩

end Tree

end StagedCompiler
