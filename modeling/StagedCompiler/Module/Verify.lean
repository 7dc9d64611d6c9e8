import StagedCompiler.Module.Basic

/-!
# Verification of modules

`Module.verify` checks that what the root reaches is a tree of well-shaped nodes over a descriptor
table.  It walks the module with a stack of nodes to look at and marks every node that it has put
there, so a node that is reached twice, by sharing or by a cycle, is noticed when it is met again.
-/

namespace StagedCompiler.Module

/-- What is wrong with a module. -/
inductive Violation : Type where
  | rootNotModule (node : NodeId) (found : String)
  | danglingChild (parent child : NodeId)
  | sharedNode (node : NodeId)
  | missingDescriptor (node : NodeId) (kind : String)
  | unknownDescriptor (node : NodeId) (descriptor : DescriptorId)
  | arity (node : NodeId) (kind expected : String) (found : Nat)
  | badChild (node : NodeId) (parent child : String)
  deriving DecidableEq, Repr

/-- The message about a violation. -/
def Violation.message : Violation → String
  | .rootNotModule node found =>
    "root node " ++ idText node ++ " is a " ++ found ++ ", expected module"
  | .danglingChild parent child =>
    "node " ++ idText parent ++ " references missing child " ++ idText child
  | .sharedNode node => "node " ++ idText node ++ " is owned by more than one parent"
  | .missingDescriptor node kind => kind ++ " node " ++ idText node ++ " has no descriptor"
  | .unknownDescriptor node descriptor =>
    "node " ++ idText node ++ " references unknown descriptor " ++
      Descriptor.Table.idText descriptor
  | .arity node kind expected found =>
    kind ++ " node " ++ idText node ++ " has " ++ toString found ++ " children, expected " ++ expected
  | .badChild node parent child =>
    parent ++ " node " ++ idText node ++ " cannot contain a " ++ child

/-- Check that all given children of a node have an allowed kind. -/
def expectChildren (m : Module) (id : NodeId) (kind : Kind) (allowed : Kind → Bool) :
    List NodeId → Except Violation Unit
  | [] => .ok ()
  | child :: rest =>
    match m.kind? child with
    | none => .error (.danglingChild id child)
    | some k =>
      if allowed k then m.expectChildren id kind allowed rest
      else .error (.badChild id kind.text k.text)

/-- Check the number of children of a node. -/
def expectArity (id : NodeId) (n : Node) (expected : String) (ok : Bool) : Except Violation Unit :=
  if ok then .ok () else .error (.arity id n.kind.text expected n.children.length)

/-- Whether the last child of a node is a block. -/
def endsInBlock (m : Module) (n : Node) : Bool :=
  match n.children.getLast? with
  | some last => m.kind? last == some .block
  | none => false

/-- Check the number and the kinds of the children of a node. -/
def checkShape (m : Module) (id : NodeId) (n : Node) : Except Violation Unit :=
  let expect := m.expectChildren id n.kind
  match n.kind with
  | .module _ => expect Kind.isFile n.children
  | .file _ => expect Kind.isItem n.children
  | .cls _ => expect Kind.isField n.children
  | .field _ | .param _ | .localRef | .constant _ => expectArity id n "0" n.children.isEmpty
  | .function _ => do
    expectArity id n "params and a trailing block" (m.endsInBlock n)
    expect Kind.isParam n.children.dropLast
  | .block => expect Kind.isStatement n.children
  | .letBind _ | .eval | .fieldGet => do
    expectArity id n "1" (n.children.length == 1)
    expect Kind.isExpression n.children
  | .ret => do
    expectArity id n "at most 1" (n.children.length ≤ 1)
    expect Kind.isExpression n.children
  | .binary _ => do
    expectArity id n "2" (n.children.length == 2)
    expect Kind.isExpression n.children
  | .call => expect Kind.isExpression n.children

/-- Check that a declaration or a reference has a descriptor of the table. -/
def checkDescriptor (descriptors : Descriptor.Table) (id : NodeId) (n : Node) :
    Except Violation Unit :=
  if n.kind.isDeclaration || n.kind.isReference then
    match n.descriptor with
    | none => .error (.missingDescriptor id n.kind.text)
    | some d =>
      if descriptors.contains d then .ok () else .error (.unknownDescriptor id d)
  else .ok ()

/-- Put the children of a node on the stack and mark them, unless one of them is missing or was
marked before. -/
def enter (m : Module) (parent : NodeId) :
    List NodeId → List NodeId → List NodeId → Except Violation (List NodeId × List NodeId)
  | [], seen, stack => .ok (seen, stack)
  | child :: rest, seen, stack =>
    if (m.get? child).isNone then .error (.danglingChild parent child)
    else if seen.contains child then .error (.sharedNode child)
    else m.enter parent rest (child :: seen) (child :: stack)

/-- Look at the nodes on the stack, the last one put there first.  No node is put there twice, so
the size of the arena bounds the number of steps. -/
def verifyFrom (m : Module) (descriptors : Descriptor.Table) :
    Nat → List NodeId → List NodeId → Except Violation Unit
  | _, _, [] => .ok ()
  | 0, _, id :: _ => .error (.sharedNode id)
  | fuel + 1, seen, id :: stack =>
    match m.get? id with
    | none => .error (.danglingChild id id)
    | some n => do
      let (seen, stack) ← m.enter id n.children seen stack
      checkDescriptor descriptors id n
      m.checkShape id n
      m.verifyFrom descriptors fuel seen stack

/-- Check that a module is well formed over a descriptor table. -/
def verify (m : Module) (descriptors : Descriptor.Table) : Except Violation Unit :=
  match m.get? m.root with
  | none => .error (.danglingChild m.root m.root)
  | some n =>
    match n.kind with
    | .module _ => m.verifyFrom descriptors m.size [m.root] [m.root]
    | kind => .error (.rootNotModule m.root kind.text)

end StagedCompiler.Module
