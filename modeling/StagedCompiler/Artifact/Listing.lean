import StagedCompiler.Artifact.Layout
import StagedCompiler.Fault

/-!
# Listings

The code of a unit for a stack machine.  `Listing.ofModule` emits the instructions of a module's
functions; operands come before the instruction that takes them.  `Listing.render` writes a listing
as text.  The two are kept apart, so what a listing means does not depend on how it looks.
-/

namespace StagedCompiler

/-- An instruction of the stack machine. -/
inductive Instruction : Type where
  | push (value : Constant)
  | load (name : String)
  | store (name : String)
  | call (name : String) (arguments : Nat)
  | getField (owner name : String)
  | operate (op : Operator)
  | pop
  | ret
  deriving DecidableEq, Repr

namespace Instruction

/-- The word for an operator. -/
def mnemonic : Operator → String
  | .add => "add"
  | .sub => "sub"
  | .mul => "mul"
  | .div => "div"
  | .eq => "eq"
  | .lt => "lt"

/-- The text of an instruction. -/
def text : Instruction → String
  | .push value => "push " ++ value.text
  | .load name => "load " ++ name
  | .store name => "store " ++ name
  | .call name arguments => "call " ++ name ++ "/" ++ toString arguments
  | .getField owner name => "getfield " ++ owner ++ "." ++ name
  | .operate op => mnemonic op
  | .pop => "pop"
  | .ret => "ret"

end Instruction

namespace Listing

/-- A name with its type. -/
structure Member : Type where
  name : String
  ty : String
  deriving DecidableEq, Repr

/-- The text of a member. -/
def Member.text (m : Member) : String := m.name ++ ": " ++ m.ty

/-- An item of a listing. -/
inductive Item : Type where
  | cls (name : String) (fields : List Member)
  | function (name : String) (params : List Member) (result : Option String)
      (code : List Instruction)
  deriving Repr

end Listing

/-- The code of a unit. -/
structure Listing : Type where
  unit : String
  items : List Listing.Item
  deriving Repr

namespace Listing

/-- The first line of an item. -/
def Item.header : Item → String
  | .cls name _ => "class " ++ name
  | .function name params result _ =>
    "fn " ++ name ++ "(" ++ ", ".intercalate (params.map Member.text) ++ ")" ++
      match result with
      | none => ""
      | some ty => " -> " ++ ty

/-- The lines of an item behind the first one. -/
def Item.lines : Item → List String
  | .cls _ fields => fields.map fun f => "field " ++ f.text
  | .function _ _ _ code => code.map Instruction.text

/-- The text of a listing: a line for the unit, and then, behind an empty line each, the items. -/
def render (l : Listing) : String :=
  ((Layout.empty.line ("; unit " ++ l.unit)).each l.items fun out item =>
    out.blank.block item.header fun out => out.each item.lines Layout.line).text

/-! ## Emission -/

/-- Why a module has no listing. -/
inductive Stop : Type where
  /-- A node is not what it has to be in its place. -/
  | unfit (message : String)
  /-- A number belongs to no node. -/
  | outOfRange (e : Module.OutOfRange)
  deriving DecidableEq, Repr

/-- The node with a number. -/
def nodeOf (m : Module) (id : NodeId) : Except Stop Module.Node :=
  (m.node id).mapError .outOfRange

/-- The descriptor of a node. -/
def descriptorOf (descriptors : Descriptor.Table) (id : NodeId) (n : Module.Node) :
    Except Stop Descriptor :=
  match n.descriptor.bind descriptors.get? with
  | some d => .ok d
  | none => .error (.unfit (n.kind.text ++ " node " ++ Module.idText id ++ " has no descriptor"))

/-- The name of the class that a field belongs to. -/
def ownerName (descriptors : Descriptor.Table) (field : Descriptor) : String :=
  ((field.container.bind descriptors.get?).map (·.name)).getD "?"

/-- The instruction that an expression ends in. -/
def exprInstruction (descriptors : Descriptor.Table) (id : NodeId) (n : Module.Node) :
    Except Stop Instruction :=
  match n.kind with
  | .constant value => .ok (.push value)
  | .localRef => do pure (.load (← descriptorOf descriptors id n).name)
  | .call => do pure (.call (← descriptorOf descriptors id n).name n.children.length)
  | .fieldGet => do
    let field ← descriptorOf descriptors id n
    pure (.getField (ownerName descriptors field) field.name)
  | .binary op => .ok (.operate op)
  | kind => .error (.unfit ("expected an expression, found " ++ kind.text))

/-- The code of an expression down to a depth: the code of its operands and then its own
instruction. -/
def exprCode (m : Module) (descriptors : Descriptor.Table) :
    Nat → NodeId → Except Stop (List Instruction)
  | 0, id => .error (.outOfRange ⟨m.size, id⟩)
  | depth + 1, id => do
    let n ← nodeOf m id
    let last ← exprInstruction descriptors id n
    let operands ← n.children.mapM (exprCode m descriptors depth)
    pure (operands.flatten ++ [last])

/-- The code of expressions, one after another. -/
def valuesCode (m : Module) (descriptors : Descriptor.Table) (ids : List NodeId) :
    Except Stop (List Instruction) := do
  pure (← ids.mapM (exprCode m descriptors (m.size + 1))).flatten

/-- The code of a statement down to a depth. -/
def stmtCode (m : Module) (descriptors : Descriptor.Table) :
    Nat → NodeId → Except Stop (List Instruction)
  | 0, id => .error (.outOfRange ⟨m.size, id⟩)
  | depth + 1, id => do
    let n ← nodeOf m id
    match n.kind with
    | .block => do pure (← n.children.mapM (stmtCode m descriptors depth)).flatten
    | .letBind _ => do
      let d ← descriptorOf descriptors id n
      pure ((← valuesCode m descriptors n.children) ++ [.store d.name])
    | .ret => do pure ((← valuesCode m descriptors n.children) ++ [.ret])
    | .eval => do
      let code ← valuesCode m descriptors n.children
      pure (if n.ty == .unit then code else code ++ [.pop])
    | kind => .error (.unfit ("expected a statement, found " ++ kind.text))

/-- A field or a parameter as a listing writes it. -/
def memberOf (m : Module) (descriptors : Descriptor.Table) (id : NodeId) : Except Stop Member := do
  let d ← descriptorOf descriptors id (← nodeOf m id)
  pure ⟨d.name, descriptors.tyText d.ty⟩

/-- Whether the last statement of a block returns. -/
def endsInReturn (m : Module) (block : Module.Node) : Except Stop Bool :=
  match block.children.getLast? with
  | none => .ok false
  | some last => do pure ((← nodeOf m last).kind == .ret)

/-- The code of a function's body, which ends in a return. -/
def bodyCode (m : Module) (descriptors : Descriptor.Table) (body : NodeId) :
    Except Stop (List Instruction) := do
  let code ← stmtCode m descriptors (m.size + 1) body
  let returns ← endsInReturn m (← nodeOf m body)
  pure (if returns then code else code ++ [.ret])

/-- The listing of an item of a file. -/
def itemOf (m : Module) (descriptors : Descriptor.Table) (id : NodeId) : Except Stop Item := do
  let n ← nodeOf m id
  match n.kind with
  | .cls name => do pure (.cls name (← n.children.mapM (memberOf m descriptors)))
  | .function name =>
    match n.children.getLast? with
    | none => .error (.unfit ("function " ++ name ++ " has no body"))
    | some body => do
      let params ← n.children.dropLast.mapM (memberOf m descriptors)
      let result := if n.ty == .unit then none else some (descriptors.tyText n.ty)
      pure (.function name params result (← bodyCode m descriptors body))
  | kind => .error (.unfit ("unexpected " ++ kind.text ++ " in file"))

/-- The listing of the items of a file. -/
def fileItems (m : Module) (descriptors : Descriptor.Table) (file : NodeId) :
    Except Stop (List Item) := do
  (← nodeOf m file).children.mapM (itemOf m descriptors)

/-- The listing of a module. -/
def ofModule (m : Module) (descriptors : Descriptor.Table) : Except Stop Listing := do
  let unit ← m.name.mapError .outOfRange
  let items ← (← nodeOf m m.root).children.mapM (fileItems m descriptors)
  pure ⟨unit, items.flatten⟩

end Listing

end StagedCompiler
