import StagedCompiler.Proofs.Module.Meaning
import StagedCompiler.Proofs.Module.Verification

/-!
# Running a whole module

A run of a module in which calls are carried out and not left to the surroundings: a call of a function
runs its body, a call of a class builds an instance from the arguments, and the functions of the host
give nothing back.  One unit of fuel is used for each call inside another one.

A run stops without a value where it cannot go on (`Stop`), and it looks before each step: a local has
to be set, a callee has to be known and given as many arguments as it has parameters, and operands and
arguments of the host have to be of the right type.  Every value of an expression is noted down with
the node of the expression (`Observation`).
-/

namespace StagedCompiler

/-- The type of a constant. -/
def Constant.ty : Constant → Ty
  | .int _ => .int
  | .bool _ => .bool
  | .str _ => .str
  | .unit => .unit

/-- The type that a value shows at run time. -/
def Datum.ty : Datum → Ty
  | .constant c => c.ty
  | .object cls _ => .cls cls

/-- Why a run stops without a value. -/
inductive Stop : Type where
  | outOfFuel
  | failed (failure : Failure)
  | fellOff (function : DescriptorId)
  | unset (place : DescriptorId)
  | arity (callee : DescriptorId)
  | unknown (callee : DescriptorId)
  deriving DecidableEq, Repr

/-- An expression of a module and a value that it had. -/
structure Observation : Type where
  expr : Module.Outline
  value : Datum

/-- A computation that may stop and that notes down the values of expressions. -/
abbrev Execution : Type → Type := ExceptT Stop (StateM (List Observation))

/-- A result without observations as a computation. -/
def Execution.ofExcept {α : Type} (x : Except Stop α) : Execution α := ExceptT.mk (pure x)

/-- The locals and parameters that are set, by descriptor. -/
abbrev Locals : Type := DescriptorId → Option Datum

namespace Locals

/-- No locals. -/
def empty : Locals := fun _ => none

/-- The locals with one more value. -/
def set (locals : Locals) (d : DescriptorId) (v : Datum) : Locals :=
  fun e => if e = d then some v else locals e

end Locals

/-- The result of an operation.  Equality is only asked of values of one type. -/
def Operator.operate (op : Operator) (a b : Datum) : Except Stop Datum :=
  if op = .eq ∧ a.ty ≠ b.ty then .error (.failed .operands)
  else (op.apply a b).mapError .failed

/-- Where control goes behind a statement: to the next one, or out of the function with a value. -/
inductive Control : Type where
  | next (locals : Locals)
  | returned (value : Datum)

namespace Module.Outline

/-- The descriptor of the topmost node. -/
def descriptor : Outline → Option DescriptorId
  | .node _ descriptor _ _ => descriptor

/-- Note down the value of an expression. -/
def observe (o : Outline) (v : Datum) : Execution Datum := do
  modify (· ++ [⟨o, v⟩])
  pure v

mutual

/-- The value of an expression; `call` says what a call gives. -/
def valueOf (call : DescriptorId → List Datum → Execution Datum) (locals : Locals) :
    Outline → Execution Datum
  | o@(.node (.constant c) _ _ _) => o.observe (.constant c)
  | o@(.node .localRef (some d) _ _) =>
    match locals d with
    | some v => o.observe v
    | none => throw (.unset d)
  | o@(.node .call (some d) _ args) => do
    let values ← valuesOf call locals args
    let v ← call d values
    o.observe v
  | o@(.node (.binary op) _ _ [l, r]) => do
    let a ← valueOf call locals l
    let b ← valueOf call locals r
    let v ← .ofExcept (op.operate a b)
    o.observe v
  | _ => throw (.failed .malformed)

/-- The values of expressions, from left to right. -/
def valuesOf (call : DescriptorId → List Datum → Execution Datum) (locals : Locals) :
    List Outline → Execution (List Datum)
  | [] => pure []
  | e :: rest => do
    let v ← valueOf call locals e
    let vs ← valuesOf call locals rest
    pure (v :: vs)

end

mutual

/-- Perform a statement. -/
def perform (call : DescriptorId → List Datum → Execution Datum) (locals : Locals) :
    Outline → Execution Control
  | .node (.letBind _) (some d) _ [e] => do
    let v ← e.valueOf call locals
    pure (.next (locals.set d v))
  | .node .eval _ _ [e] => do
    let _ ← e.valueOf call locals
    pure (.next locals)
  | .node .ret _ _ [] => pure (.returned .unit)
  | .node .ret _ _ [e] => do
    let v ← e.valueOf call locals
    pure (.returned v)
  | .node .block _ _ stmts => performAll call locals stmts
  | _ => throw (.failed .malformed)

/-- Perform statements one after another, up to a return. -/
def performAll (call : DescriptorId → List Datum → Execution Datum) (locals : Locals) :
    List Outline → Execution Control
  | [] => pure (.next locals)
  | s :: rest => do
    match ← perform call locals s with
    | .next locals => performAll call locals rest
    | .returned v => pure (.returned v)

end

/-- The locals at the start of a function: its parameters with the arguments. -/
def parameters : List Outline → List Datum → Locals
  | p :: ps, v :: vs =>
    match p.descriptor with
    | some d => (parameters ps vs).set d v
    | none => parameters ps vs
  | _, _ => .empty

/-- Run a function.  A function that gives nothing may end without a return. -/
def enter (call : DescriptorId → List Datum → Execution Datum) (arguments : List Datum) :
    Outline → Execution Datum
  | .node (.function _) (some d) ty parts =>
    match parts.getLast? with
    | some body => do
      match ← perform call (parameters parts.dropLast arguments) body with
      | .returned v => pure v
      | .next _ => if ty = .unit then pure .unit else throw (.fellOff d)
    | none => throw (.failed .malformed)
  | _ => throw (.failed .malformed)

/-- The function of a module that a descriptor stands for. -/
def function? (o : Outline) (d : DescriptorId) : Option Outline :=
  (o.children.flatMap children).find? fun f => f.kind.isFunction && f.descriptor == some d

/-- Call a function of the host. -/
def callHost (d : Descriptor) (arguments : List Datum) : Execution Datum :=
  if arguments.map Datum.ty = d.params.map (·.ty) then pure .unit
  else throw (.failed .operands)

/-- Call what a descriptor stands for. -/
def invoke (program : Outline) (descriptors : Descriptor.Table) :
    Nat → DescriptorId → List Datum → Execution Datum
  | 0, _, _ => throw .outOfFuel
  | fuel + 1, callee, arguments =>
    match descriptors.get? callee with
    | none => throw (.unknown callee)
    | some d =>
      if arguments.length ≠ d.params.length then throw (.arity callee)
      else
        match d.kind, program.function? callee with
        | .cls, _ => pure (.object callee arguments)
        | .function, some f => f.enter (invoke program descriptors fuel) arguments
        | .function, none =>
          if d.origin = .builtin then callHost d arguments else throw (.unknown callee)
        | _, _ => throw (.unknown callee)

end Module.Outline

/-- How a call ends in a module, and which values expressions had on the way. -/
def Module.invoke (m : Module) (descriptors : Descriptor.Table) (fuel : Nat)
    (callee : DescriptorId) (arguments : List Datum) : Except Stop Datum × List Observation :=
  match m.outline? m.root with
  | some o => (o.invoke descriptors fuel callee arguments).run.run []
  | none => (.error (.failed .malformed), [])

end StagedCompiler
