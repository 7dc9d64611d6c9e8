import StagedCompiler.Extension.Basic
import StagedCompiler.Word

/-!
# Host passes

The lowering passes that the host runs for each target.  Each goes over the nodes of a module in a
fixed order and changes them one by one.

* `foldConstants` evaluates operations on constants, operands first.  An operation that has no 64-bit
  result stays as it is.
* `eliminateDeadCode` removes from every block the statements behind a return and those that evaluate
  a constant or a local.
* `flattenBlocks` puts the statements of a nested block in its place, inner blocks first.
-/

namespace StagedCompiler

namespace Operator

/-- The result of an operation on 64-bit integers, if there is one.  Division goes toward zero. -/
def evaluate? (op : Operator) (a b : Int64) : Option Constant :=
  match op with
  | .add => (word? (a.toInt + b.toInt)).map .int
  | .sub => (word? (a.toInt - b.toInt)).map .int
  | .mul => (word? (a.toInt * b.toInt)).map .int
  | .div => if b.toInt = 0 then none else (word? (a.toInt.tdiv b.toInt)).map .int
  | .eq => some (.bool (a == b))
  | .lt => some (.bool (a.toInt < b.toInt))

end Operator

namespace Lowering

open StagedCompiler.Module

/-- The value of an operation on constants.  All constants can be compared for equality; the other
operations take integers. -/
def fold? (op : Operator) (lhs rhs : Constant) : Option Constant :=
  if op = .eq then some (.bool (lhs == rhs))
  else match lhs, rhs with
    | .int a, .int b => op.evaluate? a b
    | _, _ => none

/-- Change a module place by place.  A number that is out of range ends the sweep; what was changed
before stays changed. -/
def sweep {α : Type} (step : Module → α → Except OutOfRange Module) :
    List α → Module → Extension.PassResult
  | [], m => { module := m }
  | a :: rest, m =>
    match step m a with
    | .ok m => sweep step rest m
    | .error e => { module := m, stop := some (.panicked ⟨e.message⟩) }

/-- The constant that a node is. -/
def constant? (n : Node) : Option Constant :=
  match n.kind with
  | .constant c => some c
  | _ => none

/-- The operator and the operands of a binary operation. -/
def operation? (n : Node) : Option (Operator × NodeId × NodeId) :=
  match n.kind, n.children with
  | .binary op, [lhs, rhs] => some (op, lhs, rhs)
  | _, _ => none

/-- Replace an operation on constants by its value. -/
def foldNode (m : Module) (id : NodeId) : Except OutOfRange Module := do
  match operation? (← m.node id) with
  | none => pure m
  | some (op, lhs, rhs) =>
    let l ← m.node lhs
    let r ← m.node rhs
    match constant? l, constant? r with
    | some a, some b =>
      match fold? op a b with
      | some value => m.reshape id (.constant value) []
      | none => pure m
    | _, _ => pure m

/-- Evaluate operations on constants. -/
def foldConstants : Extension.Pass where
  name := "fold-constants"
  description := "Evaluate binary operations on constant operands"
  idempotent := true
  run _ m := sweep foldNode m.postorder m

/-- Whether a statement evaluates a constant or a local. -/
def isPureEval (m : Module) (n : Node) : Except OutOfRange Bool :=
  match n.kind, n.children with
  | .eval, e :: _ => do
    match (← m.node e).kind with
    | .constant _ | .localRef => pure true
    | _ => pure false
  | _, _ => pure false

/-- The statements of a block that are kept: up to the first return, without pure evaluations. -/
def keptStatements (m : Module) : List NodeId → Except OutOfRange (List NodeId)
  | [] => pure []
  | id :: rest => do
    let n ← m.node id
    if ← isPureEval m n then keptStatements m rest
    else if n.kind == .ret then pure [id]
    else do pure (id :: (← keptStatements m rest))

/-- Remove the dead statements of a block. -/
def pruneNode (m : Module) (id : NodeId) : Except OutOfRange Module := do
  let n ← m.node id
  if n.kind == .block then m.setChildren id (← keptStatements m n.children) else pure m

/-- Remove statements that cannot be reached or have no effect. -/
def eliminateDeadCode : Extension.Pass where
  name := "eliminate-dead-code"
  description := "Remove unreachable statements and unused pure evaluations"
  idempotent := true
  run _ m := sweep pruneNode m.preorder m

/-- The statements of a block, with those of nested blocks in the places of the blocks. -/
def splicedStatements (m : Module) : List NodeId → Except OutOfRange (List NodeId)
  | [] => pure []
  | id :: rest => do
    let n ← m.node id
    let front := if n.kind == .block then n.children else [id]
    pure (front ++ (← splicedStatements m rest))

/-- Put the statements of nested blocks in the places of the blocks. -/
def flattenNode (m : Module) (id : NodeId) : Except OutOfRange Module := do
  let n ← m.node id
  if n.kind == .block then m.setChildren id (← splicedStatements m n.children) else pure m

/-- Flatten nested blocks. -/
def flattenBlocks : Extension.Pass where
  name := "flatten-blocks"
  description := "Inline nested blocks into their parent block"
  idempotent := true
  run _ m := sweep flattenNode m.postorder m

/-- The host passes for a target, in order. -/
def hostPasses : Target → List Extension.Pass
  | .native => [foldConstants, eliminateDeadCode, flattenBlocks]
  | .bundle => [foldConstants]

end Lowering

end StagedCompiler
