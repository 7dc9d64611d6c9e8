import StagedCompiler.Proofs.Module.Numbered

/-!
# What functions of a module compute

A big-step semantics of the functions of a module.  Operands are evaluated from left to right and
arithmetic is that of 64-bit integers: an operation without a result fails.  What a function calls
and which fields it reads is up to its surroundings, so `call` and `fieldGet` become requests that an
`Oracle` answers; the run records them.  A return ends the function, also from a nested block.

The semantics follows the outline below a node, and `Module.run` reads that outline off the arena.
-/

namespace StagedCompiler

/-- A value at run time: a constant, or an instance of a class with the values of its fields. -/
inductive Datum : Type where
  | constant (c : Constant)
  | object (cls : DescriptorId) (fields : List Datum)
  deriving Repr, Inhabited

namespace Datum

mutual

/-- Whether two values are built alike. -/
def same : Datum → Datum → Bool
  | .constant a, .constant b => a == b
  | .object c fs, .object c' fs' => c == c' && sameAll fs fs'
  | _, _ => false

/-- Whether the values of two lists are built alike, place by place. -/
def sameAll : List Datum → List Datum → Bool
  | [], [] => true
  | a :: as, b :: bs => same a b && sameAll as bs
  | _, _ => false

end

mutual

theorem same_eq_true_iff : ∀ a b : Datum, same a b = true ↔ a = b
  | .constant a, .constant b => by simp [same]
  | .object c fs, .object c' fs' => by simp [same, sameAll_eq_true_iff fs fs']
  | .constant _, .object _ _ | .object _ _, .constant _ => by simp [same]

theorem sameAll_eq_true_iff : ∀ as bs : List Datum, sameAll as bs = true ↔ as = bs
  | [], [] => by simp [sameAll]
  | a :: as, b :: bs => by
      simp [sameAll, same_eq_true_iff a b, sameAll_eq_true_iff as bs]
  | [], _ :: _ | _ :: _, [] => by simp [sameAll]

end

/-- Equality of values is structural. -/
instance : DecidableEq Datum := fun a b => decidable_of_iff _ (same_eq_true_iff a b)

/-- A 64-bit integer as a value. -/
def int (n : Int64) : Datum := .constant (.int n)

/-- A truth value. -/
def bool (b : Bool) : Datum := .constant (.bool b)

/-- The value without content. -/
def unit : Datum := .constant .unit

end Datum

/-- Why a run fails: an operation has no 64-bit result or divides by zero, its operands are no
integers, or a node is not what its place asks for. -/
inductive Failure : Type where
  | overflow
  | divisionByZero
  | operands
  | malformed
  deriving DecidableEq, Repr

/-- What a running function asks of its surroundings. -/
inductive Request : Type where
  | call (callee : DescriptorId) (arguments : List Datum)
  | read (field : DescriptorId) (receiver : Datum)

/-- What the surroundings answer to a request, given the requests before it. -/
abbrev Oracle : Type := List Request → Request → Datum

/-- The values of the locals and parameters, by descriptor. -/
abbrev Env : Type := DescriptorId → Datum

/-- The environment with one more value. -/
def Env.set (env : Env) (d : DescriptorId) (v : Datum) : Env :=
  fun e => if e = d then v else env e

/-- A computation that may fail and that records its requests. -/
abbrev Run : Type → Type := ExceptT Failure (StateM (List Request))

/-- A result without requests as a computation. -/
def Run.ofExcept {α : Type} (x : Except Failure α) : Run α := ExceptT.mk (pure x)

/-- The value of an exact result, if it is a 64-bit integer. -/
def exactly (n : Int) : Except Failure Datum :=
  if -9223372036854775808 ≤ n ∧ n ≤ 9223372036854775807 then .ok (.int (Int64.ofInt n))
  else .error .overflow

/-- The result of an operation.  Division goes toward zero; equality takes any operands. -/
def Operator.apply : Operator → Datum → Datum → Except Failure Datum
  | .eq, a, b => .ok (.bool (decide (a = b)))
  | .lt, .constant (.int a), .constant (.int b) => .ok (.bool (decide (a.toInt < b.toInt)))
  | .add, .constant (.int a), .constant (.int b) => exactly (a.toInt + b.toInt)
  | .sub, .constant (.int a), .constant (.int b) => exactly (a.toInt - b.toInt)
  | .mul, .constant (.int a), .constant (.int b) => exactly (a.toInt * b.toInt)
  | .div, .constant (.int a), .constant (.int b) =>
    if b.toInt = 0 then .error .divisionByZero else exactly (a.toInt.tdiv b.toInt)
  | _, _, _ => .error .operands

/-- Make a request and record it. -/
def ask (oracle : Oracle) (request : Request) : Run Datum := do
  let before ← get
  set (before ++ [request])
  pure (oracle before request)

/-- How control leaves a statement: to the next one, or out of the function. -/
inductive Flow : Type where
  | next (env : Env)
  | returned (value : Option Datum)

/-- How a function ends that does not fail. -/
inductive Ending : Type where
  | returned (value : Option Datum)
  | fellOff
  deriving DecidableEq, Repr

namespace Module.Outline

mutual

/-- The value of an expression. -/
def evaluate (oracle : Oracle) (env : Env) : Outline → Run Datum
  | .node (.constant c) _ _ _ => pure (.constant c)
  | .node .localRef (some d) _ _ => pure (env d)
  | .node .call (some d) _ args => do
    let values ← evaluateAll oracle env args
    ask oracle (.call d values)
  | .node .fieldGet (some d) _ [e] => do
    let receiver ← evaluate oracle env e
    ask oracle (.read d receiver)
  | .node (.binary op) _ _ [l, r] => do
    let a ← evaluate oracle env l
    let b ← evaluate oracle env r
    .ofExcept (op.apply a b)
  | _ => throw .malformed

/-- The values of expressions, from left to right. -/
def evaluateAll (oracle : Oracle) (env : Env) : List Outline → Run (List Datum)
  | [] => pure []
  | e :: rest => do
    let v ← evaluate oracle env e
    let vs ← evaluateAll oracle env rest
    pure (v :: vs)

end

mutual

/-- Execute a statement. -/
def execute (oracle : Oracle) (env : Env) : Outline → Run Flow
  | .node (.letBind _) (some d) _ [e] => do
    let v ← evaluate oracle env e
    pure (.next (env.set d v))
  | .node .eval _ _ [e] => do
    let _ ← evaluate oracle env e
    pure (.next env)
  | .node .ret _ _ [] => pure (.returned none)
  | .node .ret _ _ [e] => do
    let v ← evaluate oracle env e
    pure (.returned (some v))
  | .node .block _ _ stmts => executeAll oracle env stmts
  | _ => throw .malformed

/-- Execute statements one after another, up to a return. -/
def executeAll (oracle : Oracle) (env : Env) : List Outline → Run Flow
  | [] => pure (.next env)
  | s :: rest => do
    match ← execute oracle env s with
    | .next env => executeAll oracle env rest
    | .returned v => pure (.returned v)

end

/-- Run a function: execute its body, which is its last part. -/
def runFunction (oracle : Oracle) (env : Env) : Outline → Run Ending
  | .node (.function _) _ _ parts =>
    match parts.getLast? with
    | some body => do
      match ← execute oracle env body with
      | .next _ => pure .fellOff
      | .returned v => pure (.returned v)
    | none => throw .malformed
  | _ => throw .malformed

end Module.Outline

/-- The end of a function and the requests that it makes, if the arena has the function. -/
def Module.run (m : Module) (function : NodeId) (oracle : Oracle) (env : Env) :
    Option (Except Failure Ending × List Request) :=
  (m.outline? function).map fun o => (o.runFunction oracle env).run.run []

end StagedCompiler
