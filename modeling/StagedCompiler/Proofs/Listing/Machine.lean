import StagedCompiler.Proofs.Listing.Emission
import StagedCompiler.Proofs.Module.Meaning

/-!
# The stack machine

What the instructions of a listing do.  The machine has a stack of values and a memory that is read
and written by name.  A call takes its arguments off the stack, the last one first, and puts exactly
one result there; the surroundings answer it, and the run records it by the name of what is called.
A return stops the machine.  An operation without a result, an instruction that finds too little on
the stack and a load of a name that nothing was stored under are traps.

The surroundings of a machine answer the requests of a module as well, once the requests are put in
terms of names (`Surroundings.oracle`).
-/

namespace StagedCompiler.Machine

/-- What running code asks of its surroundings. -/
inductive Action : Type where
  | call (callee : String) (arguments : List Datum)
  | read (owner field : String) (receiver : Datum)

/-- What the surroundings answer to an action, given the actions before it. -/
abbrev Surroundings : Type := List Action → Action → Datum

/-- The values by name. -/
abbrev Memory : Type := String → Option Datum

/-- The memory with one more value; a value under the same name is overwritten. -/
def Memory.store (memory : Memory) (name : String) (v : Datum) : Memory :=
  fun other => if other = name then some v else memory other

/-- The memory with one more value for each name. -/
def Memory.storeAll (memory : Memory) : List String → List Datum → Memory
  | name :: names, v :: vs => (memory.store name v).storeAll names vs
  | _, _ => memory

structure State : Type where
  stack : List Datum
  memory : Memory

/-- Why a machine can not go on. -/
inductive Trap : Type where
  | failed (why : Failure)
  | underflow
  | unset (name : String)

/-- How a machine stops: at a return, or behind the last instruction. -/
inductive Halt : Type where
  | returned (stack : List Datum)
  | ranOff (state : State)

/-- Make a request and put the answer on the stack. -/
def perform (answers : Surroundings) (action : Action) (below : List Datum) (memory : Memory)
    (trace : List Action) : Except Trap State × List Action :=
  (.ok ⟨answers trace action :: below, memory⟩, trace ++ [action])

/-- Execute one instruction.  A return changes nothing; what stops is the run. -/
def step (answers : Surroundings) (state : State) (trace : List Action) :
    Instruction → Except Trap State × List Action
  | .push value => (.ok { state with stack := .constant value :: state.stack }, trace)
  | .load name =>
    match state.memory name with
    | some v => (.ok { state with stack := v :: state.stack }, trace)
    | none => (.error (.unset name), trace)
  | .store name =>
    match state.stack with
    | v :: below => (.ok ⟨below, state.memory.store name v⟩, trace)
    | [] => (.error .underflow, trace)
  | .call name n =>
    if n ≤ state.stack.length then
      perform answers (.call name (state.stack.take n).reverse) (state.stack.drop n) state.memory
        trace
    else (.error .underflow, trace)
  | .getField owner name =>
    match state.stack with
    | v :: below => perform answers (.read owner name v) below state.memory trace
    | [] => (.error .underflow, trace)
  | .operate op =>
    match state.stack with
    | b :: a :: below =>
      match op.apply a b with
      | .ok v => (.ok ⟨v :: below, state.memory⟩, trace)
      | .error why => (.error (.failed why), trace)
    | _ => (.error .underflow, trace)
  | .pop =>
    match state.stack with
    | _ :: below => (.ok ⟨below, state.memory⟩, trace)
    | [] => (.error .underflow, trace)
  | .ret => (.ok state, trace)

/-- Execute instructions one after another, up to a return. -/
def exec (answers : Surroundings) :
    List Instruction → State → List Action → Except Trap Halt × List Action
  | [], state, trace => (.ok (.ranOff state), trace)
  | .ret :: _, state, trace => (.ok (.returned state.stack), trace)
  | i :: rest, state, trace =>
    match step answers state trace i with
    | (.ok state, trace) => exec answers rest state trace
    | (.error trap, trace) => (.error trap, trace)

/-- Run the code of a function: its parameters have their values and the stack is empty. -/
def run (answers : Surroundings) (code : List Instruction) (params : List String)
    (args : List Datum) : Except Trap Halt × List Action :=
  exec answers code ⟨[], Memory.storeAll (fun _ => none) params args⟩ []

/-- A request in terms of names. -/
def Action.ofRequest (D : Descriptor.Table) : Request → Action
  | .call callee args => .call (Listing.label D (some callee)) args
  | .read field receiver =>
    .read (Listing.ownerLabel D (some field)) (Listing.label D (some field)) receiver

/-- The answers of the surroundings to requests. -/
def Surroundings.oracle (answers : Surroundings) (D : Descriptor.Table) : Oracle :=
  fun before request => answers (before.map (.ofRequest D)) (.ofRequest D request)

end StagedCompiler.Machine

namespace StagedCompiler

/-- The environment with one more value for each descriptor. -/
def Env.setAll (env : Env) : List DescriptorId → List Datum → Env
  | d :: ds, v :: vs => (env.set d v).setAll ds vs
  | _, _ => env

/-- The descriptors of a function's parameters. -/
def Module.parameters (m : Module) (function : NodeId) : List DescriptorId :=
  (m.childrenOf function).dropLast.filterMap fun c => (m.get? c).bind (·.descriptor)

end StagedCompiler
