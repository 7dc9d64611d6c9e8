import StagedCompiler.Analysis.Resolution
import StagedCompiler.Proofs.Module.Execution
import StagedCompiler.Proofs.Typing.Judgement

/-!
# Typed modules do not go wrong

Values have types (`Datum.HasTy`), and so have the expressions and statements of a module: the typing
rules here are those of a module whose types are all known, with the signatures in a table of
descriptors.  `EndsWell` lists how a run may end: with a value, out of fuel, in an operation without
result, or behind the last statement of a function that should have returned something.

One lemma for each rule says that what is typed is performed safely (`valueOf_safe`, `perform_safe`),
provided that calls are; the induction on the fuel then carries this through calls
(`TypedProgram.invoke_safe`).
-/

namespace StagedCompiler

open Source (Item Typed)
open Typing (Signature SignatureOf)

variable {α : Type} {items : List (Item α)}

/-! ## Values -/

mutual

/-- A value has a type.  An instance of the class with number `i` has values of the types of its
fields. -/
inductive Datum.HasTy (items : List (Item α)) : Datum → Ty → Prop
  | constant {c : Constant} : HasTy items (.constant c) c.ty
  | object {i : DescriptorId} {site : α} {name : String} {fields : List (Typed α)} {tys : List Ty}
      {values : List Datum} :
    items[i]? = some (.cls site name fields) →
    SignatureOf items i (.cls site name fields) ⟨tys, .cls i⟩ → HaveTys items values tys →
    HasTy items (.object i values) (.cls i)

/-- Values have types one by one. -/
inductive Datum.HaveTys (items : List (Item α)) : List Datum → List Ty → Prop
  | nil : HaveTys items [] []
  | cons {v : Datum} {vs : List Datum} {ty : Ty} {tys : List Ty} : HasTy items v ty →
    HaveTys items vs tys → HaveTys items (v :: vs) (ty :: tys)

end

namespace Datum

/-- A value shows its type at run time. -/
theorem HasTy.ty_eq {v : Datum} {ty : Ty} (typed : HasTy items v ty) : v.ty = ty := by
  cases typed with
  | constant => rfl
  | object _ _ _ => rfl

/-- Values of given types have these types. -/
theorem HaveTys.map_ty {vs : List Datum} {tys : List Ty} (typed : HaveTys items vs tys) :
    vs.map Datum.ty = tys := by
  induction vs generalizing tys with
  | nil =>
      cases typed
      rfl
  | cons v vs ih =>
      cases typed with
      | cons first rest => rw [List.map_cons, first.ty_eq, ih rest]

theorem HaveTys.length_eq {vs : List Datum} {tys : List Ty} (typed : HaveTys items vs tys) :
    vs.length = tys.length := by
  rw [← typed.map_ty, List.length_map]

theorem HasTy.int_inv {v : Datum} (typed : HasTy items v .int) : ∃ n, v = .constant (.int n) := by
  have shown := typed.ty_eq
  cases v with
  | constant c =>
      cases c with
      | int n => exact ⟨n, rfl⟩
      | bool _ | str _ | unit => cases shown
  | object i values => cases shown

end Datum

/-! ## Ends of runs -/

/-- How a run may end: with a good result, out of fuel, in an operation without result, or behind the
last statement of a function whose declared result is not unit. -/
inductive EndsWell (items : List (Item α)) {β : Type} (good : β → Prop) : Except Stop β → Prop
  | value {b : β} : good b → EndsWell items good (.ok b)
  | outOfFuel : EndsWell items good (.error .outOfFuel)
  | overflow : EndsWell items good (.error (.failed .overflow))
  | divisionByZero : EndsWell items good (.error (.failed .divisionByZero))
  | fellOff {i : DescriptorId} {item : Item α} {sig : Signature} : items[i]? = some item →
    SignatureOf items i item sig → sig.result ≠ .unit → EndsWell items good (.error (.fellOff i))

/-- The value is of the type that is recorded for the expression. -/
def Observation.Typed (items : List (Item α)) (s : Observation) : Prop :=
  s.value.HasTy items s.expr.ty

/-- A computation that ends well and that sees only values of the right types, whatever was seen
before. -/
def Safe (items : List (Item α)) {β : Type} (x : Execution β) (good : β → Prop) : Prop :=
  ∀ seen, (∀ s ∈ seen, Observation.Typed items s) →
    EndsWell items good (x.run.run seen).1 ∧ ∀ s ∈ (x.run.run seen).2, Observation.Typed items s

section Safe

variable {β γ : Type} {good : β → Prop} {fine : γ → Prop}

/-- What ends well without looking at the rest of the run is safe. -/
theorem safe_ofExcept {x : Except Stop β} (ends : EndsWell items good x) :
    Safe items (.ofExcept x) good :=
  fun _ typed => ⟨ends, typed⟩

theorem safe_pure {b : β} (is : good b) : Safe items (pure b) good := safe_ofExcept (.value is)

theorem safe_throw {stop : Stop} (ends : EndsWell items good (.error stop)) :
    Safe items (throw stop) good :=
  safe_ofExcept ends

/-- A safe run that goes on safely from every good value is safe. -/
theorem Safe.bind {x : Execution β} {f : β → Execution γ} (safe : Safe items x good)
    (next : ∀ b, good b → Safe items (f b) fine) : Safe items (x >>= f) fine := by
  intro seen typed
  obtain ⟨ends, typed'⟩ := safe seen typed
  have step : (x >>= f).run.run seen = match x.run.run seen with
      | (.ok b, seen') => (f b).run.run seen'
      | (.error stop, seen') => (.error stop, seen') := by
    simp only [ExceptT.run_bind, StateT.run_bind]
    rcases x.run.run seen with ⟨_ | _, _⟩ <;> rfl
  rw [step]
  rcases ran : x.run.run seen with ⟨result, seen'⟩
  rw [ran] at ends typed'
  cases ends with
  | value is => exact next _ is seen' typed'
  | outOfFuel => exact ⟨.outOfFuel, typed'⟩
  | overflow => exact ⟨.overflow, typed'⟩
  | divisionByZero => exact ⟨.divisionByZero, typed'⟩
  | fellOff there signed notUnit => exact ⟨.fellOff there signed notUnit, typed'⟩

/-- To note a value of the node's type is safe. -/
theorem observe_safe {o : Module.Outline} {v : Datum} (typed : v.HasTy items o.ty) :
    Safe items (o.observe v) (Datum.HasTy items · o.ty) := by
  intro seen before
  refine ⟨.value typed, ?_⟩
  show ∀ s ∈ seen ++ [⟨o, v⟩], _
  rw [List.forall_mem_append, List.forall_mem_singleton]
  exact ⟨before, typed⟩

end Safe

/-! ## Operations -/

/-- What an operator takes: equality two values of one type, the others integers. -/
inductive Operands : Operator → Ty → Ty → Prop
  | eq {ty : Ty} : Operands .eq ty ty
  | int {op : Operator} : op ≠ .eq → Operands op .int .int

/-- An integer is a word or the operation overflows, which is how it may end. -/
theorem exactly_endsWell (n : Int) :
    EndsWell items (Datum.HasTy items · .int) ((exactly n).mapError .failed) := by
  unfold exactly
  split
  · exact .value .constant
  · exact .overflow

/-- An operator ends well on operands that it takes, by cases on the operator. -/
theorem operate_endsWell {op : Operator} {l r : Ty} {a b : Datum} (operands : Operands op l r)
    (left : a.HasTy items l) (right : b.HasTy items r) :
    EndsWell items (Datum.HasTy items · (Resolution.operatorTy op)) (op.operate a b) := by
  cases operands with
  | eq =>
      have alike : ¬ (Operator.eq = .eq ∧ a.ty ≠ b.ty) := by simp [left.ty_eq, right.ty_eq]
      rw [Operator.operate, if_neg alike]
      exact .value .constant
  | int other =>
      obtain ⟨n, rfl⟩ := left.int_inv
      obtain ⟨k, rfl⟩ := right.int_inv
      rw [Operator.operate, if_neg fun is => other is.1]
      cases op with
      | eq => exact absurd rfl other
      | lt => exact .value .constant
      | add => exact exactly_endsWell _
      | sub => exact exactly_endsWell _
      | mul => exact exactly_endsWell _
      | div =>
          have applied : Operator.div.apply (.constant (.int n)) (.constant (.int k)) =
              if k.toInt = 0 then .error .divisionByZero else exactly (n.toInt.tdiv k.toInt) := rfl
          rw [applied]
          split
          · exact .divisionByZero
          · exact exactly_endsWell _

/-! ## Typed modules -/

namespace Module

open Outline (descriptor)

/-- What a descriptor stands for in a call: a class, a function of the module, or one of the host. -/
inductive Callee (items : List (Item α)) (program : Outline) (i : DescriptorId) (d : Descriptor) : Prop
  | cls {site : α} {name : String} {fields : List (Typed α)} : d.kind = .cls →
    items[i]? = some (.cls site name fields) → d.ty = .cls i →
    SignatureOf items i (.cls site name fields) ⟨d.params.map (·.ty), .cls i⟩ →
    Callee items program i d
  | function {f : Outline} : d.kind = .function → program.function? i = some f →
    Callee items program i d
  | host : d.kind = .function → program.function? i = none → d.origin = .builtin → d.ty = .unit →
    Callee items program i d

mutual

/-- An expression is typed where the given locals are set. -/
inductive ExprTyped (items : List (Item α)) (D : Descriptor.Table) (program : Outline)
    (known : List DescriptorId) : Outline → Prop
  | constant {c : Constant} : ExprTyped items D program known (.node (.constant c) none c.ty [])
  | localRef {i : DescriptorId} {d : Descriptor} : i ∈ known → D.get? i = some d →
    ExprTyped items D program known (.node .localRef (some i) d.ty [])
  | call {i : DescriptorId} {d : Descriptor} {args : List Outline} : D.get? i = some d →
    Callee items program i d → ExprsTyped items D program known args (d.params.map (·.ty)) →
    ExprTyped items D program known (.node .call (some i) d.ty args)
  | binary {op : Operator} {l r : Outline} : ExprTyped items D program known l →
    ExprTyped items D program known r → Operands op l.ty r.ty →
    ExprTyped items D program known (.node (.binary op) none (Resolution.operatorTy op) [l, r])

/-- Expressions are typed one by one. -/
inductive ExprsTyped (items : List (Item α)) (D : Descriptor.Table) (program : Outline)
    (known : List DescriptorId) : List Outline → List Ty → Prop
  | nil : ExprsTyped items D program known [] []
  | cons {o : Outline} {os : List Outline} {tys : List Ty} : ExprTyped items D program known o →
    ExprsTyped items D program known os tys → ExprsTyped items D program known (o :: os) (o.ty :: tys)

end

/-- A statement of a function with the given result, and the locals that are set behind it. -/
inductive StmtTyped (items : List (Item α)) (D : Descriptor.Table) (program : Outline) (result : Ty)
    (known : List DescriptorId) : Outline → List DescriptorId → Prop
  | letBind {name : String} {i : DescriptorId} {d : Descriptor} {ty : Ty} {o : Outline} :
    ExprTyped items D program known o → D.get? i = some d → d.ty = o.ty →
    StmtTyped items D program result known (.node (.letBind name) (some i) ty [o]) (i :: known)
  | leave : result = .unit →
    StmtTyped items D program result known (.node .ret none .unit []) known
  | ret {o : Outline} : ExprTyped items D program known o → o.ty = result →
    StmtTyped items D program result known (.node .ret none .unit [o]) known
  | eval {ty : Ty} {o : Outline} : ExprTyped items D program known o →
    StmtTyped items D program result known (.node .eval none ty [o]) known

/-- Statements one after another. -/
inductive StmtsTyped (items : List (Item α)) (D : Descriptor.Table) (program : Outline) (result : Ty) :
    List DescriptorId → List Outline → Prop
  | nil {known : List DescriptorId} : StmtsTyped items D program result known []
  | cons {known next : List DescriptorId} {o : Outline} {os : List Outline} :
    StmtTyped items D program result known o next → StmtsTyped items D program result next os →
    StmtsTyped items D program result known (o :: os)

/-- A parameter has a descriptor of a type. -/
def ParamTyped (D : Descriptor.Table) (o : Outline) (ty : Ty) : Prop :=
  ∃ j e, o.descriptor = some j ∧ D.get? j = some e ∧ e.ty = ty

/-- A function of a module is typed: its body is, where its parameters are set. -/
inductive FunctionTyped (items : List (Item α)) (D : Descriptor.Table) (program : Outline)
    (i : DescriptorId) : Outline → Prop
  | mk {item : Item α} {d : Descriptor} {name : String} {ps ss : List Outline}
      {known : List DescriptorId} : items[i]? = some item →
    SignatureOf items i item ⟨d.params.map (·.ty), d.ty⟩ → D.get? i = some d →
    List.Forall₂ (ParamTyped D) ps (d.params.map (·.ty)) → (∀ j ∈ known, some j ∈ ps.map descriptor) →
    StmtsTyped items D program d.ty known ss →
    FunctionTyped items D program i
      (.node (.function name) (some i) d.ty (ps ++ [.node .block none .unit ss]))

/-- All functions of a module are typed. -/
def TypedProgram (items : List (Item α)) (D : Descriptor.Table) (program : Outline) : Prop :=
  ∀ i f, program.function? i = some f → FunctionTyped items D program i f

/-- Locals are set to values of their types. -/
def LocalsTyped (items : List (Item α)) (D : Descriptor.Table) (known : List DescriptorId)
    (locals : Locals) : Prop :=
  ∀ j ∈ known, ∃ v e, locals j = some v ∧ D.get? j = some e ∧ v.HasTy items e.ty

section Bodies

variable {D : Descriptor.Table} {program : Outline} {known : List DescriptorId} {locals : Locals}

/-- A local that is set to a value of its type is typed. -/
theorem LocalsTyped.set (typed : LocalsTyped items D known locals) {i : DescriptorId}
    {d : Descriptor} {v : Datum} (entry : D.get? i = some d) (value : v.HasTy items d.ty) :
    LocalsTyped items D (i :: known) (locals.set i v) := by
  intro j member
  by_cases same : j = i
  · exact ⟨v, d, if_pos same, same ▸ entry, value⟩
  · obtain ⟨w, e, held, entry', value'⟩ := typed j ((List.mem_cons.mp member).resolve_left same)
    exact ⟨w, e, (if_neg same).trans held, entry', value'⟩

/-- Parameters are set to the arguments of a call. -/
theorem parameters_typed {ps : List Outline} {tys : List Ty} {values : List Datum}
    (params : List.Forall₂ (ParamTyped D) ps tys) (typed : Datum.HaveTys items values tys) :
    LocalsTyped items D (ps.filterMap descriptor) (Outline.parameters ps values) := by
  induction params generalizing values with
  | nil => exact fun j member => by cases member
  | @cons p ty ps tys first _ ih =>
      obtain ⟨i, d, declared, entry, rfl⟩ := first
      cases typed with
      | cons value rest =>
          rw [List.filterMap_cons_some declared, Outline.parameters, declared]
          exact (ih rest).set entry value

/-- Calls of what a descriptor stands for are safe. -/
def CallsSafe (items : List (Item α)) (D : Descriptor.Table) (program : Outline)
    (call : DescriptorId → List Datum → Execution Datum) : Prop :=
  ∀ i d, D.get? i = some d → Callee items program i d → ∀ values,
    Datum.HaveTys items values (d.params.map (·.ty)) →
    Safe items (call i values) (Datum.HasTy items · d.ty)

variable {call : DescriptorId → List Datum → Execution Datum}

mutual

/-- A typed expression has a value of the type of its node, unless the run ends before. -/
theorem valueOf_safe (calls : CallsSafe items D program call)
    (set : LocalsTyped items D known locals) {o : Outline}
    (typed : ExprTyped items D program known o) :
    Safe items (o.valueOf call locals) (Datum.HasTy items · o.ty) := by
  cases typed with
  | constant => exact observe_safe .constant
  | localRef member entry =>
      obtain ⟨v, e, held, entry', value⟩ := set _ member
      obtain rfl := Option.some.inj (entry.symm.trans entry')
      rw [Outline.valueOf, held]
      exact observe_safe value
  | call entry callee args =>
      rw [Outline.valueOf]
      refine (valuesOf_safe calls set args).bind fun values given => ?_
      refine (calls _ _ entry callee values given).bind fun v value => ?_
      exact observe_safe value
  | binary left right operands =>
      rw [Outline.valueOf]
      refine (valueOf_safe calls set left).bind fun a leftValue => ?_
      refine (valueOf_safe calls set right).bind fun b rightValue => ?_
      refine (safe_ofExcept (operate_endsWell operands leftValue rightValue)).bind fun v value => ?_
      exact observe_safe value

/-- Arguments are safe one after another if calls are. -/
theorem valuesOf_safe (calls : CallsSafe items D program call)
    (set : LocalsTyped items D known locals) {os : List Outline} {tys : List Ty}
    (typed : ExprsTyped items D program known os tys) :
    Safe items (Outline.valuesOf call locals os) (Datum.HaveTys items · tys) := by
  cases typed with
  | nil => exact safe_pure .nil
  | cons first rest =>
      rw [Outline.valuesOf]
      refine (valueOf_safe calls set first).bind fun v value => ?_
      refine (valuesOf_safe calls set rest).bind fun vs values => ?_
      exact safe_pure (.cons value values)

end

/-- Where control may go behind a statement. -/
inductive ControlTyped (items : List (Item α)) (D : Descriptor.Table) (result : Ty)
    (next : List DescriptorId) : Control → Prop
  | next {locals : Locals} : LocalsTyped items D next locals →
    ControlTyped items D result next (.next locals)
  | returned {v : Datum} : v.HasTy items result → ControlTyped items D result next (.returned v)

variable {result : Ty}

/-- A typed statement sets its local, or it returns a value of the type of the result. -/
theorem perform_safe (calls : CallsSafe items D program call)
    (set : LocalsTyped items D known locals) {o : Outline} {next : List DescriptorId}
    (typed : StmtTyped items D program result known o next) :
    Safe items (o.perform call locals) (ControlTyped items D result next) := by
  cases typed with
  | letBind expr entry same =>
      rw [Outline.perform]
      refine (valueOf_safe calls set expr).bind fun v value => ?_
      exact safe_pure (.next (set.set entry (same ▸ value)))
  | leave unit => exact safe_pure (.returned (unit ▸ .constant))
  | ret expr same =>
      rw [Outline.perform]
      refine (valueOf_safe calls set expr).bind fun v value => ?_
      exact safe_pure (.returned (same ▸ value))
  | eval expr =>
      rw [Outline.perform]
      refine (valueOf_safe calls set expr).bind fun v value => ?_
      exact safe_pure (.next set)

/-- Typed statements one after another return a value of the type of the result, or control reaches
their end. -/
theorem performAll_safe (calls : CallsSafe items D program call) {os : List Outline}
    (typed : StmtsTyped items D program result known os) {locals : Locals}
    (set : LocalsTyped items D known locals) :
    Safe items (Outline.performAll call locals os) (ControlTyped items D result []) := by
  induction typed generalizing locals with
  | nil => exact safe_pure (.next fun _ member => by cases member)
  | cons first _ ih =>
      rw [Outline.performAll]
      refine (perform_safe calls set first).bind fun control typed => ?_
      cases typed with
      | next set => exact ih set
      | returned value => exact safe_pure (.returned value)

/-- A typed function gives a value of its type, unless the run ends before. -/
theorem enter_safe (calls : CallsSafe items D program call) {i : DescriptorId} {f : Outline}
    (typed : FunctionTyped items D program i f) {d : Descriptor} (entry : D.get? i = some d)
    {values : List Datum} (given : Datum.HaveTys items values (d.params.map (·.ty))) :
    Safe items (f.enter call values) (Datum.HasTy items · d.ty) := by
  cases typed with
  | @mk item e name ps ss known there signed entry' params inside body =>
      obtain rfl := Option.some.inj (entry.symm.trans entry')
      have set : LocalsTyped items D known (Outline.parameters ps values) := by
        intro j member
        obtain ⟨p, among, declared⟩ := List.mem_map.mp (inside j member)
        exact parameters_typed params given j (List.mem_filterMap.mpr ⟨p, among, declared⟩)
      simp only [Outline.enter, List.getLast?_append, List.getLast?_singleton, Option.some_or,
        List.dropLast_concat]
      rw [Outline.perform]
      refine (performAll_safe calls body set).bind fun control typed => ?_
      cases typed with
      | returned value => exact safe_pure value
      | next _ =>
          dsimp only
          split
          · rename_i unit
            exact safe_pure (unit ▸ .constant)
          · rename_i notUnit
            exact safe_throw (.fellOff there signed notUnit)

end Bodies

/-- Calls in a typed module are safe, whatever the fuel. -/
theorem TypedProgram.invoke_safe {D : Descriptor.Table} {program : Outline}
    (typed : TypedProgram items D program) (fuel : Nat) :
    CallsSafe items D program (program.invoke D fuel) := by
  induction fuel with
  | zero => exact fun i d _ _ values _ => safe_throw .outOfFuel
  | succ fuel ih =>
      intro i d entry callee values given
      have arity : ¬ values.length ≠ d.params.length := by
        rw [given.length_eq, List.length_map]
        exact fun other => other rfl
      rw [Outline.invoke, entry]
      dsimp only
      rw [if_neg arity]
      cases callee with
      | cls kind there ty signed =>
          rw [kind, ty]
          exact safe_pure (.object there signed given)
      | @function f kind found =>
          rw [kind, found]
          -- The calls in the body have less fuel, so they are safe by induction.
          exact enter_safe ih (typed i f found) entry given
      | host kind absent origin ty =>
          rw [kind, absent]
          dsimp only
          rw [if_pos origin, Outline.callHost, if_pos given.map_ty, ty]
          exact safe_pure .constant

end Module

end StagedCompiler
