import Mathlib.Data.List.Nodup
import StagedCompiler.Analysis.Resolution
import StagedCompiler.Proofs.Source.Identifiers

/-!
# What there is to report about a unit of the host

A second account of resolution, without numbers, tables or an order of work: types are known by the
names of their classes (`Shown`), and what is found in an item is a list of codes with messages that
depends on the rest of the unit only through the items that names stand for.

* `headFindings` and `bodyFindings` are what is found in the signature and in the body of an item.
* `unitFindings` puts them together for all items of a unit.
* If items have distinct names their order does not matter to what names stand for
  (`itemNamed_perm`), so the findings of a unit in another order are the same ones in another order
  (`unitFindings_perm`).
-/

namespace StagedCompiler.Findings

open Source (Item Typed TypeRef Expr Stmt)
open Resolution (duplicateCode unresolvedCode arityCode typeCode arityMessage)

/-- A code with a message. -/
abbrev Finding : Type := String × String

/-! ## Types in words -/

/-- A type as its author knows it: a class goes by its name. -/
inductive Shown : Type where
  | int
  | bool
  | str
  | unit
  | cls (name : String)
  | param (name : String)
  | error
  deriving DecidableEq, Repr

namespace Shown

/-- The text of a type. -/
def text : Shown → String
  | .int => "int"
  | .bool => "bool"
  | .str => "str"
  | .unit => "unit"
  | .cls name => name
  | .param name => name
  | .error => "\x7berror\x7d"

/-- The text of a type in quotes. -/
def quoted (ty : Shown) : String := "`" ++ ty.text ++ "`"

/-- The type that a reserved name stands for. -/
def builtin? (name : String) : Option Shown :=
  match Ty.builtin? name with
  | some .int => some .int
  | some .bool => some .bool
  | some .str => some .str
  | some .unit => some .unit
  | some (.cls _) | some (.param _) | some .error | none => none

/-- Whether two types are compatible. -/
def accepts (a b : Shown) : Bool :=
  match a, b with
  | .error, _ | _, .error | .param _, _ | _, .param _ => true
  | a, b => a == b

end Shown

/-- Names with their types, the latest first. -/
abbrev Env : Type := List (String × Shown)

/-- What a name stands for in a call. -/
structure Callee : Type where
  kind : Descriptor.Kind
  params : List (String × Shown)
  result : Shown

/-- The functions of the host. -/
def hostCallee? (name : String) : Option Callee :=
  if name = "print" then some ⟨.function, [("message", .str)], .unit⟩
  else if name = "assert" then some ⟨.function, [("condition", .bool)], .unit⟩
  else none

section Unit

variable (named : String → Option (Item Unit))

/-! ## Signatures -/

/-- Whether a name stands for a class. -/
def isClass (name : String) : Bool :=
  match named name with
  | some (.cls _ _ _) => true
  | some (.function _ _ _ _ _ _) | none => false

/-- The type that a name stands for, if there is one. -/
def typeOf? (typeParams : List String) (name : String) : Option Shown :=
  match Shown.builtin? name with
  | some ty => some ty
  | none =>
    if typeParams.contains name then some (.param name)
    else if isClass named name then some (.cls name)
    else none

/-- The type that a reference to a type has. -/
def typeOf (typeParams : List String) (t : TypeRef Unit) : Shown :=
  (typeOf? named typeParams t.name).getD .error

/-- What is found in a reference to a type. -/
def typeFindings (typeParams : List String) (t : TypeRef Unit) : List Finding :=
  match typeOf? named typeParams t.name with
  | some _ => []
  | none => [(unresolvedCode, "cannot find type `" ++ t.name ++ "`")]

/-- The names of members with their types. -/
def memberTypes (typeParams : List String) (members : List (Typed Unit)) : List (String × Shown) :=
  members.map fun m => (m.name, typeOf named typeParams m.type)

/-- What is found in members behind those whose names have been seen. -/
def memberFindings (typeParams : List String) (duplicate : String → String) :
    List String → List (Typed Unit) → List Finding
  | _, [] => []
  | seen, m :: rest =>
    (if seen.contains m.name then [(duplicateCode, duplicate m.name)] else []) ++
      (typeFindings named typeParams m.type ++
        memberFindings typeParams duplicate (m.name :: seen) rest)

/-- The type of what a function returns. -/
def returned (typeParams : List String) : Option (TypeRef Unit) → Shown
  | some t => typeOf named typeParams t
  | none => .unit

/-- What calls of an item see of it. -/
def calleeOf : Item Unit → Callee
  | .function _ _ typeParams params returns _ =>
    ⟨.function, memberTypes named typeParams params, returned named typeParams returns⟩
  | .cls _ name fields => ⟨.cls, memberTypes named [] fields, .cls name⟩

/-- What is found in the signature of an item. -/
def headFindings : Item Unit → List Finding
  | .function _ _ typeParams params returns _ =>
    memberFindings named typeParams
        (fun p => "parameter `" ++ p ++ "` is declared more than once") [] params ++
      returns.toList.flatMap (typeFindings named typeParams)
  | .cls _ name fields =>
    memberFindings named []
      (fun f => "field `" ++ f ++ "` is declared more than once in `" ++ name ++ "`") [] fields

/-! ## Expressions -/

/-- What a name stands for in a call: an item, or else a function of the host. -/
def callee? (name : String) : Option Callee :=
  match named name with
  | some item => some (calleeOf named item)
  | none => hostCallee? name

/-- An argument that does not fit its parameter. -/
def misfit (callee param : String) (expected arg : Shown) : Finding :=
  (typeCode, "expected " ++ expected.quoted ++ " for parameter `" ++ param ++ "` of `" ++ callee ++
    "`, found " ++ arg.quoted)

/-- Compare arguments with parameters in order; what fixes a type parameter is the first argument at
it.  The result is what is found and which type parameters are fixed in the end. -/
def fitArguments (callee : String) :
    Env → List (Shown × (String × Shown)) → List Finding × Env
  | fixed, [] => ([], fixed)
  | fixed, (arg, param, ty) :: rest =>
    let compareWith (expected : Shown) : List Finding × Env :=
      let (found, final) := fitArguments callee fixed rest
      (if expected.accepts arg then found else misfit callee param expected arg :: found, final)
    match ty with
    | .param name =>
      match fixed.lookup name with
      | some expected => compareWith expected
      | none => fitArguments callee ((name, arg) :: fixed) rest
    | expected => compareWith expected

/-- The type of a call's result. -/
def resultOf (fixed : Env) (ty : Shown) : Shown :=
  match ty with
  | .param name => (fixed.lookup name).getD ty
  | ty => ty

/-- The type of a call whose arguments have the given types. -/
def callType (name : String) (args : List Shown) : Shown :=
  match callee? named name with
  | none => .error
  | some c =>
    if args.length ≠ c.params.length then c.result
    else resultOf (fitArguments name [] (args.zip c.params)).2 c.result

/-- What is found in a call whose arguments have the given types. -/
def callFindings (name : String) (args : List Shown) : List Finding :=
  match callee? named name with
  | none => [(unresolvedCode, "cannot find function `" ++ name ++ "` in this scope")]
  | some c =>
    if args.length ≠ c.params.length then
      [(arityCode, arityMessage name c.params.length args.length)]
    else (fitArguments name [] (args.zip c.params)).1

/-- What is found in a reference to a value. -/
def refFindings (env : Env) (name : String) : List Finding :=
  match env.lookup name with
  | some _ => []
  | none =>
    match named name with
    | some item =>
      [(typeCode, "`" ++ name ++ "` is a " ++ (calleeOf named item).kind.text ++ ", not a value")]
    | none => [(unresolvedCode, "cannot find value `" ++ name ++ "` in this scope")]

/-- Whether an operator takes operands of the given types. -/
def operandsFit (op : Operator) (lhs rhs : Shown) : Bool :=
  match op with
  | .eq => lhs.accepts rhs
  | .lt | .add | .sub | .mul | .div => Shown.int.accepts lhs && Shown.int.accepts rhs

/-- What is found in a binary expression whose operands have the given types. -/
def binaryFindings (op : Operator) (lhs rhs : Shown) : List Finding :=
  if operandsFit op lhs rhs then []
  else
    [(typeCode,
      if op == .eq then "cannot compare " ++ lhs.quoted ++ " with " ++ rhs.quoted
      else "operator `" ++ op.symbol ++ "` expects `int` operands, found " ++ lhs.quoted ++ " and " ++
        rhs.quoted)]

mutual

/-- The type of an expression. -/
def exprType (env : Env) : Expr Unit → Shown
  | .int _ _ => .int
  | .bool _ _ => .bool
  | .str _ _ => .str
  | .ref _ name => (env.lookup name).getD .error
  | .call _ callee args => callType named callee (argTypes env args)
  | .binary _ op _ _ => if op.isComparison then .bool else .int

/-- The types of arguments. -/
def argTypes (env : Env) : List (Expr Unit) → List Shown
  | [] => []
  | e :: rest => exprType env e :: argTypes env rest

end

mutual

/-- What is found in an expression. -/
def exprFindings (env : Env) : Expr Unit → List Finding
  | .int _ _ | .bool _ _ | .str _ _ => []
  | .ref _ name => refFindings named env name
  | .call _ callee args =>
    argFindings env args ++ callFindings named callee (argTypes named env args)
  | .binary _ op lhs rhs =>
    exprFindings env lhs ++ (exprFindings env rhs ++
      binaryFindings op (exprType named env lhs) (exprType named env rhs))

/-- What is found in arguments. -/
def argFindings (env : Env) : List (Expr Unit) → List Finding
  | [] => []
  | e :: rest => exprFindings env e ++ argFindings env rest

end

/-! ## Statements and items -/

/-- What is found in a local that is stated to have one type and found to have another. -/
def localFindings (stated : Option Shown) (found : Shown) : List Finding :=
  match stated with
  | none => []
  | some ty =>
    if ty.accepts found then []
    else [(typeCode, "expected " ++ ty.quoted ++ ", found " ++ found.quoted)]

/-- What is found in leaving a function with a value of the given type. -/
def returnFindings (result found : Shown) : List Finding :=
  if result.accepts found then []
  else [(typeCode, "expected " ++ result.quoted ++ " to be returned, found " ++ found.quoted)]

/-- What is found in a statement. -/
def stmtFindings (typeParams : List String) (result : Shown) (env : Env) :
    Stmt Unit → List Finding
  | .letBind _ _ type value =>
    exprFindings named env value ++ (type.toList.flatMap (typeFindings named typeParams) ++
      localFindings (type.map (typeOf named typeParams)) (exprType named env value))
  | .ret _ (some value) =>
    exprFindings named env value ++ returnFindings result (exprType named env value)
  | .ret _ none => returnFindings result .unit
  | .eval _ value => exprFindings named env value

/-- The locals behind a statement. -/
def envBehind (typeParams : List String) (env : Env) : Stmt Unit → Env
  | .letBind _ name type value =>
    (name, (type.map (typeOf named typeParams)).getD (exprType named env value)) :: env
  | .ret _ _ | .eval _ _ => env

/-- What is found in statements one after another. -/
def stmtsFindings (typeParams : List String) (result : Shown) :
    Env → List (Stmt Unit) → List Finding
  | _, [] => []
  | env, stmt :: rest =>
    stmtFindings named typeParams result env stmt ++
      stmtsFindings typeParams result (envBehind named typeParams env stmt) rest

/-- What is found in the body of an item. -/
def bodyFindings : Item Unit → List Finding
  | .function _ _ typeParams params returns body =>
    stmtsFindings named typeParams (returned named typeParams returns)
      (memberTypes named typeParams params).reverse body
  | .cls _ _ _ => []

end Unit

/-! ## Units -/

/-- The item that a name stands for. -/
def itemNamed (items : List (Item Unit)) (name : String) : Option (Item Unit) :=
  items.find? (·.name == name)

/-- What is found in a unit whose items have distinct names. -/
def unitFindings (items : List (Item Unit)) : List Finding :=
  items.flatMap (headFindings (itemNamed items)) ++ items.flatMap (bodyFindings (itemNamed items))

section Order

variable {items items' : List (Item Unit)}

/-- As names are distinct, a name gives the item that has it. -/
theorem itemNamed_eq_some_iff (distinct : (items.map Item.name).Nodup) {name : String}
    {item : Item Unit} : itemNamed items name = some item ↔ item ∈ items ∧ item.name = name := by
  unfold itemNamed
  constructor
  · intro found
    have same := List.find?_some found
    exact ⟨List.mem_of_find?_eq_some found, beq_iff_eq.mp same⟩
  · intro given
    rcases given with ⟨among, rfl⟩
    induction items with
    | nil => cases among
    | cons first rest ih =>
        rw [List.map_cons, List.nodup_cons] at distinct
        rcases List.mem_cons.mp among with rfl | among
        · exact List.find?_cons_of_pos (beq_self_eq_true _)
        · have other : first.name ≠ item.name := fun same =>
            distinct.1 (same ▸ List.mem_map_of_mem among)
          rw [List.find?_cons_of_neg (by simpa using other)]
          exact ih distinct.2 among

/-- Names stand for the same items whatever the order of the items. -/
theorem itemNamed_perm (distinct : (items.map Item.name).Nodup) (perm : items'.Perm items) :
    itemNamed items' = itemNamed items := by
  have distinct' : (items'.map Item.name).Nodup := (perm.map Item.name).nodup_iff.mpr distinct
  funext name
  refine Option.ext fun item => ?_
  rw [itemNamed_eq_some_iff distinct', itemNamed_eq_some_iff distinct, perm.mem_iff]

/-- Items in another order give the same findings in another order. -/
theorem unitFindings_perm (distinct : (items.map Item.name).Nodup) (perm : items'.Perm items) :
    (unitFindings items').Perm (unitFindings items) := by
  unfold unitFindings
  rw [itemNamed_perm distinct perm]
  exact (perm.flatMap_right _).append (perm.flatMap_right _)

end Order

end StagedCompiler.Findings
