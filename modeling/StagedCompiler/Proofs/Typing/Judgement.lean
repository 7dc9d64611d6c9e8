import Mathlib.Data.List.Forall2
import Mathlib.Data.List.Nodup
import StagedCompiler.Source.Tree
import StagedCompiler.Ty

/-!
# When a unit is well formed

The typing rules of units, stated without tables, orders of work or errors.  The class type of the
item with number `i` is `Ty.cls i`.

* `NamesType` says which type a name stands for, `Calls` which signature a callee has, and `Fits`
  which arguments a signature takes.
* `HasType`, `Checks` and `ChecksAll` are the rules for expressions and statements.  A context lists
  names with their types, the latest first.
* `WellFormed` puts them together.

If no two items have the same name the rules give every expression at most one type
(`HasType.unique`).
-/

namespace StagedCompiler.Typing

open Source

variable {α : Type}

/-- The names in scope with their types, the latest first. -/
abbrev Env : Type := List (String × Ty)

/-- A name stands for a builtin type, or else for a type parameter, or else for a class. -/
inductive NamesType (items : List (Item α)) (typeParams : List String) : String → Ty → Prop
  | builtin {name : String} {ty : Ty} : Ty.builtin? name = some ty →
    NamesType items typeParams name ty
  | param {name : String} : Ty.builtin? name = none → name ∈ typeParams →
    NamesType items typeParams name (.param name)
  | cls {name : String} {i : Nat} {site : α} {fields : List (Typed α)} :
    Ty.builtin? name = none → name ∉ typeParams → items[i]? = some (.cls site name fields) →
    NamesType items typeParams name (.cls i)

/-- The type of a function's result. -/
inductive Returns (items : List (Item α)) (typeParams : List String) :
    Option (TypeRef α) → Ty → Prop
  | nothing : Returns items typeParams none .unit
  | value {t : TypeRef α} {ty : Ty} : NamesType items typeParams t.name ty →
    Returns items typeParams (some t) ty

/-- The types of the parameters and of the result of something that can be called. -/
structure Signature : Type where
  params : List Ty
  result : Ty

/-- The signature of an item.  A class is called with its fields. -/
inductive SignatureOf (items : List (Item α)) (i : Nat) : Item α → Signature → Prop
  | function {site : α} {name : String} {typeParams : List String} {params : List (Typed α)}
      {returns : Option (TypeRef α)} {body : List (Stmt α)} {tys : List Ty} {result : Ty} :
    List.Forall₂ (fun p ty => NamesType items typeParams p.type.name ty) params tys →
    Returns items typeParams returns result →
    SignatureOf items i (.function site name typeParams params returns body) ⟨tys, result⟩
  | cls {site : α} {name : String} {fields : List (Typed α)} {tys : List Ty} :
    List.Forall₂ (fun f ty => NamesType items [] f.type.name ty) fields tys →
    SignatureOf items i (.cls site name fields) ⟨tys, .cls i⟩

/-- The signatures of the functions of the host. -/
inductive HostSignature : String → Signature → Prop
  | print {name : String} : name = "print" → HostSignature name ⟨[.str], .unit⟩
  | assert {name : String} : name = "assert" → HostSignature name ⟨[.bool], .unit⟩

/-- A callee is an item, or else a function of the host. -/
inductive Calls (items : List (Item α)) : String → Signature → Prop
  | item {i : Nat} {item : Item α} {sig : Signature} : items[i]? = some item →
    SignatureOf items i item sig → Calls items item.name sig
  | host {name : String} {sig : Signature} : (∀ item ∈ items, item.name ≠ name) →
    HostSignature name sig → Calls items name sig

/-- Arguments fit parameters, given the types that earlier arguments have fixed type parameters to.
The first argument at a type parameter fixes it. -/
inductive Fits : Env → List Ty → List Ty → Env → Prop
  | nil {fixed : Env} : Fits fixed [] [] fixed
  | plain {fixed final : Env} {arg param : Ty} {args params : List Ty} :
    (∀ name, param ≠ .param name) → param.accepts arg = true → Fits fixed args params final →
    Fits fixed (arg :: args) (param :: params) final
  | first {fixed final : Env} {name : String} {arg : Ty} {args params : List Ty} :
    fixed.lookup name = none → Fits ((name, arg) :: fixed) args params final →
    Fits fixed (arg :: args) (.param name :: params) final
  | later {fixed final : Env} {name : String} {arg expected : Ty} {args params : List Ty} :
    fixed.lookup name = some expected → expected.accepts arg = true → Fits fixed args params final →
    Fits fixed (arg :: args) (.param name :: params) final

/-- The type of a call's result: at a type parameter the type that it is fixed to, if it is. -/
inductive ResultTy (fixed : Env) : Ty → Ty → Prop
  | plain {ty : Ty} : (∀ name, ty ≠ .param name) → ResultTy fixed ty ty
  | fixed {name : String} {ty : Ty} : fixed.lookup name = some ty →
    ResultTy fixed (.param name) ty
  | free {name : String} : fixed.lookup name = none →
    ResultTy fixed (.param name) (.param name)

/-- What an operator takes and gives.  Equality takes compatible operands, the others integers. -/
inductive Operates : Operator → Ty → Ty → Ty → Prop
  | eq {a b : Ty} : a.accepts b = true → Operates .eq a b .bool
  | lt {a b : Ty} : Ty.int.accepts a = true → Ty.int.accepts b = true → Operates .lt a b .bool
  | arith {op : Operator} {a b : Ty} : op.isComparison = false → Ty.int.accepts a = true →
    Ty.int.accepts b = true → Operates op a b .int

mutual

/-- An expression has a type in a context. -/
inductive HasType (items : List (Item α)) (env : Env) : Expr α → Ty → Prop
  | int {site : α} {n : Int64} : HasType items env (.int site n) .int
  | bool {site : α} {b : Bool} : HasType items env (.bool site b) .bool
  | str {site : α} {s : String} : HasType items env (.str site s) .str
  | ref {site : α} {name : String} {ty : Ty} : env.lookup name = some ty →
    HasType items env (.ref site name) ty
  | call {site : α} {callee : String} {args : List (Expr α)} {sig : Signature} {tys : List Ty}
      {fixed : Env} {ty : Ty} :
    Calls items callee sig → HaveTypes items env args tys → Fits [] tys sig.params fixed →
    ResultTy fixed sig.result ty → HasType items env (.call site callee args) ty
  | binary {site : α} {op : Operator} {lhs rhs : Expr α} {a b ty : Ty} :
    HasType items env lhs a → HasType items env rhs b → Operates op a b ty →
    HasType items env (.binary site op lhs rhs) ty

/-- Expressions have types one by one. -/
inductive HaveTypes (items : List (Item α)) (env : Env) : List (Expr α) → List Ty → Prop
  | nil : HaveTypes items env [] []
  | cons {e : Expr α} {rest : List (Expr α)} {ty : Ty} {tys : List Ty} :
    HasType items env e ty → HaveTypes items env rest tys →
    HaveTypes items env (e :: rest) (ty :: tys)

end

/-- A statement of a function with the given type parameters and result, and the context behind
it. -/
inductive Checks (items : List (Item α)) (typeParams : List String) (result : Ty) (env : Env) :
    Stmt α → Env → Prop
  | inferred {site : α} {name : String} {value : Expr α} {ty : Ty} : HasType items env value ty →
    Checks items typeParams result env (.letBind site name none value) ((name, ty) :: env)
  | annotated {site : α} {name : String} {t : TypeRef α} {value : Expr α} {found ty : Ty} :
    HasType items env value found → NamesType items typeParams t.name ty →
    ty.accepts found = true →
    Checks items typeParams result env (.letBind site name (some t) value) ((name, ty) :: env)
  | leave {site : α} : result.accepts .unit = true →
    Checks items typeParams result env (.ret site none) env
  | ret {site : α} {value : Expr α} {found : Ty} : HasType items env value found →
    result.accepts found = true → Checks items typeParams result env (.ret site (some value)) env
  | eval {site : α} {value : Expr α} {found : Ty} : HasType items env value found →
    Checks items typeParams result env (.eval site value) env

/-- Statements one after another. -/
inductive ChecksAll (items : List (Item α)) (typeParams : List String) (result : Ty) :
    Env → List (Stmt α) → Prop
  | nil {env : Env} : ChecksAll items typeParams result env []
  | cons {env next : Env} {stmt : Stmt α} {rest : List (Stmt α)} :
    Checks items typeParams result env stmt next →
    ChecksAll items typeParams result next rest →
    ChecksAll items typeParams result env (stmt :: rest)

/-- The body of an item checks against its signature. -/
inductive BodyChecks (items : List (Item α)) : Item α → Signature → Prop
  | function {site : α} {name : String} {typeParams : List String} {params : List (Typed α)}
      {returns : Option (TypeRef α)} {body : List (Stmt α)} {sig : Signature} :
    ChecksAll items typeParams sig.result ((params.map (·.name)).zip sig.params).reverse body →
    BodyChecks items (.function site name typeParams params returns body) sig
  | cls {site : α} {name : String} {fields : List (Typed α)} {sig : Signature} :
    BodyChecks items (.cls site name fields) sig

/-- The parameters of a function or the fields of a class. -/
def members : Item α → List (Typed α)
  | .function _ _ _ params _ _ => params
  | .cls _ _ fields => fields

/-- A unit is well formed: names are distinct, and every item has a signature that its body checks
against. -/
structure WellFormed (items : List (Item α)) : Prop where
  names : (items.map Item.name).Nodup
  memberNames : ∀ item ∈ items, ((members item).map (·.name)).Nodup
  bodies : ∀ i item, items[i]? = some item →
    ∃ sig, SignatureOf items i item sig ∧ BodyChecks items item sig

/-! ## At most one type -/

section Unique

variable {items : List (Item α)} (names : (items.map Item.name).Nodup)
include names

/-- An item is known by its name. -/
theorem index_unique {i j : Nat} {a b : Item α} (at_i : items[i]? = some a)
    (at_j : items[j]? = some b) (same : a.name = b.name) : i = j := by
  have left : (items.map Item.name)[i]? = some a.name := by rw [List.getElem?_map, at_i]; rfl
  have right : (items.map Item.name)[j]? = some b.name := by rw [List.getElem?_map, at_j]; rfl
  obtain ⟨bound, left⟩ := List.getElem?_eq_some_iff.mp left
  obtain ⟨bound', right⟩ := List.getElem?_eq_some_iff.mp right
  exact (names.getElem_inj_iff).mp (left.trans (same.trans right.symm))

/-- A name stands for one type. -/
theorem NamesType.unique {typeParams : List String} {name : String} {a b : Ty}
    (first : NamesType items typeParams name a) (second : NamesType items typeParams name b) :
    a = b := by
  cases first with
  | builtin found =>
      cases second with
      | builtin found' => exact Option.some.inj (found.symm.trans found')
      | param none' _ => rw [found] at none'; cases none'
      | cls none' _ _ => rw [found] at none'; cases none'
  | param none member =>
      cases second with
      | builtin found' => rw [none] at found'; cases found'
      | param _ _ => rfl
      | cls _ absent' _ => exact absurd member absent'
  | cls none absent found =>
      cases second with
      | builtin found' => rw [none] at found'; cases found'
      | param _ member' => exact absurd member' absent
      | cls _ _ found' => rw [index_unique names found found' rfl]

theorem Returns.unique {typeParams : List String} {returns : Option (TypeRef α)} {a b : Ty}
    (first : Returns items typeParams returns a) (second : Returns items typeParams returns b) :
    a = b := by
  cases first with
  | nothing => cases second; rfl
  | value named =>
      cases second with
      | value named' => exact named.unique names named'

/-- An item has one signature. -/
theorem SignatureOf.unique {i : Nat} {item : Item α} {a b : Signature}
    (first : SignatureOf items i item a) (second : SignatureOf items i item b) : a = b := by
  have members : ∀ {typeParams : List String} {ms : List (Typed α)} {tys tys' : List Ty},
      List.Forall₂ (fun p ty => NamesType items typeParams p.type.name ty) ms tys →
      List.Forall₂ (fun p ty => NamesType items typeParams p.type.name ty) ms tys' → tys = tys' := by
    intro typeParams ms tys tys' left right
    induction left generalizing tys' with
    | nil => cases right; rfl
    | cons named _ ih =>
        cases right with
        | cons named' rest => rw [named.unique names named', ih rest]
  cases first with
  | function params returns =>
      cases second with
      | function params' returns' => rw [members params params', returns.unique names returns']
  | cls fields =>
      cases second with
      | cls fields' => rw [members fields fields']

/-- A name that is called has one signature: that of the item, and else that of the host's function. -/
theorem Calls.unique {callee : String} {a b : Signature} (first : Calls items callee a)
    (second : Calls items callee b) : a = b := by
  cases first with
  | item found signed =>
      generalize named : Item.name _ = callee at second
      cases second with
      | item found' signed' =>
          obtain rfl := index_unique names found found' named
          obtain rfl := Option.some.inj (found.symm.trans found')
          exact signed.unique names signed'
      | host absent _ => exact absurd named (absent _ (List.mem_of_getElem? found))
  | host absent host =>
      cases second with
      | item found' _ => exact absurd rfl (absent _ (List.mem_of_getElem? found'))
      | host _ host' =>
          cases host with
          | print named =>
              subst named
              cases host' with
              | print _ => rfl
              | assert named' => cases (by decide : "print" ≠ "assert") named'
          | assert named =>
              subst named
              cases host' with
              | print named' => cases (by decide : "assert" ≠ "print") named'
              | assert _ => rfl

end Unique

/-- Arguments settle type parameters in one way. -/
theorem Fits.unique {fixed left right : Env} {args params : List Ty}
    (first : Fits fixed args params left) (second : Fits fixed args params right) :
    left = right := by
  induction first with
  | nil => cases second; rfl
  | plain closed _ _ ih =>
      cases second with
      | plain _ _ rest => exact ih rest
      | first _ _ => exact absurd rfl (closed _)
      | later _ _ _ => exact absurd rfl (closed _)
  | first absent _ ih =>
      cases second with
      | plain closed _ _ => exact absurd rfl (closed _)
      | first _ rest => exact ih rest
      | later found _ _ => rw [absent] at found; cases found
  | later found _ _ ih =>
      cases second with
      | plain closed _ _ => exact absurd rfl (closed _)
      | first absent _ => rw [found] at absent; cases absent
      | later _ _ rest => exact ih rest

theorem Fits.length_eq {fixed final : Env} {args params : List Ty}
    (fits : Fits fixed args params final) : args.length = params.length := by
  induction fits with
  | nil => rfl
  | plain _ _ _ ih => rw [List.length_cons, List.length_cons, ih]
  | first _ _ ih => rw [List.length_cons, List.length_cons, ih]
  | later _ _ _ ih => rw [List.length_cons, List.length_cons, ih]

/-- A call has one result type. -/
theorem ResultTy.unique {fixed : Env} {ty a b : Ty} (first : ResultTy fixed ty a)
    (second : ResultTy fixed ty b) : a = b := by
  cases first with
  | plain closed =>
      cases second with
      | plain _ => rfl
      | fixed _ => exact absurd rfl (closed _)
      | free _ => exact absurd rfl (closed _)
  | fixed found =>
      cases second with
      | plain closed => exact absurd rfl (closed _)
      | fixed found' => exact Option.some.inj (found.symm.trans found')
      | free absent => rw [found] at absent; cases absent
  | free absent =>
      cases second with
      | plain _ => rfl
      | fixed found => rw [absent] at found; cases found
      | free _ => rfl

/-- An operation has one type. -/
theorem Operates.unique {op : Operator} {l r a b : Ty} (first : Operates op l r a)
    (second : Operates op l r b) : a = b := by
  cases first with
  | eq _ =>
      cases second with
      | eq _ => rfl
      | arith other _ _ => cases other
  | lt _ _ =>
      cases second with
      | lt _ _ => rfl
      | arith other _ _ => cases other
  | arith other _ _ =>
      cases second with
      | eq _ => cases other
      | lt _ _ => cases other
      | arith _ _ _ => rfl

mutual

/-- An expression has one type, by induction on one of its typings. -/
theorem HasType.unique {items : List (Item α)} (names : (items.map Item.name).Nodup) {env : Env}
    {e : Expr α} {a b : Ty} (first : HasType items env e a) (second : HasType items env e b) :
    a = b := by
  cases first with
  | int => cases second; rfl
  | bool => cases second; rfl
  | str => cases second; rfl
  | ref found =>
      cases second with
      | ref found' => exact Option.some.inj (found.symm.trans found')
  | call calls args fits result =>
      cases second with
      | call calls' args' fits' result' =>
          obtain rfl := calls.unique names calls'
          obtain rfl := args.unique names args'
          obtain rfl := fits.unique fits'
          exact result.unique result'
  | binary left right operates =>
      cases second with
      | binary left' right' operates' =>
          obtain rfl := left.unique names left'
          obtain rfl := right.unique names right'
          exact operates.unique operates'

theorem HaveTypes.unique {items : List (Item α)} (names : (items.map Item.name).Nodup) {env : Env}
    {es : List (Expr α)} {as bs : List Ty} (first : HaveTypes items env es as)
    (second : HaveTypes items env es bs) : as = bs := by
  cases first with
  | nil => cases second; rfl
  | cons typed more =>
      cases second with
      | cons typed' more' => rw [typed.unique names typed', more.unique names more']

end

/-- A statement leaves one context behind. -/
theorem Checks.unique {items : List (Item α)} (names : (items.map Item.name).Nodup)
    {typeParams : List String} {result : Ty} {env a b : Env} {stmt : Stmt α}
    (first : Checks items typeParams result env stmt a)
    (second : Checks items typeParams result env stmt b) : a = b := by
  cases first with
  | inferred typed =>
      cases second with
      | inferred typed' => rw [typed.unique names typed']
  | annotated _ named _ =>
      cases second with
      | annotated _ named' _ => rw [named.unique names named']
  | leave _ => cases second; rfl
  | ret _ _ => cases second; rfl
  | eval _ => cases second; rfl

end StagedCompiler.Typing
