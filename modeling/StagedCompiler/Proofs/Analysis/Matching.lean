import StagedCompiler.Proofs.Analysis.Places

/-!
# Arguments, operands and scopes as the typing rules have them

The parts of resolution that compare types, set beside the rules of `Typing`: arguments are matched with
parameters (`matchArguments_sound`, `matchArguments_complete`), operands with operators
(`operandsFit_iff`), and the locals in scope are those of a typing context (`Reflects.lookup`).
-/

namespace StagedCompiler.Resolution

open Source (Item Site Typed)
open Typing (Signature SignatureOf HostSignature Calls Fits ResultTy Operates NamesType)

variable {items : List (Item Site)} {ctx : Context}

/-! ## Arguments and operands -/

section Arguments

variable {fixed : Typing.Env} {arg : Argument} {name t : String} {expected : Ty}
  {rest : List (Argument × Descriptor.Param)}

/-- An argument compared with a type. -/
theorem matchArguments_plain (closed : ∀ t, expected ≠ .param t) :
    matchArguments fixed ((arg, ⟨name, expected⟩) :: rest) =
      (if expected.accepts arg.ty then (matchArguments fixed rest).1
        else ⟨arg, name, expected⟩ :: (matchArguments fixed rest).1, (matchArguments fixed rest).2) := by
  cases expected with
  | param t => exact absurd rfl (closed t)
  | _ => rfl

/-- An argument for a type parameter that is still open settles it. -/
theorem matchArguments_first (absent : fixed.lookup t = none) :
    matchArguments fixed ((arg, ⟨name, .param t⟩) :: rest) =
      matchArguments ((t, arg.ty) :: fixed) rest := by
  simp only [matchArguments, absent]

/-- An argument for a type parameter that is settled is compared with what settled it. -/
theorem matchArguments_later (found : fixed.lookup t = some expected) :
    matchArguments fixed ((arg, ⟨name, .param t⟩) :: rest) =
      (if expected.accepts arg.ty then (matchArguments fixed rest).1
        else ⟨arg, name, expected⟩ :: (matchArguments fixed rest).1, (matchArguments fixed rest).2) := by
  simp only [matchArguments, found]

/-- A type is a type parameter or no argument can settle it. -/
theorem param_or_closed (ty : Ty) : (∃ t, ty = .param t) ∨ ∀ t, ty ≠ .param t := by
  cases ty with
  | param t => exact Or.inl ⟨t, rfl⟩
  | _ => exact Or.inr (by simp)

end Arguments

/-- If no argument is left over, the arguments fit the parameters by the rules, and type parameters
stand for what the matching says. -/
theorem matchArguments_sound {args : List Argument} {params : List Descriptor.Param}
    {fixed : Typing.Env} (length : args.length = params.length)
    (fit : (matchArguments fixed (args.zip params)).1 = []) :
    Fits fixed (args.map (·.ty)) (params.map (·.ty))
      (matchArguments fixed (args.zip params)).2 := by
  induction args generalizing params fixed with
  | nil =>
      cases params with
      | nil => exact .nil
      | cons param params => cases length
  | cons arg args ih =>
      cases params with
      | nil => cases length
      | cons param params =>
          have shorter : args.length = params.length := Nat.succ.inj length
          rcases param with ⟨name, ty⟩
          rw [List.zip_cons_cons] at fit ⊢
          rcases param_or_closed ty with ⟨t, rfl⟩ | closed
          · cases found : fixed.lookup t with
            | none =>
                rw [matchArguments_first found] at fit ⊢
                exact .first found (ih shorter fit)
            | some expected =>
                rw [matchArguments_later found] at fit ⊢
                split at fit
                · rename_i accepted
                  exact .later found accepted (ih shorter fit)
                · cases fit
          · rw [matchArguments_plain closed] at fit ⊢
            split at fit
            · rename_i accepted
              exact .plain closed accepted (ih shorter fit)
            · cases fit

/-- If arguments fit by the rules, none is left over. -/
theorem matchArguments_complete {args : List Argument} {params : List Descriptor.Param}
    {fixed final : Typing.Env} (fits : Fits fixed (args.map (·.ty)) (params.map (·.ty)) final) :
    (matchArguments fixed (args.zip params)).1 = [] := by
  induction args generalizing params fixed with
  | nil => rfl
  | cons arg args ih =>
      cases params with
      | nil => cases fits
      | cons param params =>
          rcases param with ⟨name, ty⟩
          rw [List.map_cons, List.map_cons] at fits
          rw [List.zip_cons_cons]
          cases fits with
          | plain closed accepted rest =>
              rw [matchArguments_plain closed, if_pos accepted]
              exact ih rest
          | first absent rest =>
              rw [matchArguments_first absent]
              exact ih rest
          | later found accepted rest =>
              rw [matchArguments_later found, if_pos accepted]
              exact ih rest

/-- The type of a call is the result type with type parameters replaced, as the rules have it. -/
theorem resultTy_spec (fixed : Typing.Env) (ty : Ty) : ResultTy fixed ty (resultTy fixed ty) := by
  cases ty with
  | param name =>
      show ResultTy fixed (.param name) ((fixed.lookup name).getD (.param name))
      cases found : fixed.lookup name with
      | none => exact .free found
      | some ty => exact .fixed found
  | _ => exact .plain (by simp)

/-- Operands fit an operator exactly if the rules give the operation a type. -/
theorem operandsFit_iff {op : Operator} {a b : Ty} :
    operandsFit op a b = true ↔ ∃ ty, Operates op a b ty := by
  constructor
  · intro fit
    cases op with
    | eq => exact ⟨_, .eq fit⟩
    | lt =>
        obtain ⟨left, right⟩ := Bool.and_eq_true_iff.mp fit
        exact ⟨_, .lt left right⟩
    | _ =>
        obtain ⟨left, right⟩ := Bool.and_eq_true_iff.mp fit
        exact ⟨_, .arith rfl left right⟩
  · intro given
    rcases given with ⟨ty, operates⟩
    cases operates with
    | eq accepted => exact accepted
    | lt left right => exact Bool.and_eq_true_iff.mpr ⟨left, right⟩
    | arith arithmetic left right =>
        cases op with
        | eq => cases arithmetic
        | lt => cases arithmetic
        | _ => exact Bool.and_eq_true_iff.mpr ⟨left, right⟩

/-- If operands fit, the type by the rules is that of the operator. -/
theorem operatorTy_spec {op : Operator} {a b : Ty} (fit : operandsFit op a b = true) :
    Operates op a b (operatorTy op) := by
  obtain ⟨ty, operates⟩ := operandsFit_iff.mp fit
  cases operates with
  | eq accepted => exact .eq accepted
  | lt left right => exact .lt left right
  | arith arithmetic left right =>
      rw [operatorTy, arithmetic]
      exact .arith arithmetic left right

/-! ## What callees are -/

/-- The descriptors of items have the signatures that the rules give them. -/
def Signed (items : List (Item Site)) (D : Descriptor.Table) : Prop :=
  ∀ i item, items[i]? = some item → ∃ d, D.get? i = some d ∧ d.name = item.name ∧
    d.kind = itemKind item ∧ SignatureOf items i item ⟨d.params.map (·.ty), d.ty⟩

/-- Classes and functions can be called. -/
theorem isCallable_of_item {d : Descriptor} {item : Item Site} (kind : d.kind = itemKind item) :
    d.isCallable = true := by
  unfold Descriptor.isCallable
  rw [kind]
  cases item <;> rfl

/-! ## Scopes -/

/-- The locals in scope have the names and types of a context. -/
def Reflects (D : Descriptor.Table) (scope : Scope) (env : Typing.Env) : Prop :=
  List.Forall₂ (fun entry typed => entry.1 = typed.1 ∧ ∃ d, D.get? entry.2 = some d ∧
    d.name = typed.1 ∧ d.ty = typed.2 ∧ d.isCallable = false) scope env

/-- A scope keeps its names and types while the table grows. -/
theorem Reflects.extends {D D' : Descriptor.Table} {scope : Scope} {env : Typing.Env}
    (reflects : Reflects D scope env) (grown : Extends D D') : Reflects D' scope env := by
  refine reflects.imp ?_
  intro entry typed post
  rcases post with ⟨same, d, found, rest⟩
  exact ⟨same, d, grown _ _ found, rest⟩

/-- A name is a local in scope exactly if the typing context has it, and then it has the same type in
both. -/
theorem Reflects.lookup {D : Descriptor.Table} {scope : Scope} {env : Typing.Env}
    (reflects : Reflects D scope env) (name : String) :
    (scope.lookup name = none ∧ env.lookup name = none) ∨
      ∃ i d, scope.lookup name = some i ∧ env.lookup name = some d.ty ∧ D.get? i = some d ∧
        d.name = name ∧ d.isCallable = false := by
  induction reflects with
  | nil => exact Or.inl ⟨rfl, rfl⟩
  | @cons entry typed scope env first _ ih =>
      obtain ⟨same, d, found, named, ty, uncallable⟩ := first
      rcases entry with ⟨entry, i⟩
      rcases typed with ⟨typed, t⟩
      simp only at same found named ty
      subst same ty
      rw [List.lookup_cons, List.lookup_cons]
      by_cases here : name = entry
      · subst here
        rw [beq_self_eq_true]
        exact Or.inr ⟨i, d, rfl, rfl, found, named, uncallable⟩
      · rw [beq_false_of_ne here]
        exact ih

/-- The parameters of a function are a scope with their names and types.  The last one is the
innermost. -/
theorem reflects_members {D : Descriptor.Table} {members : List (Typed Site)}
    {ps : List (Descriptor.Param × DescriptorId)}
    (each : List.Forall₂ (fun m p => ∃ d, D.get? p.2 = some d ∧ d.name = m.name ∧ d.kind = .param ∧
      d.ty = p.1.ty) members ps) :
    Reflects D (((members.map (·.name)).zip (ps.map (·.2))).reverse)
      (((members.map (·.name)).zip (ps.map (·.1.ty))).reverse) := by
  unfold Reflects
  rw [List.forall₂_reverse_iff]
  induction each with
  | nil => exact .nil
  | @cons m p members ps first _ ih =>
      obtain ⟨d, entry, named, kind, ty⟩ := first
      refine .cons ⟨rfl, d, entry, named, ty, ?_⟩ ih
      unfold Descriptor.isCallable
      rw [kind]

end StagedCompiler.Resolution
