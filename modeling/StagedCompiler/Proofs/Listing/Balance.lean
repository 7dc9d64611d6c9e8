import StagedCompiler.Proofs.Listing.Emission

/-!
# When code leaves the stack balanced

The effect of instructions on the depth of the stack, as the emission of expression statements takes it
for granted: a call leaves a value behind unless its type is unit, and a return takes one unless its
function gives unit.  Code is `Balanced` if it never takes a value from an empty stack, the stack is
empty behind every statement, and it is empty behind the last return.

Emission looks at types only where the value of an expression statement is dropped.  So the code of a
function is balanced exactly if its body is `Tidy` (`balanced_iff`): no call of type unit stands where a
value is used, nothing else of type unit is dropped or returned, and a function with a result ends in a
return.
-/

namespace StagedCompiler.Listing

open StagedCompiler.Module (Kind Outline Numbered Holds)
open StagedCompiler.Module.Outline (ChildrenFit WellShaped)

/-! ## Lines and their effect -/

/-- An instruction with the type that its effect may depend on: of the node that it was emitted for,
and for a return that of its function. -/
structure Line : Type where
  instruction : Instruction
  ty : Ty

namespace Line

/-- How many values a line takes from the stack. -/
def takes (l : Line) : Nat :=
  match l.instruction with
  | .push _ | .load _ => 0
  | .store _ | .pop | .getField _ _ => 1
  | .operate _ => 2
  | .call _ arguments => arguments
  | .ret => if l.ty = .unit then 0 else 1

/-- How many values a line puts on the stack. -/
def gives (l : Line) : Nat :=
  match l.instruction with
  | .push _ | .load _ | .operate _ | .getField _ _ => 1
  | .store _ | .pop | .ret => 0
  | .call _ _ => if l.ty = .unit then 0 else 1

end Line

/-- The depth of the stack behind lines, unless one of them takes more than there is. -/
def depthBehind : List Line → Nat → Option Nat
  | [], depth => some depth
  | l :: rest, depth =>
    if l.takes ≤ depth then depthBehind rest (depth - l.takes + l.gives) else none

/-- The depth behind two pieces of code is that of the second one from the depth behind the first one.
-/
theorem depthBehind_append (ls ms : List Line) (depth : Nat) :
    depthBehind (ls ++ ms) depth = (depthBehind ls depth).bind (depthBehind ms) := by
  induction ls generalizing depth with
  | nil => rfl
  | cons l rest ih =>
      rw [List.cons_append, depthBehind, depthBehind]
      split
      · exact ih _
      · rfl

theorem depthBehind_singleton (l : Line) (depth : Nat) :
    depthBehind [l] depth = if l.takes ≤ depth then some (depth - l.takes + l.gives) else none :=
  rfl

/-- The last line of code takes what the lines before it have left. -/
theorem depthBehind_concat {ls : List Line} {l : Line} {depth last : Nat} :
    depthBehind (ls ++ [l]) depth = some last ↔
      ∃ mid, depthBehind ls depth = some mid ∧ l.takes ≤ mid ∧ last = mid - l.takes + l.gives := by
  rw [depthBehind_append, Option.bind_eq_some_iff]
  refine exists_congr fun mid => and_congr_right fun _ => ?_
  rw [depthBehind_singleton]
  split
  · next enough => simp only [enough, Option.some.injEq, true_and, eq_comm]
  · next short => simp only [short, false_and, reduceCtorEq]

/-! ## Lines of a function -/

section Lines

variable (D : Descriptor.Table)

mutual

/-- The lines of an expression. -/
def exprLines : Outline → List Line
  | .node kind d ty operands =>
    exprsLines operands ++ [⟨instructionOf D kind d operands.length, ty⟩]

/-- The lines of expressions, one after another. -/
def exprsLines : List Outline → List Line
  | [] => []
  | o :: rest => exprLines o ++ exprsLines rest

end

/-- The lines of a statement in a function with a result type. -/
def stmtLines (result : Ty) : Outline → List Line
  | .node (.letBind _) d ty values => exprsLines D values ++ [⟨.store (label D d), ty⟩]
  | .node .ret _ _ values => exprsLines D values ++ [⟨.ret, result⟩]
  | .node .eval _ ty values =>
    if ty == .unit then exprsLines D values else exprsLines D values ++ [⟨.pop, ty⟩]
  | _ => []

mutual

/-- The statements of a statement: those of a block one by one. -/
def statements : Outline → List Outline
  | .node .block _ _ stmts => statementsAll stmts
  | o => [o]

/-- The statements of statements. -/
def statementsAll : List Outline → List Outline
  | [] => []
  | o :: rest => statements o ++ statementsAll rest

end

/-- The lines of a body in a function with a result type. -/
def bodyLines (result : Ty) (body : Outline) : List Line :=
  (statements body).flatMap (stmtLines D result) ++
    if endsInReturnOf body then [] else [⟨.ret, result⟩]

variable {D}

mutual

/-- The lines of an expression are its code, by recursion on it. -/
theorem exprLines_code (o : Outline) : (exprLines D o).map Line.instruction = exprCodeOf D o := by
  cases o with
  | node kind d ty operands =>
      rw [exprLines, exprCodeOf, List.map_append, exprsLines_code operands]
      rfl

theorem exprsLines_code (os : List Outline) :
    (exprsLines D os).map Line.instruction = exprCodesOf D os := by
  cases os with
  | nil => rfl
  | cons o rest =>
      rw [exprsLines, exprCodesOf, List.map_append, exprLines_code o, exprsLines_code rest]

end

mutual

/-- The lines of the statements of a block are its code, nested blocks included. -/
theorem statements_code (result : Ty) (o : Outline) :
    ((statements o).flatMap (stmtLines D result)).map Line.instruction = stmtCodeOf D o := by
  cases o with
  | node kind d ty parts =>
      cases kind with
      | block =>
          rw [statements, stmtCodeOf]
          exact statementsAll_code result parts
      | letBind name =>
          simp only [statements, List.flatMap_singleton, stmtLines, List.map_append,
            exprsLines_code, stmtCodeOf]
          rfl
      | ret =>
          simp only [statements, List.flatMap_singleton, stmtLines, List.map_append,
            exprsLines_code, stmtCodeOf]
          rfl
      | eval =>
          simp only [statements, List.flatMap_singleton, stmtLines, stmtCodeOf]
          split
          · exact exprsLines_code parts
          · rw [List.map_append, exprsLines_code]
            rfl
      | _ => rfl

theorem statementsAll_code (result : Ty) (os : List Outline) :
    ((statementsAll os).flatMap (stmtLines D result)).map Line.instruction = stmtCodesOf D os := by
  cases os with
  | nil => rfl
  | cons o rest =>
      rw [statementsAll, stmtCodesOf, List.flatMap_append, List.map_append, statements_code result o,
        statementsAll_code result rest]

end

/-- The lines of a body are its code. -/
theorem bodyLines_code (result : Ty) (body : Outline) :
    (bodyLines D result body).map Line.instruction = bodyCodeOf D body := by
  rw [bodyLines, bodyCodeOf, List.map_append, statements_code]
  split
  · exact List.append_nil _
  · rfl

end Lines

/-! ## Balanced code and tidy bodies -/

/-- The code of a body never takes a value from an empty stack, and the stack is empty behind every
statement and at the end. -/
def Balanced (D : Descriptor.Table) (result : Ty) (body : Outline) : Prop :=
  (∀ k, depthBehind (((statements body).take k).flatMap (stmtLines D result)) 0 = some 0) ∧
    depthBehind (bodyLines D result body) 0 = some 0

/-- Whether an expression leaves a value behind: all do but calls of type unit. -/
def leaves (o : Outline) : Bool := !(o.kind == .call && o.ty == .unit)

/-- All operands in an expression leave a value behind. -/
inductive Filled : Outline → Prop
  | node {kind : Kind} {d : Option DescriptorId} {ty : Ty} {operands : List Outline} :
    (∀ o ∈ operands, leaves o = true) → (∀ o ∈ operands, Filled o) →
    Filled (.node kind d ty operands)

/-- A statement in a function with a result type uses the values that its expression leaves behind. -/
inductive StmtTidy (result : Ty) : Outline → Prop
  | letBind {name : String} {d : Option DescriptorId} {ty : Ty} {o : Outline} : Filled o →
    leaves o = true → StmtTidy result (.node (.letBind name) d ty [o])
  | eval {d : Option DescriptorId} {ty : Ty} {o : Outline} : Filled o →
    (leaves o = true ↔ ty ≠ .unit) → StmtTidy result (.node .eval d ty [o])
  | leave {d : Option DescriptorId} {ty : Ty} : result = .unit →
    StmtTidy result (.node .ret d ty [])
  | ret {d : Option DescriptorId} {ty : Ty} {o : Outline} : Filled o →
    (leaves o = true ↔ result ≠ .unit) → StmtTidy result (.node .ret d ty [o])

/-- All statements of a body are tidy, and the body of a function with a result ends in a return. -/
structure Tidy (result : Ty) (body : Outline) : Prop where
  statements : ∀ o ∈ statements body, StmtTidy result o
  ending : endsInReturnOf body = true ∨ result = .unit

/-! ## Expressions -/

section Expressions

variable {D : Descriptor.Table}

/-- Below expressions and simple statements there are expressions. -/
theorem operands_shaped {kind : Kind} {d : Option DescriptorId} {ty : Ty}
    {operands : List Outline}
    (inner : kind.isExpression = true ∨ kind.isStatement = true ∧ kind ≠ .block)
    (shaped : (Outline.node kind d ty operands).WellShaped D) :
    ∀ o ∈ operands, o.WellShaped D ∧ o.kind.isExpression = true := by
  cases shaped with
  | node _ fits below =>
      intro o member
      refine ⟨below o member, ?_⟩
      have among : o.kind ∈ operands.map Outline.kind := List.mem_map_of_mem member
      cases kind with
      | call => exact fits _ among
      | fieldGet | binary op | letBind name | eval | ret => exact fits.2 _ among
      | localRef | constant value =>
          have empty : operands.map Outline.kind = [] := fits
          rw [empty] at among
          cases among
      | block => simp [Kind.isExpression] at inner
      | _ => simp [Kind.isExpression, Kind.isStatement] at inner

/-- The instruction of an expression takes a value for each operand, and it gives one if the expression
leaves one behind. -/
theorem effect_instructionOf {kind : Kind} {d : Option DescriptorId} {ty : Ty}
    {operands : List Outline} (expression : kind.isExpression = true)
    (shaped : (Outline.node kind d ty operands).WellShaped D) :
    (Line.mk (instructionOf D kind d operands.length) ty).takes = operands.length ∧
      (Line.mk (instructionOf D kind d operands.length) ty).gives =
        (leaves (.node kind d ty operands)).toNat := by
  cases shaped with
  | node _ fits _ =>
      cases kind with
      | constant value | localRef =>
          have empty : operands.map Outline.kind = [] := fits
          rw [List.map_eq_nil_iff] at empty
          subst empty
          exact ⟨rfl, rfl⟩
      | fieldGet | binary op =>
          have one := fits.1
          rw [List.length_map] at one
          exact ⟨one.symm, rfl⟩
      | call =>
          refine ⟨rfl, ?_⟩
          by_cases unit : ty = .unit
          · subst unit
            rfl
          · have other : (ty == Ty.unit) = false := beq_eq_false_iff_ne.mpr unit
            simp [Line.gives, instructionOf, leaves, Outline.ty, unit, other]
      | _ => cases expression

mutual

/-- Filled expressions put a value on the stack if they leave one behind. -/
theorem depthBehind_of_filled (o : Outline) (shaped : o.WellShaped D)
    (expression : o.kind.isExpression = true) (filled : Filled o) (depth : Nat) :
    depthBehind (exprLines D o) depth = some (depth + (leaves o).toNat) := by
  cases o with
  | node kind d ty operands =>
      have expression : kind.isExpression = true := expression
      have below := operands_shaped (.inl expression) shaped
      obtain ⟨takes, gives⟩ := effect_instructionOf expression shaped
      cases filled with
      | node leave filled =>
          have before := depthBehind_of_filleds operands below filled depth
          rw [List.countP_eq_length.mpr leave] at before
          rw [exprLines, depthBehind_concat]
          refine ⟨_, before, ?_, ?_⟩
          · rw [takes]
            omega
          · rw [takes, gives]
            omega

/-- Arguments that are filled leave as many values as they are. -/
theorem depthBehind_of_filleds (os : List Outline)
    (shaped : ∀ o ∈ os, o.WellShaped D ∧ o.kind.isExpression = true)
    (filled : ∀ o ∈ os, Filled o) (depth : Nat) :
    depthBehind (exprsLines D os) depth = some (depth + os.countP leaves) := by
  cases os with
  | nil => rfl
  | cons o rest =>
      rw [List.forall_mem_cons] at shaped filled
      rw [exprsLines, depthBehind_append,
        depthBehind_of_filled o shaped.1.1 shaped.1.2 filled.1 depth, Option.bind_some,
        depthBehind_of_filleds rest shaped.2 filled.2, List.countP_cons, Nat.add_assoc,
        Nat.add_comm (List.countP leaves rest)]
      cases leaves o <;> rfl

end

mutual

/-- An expression puts no more on the stack than it leaves behind, and that much only if it is
filled. -/
theorem depthBehind_le (o : Outline) (shaped : o.WellShaped D)
    (expression : o.kind.isExpression = true) {depth last : Nat}
    (ran : depthBehind (exprLines D o) depth = some last) :
    last ≤ depth + (leaves o).toNat ∧ (last = depth + (leaves o).toNat → Filled o) := by
  cases o with
  | node kind d ty operands =>
      have expression : kind.isExpression = true := expression
      obtain ⟨takes, gives⟩ := effect_instructionOf expression shaped
      rw [exprLines, depthBehind_concat, takes, gives] at ran
      obtain ⟨mid, before, enough, rfl⟩ := ran
      obtain ⟨most, filled⟩ := depthBehinds_le operands (operands_shaped (.inl expression) shaped) before
      have few : operands.countP leaves ≤ operands.length := List.countP_le_length
      refine ⟨by omega, fun all => ?_⟩
      -- Nothing is missing behind the instruction, so it has found a value of each operand.
      have full : operands.countP leaves = operands.length := by omega
      exact .node (List.countP_eq_length.mp full) (filled (by omega))

/-- Arguments never leave more values than they are, and as many only if all are filled. -/
theorem depthBehinds_le (os : List Outline)
    (shaped : ∀ o ∈ os, o.WellShaped D ∧ o.kind.isExpression = true) {depth last : Nat}
    (ran : depthBehind (exprsLines D os) depth = some last) :
    last ≤ depth + os.countP leaves ∧ (last = depth + os.countP leaves → ∀ o ∈ os, Filled o) := by
  cases os with
  | nil =>
      obtain rfl := Option.some.inj ran
      exact ⟨Nat.le_refl _, by simp⟩
  | cons o rest =>
      rw [List.forall_mem_cons] at shaped
      rw [exprsLines, depthBehind_append, Option.bind_eq_some_iff] at ran
      obtain ⟨mid, here, later⟩ := ran
      obtain ⟨most, filled⟩ := depthBehind_le o shaped.1.1 shaped.1.2 here
      obtain ⟨more, others⟩ := depthBehinds_le rest shaped.2 later
      have count : (o :: rest).countP leaves = rest.countP leaves + (leaves o).toNat := by
        rw [List.countP_cons]
        cases leaves o <;> rfl
      rw [count]
      refine ⟨by omega, fun all => ?_⟩
      rw [List.forall_mem_cons]
      exact ⟨filled (by omega), others (by omega)⟩

end

/-- On an empty stack the code of an expression goes through exactly if the expression is filled. -/
theorem depthBehind_eq_some_iff {o : Outline} (shaped : o.WellShaped D)
    (expression : o.kind.isExpression = true) {last : Nat} :
    depthBehind (exprLines D o) 0 = some last ↔ Filled o ∧ last = (leaves o).toNat := by
  constructor
  · intro ran
    -- The last instruction finds a value for each operand, so all operands have left one.
    have whole := ran
    cases o with
    | node kind d ty operands =>
        have expression : kind.isExpression = true := expression
        obtain ⟨takes, gives⟩ := effect_instructionOf expression shaped
        rw [exprLines, depthBehind_concat, takes, gives] at ran
        obtain ⟨mid, before, enough, rfl⟩ := ran
        obtain ⟨most, _⟩ := depthBehinds_le operands (operands_shaped (.inl expression) shaped) before
        have few : operands.countP leaves ≤ operands.length := List.countP_le_length
        have all : mid - operands.length = 0 := by omega
        rw [all, Nat.zero_add] at whole ⊢
        exact ⟨(depthBehind_le _ shaped expression whole).2 (Nat.zero_add _).symm, rfl⟩
  · intro given
    obtain ⟨filled, rfl⟩ := given
    rw [depthBehind_of_filled o shaped expression filled, Nat.zero_add]

end Expressions

/-! ## Statements -/

section Statements

variable {D : Descriptor.Table} {result : Ty}

theorem exprsLines_singleton (o : Outline) : exprsLines D [o] = exprLines D o :=
  List.append_nil _

theorem toNat_leaves_eq_one_iff {o : Outline} : (leaves o).toNat = 1 ↔ leaves o = true := by
  cases leaves o <;> simp

/-- Behind an expression a line that takes one value, or that takes none. -/
theorem depthBehind_value_iff {o : Outline} (shaped : o.WellShaped D)
    (expression : o.kind.isExpression = true) {l : Line} (gives : l.gives = 0)
    (takes : l.takes ≤ 1) :
    depthBehind (exprLines D o ++ [l]) 0 = some 0 ↔
      Filled o ∧ (leaves o = true ↔ l.takes = 1) := by
  rw [depthBehind_concat]
  have small : (leaves o).toNat ≤ 1 := Bool.toNat_le (leaves o)
  constructor
  · rintro ⟨mid, ran, enough, zero⟩
    obtain ⟨filled, rfl⟩ := (depthBehind_eq_some_iff shaped expression).mp ran
    refine ⟨filled, ?_⟩
    rw [← toNat_leaves_eq_one_iff]
    omega
  · rintro ⟨filled, same⟩
    rw [← toNat_leaves_eq_one_iff] at same
    refine ⟨_, (depthBehind_eq_some_iff shaped expression).mpr ⟨filled, rfl⟩, ?_, ?_⟩
    · omega
    · omega

/-! One lemma for each statement: its code leaves an empty stack empty exactly if it is tidy. -/

section Values

variable {o : Outline} {d : Option DescriptorId} {ty : Ty} (shaped : o.WellShaped D)
  (expression : o.kind.isExpression = true)
include shaped expression

/-- A `let` is balanced exactly if its value leaves one. -/
theorem letLines_balanced_iff {name : String} :
    depthBehind (stmtLines D result (.node (.letBind name) d ty [o])) 0 = some 0 ↔
      StmtTidy result (.node (.letBind name) d ty [o]) := by
  rw [stmtLines, exprsLines_singleton,
    depthBehind_value_iff (l := ⟨.store (label D d), ty⟩) shaped expression rfl (Nat.le_refl 1)]
  constructor
  · exact fun given => .letBind given.1 (given.2.mpr rfl)
  · intro tidy
    cases tidy with
    | letBind filled leave => exact ⟨filled, fun _ => rfl, fun _ => leave⟩

/-- An evaluation is balanced exactly if what it pops is what its expression leaves. -/
theorem evalLines_balanced_iff :
    depthBehind (stmtLines D result (.node .eval d ty [o])) 0 = some 0 ↔
      StmtTidy result (.node .eval d ty [o]) := by
  have tidy_iff : StmtTidy result (.node .eval d ty [o]) ↔
      Filled o ∧ (leaves o = true ↔ ty ≠ .unit) := by
    constructor
    · intro tidy
      cases tidy with
      | eval filled same => exact ⟨filled, same⟩
    · exact fun given => .eval given.1 given.2
  rw [tidy_iff, stmtLines, exprsLines_singleton]
  by_cases unit : ty = .unit
  · rw [if_pos (beq_iff_eq.mpr unit), depthBehind_eq_some_iff shaped expression]
    refine and_congr_right fun _ => ?_
    cases leaves o <;> simp [unit]
  · rw [if_neg fun is => unit (beq_iff_eq.mp is),
      depthBehind_value_iff (l := ⟨.pop, ty⟩) shaped expression rfl (Nat.le_refl 1)]
    exact and_congr_right fun _ => iff_congr Iff.rfl ⟨fun _ => unit, fun _ => rfl⟩

/-- A return is balanced exactly if it takes what its value leaves. -/
theorem retLines_balanced_iff :
    depthBehind (stmtLines D result (.node .ret d ty [o])) 0 = some 0 ↔
      StmtTidy result (.node .ret d ty [o]) := by
  have one : (Line.mk .ret result).takes = 1 ↔ result ≠ .unit := by
    by_cases unit : result = .unit <;> simp [Line.takes, unit]
  have most : (Line.mk .ret result).takes ≤ 1 := by
    by_cases unit : result = .unit <;> simp [Line.takes, unit]
  rw [stmtLines, exprsLines_singleton, depthBehind_value_iff shaped expression rfl most, one]
  constructor
  · exact fun given => .ret given.1 given.2
  · intro tidy
    cases tidy with
    | ret filled same => exact ⟨filled, same⟩

end Values

/-- A return without a value is balanced exactly if the function returns none. -/
theorem leaveLines_balanced_iff {d : Option DescriptorId} {ty : Ty} :
    depthBehind (stmtLines D result (.node .ret d ty [])) 0 = some 0 ↔
      StmtTidy result (.node .ret d ty []) := by
  have tidy_iff : StmtTidy result (.node .ret d ty []) ↔ result = .unit := by
    constructor
    · intro tidy
      cases tidy with
      | leave unit => exact unit
    · exact fun unit => .leave unit
  rw [tidy_iff, stmtLines, exprsLines, List.nil_append, depthBehind_singleton]
  by_cases unit : result = .unit <;> simp [Line.takes, Line.gives, unit]

/-- The stack is empty behind a statement exactly if the statement is tidy. -/
theorem stmtLines_balanced_iff {o : Outline} (shaped : o.WellShaped D)
    (statement : o.kind.isStatement = true) (simple : o.kind ≠ .block) :
    depthBehind (stmtLines D result o) 0 = some 0 ↔ StmtTidy result o := by
  rcases o with ⟨kind, d, ty, parts⟩
  have below := operands_shaped (.inr ⟨statement, simple⟩) shaped
  cases shaped with
  | node _ fits _ =>
      cases kind with
      | block => exact absurd rfl simple
      | letBind name =>
          have one := fits.1
          rw [List.length_map] at one
          obtain ⟨o, rfl⟩ := List.length_eq_one_iff.mp one
          obtain ⟨shaped, expression⟩ := below o List.mem_cons_self
          exact letLines_balanced_iff shaped expression
      | eval =>
          have one := fits.1
          rw [List.length_map] at one
          obtain ⟨o, rfl⟩ := List.length_eq_one_iff.mp one
          obtain ⟨shaped, expression⟩ := below o List.mem_cons_self
          exact evalLines_balanced_iff shaped expression
      | ret =>
          have most := fits.1
          rw [List.length_map] at most
          rcases parts with _ | ⟨o, _ | ⟨_, _⟩⟩
          · exact leaveLines_balanced_iff
          · obtain ⟨shaped, expression⟩ := below o List.mem_cons_self
            exact retLines_balanced_iff shaped expression
          · rw [List.length_cons, List.length_cons] at most
            omega
      | _ => cases statement

mutual

/-- The statements of a statement are no blocks. -/
theorem mem_statements (o : Outline) (shaped : o.WellShaped D)
    (statement : o.kind.isStatement = true) :
    ∀ s ∈ statements o, s.WellShaped D ∧ s.kind.isStatement = true ∧ s.kind ≠ .block := by
  cases o with
  | node kind d ty parts =>
      cases kind with
      | block =>
          cases shaped with
          | node _ fits below =>
              rw [statements]
              exact mem_statementsAll parts fun s member =>
                ⟨below s member, fits _ (List.mem_map_of_mem member)⟩
      | letBind name | eval | ret =>
          rw [statements, List.forall_mem_singleton]
          · exact ⟨shaped, statement, by simp⟩
          · simp
      | _ => cases statement

theorem mem_statementsAll (os : List Outline)
    (shaped : ∀ o ∈ os, o.WellShaped D ∧ o.kind.isStatement = true) :
    ∀ s ∈ statementsAll os, s.WellShaped D ∧ s.kind.isStatement = true ∧ s.kind ≠ .block := by
  cases os with
  | nil => simp [statementsAll]
  | cons o rest =>
      rw [List.forall_mem_cons] at shaped
      rw [statementsAll, List.forall_mem_append]
      exact ⟨mem_statements o shaped.1.1 shaped.1.2, mem_statementsAll rest shaped.2⟩

end

/-- The stack is empty behind each statement exactly if each statement leaves an empty stack empty. -/
theorem forall_take_iff {os : List Outline} {lines : Outline → List Line} :
    (∀ k, depthBehind ((os.take k).flatMap lines) 0 = some 0) ↔
      ∀ o ∈ os, depthBehind (lines o) 0 = some 0 := by
  constructor
  · intro each
    induction os with
    | nil => simp
    | cons o rest ih =>
        have first : depthBehind (lines o) 0 = some 0 := by
          have one := each 1
          rwa [List.take_succ_cons, List.take_zero, List.flatMap_singleton] at one
        rw [List.forall_mem_cons]
        refine ⟨first, ih fun k => ?_⟩
        have more := each (k + 1)
        rwa [List.take_succ_cons, List.flatMap_cons, depthBehind_append, first,
          Option.bind_some] at more
  · intro each k
    induction os generalizing k with
    | nil => simp [depthBehind]
    | cons o rest ih =>
        rw [List.forall_mem_cons] at each
        cases k with
        | zero => rfl
        | succ k =>
            rw [List.take_succ_cons, List.flatMap_cons, depthBehind_append, each.1,
              Option.bind_some]
            exact ih each.2 k

/-- The code of a body is balanced exactly if the body is tidy. -/
theorem balanced_iff {body : Outline} (shaped : body.WellShaped D) (block : body.kind = .block) :
    Balanced D result body ↔ Tidy result body := by
  have statement : body.kind.isStatement = true := by
    rw [block]
    rfl
  have each : (∀ k, depthBehind (((statements body).take k).flatMap (stmtLines D result)) 0 =
      some 0) ↔ ∀ o ∈ statements body, StmtTidy result o := by
    rw [forall_take_iff]
    refine forall₂_congr fun o member => ?_
    obtain ⟨shaped, statement, simple⟩ := mem_statements body shaped statement o member
    exact stmtLines_balanced_iff shaped statement simple
  have ending : (∀ k, depthBehind (((statements body).take k).flatMap (stmtLines D result)) 0 =
      some 0) → (depthBehind (bodyLines D result body) 0 = some 0 ↔
        endsInReturnOf body = true ∨ result = .unit) := by
    intro empty
    have all := empty (statements body).length
    rw [List.take_length] at all
    rw [bodyLines, depthBehind_append, all, Option.bind_some]
    cases endsInReturnOf body with
    | true => simp [depthBehind]
    | false =>
        by_cases unit : result = .unit <;> simp [depthBehind, Line.takes, Line.gives, unit]
  constructor
  · intro balanced
    exact ⟨each.mp balanced.1, (ending balanced.1).mp balanced.2⟩
  · intro tidy
    have empty := each.mpr tidy.statements
    exact ⟨empty, (ending empty).mpr tidy.ending⟩

end Statements

end StagedCompiler.Listing
