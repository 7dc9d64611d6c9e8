import StagedCompiler.Proofs.Listing.Machine
import StagedCompiler.Proofs.Lowering.Scoping

/-!
# Code computes what outlines compute

The code of an expression leaves its value on the stack, or traps where the expression fails
(`exprCode_correct`); the code of statements follows them (`exec_stmtCodes`).  What ties the two
runs together is `Mirrors`: a name in scope has in the memory the value that its descriptor has in
the environment.  A store keeps this, although it overwrites a local of the same name: that local is
out of scope from there on.
-/

namespace StagedCompiler.Machine

open Listing
open StagedCompiler.Module (Kind Outline)
open StagedCompiler.Module.Outline (WellShaped Names Visible ScopedValues ScopedStmts IsParam
  Everywhere evaluate evaluateAll execute executeAll)

/-! ## Runs with requests -/

section Runs

variable {α β : Type} {x : Run α} {f : α → Run β} {trace later : List Request}

theorem run_bind_ok {a : α} (first : x.run.run trace = (.ok a, later)) :
    (x >>= f).run.run trace = (f a).run.run later := by
  rw [ExceptT.run_bind, StateT.run_bind, first]
  rfl

theorem run_bind_error {why : Failure} (first : x.run.run trace = (.error why, later)) :
    (x >>= f).run.run trace = (.error why, later) := by
  rw [ExceptT.run_bind, StateT.run_bind, first]
  rfl

end Runs

/-! ## Names and descriptors -/

/-- A memory has under the names in scope what an environment has under their descriptors. -/
structure Mirrors (D : Descriptor.Table) (scope : Names) (env : Env) (memory : Memory) : Prop where
  labels : ∀ name i, scope.lookup name = some i → ∃ d, D.get? i = some d ∧ d.name = name
  values : ∀ name i, scope.lookup name = some i → memory name = some (env i)

/-- A local under its name mirrors the one under its descriptor. -/
theorem Mirrors.push {D : Descriptor.Table} {scope : Names} {env : Env} {memory : Memory}
    (mirrors : Mirrors D scope env memory) {i : DescriptorId} {d : Descriptor}
    (entry : D.get? i = some d) (v : Datum) :
    Mirrors D ((d.name, i) :: scope) (env.set i v) (memory.store d.name v) := by
  constructor
  · intro name j found
    rw [List.lookup_cons] at found
    split at found
    · rename_i same
      obtain rfl := Option.some.inj found
      exact ⟨d, entry, (beq_iff_eq.mp same).symm⟩
    · exact mirrors.labels name j found
  · intro name j found
    rw [List.lookup_cons] at found
    by_cases same : name = d.name
    · rw [same, beq_self_eq_true] at found
      obtain rfl := Option.some.inj found
      simp [Memory.store, Env.set, same]
    · rw [beq_false_of_ne same] at found
      have other : j ≠ i := by
        intro same
        subst same
        obtain ⟨d', entry', named⟩ := mirrors.labels name j found
        obtain rfl := Option.some.inj (entry.symm.trans entry')
        exact same named.symm
      simp only [Memory.store, Env.set, if_neg same, if_neg other]
      exact mirrors.values name j found

/-! ## Expressions -/

variable {answers : Surroundings} {D : Descriptor.Table} {scope : Names} {env : Env}
  {memory : Memory}

/-- What code goes on with behind the code of values: they are on the stack, the last one on top, or
the machine is trapped. -/
def behind (answers : Surroundings) (D : Descriptor.Table) (memory : Memory) (stack : List Datum)
    (rest : List Instruction) :
    Except Failure (List Datum) × List Request → Except Trap Halt × List Action
  | (.ok vs, trace) => exec answers rest ⟨vs.reverse ++ stack, memory⟩ (trace.map (.ofRequest D))
  | (.error why, trace) => (.error (.failed why), trace.map (.ofRequest D))

/-- The code of an expression computes its value. -/
def ExprCorrect (answers : Surroundings) (D : Descriptor.Table) (env : Env) (memory : Memory)
    (o : Outline) : Prop :=
  ∀ rest stack trace,
    exec answers (exprCodeOf D o ++ rest) ⟨stack, memory⟩ (trace.map (.ofRequest D)) =
      behind answers D memory stack rest
        ((evaluateAll (answers.oracle D) env [o]).run.run trace)

theorem evaluateAll_singleton_ok {oracle : Oracle} {o : Outline} {trace later : List Request}
    {v : Datum} (ran : (o.evaluate oracle env).run.run trace = (.ok v, later)) :
    (evaluateAll oracle env [o]).run.run trace = (.ok [v], later) := by
  rw [evaluateAll, run_bind_ok ran]
  rfl

theorem evaluateAll_error {oracle : Oracle} {o : Outline} {os : List Outline}
    {trace later : List Request} {why : Failure}
    (ran : (o.evaluate oracle env).run.run trace = (.error why, later)) :
    (evaluateAll oracle env (o :: os)).run.run trace = (.error why, later) := by
  rw [evaluateAll, run_bind_error ran]

/-- Arguments are computed one after another and pushed in order, up to the first that fails. -/
theorem exec_exprCodes {os : List Outline} (each : ∀ o ∈ os, ExprCorrect answers D env memory o)
    (rest : List Instruction) (stack : List Datum) (trace : List Request) :
    exec answers (exprCodesOf D os ++ rest) ⟨stack, memory⟩ (trace.map (.ofRequest D)) =
      behind answers D memory stack rest
        ((evaluateAll (answers.oracle D) env os).run.run trace) := by
  induction os generalizing stack trace with
  | nil => rfl
  | cons o os ih =>
      rw [List.forall_mem_cons] at each
      rw [exprCodesOf, List.append_assoc, each.1]
      rcases first : (o.evaluate (answers.oracle D) env).run.run trace with ⟨result, later⟩
      cases result with
      | error why => rw [evaluateAll_error first, evaluateAll_error first]; rfl
      | ok v =>
          rw [evaluateAll_singleton_ok first, evaluateAll, run_bind_ok first]
          show exec answers (exprCodesOf D os ++ rest) ⟨v :: stack, memory⟩ _ = _
          rw [ih each.2]
          rcases second : (evaluateAll (answers.oracle D) env os).run.run later with ⟨result, last⟩
          cases result with
          | error why => rw [run_bind_error second]; rfl
          | ok vs =>
              rw [run_bind_ok second]
              show exec answers rest ⟨vs.reverse ++ v :: stack, memory⟩ _ =
                exec answers rest ⟨(v :: vs).reverse ++ stack, memory⟩ _
              rw [List.reverse_cons, List.append_assoc]
              rfl

/-- As many arguments give as many values. -/
theorem length_evaluateAll {oracle : Oracle} {os : List Outline} {trace later : List Request}
    {vs : List Datum} (ran : (evaluateAll oracle env os).run.run trace = (.ok vs, later)) :
    vs.length = os.length := by
  induction os generalizing trace later vs with
  | nil => cases ran; rfl
  | cons o os ih =>
      rw [evaluateAll] at ran
      rcases first : (o.evaluate oracle env).run.run trace with ⟨result, middle⟩
      cases result with
      | error why => rw [run_bind_error first] at ran; cases ran
      | ok v =>
          rw [run_bind_ok first] at ran
          rcases second : (evaluateAll oracle env os).run.run middle with ⟨result, last⟩
          cases result with
          | error why => rw [run_bind_error second] at ran; cases ran
          | ok ws =>
              rw [run_bind_ok second] at ran
              cases ran
              rw [List.length_cons, List.length_cons, ih second]

theorem exec_cons {i : Instruction} (other : i ≠ .ret) (rest : List Instruction) (state : State)
    (trace : List Action) :
    exec answers (i :: rest) state trace =
      match step answers state trace i with
      | (.ok state, trace) => exec answers rest state trace
      | (.error trap, trace) => (.error trap, trace) := by
  cases i with
  | ret => exact absurd rfl other
  | _ => rfl

/-- A call finds its arguments on the stack. -/
theorem exec_call (name : String) (vs stack : List Datum) (rest : List Instruction)
    (trace : List Action) :
    exec answers (.call name vs.length :: rest) ⟨vs.reverse ++ stack, memory⟩ trace =
      exec answers rest ⟨answers trace (.call name vs) :: stack, memory⟩
        (trace ++ [.call name vs]) := by
  have enough : vs.length ≤ (vs.reverse ++ stack).length := by
    rw [List.length_append, List.length_reverse]
    omega
  have taken : (vs.reverse ++ stack).take vs.length = vs.reverse := by
    rw [List.take_append_of_le_length (by simp), List.take_of_length_le (by simp)]
  have left : (vs.reverse ++ stack).drop vs.length = stack := by
    rw [List.drop_append_of_le_length (by simp), List.drop_of_length_le (by simp), List.nil_append]
  rw [exec_cons (by simp)]
  simp only [step, if_pos enough, taken, left, List.reverse_reverse, perform]

theorem label_eq {i : DescriptorId} {d : Descriptor} (entry : D.get? i = some d) :
    label D (some i) = d.name := by
  unfold label
  rw [Option.bind_some, entry]
  rfl

section ExprCases

variable {d : Option DescriptorId} {ty : Ty} {cs : List Outline} {i : DescriptorId}

/-- A local is loaded by its name, which stands for its descriptor. -/
theorem localRef_correct {entry : Descriptor} (described : D.get? i = some entry)
    (value : memory entry.name = some (env i)) :
    ExprCorrect answers D env memory (.node .localRef (some i) ty []) := by
  intro rest stack trace
  show exec answers (.load (label D (some i)) :: rest) _ _ = _
  rw [label_eq described, exec_cons (by simp)]
  simp only [step, value]
  rfl

/-- A call takes its arguments off the stack in the order in which they were pushed. -/
theorem call_correct (each : ∀ c ∈ cs, ExprCorrect answers D env memory c) :
    ExprCorrect answers D env memory (.node .call (some i) ty cs) := by
  intro rest stack trace
  rw [exprCodeOf, List.append_assoc, exec_exprCodes each]
  rcases ran : (evaluateAll (answers.oracle D) env cs).run.run trace with ⟨result, later⟩
  cases result with
  | error why =>
      have fails : (evaluate (answers.oracle D) env (.node .call (some i) ty cs)).run.run trace =
          (.error why, later) := by
        rw [evaluate, run_bind_error ran]
      rw [evaluateAll_error fails]
      rfl
  | ok vs =>
      have gives : (evaluate (answers.oracle D) env (.node .call (some i) ty cs)).run.run trace =
          (.ok (answers.oracle D later (.call i vs)), later ++ [.call i vs]) := by
        rw [evaluate, run_bind_ok ran]
        rfl
      rw [evaluateAll_singleton_ok gives, ← length_evaluateAll ran]
      show exec answers (.call (label D (some i)) vs.length :: rest)
        ⟨vs.reverse ++ stack, memory⟩ _ = _
      rw [exec_call]
      simp only [behind, List.map_append, List.map_singleton, Action.ofRequest,
        Surroundings.oracle]
      rfl

/-- A read of a field takes the object off the stack. -/
theorem fieldGet_correct {e : Outline} (correct : ExprCorrect answers D env memory e) :
    ExprCorrect answers D env memory (.node .fieldGet (some i) ty [e]) := by
  intro rest stack trace
  show exec answers ((exprCodeOf D e ++ []) ++ [_] ++ rest) _ _ = _
  rw [List.append_nil, List.append_assoc, correct]
  rcases ran : (e.evaluate (answers.oracle D) env).run.run trace with ⟨result, later⟩
  cases result with
  | error why =>
      have fails : (evaluate (answers.oracle D) env
          (.node .fieldGet (some i) ty [e])).run.run trace = (.error why, later) := by
        rw [evaluate, run_bind_error ran]
      rw [evaluateAll_error fails, evaluateAll_error ran]
      rfl
  | ok v =>
      have gives : (evaluate (answers.oracle D) env
          (.node .fieldGet (some i) ty [e])).run.run trace =
            (.ok (answers.oracle D later (.read i v)), later ++ [.read i v]) := by
        rw [evaluate, run_bind_ok ran]
        rfl
      rw [evaluateAll_singleton_ok gives, evaluateAll_singleton_ok ran]
      show exec answers (.getField _ _ :: rest) ⟨v :: stack, memory⟩ _ = _
      rw [exec_cons (by simp)]
      simp only [behind, List.map_append, List.map_singleton, Surroundings.oracle]
      rfl

/-- An operation takes both operands off the stack, the right one first, and fails as its operator
does. -/
theorem binary_correct {op : Operator} {l r : Outline} (left : ExprCorrect answers D env memory l)
    (right : ExprCorrect answers D env memory r) :
    ExprCorrect answers D env memory (.node (.binary op) d ty [l, r]) := by
  intro rest stack trace
  show exec answers ((exprCodeOf D l ++ (exprCodeOf D r ++ [])) ++ [.operate op] ++ rest) _ _ = _
  rw [List.append_nil, List.append_assoc, List.append_assoc, left]
  rcases first : (l.evaluate (answers.oracle D) env).run.run trace with ⟨result, middle⟩
  cases result with
  | error why =>
      have fails : (evaluate (answers.oracle D) env
          (.node (.binary op) d ty [l, r])).run.run trace = (.error why, middle) := by
        rw [evaluate, run_bind_error first]
      rw [evaluateAll_error fails, evaluateAll_error first]
      rfl
  | ok a =>
      rw [evaluateAll_singleton_ok first]
      show exec answers (exprCodeOf D r ++ ([.operate op] ++ rest)) ⟨a :: stack, memory⟩ _ = _
      rw [right]
      rcases second : (r.evaluate (answers.oracle D) env).run.run middle with ⟨result, later⟩
      cases result with
      | error why =>
          have fails : (evaluate (answers.oracle D) env
              (.node (.binary op) d ty [l, r])).run.run trace = (.error why, later) := by
            rw [evaluate, run_bind_ok first, run_bind_error second]
          rw [evaluateAll_error fails, evaluateAll_error second]
          rfl
      | ok b =>
          rw [evaluateAll_singleton_ok second]
          show exec answers (.operate op :: rest) ⟨b :: a :: stack, memory⟩ _ = _
          rw [exec_cons (by simp)]
          cases applied : op.apply a b with
          | error why =>
              have fails : (evaluate (answers.oracle D) env
                  (.node (.binary op) d ty [l, r])).run.run trace = (.error why, later) := by
                rw [evaluate, run_bind_ok first, run_bind_ok second, applied]
                rfl
              rw [evaluateAll_error fails]
              simp only [step, applied]
              rfl
          | ok v =>
              have gives : (evaluate (answers.oracle D) env
                  (.node (.binary op) d ty [l, r])).run.run trace = (.ok v, later) := by
                rw [evaluate, run_bind_ok first, run_bind_ok second, applied]
                rfl
              rw [evaluateAll_singleton_ok gives]
              simp only [step, applied]
              rfl

end ExprCases

/-- The code of a well-shaped expression computes its value, if names lead to the right locals. -/
theorem exprCode_correct {o : Outline} (shaped : o.WellShaped D)
    (expression : o.kind.isExpression = true) (visible : o.Everywhere (Visible D scope))
    (mirrors : Mirrors D scope env memory) : ExprCorrect answers D env memory o := by
  induction o with
  | node k d ty cs ih =>
      cases shaped with
      | node described fits below =>
          rw [Outline.everywhere_node_iff] at visible
          have each : (∀ k' ∈ cs.map Outline.kind, k'.isExpression = true) →
              ∀ c ∈ cs, ExprCorrect answers D env memory c := by
            intro expressions c member
            exact ih c member (below c member) (expressions _ (List.mem_map_of_mem member))
              (visible.2 c member)
          cases k with
          | constant c =>
              obtain rfl := List.map_eq_nil_iff.mp fits
              intro rest stack trace
              rfl
          | localRef =>
              obtain rfl := List.map_eq_nil_iff.mp fits
              obtain ⟨i, entry, rfl, found, latest⟩ := visible.1
              exact localRef_correct found (mirrors.values _ _ latest)
          | call =>
              obtain ⟨i, rfl, _⟩ := described rfl
              exact call_correct (each fits)
          | fieldGet =>
              obtain ⟨i, rfl, _⟩ := described rfl
              obtain ⟨e, rfl⟩ := List.length_eq_one_iff.mp ((List.length_map _).symm.trans fits.1)
              exact fieldGet_correct (each fits.2 e List.mem_cons_self)
          | binary op =>
              obtain ⟨l, r, rfl⟩ := List.length_eq_two.mp ((List.length_map _).symm.trans fits.1)
              exact binary_correct (each fits.2 l List.mem_cons_self)
                (each fits.2 r (List.mem_cons_of_mem _ List.mem_cons_self))
          | _ => cases expression

/-! ## Statements -/

/-- What a machine does with code before `rest`, given how the statements of that code end. -/
def Follows (answers : Surroundings) (D : Descriptor.Table) (rest : List Instruction) :
    Except Failure Flow × List Request → Except Trap Halt × List Action → Prop
  | (.error why, trace), ran => ran = (.error (.failed why), trace.map (.ofRequest D))
  | (.ok (.returned value), trace), ran =>
    ∃ below, ran = (.ok (.returned (value.toList ++ below)), trace.map (.ofRequest D))
  | (.ok (.next _), trace), ran =>
    ∃ state, ran = exec answers rest state (trace.map (.ofRequest D))

/-- The code of one value: the machine goes on with it on top of the stack, or traps. -/
theorem exec_value {e : Outline} (correct : ExprCorrect answers D env memory e)
    (code : List Instruction) (stack : List Datum) (trace : List Request) :
    exec answers (exprCodesOf D [e] ++ code) ⟨stack, memory⟩ (trace.map (.ofRequest D)) =
      match (e.evaluate (answers.oracle D) env).run.run trace with
      | (.ok v, later) => exec answers code ⟨v :: stack, memory⟩ (later.map (.ofRequest D))
      | (.error why, later) => (.error (.failed why), later.map (.ofRequest D)) := by
  rw [exprCodesOf, exprCodesOf, List.append_nil, correct]
  rcases ran : (e.evaluate (answers.oracle D) env).run.run trace with ⟨result, later⟩
  cases result with
  | error why => rw [evaluateAll_error ran]; rfl
  | ok v => rw [evaluateAll_singleton_ok ran]; rfl

/-- The code of the values of a statement computes them. -/
theorem values_correct {k : Kind} {d : Option DescriptorId} {ty : Ty} {values : List Outline}
    (shaped : Outline.WellShaped D (.node k d ty values))
    (statement : k.isStatement = true) (other : k ≠ .block)
    (inScope : ScopedValues D scope values) (mirrors : Mirrors D scope env memory) :
    ∀ e ∈ values, ExprCorrect answers D env memory e := by
  cases shaped with
  | node _ fits below =>
      have expressions : ∀ k' ∈ values.map Outline.kind, k'.isExpression = true := by
        cases k with
        | letBind name | ret | eval => exact fits.2
        | block => exact absurd rfl other
        | _ => cases statement
      intro e member
      exact exprCode_correct (below e member) (expressions _ (List.mem_map_of_mem member))
        (inScope e member) mirrors

section StmtCases

variable {d : Option DescriptorId} {ty : Ty} {e : Outline} {later : List Outline}

/-- A statement that only computes a value: the code behind it finds the value on the stack. -/
theorem follows_value {s : Outline} {g : Datum → Env} {code rest : List Instruction}
    {stack : List Datum} {trace : List Request} (correct : ExprCorrect answers D env memory e)
    (means : execute (answers.oracle D) env s =
      e.evaluate (answers.oracle D) env >>= fun v => pure (.next (g v)))
    (goesOn : ∀ v trace, Follows answers D rest
      ((executeAll (answers.oracle D) (g v) later).run.run trace)
      (exec answers code ⟨v :: stack, memory⟩ (trace.map (.ofRequest D)))) :
    Follows answers D rest ((executeAll (answers.oracle D) env (s :: later)).run.run trace)
      (exec answers (exprCodesOf D [e] ++ code) ⟨stack, memory⟩ (trace.map (.ofRequest D))) := by
  rw [exec_value correct, executeAll, means]
  rcases ran : (e.evaluate (answers.oracle D) env).run.run trace with ⟨result, middle⟩
  cases result with
  | error why =>
      rw [run_bind_error (run_bind_error ran)]
      rfl
  | ok v =>
      have gives : (e.evaluate (answers.oracle D) env >>= fun v =>
          pure (Flow.next (g v))).run.run trace = (.ok (.next (g v)), middle) := by
        rw [run_bind_ok ran]
        rfl
      rw [run_bind_ok gives]
      exact goesOn v middle

/-- A return of a value stops the machine with the value on the stack. -/
theorem follows_return {code rest : List Instruction} {stack : List Datum} {trace : List Request}
    (correct : ExprCorrect answers D env memory e) :
    Follows answers D rest
      ((executeAll (answers.oracle D) env (.node .ret d ty [e] :: later)).run.run trace)
      (exec answers (exprCodesOf D [e] ++ (.ret :: code)) ⟨stack, memory⟩
        (trace.map (.ofRequest D))) := by
  rw [exec_value correct, executeAll, execute]
  rcases ran : (e.evaluate (answers.oracle D) env).run.run trace with ⟨result, middle⟩
  cases result with
  | error why =>
      rw [run_bind_error (run_bind_error ran)]
      rfl
  | ok v =>
      have gives : (e.evaluate (answers.oracle D) env >>= fun v =>
          pure (Flow.returned (some v))).run.run trace = (.ok (.returned (some v)), middle) := by
        rw [run_bind_ok ran]
        rfl
      rw [run_bind_ok gives]
      exact ⟨stack, rfl⟩

end StmtCases

/-- The code of scoped statements follows them. -/
theorem exec_stmtCodes {stmts : List Outline} (inScope : ScopedStmts D scope stmts)
    (shaped : ∀ s ∈ stmts, s.WellShaped D) (mirrors : Mirrors D scope env memory)
    (rest : List Instruction) (stack : List Datum) (trace : List Request) :
    Follows answers D rest ((executeAll (answers.oracle D) env stmts).run.run trace)
      (exec answers (stmtCodesOf D stmts ++ rest) ⟨stack, memory⟩ (trace.map (.ofRequest D))) := by
  induction inScope generalizing env memory stack trace with
  | nil => exact ⟨_, rfl⟩
  | @letBind scope name i entry ty values later described visible _ ih =>
      rw [List.forall_mem_cons] at shaped
      have correct : ∀ e ∈ values, ExprCorrect answers D env memory e :=
        values_correct shaped.1 rfl (by simp) visible mirrors
      cases shaped.1 with
      | node _ fits _ =>
          obtain ⟨e, rfl⟩ := List.length_eq_one_iff.mp ((List.length_map _).symm.trans fits.1)
          rw [stmtCodesOf, stmtCodeOf, label_eq described, List.append_assoc, List.append_assoc]
          refine follows_value (correct e List.mem_cons_self) (g := env.set i) rfl ?_
          intro v trace
          exact ih shaped.2 (mirrors.push described v) stack trace
  | @ret scope d ty values later visible _ ih =>
      rw [List.forall_mem_cons] at shaped
      have correct : ∀ e ∈ values, ExprCorrect answers D env memory e :=
        values_correct shaped.1 rfl (by simp) visible mirrors
      rw [stmtCodesOf, stmtCodeOf, List.append_assoc, List.append_assoc]
      cases shaped.1 with
      | node _ fits _ =>
          -- Whatever stands behind a return is not reached, on either side.
          rcases values with _ | ⟨e, _ | ⟨_, _⟩⟩
          · exact ⟨stack, rfl⟩
          · exact follows_return (correct e List.mem_cons_self)
          · have two := fits.1
            simp at two
  | @eval scope d ty values later visible _ ih =>
      rw [List.forall_mem_cons] at shaped
      have correct : ∀ e ∈ values, ExprCorrect answers D env memory e :=
        values_correct shaped.1 rfl (by simp) visible mirrors
      cases shaped.1 with
      | node _ fits _ =>
          obtain ⟨e, rfl⟩ := List.length_eq_one_iff.mp ((List.length_map _).symm.trans fits.1)
          rw [stmtCodesOf, stmtCodeOf]
          -- An evaluation of type `unit` leaves its value on the stack, others pop it.
          split
          · rw [List.append_assoc]
            refine follows_value (correct e List.mem_cons_self) (g := fun _ => env) rfl ?_
            intro v trace
            exact ih shaped.2 mirrors (v :: stack) trace
          · rw [List.append_assoc, List.append_assoc]
            refine follows_value (correct e List.mem_cons_self) (g := fun _ => env) rfl ?_
            intro v trace
            exact ih shaped.2 mirrors stack trace

end StagedCompiler.Machine
