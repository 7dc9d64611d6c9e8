import StagedCompiler.Proofs.Analysis.Acceptance
import StagedCompiler.Proofs.Listing.Simulation
import StagedCompiler.Proofs.Module.Locals

/-!
# A listing computes what its unit computes

The functions of a listing stand in the order of the functions of the module, and each of them
computes what the function of the module computes (`Computes`): a machine that has its locals by
name makes the same requests as a run that has them by descriptor, traps where that run fails and
nowhere else, and stops with the returned value on top of its stack.

This holds for verified modules of scoped functions.  Acceptance of a unit makes its module such a
one, and the native plan keeps it so.
-/

namespace StagedCompiler.Machine

open Listing
open StagedCompiler.Module (Kind Outline)
open StagedCompiler.Module.Outline (WellShaped Names ScopedStmts execute executeAll)

variable {answers : Surroundings} {D : Descriptor.Table} {scope : Names} {env : Env}
  {memory : Memory}

/-! ## Bodies -/

/-- A return never goes on with the next statement. -/
theorem execute_ret {oracle : Oracle} {s : Outline} (returns : s.kind = .ret)
    {trace later : List Request} {env' : Env} :
    (execute oracle env s).run.run trace ≠ (.ok (.next env'), later) := by
  intro ran
  cases s with
  | node k d ty values =>
      obtain rfl : k = .ret := returns
      rcases values with _ | ⟨e, _ | ⟨_, _⟩⟩
      · cases ran
      · rw [execute] at ran
        rcases first : (e.evaluate oracle env).run.run trace with ⟨result, middle⟩
        cases result with
        | error why => rw [run_bind_error first] at ran; cases ran
        | ok v => rw [run_bind_ok first] at ran; cases ran
      · cases ran

/-- Statements whose last one is a return never run off their end. -/
theorem executeAll_ret {oracle : Oracle} {stmts : List Outline} {last : Outline}
    (ends : stmts.getLast? = some last) (returns : last.kind = .ret) {trace later : List Request}
    {env' : Env} : (executeAll oracle env stmts).run.run trace ≠ (.ok (.next env'), later) := by
  intro ran
  induction stmts generalizing env trace with
  | nil => cases ends
  | cons s rest ih =>
      rw [executeAll] at ran
      rcases first : (execute oracle env s).run.run trace with ⟨why | (env₁ | v), middle⟩
      · rw [run_bind_error first] at ran
        cases ran
      · rw [run_bind_ok first] at ran
        cases rest with
        | nil =>
            obtain rfl := Option.some.inj ends
            exact execute_ret returns first
        | cons s' rest => exact ih (List.getLast?_cons_cons ▸ ends) ran
      · rw [run_bind_ok first] at ran
        cases ran

theorem exactly_ne_malformed (n : Int) : exactly n ≠ .error .malformed := by
  unfold exactly
  split <;> simp

/-- No operator calls its operands malformed. -/
theorem apply_ne_malformed (op : Operator) (a b : Datum) : op.apply a b ≠ .error .malformed := by
  unfold Operator.apply
  split
  · simp
  · simp
  · exact exactly_ne_malformed _
  · exact exactly_ne_malformed _
  · exact exactly_ne_malformed _
  · split
    · simp
    · exact exactly_ne_malformed _
  · simp

/-- No step of the machine does so. -/
theorem step_ne_malformed (answers : Surroundings) (state : State) (trace : List Action)
    (i : Instruction) : (step answers state trace i).1 ≠ .error (.failed .malformed) := by
  cases i with
  | operate op =>
      rcases state with ⟨stack, memory⟩
      rcases stack with _ | ⟨b, _ | ⟨a, below⟩⟩
      · simp [step]
      · simp [step]
      · cases applied : op.apply a b with
        | ok v => simp [step, applied]
        | error why =>
            intro same
            have malformed : why = .malformed := by simpa [step, applied] using same
            exact apply_ne_malformed op a b (malformed ▸ applied)
  | push value | ret => simp [step]
  | load name | store name | getField owner name | pop | call name n =>
      rw [step]
      split <;> simp [perform]

/-- No instruction traps for a malformed node. -/
theorem exec_ne_malformed (answers : Surroundings) (code : List Instruction) (state : State)
    (trace : List Action) : (exec answers code state trace).1 ≠ .error (.failed .malformed) := by
  induction code generalizing state trace with
  | nil => simp [exec]
  | cons i rest ih =>
      by_cases stops : i = .ret
      · subst stops
        simp [exec]
      · rw [exec_cons stops]
        have steps := step_ne_malformed answers state trace i
        rcases ran : step answers state trace i with ⟨result, later⟩
        rw [ran] at steps
        cases result with
        | ok state => exact ih state later
        | error trap =>
            intro same
            cases same
            exact steps rfl

/-! ## Functions -/

/-- How a machine stops where a function ends: it traps where the function fails and for the same
reason, and behind a return with a value that value is on top of the stack. -/
def Stops (D : Descriptor.Table) :
    Except Failure Ending × List Request → Except Trap Halt × List Action → Prop
  | (.error why, requests), ran =>
    why ≠ .malformed ∧ ran = (.error (.failed why), requests.map (.ofRequest D))
  | (.ok ending, requests), ran =>
    ∃ stack, ran = (.ok (.returned stack), requests.map (.ofRequest D)) ∧
      ∀ v, ending = .returned (some v) → stack.head? = some v

/-- Arguments under the names of parameters mirror those under their descriptors. -/
theorem Mirrors.pushAll {params : Names} {args : List Datum} (mirrors : Mirrors D scope env memory)
    (described : ∀ p ∈ params, ∃ d, D.get? p.2 = some d ∧ d.name = p.1)
    (enough : args.length = params.length) :
    Mirrors D (params.reverse ++ scope) (env.setAll (params.map Prod.snd) args)
      (memory.storeAll (params.map Prod.fst) args) := by
  induction params generalizing scope env memory args with
  | nil =>
      obtain rfl := List.length_eq_zero_iff.mp enough
      exact mirrors
  | cons p params ih =>
      obtain ⟨v, args, rfl⟩ := List.exists_cons_of_length_eq_add_one enough
      rw [List.forall_mem_cons] at described
      obtain ⟨⟨d, found, named⟩, later⟩ := described
      have pushed := mirrors.push found v
      rw [named] at pushed
      have all := ih pushed later (Nat.succ.inj enough)
      rw [List.reverse_cons, List.append_assoc]
      exact all

/-- The code of a body stops where the statements end. -/
theorem exec_bodyCode {d : Option DescriptorId} {ty : Ty} {stmts : List Outline}
    (inScope : ScopedStmts D scope stmts) (shaped : ∀ s ∈ stmts, s.WellShaped D)
    (mirrors : Mirrors D scope env memory) (trace : List Request) :
    Follows answers D [.ret] ((executeAll (answers.oracle D) env stmts).run.run trace)
      (exec answers (bodyCodeOf D (.node .block d ty stmts)) ⟨[], memory⟩
        (trace.map (.ofRequest D))) := by
  unfold bodyCodeOf
  rw [stmtCodeOf]
  split
  · rename_i ends
    have follows : Follows answers D [] _ _ := exec_stmtCodes inScope shaped mirrors [] [] trace
    rw [List.append_nil] at follows
    unfold endsInReturnOf at ends
    rw [Outline.children_node] at ends
    rcases ran : (executeAll (answers.oracle D) env stmts).run.run trace with
      ⟨why | (env' | v), later⟩
    · rw [ran] at follows
      exact follows
    · cases last : stmts.getLast? with
      | none =>
          rw [last] at ends
          cases ends
      | some s =>
          rw [last] at ends
          exact absurd ran (executeAll_ret last (eq_of_beq ends))
    · rw [ran] at follows
      exact follows
  · exact exec_stmtCodes inScope shaped mirrors [.ret] [] trace

/-- A machine that follows statements up to a return stops where their function ends. -/
theorem stops_of_follows {name : String} {d d' : Option DescriptorId} {ty ty' : Ty}
    {params stmts : List Outline} {code : List Instruction} {state : State}
    (follows : Follows answers D [.ret] ((executeAll (answers.oracle D) env stmts).run.run [])
      (exec answers code state [])) :
    Stops D ((Outline.runFunction (answers.oracle D) env
        (.node (.function name) d ty (params ++ [.node .block d' ty' stmts]))).run.run [])
      (exec answers code state []) := by
  rw [Outline.runFunction, List.getLast?_concat]
  dsimp only
  rw [execute]
  rcases ran : (executeAll (answers.oracle D) env stmts).run.run [] with
    ⟨why | (env' | v), requests⟩
  · rw [ran] at follows
    rw [run_bind_error ran]
    refine ⟨?_, follows⟩
    intro malformed
    subst malformed
    apply exec_ne_malformed answers code state []
    rw [follows]
  · rw [ran] at follows
    rcases follows with ⟨state', stopped⟩
    rw [run_bind_ok ran]
    exact ⟨state'.stack, stopped, by simp⟩
  · rw [ran] at follows
    rcases follows with ⟨below, stopped⟩
    rw [run_bind_ok ran]
    refine ⟨_, stopped, ?_⟩
    intro w same
    cases same
    rfl

end StagedCompiler.Machine

namespace StagedCompiler.Listing

open StagedCompiler.Module (Kind Outline Numbered Holds)
open StagedCompiler.Module.Outline (WellShaped Names IsParam ScopedFunction)
open Machine (Surroundings Mirrors Stops)

/-- A function of a listing. -/
structure Function : Type where
  name : String
  params : List String
  code : List Instruction

/-- The function that an item is. -/
def Item.function? : Item → Option Function
  | .function name params _ code => some ⟨name, params.map (·.name), code⟩
  | .cls _ _ => none

/-- The functions of a listing, in order. -/
def functions (l : Listing) : List Function := l.items.filterMap Item.function?

/-- A function of a listing computes what a function of a module computes: for all surroundings and
all arguments the machine stops where the function ends. -/
structure Computes (m : Module) (D : Descriptor.Table) (f : NodeId) (g : Function) : Prop where
  name : m.kind? f = some (.function g.name)
  params : (m.parameters f).map (fun i => label D (some i)) = g.params
  runs : ∀ (answers : Surroundings) (base : Env) (args : List Datum),
    args.length = g.params.length →
      ∃ outcome, m.run f (answers.oracle D) (base.setAll (m.parameters f) args) = some outcome ∧
        Stops D outcome (Machine.run answers g.code g.params args)

variable {m : Module} {D : Descriptor.Table}

/-- The parameters of a function are those of its scope. -/
theorem parameters_eq {i : NodeId} {k : Kind} {d : Option DescriptorId} {ty : Ty}
    {front : List Numbered} {body : Numbered} {scope : Names}
    (held : Holds m (.node i k d ty (front ++ [body])))
    (params : List.Forall₂ (IsParam D) (front.map Numbered.outline) scope) :
    m.parameters i = scope.map Prod.snd := by
  have parts : ∀ c ∈ front, Holds m c := fun c member =>
    held.child (List.mem_append_left _ member)
  have below : m.childrenOf i = (front ++ [body]).map Numbered.id := held.childrenOf_id
  unfold Module.parameters
  rw [below, List.map_append, List.map_singleton, List.dropLast_concat]
  clear held below
  rw [List.forall₂_map_left_iff] at params
  induction params with
  | nil => rfl
  | @cons c p front scope param _ ih =>
      rw [List.forall_mem_cons] at parts
      have described : (m.get? c.id).bind (·.descriptor) = some p.2 := by
        rw [parts.1.get?_id]
        cases c with
        | node j k d ty cs =>
            rw [Numbered.outline_node] at param
            generalize cs.map Numbered.outline = os at param
            cases param
            rfl
      rw [List.map_cons, List.filterMap_cons, described, ih parts.2]
      rfl

theorem params_names {params : List Outline} {scope : Names}
    (each : List.Forall₂ (IsParam D) params scope) :
    (params.map (memberListingOf D)).map (·.name) = scope.map Prod.fst := by
  induction each with
  | nil => rfl
  | cons first _ ih =>
      rw [List.map_cons, List.map_cons, List.map_cons, ih]
      cases first with
      | mk found => rw [memberListingOf, Machine.label_eq found]

theorem params_described {params : List Outline} {scope : Names}
    (each : List.Forall₂ (IsParam D) params scope) :
    ∀ p ∈ scope, ∃ d, D.get? p.2 = some d ∧ d.name = p.1 := by
  induction each with
  | nil => simp
  | cons first _ ih =>
      rw [List.forall_mem_cons]
      cases first with
      | mk found => exact ⟨⟨_, found, rfl⟩, ih⟩

/-- A scoped function of a module is listed as a function that computes the same. -/
theorem function_computes {f : Numbered} (held : Holds m f) (nodup : f.ids.Nodup)
    (shaped : f.outline.WellShaped D) (inScope : ScopedFunction D f.outline) :
    ∃ g, (itemListingOf D f.outline).function? = some g ∧ Computes m D f.id g := by
  have ran := held.run_eq nodup
  rcases f with ⟨i, k, d, ty, cs⟩
  rw [Numbered.outline_node] at ran shaped inScope ⊢
  generalize parts : cs.map Numbered.outline = os at ran shaped inScope ⊢
  cases inScope with
  | @mk name _ d' _ ty' params stmts scope each inScope =>
      obtain ⟨front, back, rfl, rfl, backParts⟩ := List.map_eq_append_iff.mp parts
      obtain ⟨body, rfl, _⟩ := List.map_eq_singleton_iff.mp backParts
      have ids : m.parameters i = scope.map Prod.snd := parameters_eq held each
      have names := params_names each
      have described := params_described each
      have stmtsShaped : ∀ s ∈ stmts, s.WellShaped D := by
        cases shaped with
        | node _ _ below =>
            cases below _ (List.mem_append_right _ List.mem_cons_self) with
            | node _ _ below => exact below
      refine ⟨⟨name, scope.map Prod.fst, bodyCodeOf D (.node .block d' ty' stmts)⟩, ?_, ?_⟩
      · rw [itemListingOf, Item.function?, List.dropLast_concat, List.getLast?_concat, names]
        rfl
      · refine ⟨held.kind?_id, ?_, ?_⟩
        · rw [Numbered.id_node, ids, List.map_map]
          refine List.map_congr_left fun p member => ?_
          obtain ⟨entry, found, named⟩ := described p member
          rw [Function.comp_apply, Machine.label_eq found, named]
        · intro answers base args enough
          refine ⟨_, ran _ _, ?_⟩
          rw [Numbered.id_node, ids]
          have start : Mirrors D [] base (fun _ => none) := ⟨by simp, by simp⟩
          have mirrors := start.pushAll described (enough.trans (List.length_map _))
          rw [List.append_nil] at mirrors
          exact Machine.stops_of_follows
            (Machine.exec_bodyCode inScope stmtsShaped mirrors [])

theorem function?_eq_none {o : Outline} (other : o.kind.isFunction = false) :
    (itemListingOf D o).function? = none := by
  rcases o with ⟨k, d, ty, cs⟩
  cases k with
  | function name => cases other
  | _ => rfl

/-- The functions among items are listed in order. -/
theorem forall₂_function? {related : NodeId → Function → Prop} {items : List Numbered}
    (each : ∀ c ∈ items, c.kind.isFunction = true →
      ∃ g, (itemListingOf D c.outline).function? = some g ∧ related c.id g) :
    List.Forall₂ related ((items.filter (·.kind.isFunction)).map Numbered.id)
      (items.filterMap fun c => (itemListingOf D c.outline).function?) := by
  induction items with
  | nil => exact .nil
  | cons c rest ih =>
      rw [List.forall_mem_cons] at each
      rw [List.filter_cons, List.filterMap_cons]
      cases isFunction : c.kind.isFunction with
      | true =>
          obtain ⟨g, listed, here⟩ := each.1 isFunction
          rw [listed, if_pos rfl, List.map_cons]
          exact .cons here (ih each.2)
      | false =>
          rw [function?_eq_none (Numbered.kind_outline c ▸ isFunction), if_neg Bool.false_ne_true]
          exact ih each.2

/-- The functions of a listing are those of the items of the file. -/
theorem functions_listingOf {t : Numbered} (isModule : ∃ name, t.kind = .module name) :
    (listingOf D t.outline).functions =
      (t.children.flatMap Numbered.children).filterMap
        fun c => (itemListingOf D c.outline).function? := by
  rcases t with ⟨i, k, d, ty, files⟩
  obtain ⟨name, rfl⟩ : ∃ name, k = .module name := isModule
  have items : (listingOf D (Numbered.node i (.module name) d ty files).outline).items =
      (files.flatMap Numbered.children).map fun c => itemListingOf D c.outline := by
    rw [Numbered.outline_node, listingOf, List.map_flatMap, List.flatMap_def, List.map_map]
    refine congrArg List.flatten (List.map_congr_left fun file _ => ?_)
    rw [Function.comp_apply, Numbered.children_outline, List.map_map]
    rfl
  rw [functions, items, List.filterMap_map]
  rfl

/-- A verified module has a listing, and the functions of both are in the same order. -/
theorem forall₂_functions {related : NodeId → Function → Prop} {t : Numbered}
    (verified : m.Verified D t)
    (each : ∀ f ∈ t.functions,
      ∃ g, (itemListingOf D f.outline).function? = some g ∧ related f.id g) :
    ∃ listing functions, ofModule m D = .ok listing ∧ m.functions = .ok functions ∧
      List.Forall₂ related functions listing.functions := by
  refine ⟨_, _, verified.listing_eq, verified.held.functions_eq verified.root verified.nodup, ?_⟩
  rw [functions_listingOf verified.isModule,
    Numbered.functions_eq_items verified.shaped verified.isModule]
  refine forall₂_function? fun c member isFunction => each c ?_
  rw [Numbered.functions_eq_items verified.shaped verified.isModule]
  exact List.mem_filter.mpr ⟨member, isFunction⟩

/-- The listing of a sound module computes what the module computes. -/
theorem sound_computes (sound : Lowering.Sound D m) :
    ∃ listing functions, ofModule m D = .ok listing ∧ m.functions = .ok functions ∧
      List.Forall₂ (Computes m D) functions listing.functions := by
  obtain ⟨t, verified, all⟩ := sound
  refine forall₂_functions verified fun f listed => ?_
  have part := (Numbered.mem_functions.mp listed).1
  exact function_computes (verified.held.subtree part)
    (Numbered.nodup_ids_of_mem_subtrees part verified.nodup) (verified.shaped.subtree part)
    (all f listed)

/-- A unit that the host alone accepts has a native listing, and its functions compute what the
functions of the lowered module compute. -/
theorem native_listing_computes {draft : Source.Draft} {unit : String} {tree : Tree}
    {analysis : Analysis} (assembled : draft.assemble unit = .ok tree)
    (accepted : (analyze tree Registry.host .empty).outcome = .ok (.accepted analysis)) :
    ∃ plan built m listing functions, Lowering.Plan.build .native Registry.host = .ok plan ∧
      Module.ofTree tree analysis.bindings analysis.descriptors = .ok built ∧
      plan.run built analysis.descriptors = (.ok (), m) ∧
      ofModule m analysis.descriptors = .ok listing ∧ m.functions = .ok functions ∧
      List.Forall₂ (Computes m analysis.descriptors) functions listing.functions := by
  have numbers := Source.assemble_numbers assembled
  obtain ⟨silent, rfl⟩ := (Analysis.accepted_iff numbers).mp accepted
  obtain ⟨built, constructed, sound⟩ := Module.ofTree_sound numbers silent
  obtain ⟨plan, m, planned, ran, lowered⟩ := Lowering.native_run sound
  obtain ⟨listing, functions, listed, among, computes⟩ := sound_computes lowered
  exact ⟨plan, built, m, listing, functions, planned, constructed, ran, listed, among, computes⟩

/-- `note(n: int)` does nothing; `share(x: int): int` hides its parameter and leaves the result of a
call behind. -/
def divideByNext : Source.Draft where
  items :=
    [ .function () "note" [] [⟨(), "n", ⟨(), "int"⟩⟩] none [],
      .function () "share" [] [⟨(), "x", ⟨(), "int"⟩⟩] (some ⟨(), "int"⟩)
        [ .letBind () "x" none (.binary () .add (.ref () "x") (.int () 1)),
          .eval () (.call () "note" [.ref () "x"]),
          .ret () (some (.binary () .div (.int () 100) (.ref () "x"))) ] ]

/-- The unit is well formed by the rules. -/
theorem divideByNext_wellFormed {tree : Tree}
    (assembled : divideByNext.assemble "unit" = .ok tree) : Typing.WellFormed tree.items := by
  obtain rfl := Except.ok.inj assembled
  refine ⟨by decide, by decide, fun i item there => ?_⟩
  match i with
  | 0 =>
      obtain rfl := Option.some.inj there
      exact ⟨_, .function (.cons (.builtin rfl) .nil) .nothing, .function .nil⟩
  | 1 =>
      obtain rfl := Option.some.inj there
      refine ⟨_, .function (.cons (.builtin rfl) .nil) (.value (.builtin rfl)), .function ?_⟩
      refine .cons (.inferred (.binary (.ref rfl) .int (.arith rfl rfl rfl)))
        (.cons (.eval (?_ : Typing.HasType _ _ _ .unit))
          (.cons (.ret (.binary .int (.ref rfl) (.arith rfl rfl rfl)) rfl) .nil))
      exact .call (.item (i := 0) rfl (.function (.cons (.builtin rfl) .nil) .nothing))
        (.cons (.ref rfl) .nil) (.plain (by simp) rfl .nil) (.plain (by simp))
  | _ + 2 => cases there

/-- A function that calls another one, and a division that may fail. -/
theorem native_listing_computes_divideByNext : ∃ tree analysis,
    divideByNext.assemble "unit" = .ok tree ∧
    (analyze tree Registry.host .empty).outcome = .ok (.accepted analysis) ∧
    ∃ plan built m listing functions, Lowering.Plan.build .native Registry.host = .ok plan ∧
      Module.ofTree tree analysis.bindings analysis.descriptors = .ok built ∧
      plan.run built analysis.descriptors = (.ok (), m) ∧
      ofModule m analysis.descriptors = .ok listing ∧ m.functions = .ok functions ∧
      List.Forall₂ (Computes m analysis.descriptors) functions listing.functions := by
  have assembled : divideByNext.assemble "unit" = .ok _ := rfl
  have numbers := Source.assemble_numbers assembled
  have silent := Resolution.run_silent_iff.mpr (divideByNext_wellFormed assembled)
  have accepted := (Analysis.accepted_iff numbers).mpr ⟨silent, rfl⟩
  exact ⟨_, _, assembled, accepted, native_listing_computes assembled accepted⟩

end StagedCompiler.Listing
