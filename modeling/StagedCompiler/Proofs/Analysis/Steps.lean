import StagedCompiler.Proofs.Analysis.Verdicts

/-!
# The steps that resolution is made of

Whatever resolution works on, it does one of a few things: it looks up a name, judges what it has found
by the descriptors that there are (`judge`), binds a construct, describes and binds a declaration
(`declare`), or fills in the signature of an item (`enterSignature`).  A use of a name, be it a type, a
value or a callee, is resolved in one way (`resolveUse`); the functions of resolution differ in their
verdicts.

The equations below take the functions of resolution apart into such steps.  Whatever holds of
the steps holds of resolution.
-/

namespace StagedCompiler.Resolution

open Source (Typed Item TypeRef Site Expr Stmt)

/-! ## Steps -/

/-- Report what is wrong. -/
def complain (ctx : Context) : List Complaint → Step Unit
  | [] => pure ()
  | c :: rest => do
    report ctx c.code c.site c.message
    if c.remarked then flag c.site mismatch
    complain ctx rest

/-- Say of a construct what the descriptors that there are tell about it. -/
def judge {α : Type} (ctx : Context) (verdict : Descriptor.Table → Verdict α) : Step α := do
  let v := verdict (← get).descriptors
  complain ctx v.complaints
  return v.value

/-- Resolve a use of a name: look it up, say what is found, and bind the construct. -/
def resolveUse (ctx : Context) (site : Site) (name : String) (kind : ReferenceKind)
    (verdict : Option DescriptorId → Descriptor.Table → Verdict Binding) : Step Ty := do
  let found ← lookupGlobal ctx name kind
  let binding ← judge ctx (verdict found)
  finishExpr site binding

/-- Describe what is declared at a place, and bind the place to it. -/
def declare (site : Site) (name : String) (kind : Descriptor.Kind) (owner : DescriptorId) (ty : Ty)
    (flags : Binding.Flags) : Step DescriptorId := do
  let id ← describe
    { name := name, kind := kind, ty := ty, container := some owner, origin := .source site.id }
  bind site ((Binding.declaration ty id).withFlags flags)
  return id

/-- Change the descriptor of an item and bind the item to it. -/
def enterSignature (i : DescriptorId) (site : Site) (f : Descriptor → Descriptor) (ty : Ty) :
    Step Unit := do
  modify fun s => { s with descriptors := s.descriptors.modify i f }
  bind site (.declaration ty i)

/-- The type of a name that needs no descriptor: a reserved name or a type parameter. -/
def reserved? (typeParams : List String) (name : String) : Option Ty :=
  (Ty.builtin? name).or (if typeParams.contains name then some (.param name) else none)

/-- A name that is no look-up is a built-in type, or else a type parameter that no built-in type hides.
-/
theorem reserved?_eq_some {typeParams : List String} {name : String} {ty : Ty}
    (reserved : reserved? typeParams name = some ty) :
    Ty.builtin? name = some ty ∨ Ty.builtin? name = none ∧ name ∈ typeParams ∧ ty = .param name := by
  unfold reserved? at reserved
  cases builtin : Ty.builtin? name with
  | some found =>
      rw [builtin, Option.some_or] at reserved
      exact .inl reserved
  | none =>
      rw [builtin, Option.none_or] at reserved
      split at reserved
      · rename_i member
        exact .inr ⟨rfl, List.contains_iff_mem.mp member, (Option.some.inj reserved).symm⟩
      · cases reserved

/-- A name that is looked up is neither a built-in type nor a type parameter. -/
theorem reserved?_eq_none {typeParams : List String} {name : String}
    (free : reserved? typeParams name = none) :
    Ty.builtin? name = none ∧ name ∉ typeParams := by
  unfold reserved? at free
  rw [Option.or_eq_none_iff] at free
  refine ⟨free.1, fun member => ?_⟩
  rw [if_pos (List.contains_iff_mem.mpr member)] at free
  cases free.2

/-- Describe and bind one member. -/
def enterMember (ctx : Context) (owner : DescriptorId) (kind : Descriptor.Kind)
    (typeParams : List String) (m : Typed Site) : Step (Descriptor.Param × DescriptorId) := do
  let ty ← resolveType ctx typeParams m.type
  let id ← declare m.site m.name kind owner ty {}
  return (⟨m.name, ty⟩, id)

/-- The type that a function says it returns. -/
def resolveReturns (ctx : Context) (typeParams : List String) : Option (TypeRef Site) → Step Ty
  | some t => resolveType ctx typeParams t
  | none => pure .unit

/-- The type that the annotation of a local gives. -/
def statedType (ctx : Context) (frame : Frame) : Option (TypeRef Site) → Step (Option Ty)
  | some t => some <$> resolveType ctx frame.typeParams t
  | none => pure none

/-- Declare a local with the type that its annotation gives or else the one that was found. -/
def declareLocal (ctx : Context) (frame : Frame) (scope : Scope) (site : Site) (name : String)
    (value : Expr Site) (found : Ty) (stated : Option Ty) : Step Scope := do
  judge ctx (localVerdict value.site stated found)
  let id ← declare site name .localVar frame.function (stated.getD found)
    { typeMismatch := !localFits stated found }
  return (name, id) :: scope

/-- Compare what is returned with what the function returns. -/
def checkReturn (ctx : Context) (frame : Frame) (scope : Scope) (place : Site) (found : Ty) :
    Step Scope :=
  judge ctx (returnVerdict frame scope place found)

/-! ## What resolution does, step by step -/

section Equations

variable (ctx : Context)

/-- To judge is to complain about what is wrong and to go on with the value of the verdict. -/
theorem judge_run {α β : Type} (verdict : Descriptor.Table → Verdict α) (f : α → Step β) (s : State) :
    (judge ctx verdict >>= f).run s =
      (complain ctx (verdict s.descriptors).complaints >>=
        fun _ => f (verdict s.descriptors).value).run s :=
  rfl

/-- The text of a type only reads the table. -/
theorem tyText_run (ty : Ty) (s : State) : (tyText ty).run s = (quoted s.descriptors ty, s) := rfl

/-- A single complaint is a report. -/
theorem complain_one (code : String) (site : Site) (message : String) (s : State) :
    (complain ctx [⟨code, site, message, false⟩]).run s = (report ctx code site message).run s :=
  rfl

/-- A complaint with a remark is a report and a mark on the binding of the construct. -/
theorem complain_remarked (code : String) (site : Site) (message : String) (s : State) :
    (complain ctx [⟨code, site, message, true⟩]).run s =
      (report ctx code site message >>= fun _ => flag site mismatch).run s :=
  rfl

/-- Reading a descriptor is a verdict that complains about nothing. -/
theorem descriptor?_eq (id : DescriptorId) : descriptor? id = judge ctx fun D => ⟨[], D.get? id⟩ := rfl

theorem descriptor?_bind {α : Type} (id : DescriptorId) (f : Option Descriptor → Step α) (s : State) :
    (descriptor? id >>= f).run s = (f (s.descriptors.get? id)).run s :=
  rfl

/-- To look up a class is to look up its name and to see whether a class was found. -/
theorem lookupClass_run (name : String) (s : State) :
    (lookupClass ctx name).run s =
      (classAt ((lookupGlobal ctx name .type).run s).2.descriptors
        ((lookupGlobal ctx name .type).run s).1, ((lookupGlobal ctx name .type).run s).2) := by
  show ((lookupGlobal ctx name .type >>= _).run s) = _
  rw [StateT.run_bind]
  rcases (lookupGlobal ctx name .type).run s with ⟨found, s'⟩
  cases found with
  | none => rfl
  | some id =>
      show StateT.run (descriptor? id >>= _) s' = _
      rw [descriptor?_bind, classAt, Option.bind_some]
      cases s'.descriptors.get? id <;> rfl

/-- A built-in type and a type parameter are bound at once, and every other type is a use of its name.
-/
theorem resolveType_eq (typeParams : List String) (t : TypeRef Site) :
    resolveType ctx typeParams t =
      match reserved? typeParams t.name with
      | some ty => finishExpr t.site (.typed ty)
      | none => resolveUse ctx t.site t.name .type (typeVerdict t) := by
  unfold resolveType reserved?
  cases Ty.builtin? t.name with
  | some ty => rfl
  | none =>
      rw [Option.none_or]
      dsimp only
      split
      · rfl
      · refine StateT.ext fun s => ?_
        rw [StateT.run_bind, lookupClass_run, resolveUse, StateT.run_bind]
        rcases (lookupGlobal ctx t.name .type).run s with ⟨found, s'⟩
        show _ = (judge ctx (typeVerdict t found) >>= finishExpr t.site).run s'
        rw [judge_run, typeVerdict]
        cases classAt s'.descriptors found <;> rfl

/-- A reference is the use of a name, which leads to the innermost local of that name and else to what
it stands for outside functions. -/
theorem resolveExpr_ref (scope : Scope) (site : Site) (name : String) :
    resolveExpr ctx scope (.ref site name) =
      resolveUse ctx site name .value fun global =>
        valueVerdict site name ((scope.lookup name).or global) := by
  refine StateT.ext fun s => ?_
  rw [resolveExpr, resolveRef, bind_assoc, StateT.run_bind, resolveUse, StateT.run_bind]
  rcases (lookupGlobal ctx name .value).run s with ⟨global, s'⟩
  show StateT.run _ s' = (judge ctx (valueVerdict site name ((scope.lookup name).or global)) >>=
    finishExpr site).run s'
  rw [judge_run]
  unfold valueVerdict
  dsimp only
  cases (scope.lookup name).or global with
  | none => rfl
  | some id =>
      dsimp only
      rw [bind_assoc, descriptor?_bind]
      cases s'.descriptors.get? id with
      | none => rfl
      | some d =>
          dsimp only
          split <;> rfl

/-- Arguments that do not fit are complained about in order. -/
theorem reportMisfits_run (callee : String) (misfits : List Misfit) (s : State) :
    (reportMisfits ctx callee misfits).run s =
      (complain ctx (misfits.map (misfitComplaint callee s.descriptors))).run s := by
  induction misfits generalizing s with
  | nil => rfl
  | cons m rest ih => exact ih _

/-- A call is the use of its callee once its arguments are resolved, from left to right. -/
theorem resolveExpr_call (scope : Scope) (site : Site) (callee : String) (args : List (Expr Site)) :
    resolveExpr ctx scope (.call site callee args) = (do
      let arguments ← resolveArguments ctx scope args
      resolveUse ctx site callee .call (callVerdict site callee arguments)) := by
  rw [resolveExpr]
  refine bind_congr fun arguments => StateT.ext fun s => ?_
  rw [resolveCall, bind_assoc, StateT.run_bind, resolveUse, StateT.run_bind]
  rcases (lookupGlobal ctx callee .call).run s with ⟨found, s'⟩
  show StateT.run _ s' = (judge ctx (callVerdict site callee arguments found) >>= finishExpr site).run s'
  rw [judge_run]
  unfold callVerdict
  dsimp only
  cases found with
  | none => rfl
  | some id =>
      dsimp only
      rw [bind_assoc, descriptor?_bind]
      cases s'.descriptors.get? id with
      | none => rfl
      | some d =>
          dsimp only
          split
          · rfl
          · split
            · rfl
            · dsimp only
              rw [bind_assoc, StateT.run_bind, reportMisfits_run]
              rfl

/-- An operation is judged once both operands are resolved, the left one first. -/
theorem resolveExpr_binary (scope : Scope) (site : Site) (op : Operator) (lhs rhs : Expr Site) :
    resolveExpr ctx scope (.binary site op lhs rhs) = (do
      let l ← resolveExpr ctx scope lhs
      let r ← resolveExpr ctx scope rhs
      let binding ← judge ctx (binaryVerdict site op l r)
      finishExpr site binding) := by
  rw [resolveExpr]
  refine bind_congr fun l => bind_congr fun r => StateT.ext fun s => ?_
  rw [judge_run, binaryVerdict, resolveBinary]
  split
  · rfl
  · simp only [bind_assoc, StateT.run_bind, tyText_run, complain_one, pure_bind]
    rfl

/-- An item is judged by the names of the items before it. -/
theorem reportDuplicates_cons (seen : List String) (i : Item Site) (rest : List (Item Site)) :
    reportDuplicates ctx seen (i :: rest) = (do
      judge ctx (nameVerdict seen i.name i.site ("`" ++ i.name ++ "` is declared more than once"))
      reportDuplicates ctx (i.name :: seen) rest) := by
  refine StateT.ext fun s => ?_
  rw [judge_run, nameVerdict, reportDuplicates]
  split <;> rfl

/-- A member is judged by the names of the members before it and then entered, whatever the verdict is.
-/
theorem resolveMembers_cons (owner : DescriptorId) (kind : Descriptor.Kind)
    (typeParams : List String) (duplicate : String → String) (seen : List String)
    (m : Typed Site) (rest : List (Typed Site)) :
    resolveMembers ctx owner kind typeParams duplicate seen (m :: rest) = (do
      judge ctx (nameVerdict seen m.name m.site (duplicate m.name))
      let p ← enterMember ctx owner kind typeParams m
      let more ← resolveMembers ctx owner kind typeParams duplicate (m.name :: seen) rest
      return p :: more) := by
  refine StateT.ext fun s => ?_
  rw [judge_run, nameVerdict, resolveMembers]
  split <;> rfl

/-- The signature of a function: its parameters, then its result, and then both are filled in. -/
theorem resolveSignature_function (i : DescriptorId) (site : Site) (name : String)
    (typeParams : List String) (params : List (Typed Site)) (returns : Option (TypeRef Site))
    (body : List (Stmt Site)) :
    resolveSignature ctx i (.function site name typeParams params returns body) = (do
      let members ← resolveMembers ctx i .param typeParams
        (fun p => "parameter `" ++ p ++ "` is declared more than once") [] params
      let result ← resolveReturns ctx typeParams returns
      enterSignature i site
        (fun d => { d with params := members.map (·.1), typeParams := typeParams, ty := result }) result
      return members.map (·.2)) := by
  cases returns <;> rfl

/-- The signature of a class: its fields, and then they are filled in with the class itself as type. -/
theorem resolveSignature_cls (i : DescriptorId) (site : Site) (name : String)
    (fields : List (Typed Site)) :
    resolveSignature ctx i (.cls site name fields) = (do
      let members ← resolveMembers ctx i .field []
        (fun f => "field `" ++ f ++ "` is declared more than once in `" ++ name ++ "`") [] fields
      enterSignature i site (fun d => { d with params := members.map (·.1), ty := .cls i }) (.cls i)
      return []) := rfl

variable (frame : Frame) (scope : Scope) (site : Site)

/-- The value of a `let` is resolved before its stated type, and the name is in scope behind both. -/
theorem resolveStmt_letBind (name : String) (type : Option (TypeRef Site)) (value : Expr Site) :
    resolveStmt ctx frame scope (.letBind site name type value) = (do
      let found ← resolveExpr ctx scope value
      let stated ← statedType ctx frame type
      declareLocal ctx frame scope site name value found stated) := by
  rw [resolveStmt]
  refine bind_congr fun found => ?_
  have last : ∀ stated : Option Ty, (do
      let fits := (stated.map (·.accepts found)).getD true
      let ty := stated.getD found
      if !fits then
        report ctx typeCode value.site
          ("expected " ++ (← tyText ty) ++ ", found " ++ (← tyText found))
      let id ← describe
        { name := name, kind := .localVar, ty := ty, container := some frame.function,
          origin := .source site.id }
      bind site ((Binding.declaration ty id).withFlags { typeMismatch := !fits })
      return (name, id) :: scope : Step Scope) =
        declareLocal ctx frame scope site name value found stated := by
    intro stated
    refine StateT.ext fun s => ?_
    rw [declareLocal, judge_run, localVerdict, localFits]
    cases (stated.map (·.accepts found)).getD true with
    | true => rfl
    | false =>
        simp only [StateT.run_bind, tyText_run, Bool.not_false, if_true, Bool.false_eq_true,
          if_false, complain_one]
        rfl
  cases type with
  | none => exact last none
  | some t => exact bind_congr fun ty => last ty

/-- What is returned is compared with what the function returns at the place of the value, or at that
of the statement if there is none. -/
theorem resolveStmt_ret (value : Option (Expr Site)) :
    resolveStmt ctx frame scope (.ret site value) =
      match value with
      | some value => resolveExpr ctx scope value >>= checkReturn ctx frame scope value.site
      | none => checkReturn ctx frame scope site .unit := by
  have last : ∀ (place : Site) (found : Ty), (do
      if !frame.result.accepts found then
        report ctx typeCode place
          ("expected " ++ (← tyText frame.result) ++ " to be returned, found " ++ (← tyText found))
        flag place mismatch
      return scope : Step Scope) = checkReturn ctx frame scope place found := by
    intro place found
    refine StateT.ext fun s => ?_
    show _ = (judge ctx (returnVerdict frame scope place found) >>= pure).run s
    rw [judge_run, returnVerdict]
    cases frame.result.accepts found with
    | true => rfl
    | false =>
        simp only [bind_assoc, StateT.run_bind, tyText_run, Bool.not_false, if_true,
          Bool.false_eq_true, if_false, complain_remarked]
        rfl
  cases value with
  | none => exact last site .unit
  | some value => exact bind_congr fun found => last value.site found

end Equations

end StagedCompiler.Resolution
