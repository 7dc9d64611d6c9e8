import StagedCompiler.Analysis.Resolution

/-!
# What resolution says of a construct

What resolution says of a construct, once the names in it have been looked up, is a `Verdict`: what is
wrong with it, and how it is bound.  A verdict depends on the descriptors that there are and on nothing
else of the state.

A use of a name is bound to what the name leads to, or else it is unresolved, which is an error
(`Points`).  A verdict without complaints says that the construct is as the typing rules want it
(`valueVerdict_silent` and so on).
-/

namespace StagedCompiler.Resolution

open Source (Site TypeRef)

/-! ## Verdicts -/

/-- An error about a construct.  Its binding may be remarked on, too. -/
structure Complaint : Type where
  code : String
  site : Site
  message : String
  remarked : Bool := false

/-- What is said of a construct: what is wrong with it, and what follows all the same. -/
structure Verdict (α : Type) : Type where
  complaints : List Complaint
  value : α

/-- The text of a type in quotes. -/
def quoted (D : Descriptor.Table) (ty : Ty) : String := "`" ++ D.tyText ty ++ "`"

/-- What is said of a use of a value that leads to the given descriptor. -/
def valueVerdict (site : Site) (name : String) (found : Option DescriptorId)
    (D : Descriptor.Table) : Verdict Binding :=
  match found with
  | none =>
    ⟨[⟨unresolvedCode, site, "cannot find value `" ++ name ++ "` in this scope", false⟩], .unresolved⟩
  | some id =>
    match D.get? id with
    | none => ⟨[], .unresolved⟩
    | some d =>
      if d.isCallable then
        ⟨[⟨typeCode, site, "`" ++ name ++ "` is a " ++ d.kind.text ++ ", not a value", false⟩],
          (Binding.reference .error id).withFlags (mismatch.union (syntheticFlag d))⟩
      else ⟨[], (Binding.reference d.ty id).withFlags (syntheticFlag d)⟩

/-- What is wrong with an argument that does not fit. -/
def misfitComplaint (callee : String) (D : Descriptor.Table) (m : Misfit) : Complaint :=
  ⟨typeCode, m.argument.site, "expected " ++ quoted D m.expected ++ " for parameter `" ++ m.param ++
    "` of `" ++ callee ++ "`, found " ++ quoted D m.argument.ty, true⟩

/-- What is said of a call that leads to the given descriptor. -/
def callVerdict (site : Site) (callee : String) (arguments : List Argument)
    (found : Option DescriptorId) (D : Descriptor.Table) : Verdict Binding :=
  match found with
  | none =>
    ⟨[⟨unresolvedCode, site, "cannot find function `" ++ callee ++ "` in this scope", false⟩],
      .unresolved⟩
  | some id =>
    match D.get? id with
    | none => ⟨[], .unresolved⟩
    | some d =>
      if !d.isCallable then
        ⟨[⟨typeCode, site, "`" ++ callee ++ "` is a " ++ d.kind.text ++ ", not a function", false⟩],
          (Binding.reference .error id).withFlags (mismatch.union (syntheticFlag d))⟩
      else if arguments.length ≠ d.params.length then
        ⟨[⟨arityCode, site, arityMessage callee d.params.length arguments.length, false⟩],
          (Binding.reference d.ty id).withFlags (syntheticFlag d)⟩
      else
        ⟨(matchArguments [] (arguments.zip d.params)).1.map (misfitComplaint callee D),
          (Binding.reference (resultTy (matchArguments [] (arguments.zip d.params)).2 d.ty) id).withFlags
            (syntheticFlag d)⟩

/-- The class that a descriptor is, if it is one. -/
def classAt (D : Descriptor.Table) (found : Option DescriptorId) : Option (DescriptorId × Descriptor) :=
  found.bind fun id => (D.get? id).bind fun d => if d.kind == .cls then some (id, d) else none

/-- What is said of a reference to a type that leads to the given descriptor. -/
def typeVerdict (t : TypeRef Site) (found : Option DescriptorId) (D : Descriptor.Table) :
    Verdict Binding :=
  match classAt D found with
  | some (id, d) => ⟨[], (Binding.reference (.cls id) id).withFlags (syntheticFlag d)⟩
  | none => ⟨[⟨unresolvedCode, t.site, "cannot find type `" ++ t.name ++ "`", false⟩], .unresolved⟩

/-- What is said of a binary expression whose operands have the given types. -/
def binaryVerdict (site : Site) (op : Operator) (lhs rhs : Ty) (D : Descriptor.Table) :
    Verdict Binding :=
  if operandsFit op lhs rhs then ⟨[], .typed (operatorTy op)⟩
  else
    ⟨[⟨typeCode, site,
        (if op == .eq then "cannot compare " ++ quoted D lhs ++ " with " ++ quoted D rhs
          else "operator `" ++ op.symbol ++ "` expects `int` operands, found " ++ quoted D lhs ++
            " and " ++ quoted D rhs), false⟩],
      (Binding.typed (operatorTy op)).withFlags mismatch⟩

/-- What is said of leaving a function at a place with a value of the given type. -/
def returnVerdict (frame : Frame) (scope : Scope) (place : Site) (found : Ty)
    (D : Descriptor.Table) : Verdict Scope :=
  if frame.result.accepts found then ⟨[], scope⟩
  else
    ⟨[⟨typeCode, place, "expected " ++ quoted D frame.result ++ " to be returned, found " ++
        quoted D found, true⟩], scope⟩

/-- Whether a local fits what is stated about its type. -/
def localFits (stated : Option Ty) (found : Ty) : Bool := (stated.map (·.accepts found)).getD true

/-- What is said of the value of a local. -/
def localVerdict (place : Site) (stated : Option Ty) (found : Ty) (D : Descriptor.Table) :
    Verdict Unit :=
  if localFits stated found then ⟨[], ()⟩
  else
    ⟨[⟨typeCode, place, "expected " ++ quoted D (stated.getD found) ++ ", found " ++ quoted D found,
      false⟩], ()⟩

/-- What is said of a declaration behind others of the given names. -/
def nameVerdict (seen : List String) (name : String) (site : Site) (message : String)
    (_ : Descriptor.Table) : Verdict Unit :=
  if seen.contains name then ⟨[⟨duplicateCode, site, message, false⟩], ()⟩ else ⟨[], ()⟩

/-! ## No use of a name is a declaration -/

/-- The use of a value introduces no descriptor, and neither does a call, a type or an operator. -/
theorem valueVerdict_idle (site : Site) (name : String) (found : Option DescriptorId)
    (D : Descriptor.Table) : (valueVerdict site name found D).value.declares = none := by
  unfold valueVerdict
  repeat' split
  all_goals rfl

theorem callVerdict_idle (site : Site) (callee : String) (arguments : List Argument)
    (found : Option DescriptorId) (D : Descriptor.Table) :
    (callVerdict site callee arguments found D).value.declares = none := by
  unfold callVerdict
  repeat' split
  all_goals rfl

theorem typeVerdict_idle (t : TypeRef Site) (found : Option DescriptorId) (D : Descriptor.Table) :
    (typeVerdict t found D).value.declares = none := by
  unfold typeVerdict
  split <;> rfl

theorem binaryVerdict_idle (site : Site) (op : Operator) (l r : Ty) (D : Descriptor.Table) :
    (binaryVerdict site op l r D).value.declares = none := by
  unfold binaryVerdict
  split <;> rfl

/-! ## What uses of names are bound to -/

/-- All names in what a verdict is about have been found. -/
def Verdict.NamesFound {α : Type} (v : Verdict α) : Prop := ∀ c ∈ v.complaints, c.code ≠ unresolvedCode

/-- A use of a name is bound to what the name means, or else the place is reported once as a name that
leads nowhere. -/
inductive Points (site : Site) (D : Descriptor.Table) : Option DescriptorId → Verdict Binding → Prop
  | refers {i : DescriptorId} {d : Descriptor} {ty : Ty} {complaints : List Complaint}
      {flags : Binding.Flags} :
    D.get? i = some d → flags.unresolved = false → (∀ c ∈ complaints, c.code ≠ unresolvedCode) →
    Points site D (some i) ⟨complaints, (Binding.reference ty i).withFlags flags⟩
  | lost {message : String} :
    Points site D none ⟨[⟨unresolvedCode, site, message, false⟩], .unresolved⟩

/-- An argument that does not fit is no name that leads nowhere. -/
theorem misfits_namesFound (callee : String) (D : Descriptor.Table) (misfits : List Misfit) :
    ∀ c ∈ misfits.map (misfitComplaint callee D), c.code ≠ unresolvedCode := by
  rw [List.forall_mem_map]
  intro m _
  show typeCode ≠ unresolvedCode
  decide

section Known

variable {found : Option DescriptorId} {D : Descriptor.Table}
  (known : ∀ i ∈ found, ∃ d, D.get? i = some d)

include known

/-- A name is bound to the descriptor that it leads to, be it a value or not; one that leads nowhere is
unresolved, and this is the only complaint of that code. -/
theorem valueVerdict_points (site : Site) (name : String) :
    Points site D found (valueVerdict site name found D) := by
  unfold valueVerdict
  cases found with
  | none => exact .lost
  | some i =>
      obtain ⟨d, entry⟩ := known i rfl
      dsimp only
      rw [entry]
      dsimp only
      split
      · exact .refers entry rfl (by simp [typeCode, unresolvedCode])
      · exact .refers entry rfl (by simp)

/-- A call is bound to its callee whether its arguments fit or not, as a name is to what it leads to.
-/
theorem callVerdict_points (site : Site) (callee : String) (arguments : List Argument) :
    Points site D found (callVerdict site callee arguments found D) := by
  unfold callVerdict
  cases found with
  | none => exact .lost
  | some i =>
      obtain ⟨d, entry⟩ := known i rfl
      dsimp only
      rw [entry]
      dsimp only
      split
      · exact .refers entry rfl (by simp [typeCode, unresolvedCode])
      · split
        · exact .refers entry rfl (by simp [arityCode, unresolvedCode])
        · exact .refers entry rfl (misfits_namesFound callee D _)

/-- Without complaints a name leads to a descriptor that is no function and no class, and is bound to
it with its type. -/
theorem valueVerdict_silent {site : Site} {name : String}
    (silent : (valueVerdict site name found D).complaints = []) :
    ∃ i d, found = some i ∧ D.get? i = some d ∧ d.isCallable = false ∧
      (valueVerdict site name found D).value =
        (Binding.reference d.ty i).withFlags (syntheticFlag d) := by
  unfold valueVerdict at silent ⊢
  cases found with
  | none => cases silent
  | some i =>
      obtain ⟨d, entry⟩ := known i rfl
      dsimp only at silent ⊢
      rw [entry] at silent ⊢
      dsimp only at silent ⊢
      split at silent
      · cases silent
      · rename_i value
        rw [if_neg value]
        exact ⟨i, d, rfl, entry, Bool.not_eq_true _ ▸ value, rfl⟩

/-- Without complaints a callee can be called, its parameters are as many as the arguments, which all
fit, and the call has its result type. -/
theorem callVerdict_silent {site : Site} {callee : String} {arguments : List Argument}
    (silent : (callVerdict site callee arguments found D).complaints = []) :
    ∃ i d, found = some i ∧ D.get? i = some d ∧ d.isCallable = true ∧
      arguments.length = d.params.length ∧
      (matchArguments [] (arguments.zip d.params)).1 = [] ∧
      (callVerdict site callee arguments found D).value =
        (Binding.reference (resultTy (matchArguments [] (arguments.zip d.params)).2 d.ty) i).withFlags
          (syntheticFlag d) := by
  unfold callVerdict at silent ⊢
  cases found with
  | none => cases silent
  | some i =>
      obtain ⟨d, entry⟩ := known i rfl
      dsimp only at silent ⊢
      rw [entry] at silent ⊢
      dsimp only at silent ⊢
      split at silent
      · cases silent
      · rename_i callable
        split at silent
        · cases silent
        · rename_i length
          rw [if_neg callable, if_neg length]
          exact ⟨i, d, rfl, entry, by simpa using callable, Decidable.not_not.mp length,
            List.map_eq_nil_iff.mp silent, rfl⟩

end Known

/-- What is found for a type is a class of the table, or it is as if nothing had been found. -/
theorem classAt_eq_some {D : Descriptor.Table} {found : Option DescriptorId} {i : DescriptorId}
    {d : Descriptor} (given : classAt D found = some (i, d)) :
    found = some i ∧ D.get? i = some d ∧ d.kind = .cls := by
  unfold classAt at given
  simp only [Option.bind_eq_some_iff] at given
  obtain ⟨j, there, e, entry, given⟩ := given
  split at given
  · rename_i kind
    obtain ⟨rfl, rfl⟩ := Prod.mk.inj (Option.some.inj given)
    exact ⟨there, entry, beq_iff_eq.mp kind⟩
  · cases given

/-- A type is bound to the class that its name leads to; a name that leads to something else than a
class leads nowhere as a type. -/
theorem typeVerdict_points (t : TypeRef Site) (found : Option DescriptorId) (D : Descriptor.Table) :
    Points t.site D ((classAt D found).map (·.1)) (typeVerdict t found D) := by
  unfold typeVerdict
  cases given : classAt D found with
  | none => exact .lost
  | some entry =>
      obtain ⟨_, entry, _⟩ := classAt_eq_some given
      exact .refers entry rfl (by simp)

/-- Without complaints the name of a type leads to a class and is bound to it. -/
theorem typeVerdict_silent {t : TypeRef Site} {found : Option DescriptorId} {D : Descriptor.Table}
    (silent : (typeVerdict t found D).complaints = []) :
    ∃ i d, found = some i ∧ D.get? i = some d ∧ d.kind = .cls ∧ (typeVerdict t found D).value =
      (Binding.reference (.cls i) i).withFlags (syntheticFlag d) := by
  unfold typeVerdict at silent ⊢
  cases given : classAt D found with
  | none =>
      rw [given] at silent
      cases silent
  | some entry =>
      obtain ⟨there, found, kind⟩ := classAt_eq_some given
      exact ⟨entry.1, entry.2, there, found, kind, rfl⟩

/-! ## Verdicts on types -/

section Found

variable (site : Site) (D : Descriptor.Table)

/-- The remaining verdicts are not about names that are used, so none of their complaints says that one
leads nowhere. -/
theorem binaryVerdict_namesFound (op : Operator) (l r : Ty) :
    (binaryVerdict site op l r D).NamesFound := by
  unfold binaryVerdict Verdict.NamesFound
  split <;> simp [typeCode, unresolvedCode]

theorem returnVerdict_namesFound (frame : Frame) (scope : Scope) (found : Ty) :
    (returnVerdict frame scope site found D).NamesFound := by
  unfold returnVerdict Verdict.NamesFound
  split <;> simp [typeCode, unresolvedCode]

theorem localVerdict_namesFound (stated : Option Ty) (found : Ty) :
    (localVerdict site stated found D).NamesFound := by
  unfold localVerdict Verdict.NamesFound
  split <;> simp [typeCode, unresolvedCode]

theorem nameVerdict_namesFound (seen : List String) (name message : String) :
    (nameVerdict seen name site message D).NamesFound := by
  unfold nameVerdict Verdict.NamesFound
  split <;> simp [duplicateCode, unresolvedCode]

end Found

/-- Without complaints the operands fit the operator, and the operation has the operator's type. -/
theorem binaryVerdict_silent {site : Site} {op : Operator} {l r : Ty} {D : Descriptor.Table}
    (silent : (binaryVerdict site op l r D).complaints = []) :
    operandsFit op l r = true ∧ (binaryVerdict site op l r D).value = .typed (operatorTy op) := by
  unfold binaryVerdict at silent ⊢
  split at silent
  · rename_i fit
    rw [if_pos fit]
    exact ⟨fit, rfl⟩
  · cases silent

/-- An operation has the type of its operator whether its operands fit or not. -/
theorem binaryVerdict_ty (site : Site) (op : Operator) (l r : Ty) (D : Descriptor.Table) :
    (binaryVerdict site op l r D).value.ty = operatorTy op := by
  unfold binaryVerdict
  split <;> rfl

theorem returnVerdict_value (frame : Frame) (scope : Scope) (place : Site) (found : Ty)
    (D : Descriptor.Table) : (returnVerdict frame scope place found D).value = scope := by
  unfold returnVerdict
  split <;> rfl

/-- Without complaints the function accepts what is returned. -/
theorem returnVerdict_silent {frame : Frame} {scope : Scope} {place : Site} {found : Ty}
    {D : Descriptor.Table} (silent : (returnVerdict frame scope place found D).complaints = []) :
    frame.result.accepts found = true := by
  unfold returnVerdict at silent
  split at silent
  · assumption
  · cases silent

/-- Without complaints a local accepts the value that it is given. -/
theorem localVerdict_silent {place : Site} {stated : Option Ty} {found : Ty} {D : Descriptor.Table}
    (silent : (localVerdict place stated found D).complaints = []) :
    localFits stated found = true := by
  unfold localVerdict at silent
  split at silent
  · assumption
  · cases silent

/-- A local without a stated type accepts everything, and one with a stated type what this accepts. -/
theorem localFits_iff {stated : Option Ty} {found : Ty} :
    localFits stated found = true ↔ ∀ ty ∈ stated, ty.accepts found = true := by
  cases stated with
  | none => simp [localFits]
  | some ty => simp [localFits]

end StagedCompiler.Resolution
