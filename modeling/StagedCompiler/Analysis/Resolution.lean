import StagedCompiler.Analysis.Binding
import StagedCompiler.Registry

/-!
# Resolution of names and types

Every reference of a unit is resolved and every expression is given a type.  First all items get a
descriptor, then signatures are resolved, then bodies.  A name means a local of its function, or else
an item of the unit, or else what a resolver offers for the way in which it is used.

Resolvers are asked once for each name and way of using it, in registry order, until one offers a
descriptor of that name.  If one of them panics, no resolver is asked again and the panic becomes the
outcome.  `State.consultations` records who was asked for what.
-/

namespace StagedCompiler

namespace Resolution

/-- The code for a name that is declared twice. -/
def duplicateCode : String := "E0001"

/-- The code for a name that leads nowhere. -/
def unresolvedCode : String := "E0002"

/-- The code for a call with the wrong number of arguments. -/
def arityCode : String := "E0003"

/-- The code for a type that does not fit. -/
def typeCode : String := "E0004"

/-- A question to a resolver: who was asked, for which name and use, and how many descriptors there
were at the time. -/
structure Consultation : Type where
  resolver : Extension.Id
  name : String
  kind : ReferenceKind
  descriptors : Nat
  deriving DecidableEq, Repr

/-- What stays fixed while a unit is resolved: its name, the resolvers, and the descriptors of its
items by name. -/
structure Context : Type where
  unit : String
  resolvers : List (Registry.Record × Extension.Resolver)
  globals : List (String × DescriptorId)

/-- What has been found out so far. -/
structure State : Type where
  descriptors : Descriptor.Table
  bindings : Bindings
  diagnostics : List Diagnostic := []
  /-- What resolvers offered, by name and use. -/
  synthetic : List ((String × ReferenceKind) × DescriptorId) := []
  /-- What resolvers have been asked for. -/
  asked : List (String × ReferenceKind) := []
  consultations : List Consultation := []
  fault : Option Fault := none

/-- A step of resolution. -/
abbrev Step : Type → Type := StateM State

/-- Report an error at a place. -/
def report (ctx : Context) (code : String) (site : Source.Site) (message : String) : Step Unit :=
  modify fun s =>
    { s with
      diagnostics := s.diagnostics ++
        [.hostError code message ⟨ctx.unit, site.id, site.path⟩] }

/-- Bind a construct. -/
def bind (site : Source.Site) (binding : Binding) : Step Unit :=
  modify fun s => { s with bindings := s.bindings.insert site.id binding }

/-- Add remarks to the binding of a construct. -/
def flag (site : Source.Site) (flags : Binding.Flags) : Step Unit :=
  modify fun s => { s with bindings := s.bindings.flag site.id flags }

/-- Add a descriptor and give its number. -/
def describe (d : Descriptor) : Step DescriptorId :=
  modifyGet fun s => (s.descriptors.size, { s with descriptors := s.descriptors.insert d })

/-- The descriptor with a number. -/
def descriptor? (id : DescriptorId) : Step (Option Descriptor) := do
  return (← get).descriptors.get? id

/-- The text of a type in quotes. -/
def tyText (ty : Ty) : Step String := do
  return "`" ++ (← get).descriptors.tyText ty ++ "`"

/-- Ask the given resolvers for a name, in order.  The first offer of that name ends the search; it
is taken unless an item of the unit has the name. -/
def askResolvers (ctx : Context) (name : String) (kind : ReferenceKind) :
    List (Registry.Record × Extension.Resolver) → Step Unit
  | [] => pure ()
  | (record, resolver) :: rest => do
    let known := (← get).descriptors
    modify fun s =>
      { s with consultations := s.consultations ++ [⟨record.id, name, kind, known.size⟩] }
    match record.answer (resolver.resolve ⟨name, kind, known⟩) with
    | .error fault => modify fun s => { s with fault := some fault }
    | .ok none => askResolvers ctx name kind rest
    | .ok (some offer) =>
      if offer.name ≠ name then askResolvers ctx name kind rest
      else if (ctx.globals.lookup name).isSome then pure ()
      else do
        let id ← describe offer
        modify fun s => { s with synthetic := s.synthetic ++ [((name, kind), id)] }

/-- Ask the resolvers for a name, unless they have been asked for it before or one has panicked. -/
def consult (ctx : Context) (name : String) (kind : ReferenceKind) : Step Unit := do
  let s ← get
  if s.fault.isSome || s.asked.contains (name, kind) then pure ()
  else do
    modify fun s => { s with asked := (name, kind) :: s.asked }
    askResolvers ctx name kind ctx.resolvers

/-- The descriptor that a name stands for outside functions: an item of the unit, or else what the
resolvers offer for this use. -/
def lookupGlobal (ctx : Context) (name : String) (kind : ReferenceKind) :
    Step (Option DescriptorId) := do
  consult ctx name kind
  return (ctx.globals.lookup name).or ((← get).synthetic.lookup (name, kind))

/-- The remark about a reference to what an extension offered. -/
def syntheticFlag (d : Descriptor) : Binding.Flags := { synthetic := d.isSynthetic }

/-- The remark about a type that does not fit. -/
def mismatch : Binding.Flags := { typeMismatch := true }

/-- The class that a name stands for as a type, with its descriptor. -/
def lookupClass (ctx : Context) (name : String) : Step (Option (DescriptorId × Descriptor)) := do
  match ← lookupGlobal ctx name .type with
  | none => return none
  | some id =>
    match ← descriptor? id with
    | some d => return if d.kind == .cls then some (id, d) else none
    | none => return none

/-- The type that a reference to a type stands for: a reserved name, a type parameter, or a class. -/
def resolveType (ctx : Context) (typeParams : List String)
    (t : Source.TypeRef Source.Site) : Step Ty := do
  match Ty.builtin? t.name with
  | some ty =>
    bind t.site (.typed ty)
    return ty
  | none =>
    if typeParams.contains t.name then
      bind t.site (.typed (.param t.name))
      return .param t.name
    else
      match ← lookupClass ctx t.name with
      | some (id, d) =>
        bind t.site ((Binding.reference (.cls id) id).withFlags (syntheticFlag d))
        return .cls id
      | none =>
        report ctx unresolvedCode t.site ("cannot find type `" ++ t.name ++ "`")
        bind t.site .unresolved
        return .error

/-! ## Items and signatures -/

/-- The kind of descriptor that an item has. -/
def itemKind : Source.Item Source.Site → Descriptor.Kind
  | .function _ _ _ _ _ _ => .function
  | .cls _ _ _ => .cls

/-- The descriptors of the items, in order and before their signatures are known. -/
def itemDescriptors (items : List (Source.Item Source.Site)) : Descriptor.Table :=
  ⟨(items.map fun i =>
    ({ name := i.name, kind := itemKind i, origin := .source i.site.id } : Descriptor)).toArray⟩

/-- The items by name.  Of items with the same name the first one counts. -/
def itemNames (items : List (Source.Item Source.Site)) : List (String × DescriptorId) :=
  items.zipIdx.map fun (i, id) => (i.name, id)

/-- Report the items whose name an item before them has. -/
def reportDuplicates (ctx : Context) : List String → List (Source.Item Source.Site) → Step Unit
  | _, [] => pure ()
  | seen, i :: rest => do
    if seen.contains i.name then
      report ctx duplicateCode i.site ("`" ++ i.name ++ "` is declared more than once")
    reportDuplicates ctx (i.name :: seen) rest

/-- Resolve the members of an item (fields or parameters), each of which is declared as a descriptor
of the given kind.  `duplicate` is the message about a member whose name one before it has. -/
def resolveMembers (ctx : Context) (owner : DescriptorId) (kind : Descriptor.Kind)
    (typeParams : List String) (duplicate : String → String) :
    List String → List (Source.Typed Source.Site) →
      Step (List (Descriptor.Param × DescriptorId))
  | _, [] => return []
  | seen, member :: rest => do
    if seen.contains member.name then
      report ctx duplicateCode member.site (duplicate member.name)
    let ty ← resolveType ctx typeParams member.type
    let id ← describe
      { name := member.name, kind := kind, ty := ty, container := some owner,
        origin := .source member.site.id }
    bind member.site (.declaration ty id)
    let more ← resolveMembers ctx owner kind typeParams duplicate (member.name :: seen) rest
    return (⟨member.name, ty⟩, id) :: more

/-- Resolve what an item says about itself to others.  A class is called with its fields.  The
result is the descriptors of a function's parameters. -/
def resolveSignature (ctx : Context) (id : DescriptorId) :
    Source.Item Source.Site → Step (List DescriptorId)
  | .cls site name fields => do
    let members ← resolveMembers ctx id .field []
      (fun f => "field `" ++ f ++ "` is declared more than once in `" ++ name ++ "`") [] fields
    modify fun s =>
      { s with
        descriptors := s.descriptors.modify id fun d =>
          { d with params := members.map (·.1), ty := .cls id } }
    bind site (.declaration (.cls id) id)
    return []
  | .function site _ typeParams params returns _ => do
    let members ← resolveMembers ctx id .param typeParams
      (fun p => "parameter `" ++ p ++ "` is declared more than once") [] params
    let result ← match returns with
      | some t => resolveType ctx typeParams t
      | none => pure .unit
    modify fun s =>
      { s with
        descriptors := s.descriptors.modify id fun d =>
          { d with params := members.map (·.1), typeParams := typeParams, ty := result } }
    bind site (.declaration result id)
    return members.map (·.2)

/-- Resolve the signatures of items, the first of which has the given descriptor. -/
def resolveSignatures (ctx : Context) :
    DescriptorId → List (Source.Item Source.Site) → Step (List (List DescriptorId))
  | _, [] => return []
  | id, item :: rest => do
    let params ← resolveSignature ctx id item
    let more ← resolveSignatures ctx (id + 1) rest
    return params :: more

/-! ## Bodies -/

/-- The locals of a function, the latest first. -/
abbrev Scope : Type := List (String × DescriptorId)

/-- A call's argument: its place and its type. -/
structure Argument : Type where
  site : Source.Site
  ty : Ty

/-- An argument whose type does not fit its parameter. -/
structure Misfit : Type where
  argument : Argument
  param : String
  expected : Ty

/-- Compare arguments with parameters in order.  The first argument at a type parameter fixes the
type that the later ones at it have to fit. -/
def matchArguments : List (String × Ty) → List (Argument × Descriptor.Param) →
    List Misfit × List (String × Ty)
  | fixed, [] => ([], fixed)
  | fixed, (argument, param) :: rest =>
    let compareWith (expected : Ty) : List Misfit × List (String × Ty) :=
      let (misfits, final) := matchArguments fixed rest
      (if expected.accepts argument.ty then misfits
        else ⟨argument, param.name, expected⟩ :: misfits, final)
    match param.ty with
    | .param name =>
      match fixed.lookup name with
      | some expected => compareWith expected
      | none => matchArguments ((name, argument.ty) :: fixed) rest
    | expected => compareWith expected

/-- The type of a call's result: at a type parameter, the type that the arguments fixed. -/
def resultTy (fixed : List (String × Ty)) (ty : Ty) : Ty :=
  match ty with
  | .param name => (fixed.lookup name).getD ty
  | ty => ty

/-- The message about a call with the wrong number of arguments. -/
def arityMessage (callee : String) (expected found : Nat) : String :=
  "`" ++ callee ++ "` takes " ++ toString expected ++ " argument" ++
    (if expected == 1 then "" else "s") ++ " but " ++ toString found ++ " " ++
    (if found == 1 then "was" else "were") ++ " supplied"

/-- Report the arguments whose types do not fit. -/
def reportMisfits (ctx : Context) (callee : String) : List Misfit → Step Unit
  | [] => pure ()
  | m :: rest => do
    report ctx typeCode m.argument.site
      ("expected " ++ (← tyText m.expected) ++ " for parameter `" ++ m.param ++ "` of `" ++ callee ++
        "`, found " ++ (← tyText m.argument.ty))
    flag m.argument.site mismatch
    reportMisfits ctx callee rest

/-- The binding of a reference to a value.  The resolvers are asked even if a local has the name, so
the descriptors of a unit do not depend on its scopes. -/
def resolveRef (ctx : Context) (scope : Scope) (site : Source.Site) (name : String) :
    Step Binding := do
  let global ← lookupGlobal ctx name .value
  match (scope.lookup name).or global with
  | none =>
    report ctx unresolvedCode site ("cannot find value `" ++ name ++ "` in this scope")
    return .unresolved
  | some id =>
    match ← descriptor? id with
    | none => return .unresolved
    | some d =>
      if d.isCallable then
        report ctx typeCode site ("`" ++ name ++ "` is a " ++ d.kind.text ++ ", not a value")
        return (Binding.reference .error id).withFlags (mismatch.union (syntheticFlag d))
      else return (Binding.reference d.ty id).withFlags (syntheticFlag d)

/-- The binding of a call whose arguments are resolved. -/
def resolveCall (ctx : Context) (site : Source.Site) (callee : String) (arguments : List Argument) :
    Step Binding := do
  match ← lookupGlobal ctx callee .call with
  | none =>
    report ctx unresolvedCode site ("cannot find function `" ++ callee ++ "` in this scope")
    return .unresolved
  | some id =>
    match ← descriptor? id with
    | none => return .unresolved
    | some d =>
      if !d.isCallable then
        report ctx typeCode site ("`" ++ callee ++ "` is a " ++ d.kind.text ++ ", not a function")
        return (Binding.reference .error id).withFlags (mismatch.union (syntheticFlag d))
      else if arguments.length ≠ d.params.length then
        report ctx arityCode site (arityMessage callee d.params.length arguments.length)
        return (Binding.reference d.ty id).withFlags (syntheticFlag d)
      else
        let (misfits, fixed) := matchArguments [] (arguments.zip d.params)
        reportMisfits ctx callee misfits
        return (Binding.reference (resultTy fixed d.ty) id).withFlags (syntheticFlag d)

/-- Whether an operator takes operands of the given types. -/
def operandsFit (op : Operator) (lhs rhs : Ty) : Bool :=
  match op with
  | .eq => lhs.accepts rhs
  | .lt | .add | .sub | .mul | .div => Ty.int.accepts lhs && Ty.int.accepts rhs

/-- The type of an operator's result. -/
def operatorTy (op : Operator) : Ty :=
  if op.isComparison then .bool else .int

/-- The binding of a binary expression whose operands are resolved. -/
def resolveBinary (ctx : Context) (site : Source.Site) (op : Operator) (lhs rhs : Ty) :
    Step Binding := do
  if operandsFit op lhs rhs then return .typed (operatorTy op)
  else
    let l ← tyText lhs
    let r ← tyText rhs
    report ctx typeCode site
      (if op == .eq then "cannot compare " ++ l ++ " with " ++ r
        else "operator `" ++ op.symbol ++ "` expects `int` operands, found " ++ l ++ " and " ++ r)
    return (Binding.typed (operatorTy op)).withFlags mismatch

/-- Bind an expression and give its type. -/
def finishExpr (site : Source.Site) (binding : Binding) : Step Ty := do
  bind site binding
  return binding.ty

mutual

/-- Resolve an expression and give its type.  Operands and arguments come first, from left to
right. -/
def resolveExpr (ctx : Context) (scope : Scope) : Source.Expr Source.Site → Step Ty
  | .int site _ => finishExpr site (.typed .int)
  | .bool site _ => finishExpr site (.typed .bool)
  | .str site _ => finishExpr site (.typed .str)
  | .ref site name => do finishExpr site (← resolveRef ctx scope site name)
  | .call site callee args => do
    let arguments ← resolveArguments ctx scope args
    finishExpr site (← resolveCall ctx site callee arguments)
  | .binary site op lhs rhs => do
    let l ← resolveExpr ctx scope lhs
    let r ← resolveExpr ctx scope rhs
    finishExpr site (← resolveBinary ctx site op l r)

/-- Resolve the arguments of a call. -/
def resolveArguments (ctx : Context) (scope : Scope) :
    List (Source.Expr Source.Site) → Step (List Argument)
  | [] => return []
  | e :: rest => do
    let ty ← resolveExpr ctx scope e
    let more ← resolveArguments ctx scope rest
    return ⟨e.site, ty⟩ :: more

end

/-- What a body needs to know of its function. -/
structure Frame : Type where
  function : DescriptorId
  typeParams : List String
  result : Ty

/-- Resolve a statement and give the scope behind it. -/
def resolveStmt (ctx : Context) (frame : Frame) (scope : Scope) :
    Source.Stmt Source.Site → Step Scope
  | .letBind site name type value => do
    let found ← resolveExpr ctx scope value
    let annotated ← match type with
      | some t => some <$> resolveType ctx frame.typeParams t
      | none => pure none
    let fits := (annotated.map (·.accepts found)).getD true
    let ty := annotated.getD found
    if !fits then
      report ctx typeCode value.site
        ("expected " ++ (← tyText ty) ++ ", found " ++ (← tyText found))
    let id ← describe
      { name := name, kind := .localVar, ty := ty, container := some frame.function,
        origin := .source site.id }
    bind site ((Binding.declaration ty id).withFlags { typeMismatch := !fits })
    return (name, id) :: scope
  | .ret site value => do
    let (found, place) ← match value with
      | some value => do pure (← resolveExpr ctx scope value, value.site)
      | none => pure (.unit, site)
    if !frame.result.accepts found then
      report ctx typeCode place
        ("expected " ++ (← tyText frame.result) ++ " to be returned, found " ++ (← tyText found))
      flag place mismatch
    return scope
  | .eval _ value => do
    let _ ← resolveExpr ctx scope value
    return scope

/-- Resolve statements one after another. -/
def resolveStmts (ctx : Context) (frame : Frame) :
    Scope → List (Source.Stmt Source.Site) → Step Unit
  | _, [] => pure ()
  | scope, stmt :: rest => do
    let scope ← resolveStmt ctx frame scope stmt
    resolveStmts ctx frame scope rest

/-- Resolve the body of an item with the given descriptor and parameters. -/
def resolveBody (ctx : Context) (id : DescriptorId) (params : List DescriptorId) :
    Source.Item Source.Site → Step Unit
  | .cls _ _ _ => pure ()
  | .function _ _ typeParams ps _ body => do
    let result := ((← descriptor? id).map (·.ty)).getD .unit
    let scope := ((ps.map (·.name)).zip params).reverse
    resolveStmts ctx ⟨id, typeParams, result⟩ scope body

/-- Resolve the bodies of items, the first of which has the given descriptor. -/
def resolveBodies (ctx : Context) :
    DescriptorId → List (Source.Item Source.Site × List DescriptorId) → Step Unit
  | _, [] => pure ()
  | id, (item, params) :: rest => do
    resolveBody ctx id params item
    resolveBodies ctx (id + 1) rest

/-- Resolve a whole unit. -/
def resolveItems (ctx : Context) (items : List (Source.Item Source.Site)) : Step Unit := do
  reportDuplicates ctx [] items
  let params ← resolveSignatures ctx 0 items
  resolveBodies ctx 0 (items.zip params)

end Resolution

/-- What is known about a unit after its names and types are resolved. -/
def Resolution.run (tree : Tree) (registry : Registry) : Resolution.State :=
  let ctx : Resolution.Context :=
    ⟨tree.unit, registry.resolvers, Resolution.itemNames tree.items⟩
  let start : Resolution.State :=
    { descriptors := Resolution.itemDescriptors tree.items, bindings := .ofSize tree.size }
  ((Resolution.resolveItems ctx tree.items).run start).2

end StagedCompiler
