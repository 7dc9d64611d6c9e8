import StagedCompiler.Source.Naming
import StagedCompiler.Source.Reader
import StagedCompiler.Text.Span

/-!
# Assembly of trees

`Draft.assemble` numbers the constructs of a draft in document order, gives each its path, and checks
every name on the way, so the first name that is no identifier is the one that is reported.
`Tree.parse` puts the whole way from the text of a unit to its tree together.
-/

namespace StagedCompiler.Source

/-- A name that is no identifier, and the construct that uses it. -/
structure BadName : Type where
  name : String
  path : String
  flaw : IdentifierFlaw
  deriving DecidableEq, Repr

/-- Check a name that the construct at a path uses. -/
def checkName (path name : String) : Except BadName Unit :=
  match identifierFlaw? name with
  | none => .ok ()
  | some flaw => .error ⟨name, path, flaw⟩

/-- The path of a part of a construct. -/
def part (path name : String) : String := path ++ "." ++ name

/-- The path of a part of a construct that is one of several. -/
def indexed (path : String) (index : Nat) : String := path ++ "[" ++ toString index ++ "]"

/-- Mark the members of a list one after another; `next` is the first number that is free, and `mark`
gives the first one that is free behind the member. -/
def markAll {α β : Type} (mark : String → Nat → α → Except BadName (β × Nat)) (path : String) :
    Nat → Nat → List α → Except BadName (List β × Nat)
  | _, next, [] => .ok ([], next)
  | index, next, a :: rest => do
    let (b, next) ← mark (indexed path index) next a
    let (more, next) ← markAll mark path (index + 1) next rest
    pure (b :: more, next)

/-- Mark a part that may be missing. -/
def markOption {α β : Type} (mark : String → Nat → α → Except BadName (β × Nat)) (path : String)
    (next : Nat) : Option α → Except BadName (Option β × Nat)
  | none => .ok (none, next)
  | some a => do
    let (b, next) ← mark path next a
    pure (some b, next)

/-- Mark a reference to a type. -/
def TypeRef.mark (path : String) (next : Nat) (t : TypeRef Unit) :
    Except BadName (TypeRef Site × Nat) := do
  checkName path t.name
  pure (⟨⟨next, path⟩, t.name⟩, next + 1)

/-- Mark a name with its type. -/
def Typed.mark (path : String) (next : Nat) (t : Typed Unit) :
    Except BadName (Typed Site × Nat) := do
  checkName path t.name
  let (type, after) ← t.type.mark (part path "type") (next + 1)
  pure (⟨⟨next, path⟩, t.name, type⟩, after)

mutual

/-- Mark an expression and everything in it. -/
def Expr.mark (path : String) (next : Nat) : Expr Unit → Except BadName (Expr Site × Nat)
  | .int _ n => .ok (.int ⟨next, path⟩ n, next + 1)
  | .bool _ b => .ok (.bool ⟨next, path⟩ b, next + 1)
  | .str _ s => .ok (.str ⟨next, path⟩ s, next + 1)
  | .ref _ name => do
    checkName path name
    pure (.ref ⟨next, path⟩ name, next + 1)
  | .call _ callee args => do
    checkName path callee
    let (args, after) ← markArgs (part path "args") 0 (next + 1) args
    pure (.call ⟨next, path⟩ callee args, after)
  | .binary _ op lhs rhs => do
    let (lhs, after) ← lhs.mark (part path "lhs") (next + 1)
    let (rhs, after) ← rhs.mark (part path "rhs") after
    pure (.binary ⟨next, path⟩ op lhs rhs, after)

/-- Mark the arguments of a call. -/
def markArgs (path : String) (index next : Nat) :
    List (Expr Unit) → Except BadName (List (Expr Site) × Nat)
  | [] => .ok ([], next)
  | e :: rest => do
    let (e, next) ← e.mark (indexed path index) next
    let (more, next) ← markArgs path (index + 1) next rest
    pure (e :: more, next)

end

/-- Mark a statement and everything in it. -/
def Stmt.mark (path : String) (next : Nat) : Stmt Unit → Except BadName (Stmt Site × Nat)
  | .letBind _ name type value => do
    checkName path name
    let (type, after) ← markOption TypeRef.mark (part path "type") (next + 1) type
    let (value, after) ← value.mark (part path "value") after
    pure (.letBind ⟨next, path⟩ name type value, after)
  | .ret _ value => do
    let (value, after) ← markOption Expr.mark (part path "value") (next + 1) value
    pure (.ret ⟨next, path⟩ value, after)
  | .eval _ value => do
    let (value, after) ← value.mark (part path "value") (next + 1)
    pure (.eval ⟨next, path⟩ value, after)

/-- Mark an item and everything in it. -/
def Item.mark (path : String) (next : Nat) : Item Unit → Except BadName (Item Site × Nat)
  | .function _ name typeParams params returns body => do
    checkName path name
    typeParams.forM (checkName path)
    let (params, after) ← markAll Typed.mark (part path "params") 0 (next + 1) params
    let (returns, after) ← markOption TypeRef.mark (part path "returns") after returns
    let (body, after) ← markAll Stmt.mark (part path "body") 0 after body
    pure (.function ⟨next, path⟩ name typeParams params returns body, after)
  | .cls _ name fields => do
    checkName path name
    let (fields, after) ← markAll Typed.mark (part path "fields") 0 (next + 1) fields
    pure (.cls ⟨next, path⟩ name fields, after)

/-- The tree of a draft, under the name of its unit. -/
def Draft.assemble (d : Draft) (unit : String) : Except BadName Tree := do
  let (items, _) ← markAll Item.mark "items" 0 0 d.items
  pure ⟨unit, items⟩

/-- Why a unit could not be read. -/
inductive Fault : Type where
  | io (path : String)
  | parse
  | invalidIdentifier (bad : BadName) (span : Option Text.Span)
  | invalidUnitName (name : String) (flaw : UnitNameFlaw) (span : Option Text.Span)
  deriving DecidableEq, Repr

namespace Fault

/-- The message about a fault. -/
def message : Fault → String
  | .io path => "failed to read unit '" ++ path ++ "'"
  | .parse => "failed to parse unit file"
  | .invalidIdentifier bad _ => "invalid name '" ++ bad.name ++ "' at " ++ bad.path
  | .invalidUnitName name _ _ => "invalid unit name '" ++ name ++ "'"

/-- The code of a fault. -/
def code : Fault → String
  | .io _ => "trellis::io"
  | .parse => "trellis::unit_parse"
  | .invalidIdentifier _ _ => "trellis::invalid_identifier"
  | .invalidUnitName _ _ _ => "trellis::invalid_unit_name"

/-- What can be done about a fault. -/
def help? : Fault → Option String
  | .io _ | .parse => none
  | .invalidIdentifier bad _ =>
    some (bad.flaw.reason ++
      ". Use only letters, numbers, and underscores, starting with a letter or underscore.")
  | .invalidUnitName _ flaw _ =>
    some (flaw.reason ++
      ". Artifacts are named after the unit, so it must be a plain file name.")

/-- The places of the source that a fault points at, each with its label. -/
def labels : Fault → List (String × Text.Span)
  | .io _ | .parse => []
  | .invalidIdentifier _ span => span.toList.map ("invalid identifier", ·)
  | .invalidUnitName _ _ span => span.toList.map ("invalid unit name", ·)

end Fault

/-- The fault of a source that uses a bad name. -/
def invalidIdentifier (source : String) (bad : BadName) : Fault :=
  .invalidIdentifier bad (Text.nameSpan? source bad.name)

/-- The fault of a source whose unit has a bad name. -/
def invalidUnitName (source name : String) (flaw : UnitNameFlaw) : Fault :=
  .invalidUnitName name flaw (Text.unitSpan? source name)

end StagedCompiler.Source

namespace StagedCompiler

/-- The tree of a draft.  The unit is named by the draft or else by the given name; its name is
checked before the names inside it. -/
def Tree.ofDraft (source : String) (defaultUnit : String) (d : Source.Draft) :
    Except Source.Fault Tree :=
  let unit := d.unit.getD defaultUnit
  match Source.unitNameFlaw? unit with
  | some flaw => .error (Source.invalidUnitName source unit flaw)
  | none =>
    match d.assemble unit with
    | .ok tree => .ok tree
    | .error bad => .error (Source.invalidIdentifier source bad)

/-- The tree of the unit that a text holds. -/
def Tree.parse (source defaultUnit : String) : Except Source.Fault Tree :=
  match (Toml.parse source).bind Source.Draft.ofTable? with
  | none => .error .parse
  | some draft => Tree.ofDraft source defaultUnit draft

end StagedCompiler
