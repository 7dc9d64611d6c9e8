import StagedCompiler.Source.Assembly

/-!
# Assembly checks names and nothing else

* `bare` takes the marks off a construct, and `names` lists the names that it uses in the order in
  which assembly checks them.
* `Marked` says what marking a construct can give: the construct with marks if all of its names are
  identifiers, and else the complaint about one that is not.
* Each construct is marked in that way (`Item.mark_marked`).  Neither the numbers nor the paths that
  constructs get have a say in it, so it is the names alone that decide whether a draft has a tree
  (`assembles_iff`), and the tree without its marks is the draft (`assemble_bare`).
-/

namespace StagedCompiler.Source

/-! ## Constructs without marks -/

section Bare

variable {α : Type}

/-- A reference to a type without its mark. -/
def TypeRef.bare (t : TypeRef α) : TypeRef Unit := ⟨(), t.name⟩

/-- A name with its type without their marks. -/
def Typed.bare (t : Typed α) : Typed Unit := ⟨(), t.name, t.type.bare⟩

mutual

/-- An expression without marks. -/
def Expr.bare : Expr α → Expr Unit
  | .int _ n => .int () n
  | .bool _ b => .bool () b
  | .str _ s => .str () s
  | .ref _ name => .ref () name
  | .call _ callee args => .call () callee (bareArgs args)
  | .binary _ op lhs rhs => .binary () op lhs.bare rhs.bare

/-- Arguments without marks. -/
def bareArgs : List (Expr α) → List (Expr Unit)
  | [] => []
  | e :: rest => e.bare :: bareArgs rest

end

/-- A statement without marks. -/
def Stmt.bare : Stmt α → Stmt Unit
  | .letBind _ name type value => .letBind () name (type.map TypeRef.bare) value.bare
  | .ret _ value => .ret () (value.map Expr.bare)
  | .eval _ value => .eval () value.bare

/-- An item without marks. -/
def Item.bare : Item α → Item Unit
  | .function _ name typeParams params returns body =>
    .function () name typeParams (params.map Typed.bare) (returns.map TypeRef.bare)
      (body.map Stmt.bare)
  | .cls _ name fields => .cls () name (fields.map Typed.bare)

@[simp] theorem Item.bare_name (i : Item α) : i.bare.name = i.name := by
  cases i <;> rfl

@[simp] theorem map_bare_name (items : List (Item α)) :
    (items.map Item.bare).map Item.name = items.map Item.name := by
  rw [List.map_map]
  exact List.map_congr_left fun i _ => i.bare_name

end Bare

/-! ## Names -/

/-- The name of a type. -/
def TypeRef.names (t : TypeRef Unit) : List String := [t.name]

/-- The names in a name with its type. -/
def Typed.names (t : Typed Unit) : List String := t.name :: t.type.names

mutual

/-- The names in an expression. -/
def Expr.names : Expr Unit → List String
  | .int _ _ | .bool _ _ | .str _ _ => []
  | .ref _ name => [name]
  | .call _ callee args => callee :: argNames args
  | .binary _ _ lhs rhs => lhs.names ++ rhs.names

/-- The names in arguments. -/
def argNames : List (Expr Unit) → List String
  | [] => []
  | e :: rest => e.names ++ argNames rest

end

/-- The names in a statement. -/
def Stmt.names : Stmt Unit → List String
  | .letBind _ name type value => name :: (type.toList.flatMap TypeRef.names ++ value.names)
  | .ret _ value => value.toList.flatMap Expr.names
  | .eval _ value => value.names

/-- The names in an item. -/
def Item.names : Item Unit → List String
  | .function _ name typeParams params returns body =>
    name :: (typeParams ++ (params.flatMap Typed.names ++
      (returns.toList.flatMap TypeRef.names ++ body.flatMap Stmt.names)))
  | .cls _ name fields => name :: fields.flatMap Typed.names

/-- The names in a draft. -/
def Draft.names (d : Draft) : List String := d.items.flatMap Item.names

/-! ## Marking -/

/-- Either all names are identifiers and `a` gets marks, or there is a complaint about a name that is
no identifier. -/
inductive Marked {α β : Type} (bare : β → α) (names : List String) (a : α) :
    Except BadName (β × Nat) → Prop
  | ok {b : β} {after : Nat} : bare b = a → (∀ name ∈ names, identifierFlaw? name = none) →
    Marked bare names a (.ok (b, after))
  | error {bad : BadName} : bad.name ∈ names → identifierFlaw? bad.name = some bad.flaw →
    Marked bare names a (.error bad)

namespace Marked

variable {α β γ δ : Type} {bare : β → α} {bare' : δ → γ} {names names' : List String} {a : α} {c : γ}

theorem done {b : β} {after : Nat} (same : bare b = a) : Marked bare [] a (.ok (b, after)) :=
  .ok same (by simp)

/-- A name that is checked first is the first name. -/
theorem check {path name : String} {rest : Except BadName (β × Nat)}
    (next : Marked bare names a rest) :
    Marked bare (name :: names) a (checkName path name >>= fun _ => rest) := by
  unfold checkName
  cases flaw : identifierFlaw? name with
  | some flaw => exact .error List.mem_cons_self ‹_›
  | none =>
      show Marked bare (name :: names) a rest
      cases next with
      | ok same fine => exact .ok same (List.forall_mem_cons.mpr ⟨flaw, fine⟩)
      | error among bad => exact .error (List.mem_cons_of_mem _ among) bad

theorem checkAll {path : String} {checked : List String} {rest : Except BadName (β × Nat)}
    (next : Marked bare names a rest) :
    Marked bare (checked ++ names) a (checked.forM (checkName path) >>= fun _ => rest) := by
  induction checked with
  | nil => exact next
  | cons name checked ih =>
      show Marked bare (name :: (checked ++ names)) a
        ((checkName path name >>= fun _ => checked.forM (checkName path)) >>= fun _ => rest)
      rw [bind_assoc]
      exact ih.check

/-- Constructs that are marked in sequence have the names of both. -/
theorem bind {first : Except BadName (β × Nat)} {f : β × Nat → Except BadName (δ × Nat)}
    (marked : Marked bare names a first)
    (next : ∀ b after, bare b = a → Marked bare' names' c (f (b, after))) :
    Marked bare' (names ++ names') c (first >>= f) := by
  cases marked with
  | error among bad => exact .error (List.mem_append_left _ among) bad
  | @ok b after same fine =>
      have second := next b after same
      show Marked bare' (names ++ names') c (f (b, after))
      generalize f (b, after) = result at second
      cases second with
      | ok same' fine' => exact .ok same' (List.forall_mem_append.mpr ⟨fine, fine'⟩)
      | error among bad => exact .error (List.mem_append_right _ among) bad

/-- Nothing is checked behind the last part. -/
theorem finish {first : Except BadName (β × Nat)} {f : β × Nat → Except BadName (δ × Nat)}
    (marked : Marked bare names a first)
    (next : ∀ b after, bare b = a → Marked bare' [] c (f (b, after))) :
    Marked bare' names c (first >>= f) := by
  rw [← List.append_nil names]
  exact marked.bind next

/-- Marking succeeds exactly if all names are identifiers. -/
theorem succeeds_iff {result : Except BadName (β × Nat)} (marked : Marked bare names a result) :
    (∃ b after, result = .ok (b, after)) ↔ ∀ name ∈ names, identifierFlaw? name = none := by
  cases marked with
  | @ok b after _ fine => exact iff_of_true ⟨b, after, rfl⟩ fine
  | @error bad among flaw =>
      refine iff_of_false ?_ fun fine => ?_
      · intro given
        rcases given with ⟨_, _, impossible⟩
        cases impossible
      · rw [fine _ among] at flaw
        cases flaw

end Marked

section Parts

variable {α β : Type} {mark : String → Nat → α → Except BadName (β × Nat)} {bare : β → α}
  {names : α → List String}

/-- Several constructs are marked one by one. -/
theorem markAll_marked (each : ∀ path next a, Marked bare (names a) a (mark path next a))
    (path : String) (index next : Nat) (as : List α) :
    Marked (List.map bare) (as.flatMap names) as (markAll mark path index next as) := by
  induction as generalizing index next with
  | nil => exact .done rfl
  | cons a rest ih =>
      refine (each _ next a).bind fun b after same => ?_
      refine (ih (index + 1) after).finish fun more last same' => .done ?_
      rw [List.map_cons, same, same']

theorem markOption_marked (each : ∀ path next a, Marked bare (names a) a (mark path next a))
    (path : String) (next : Nat) (o : Option α) :
    Marked (Option.map bare) (o.toList.flatMap names) o (markOption mark path next o) := by
  cases o with
  | none => exact .done rfl
  | some a =>
      rw [Option.toList_some, List.flatMap_singleton]
      refine (each path next a).finish fun b after same => .done ?_
      rw [Option.map_some, same]

end Parts

theorem TypeRef.mark_marked (path : String) (next : Nat) (t : TypeRef Unit) :
    Marked TypeRef.bare t.names t (t.mark path next) :=
  .check (.done rfl)

theorem Typed.mark_marked (path : String) (next : Nat) (t : Typed Unit) :
    Marked Typed.bare t.names t (t.mark path next) := by
  refine .check ((t.type.mark_marked _ _).finish fun type after same => .done ?_)
  rw [Typed.bare, same]

mutual

/-- Marking an expression keeps it and checks its names, by recursion on it. -/
theorem Expr.mark_marked (path : String) (next : Nat) :
    ∀ e : Expr Unit, Marked Expr.bare e.names e (e.mark path next)
  | .int _ n => by
      rw [Expr.names, Expr.mark]
      exact .done rfl
  | .bool _ b => by
      rw [Expr.names, Expr.mark]
      exact .done rfl
  | .str _ s => by
      rw [Expr.names, Expr.mark]
      exact .done rfl
  | .ref _ name => by
      rw [Expr.names, Expr.mark]
      exact .check (.done rfl)
  | .call _ callee args => by
      rw [Expr.names, Expr.mark]
      refine .check ((markArgs_marked _ _ _ args).finish fun args' after same => .done ?_)
      rw [Expr.bare, same]
  | .binary _ op lhs rhs => by
      rw [Expr.names, Expr.mark]
      refine (lhs.mark_marked _ _).bind fun l after left => ?_
      refine (rhs.mark_marked _ _).finish fun r last right => .done ?_
      rw [Expr.bare, left, right]

theorem markArgs_marked (path : String) (index next : Nat) :
    ∀ es : List (Expr Unit), Marked bareArgs (argNames es) es (markArgs path index next es)
  | [] => by
      rw [argNames, markArgs]
      exact .done rfl
  | e :: rest => by
      rw [argNames, markArgs]
      refine (e.mark_marked _ _).bind fun e' after first => ?_
      refine (markArgs_marked _ _ _ rest).finish fun more last later => .done ?_
      rw [bareArgs, first, later]

end

/-- Marking a statement keeps it and checks its names. -/
theorem Stmt.mark_marked (path : String) (next : Nat) (s : Stmt Unit) :
    Marked Stmt.bare s.names s (s.mark path next) := by
  cases s with
  | letBind site name type value =>
      refine .check ((markOption_marked TypeRef.mark_marked _ _ type).bind fun type' after typed => ?_)
      refine (value.mark_marked _ _).finish fun value' last valued => .done ?_
      rw [Stmt.bare, typed, valued]
  | ret site value =>
      refine (markOption_marked Expr.mark_marked _ _ value).finish fun value' after valued => .done ?_
      rw [Stmt.bare, valued]
  | eval site value =>
      refine (value.mark_marked _ _).finish fun value' after valued => .done ?_
      rw [Stmt.bare, valued]

/-- Marking an item keeps it and checks its names. -/
theorem Item.mark_marked (path : String) (next : Nat) (i : Item Unit) :
    Marked Item.bare i.names i (i.mark path next) := by
  cases i with
  | function site name typeParams params returns body =>
      refine .check (.checkAll ?_)
      refine (markAll_marked Typed.mark_marked _ _ _ params).bind fun params' first membered => ?_
      refine (markOption_marked TypeRef.mark_marked _ _ returns).bind fun returns' second returned => ?_
      refine (markAll_marked Stmt.mark_marked _ _ _ body).finish fun body' last bodied => .done ?_
      rw [Item.bare, membered, returned, bodied]
  | cls site name fields =>
      refine .check ((markAll_marked Typed.mark_marked _ _ _ fields).finish fun fields' last same =>
        .done ?_)
      rw [Item.bare, same]

/-- A draft has a tree exactly if all of its names are identifiers. -/
theorem assembles_iff (d : Draft) (unit : String) :
    (∃ tree, d.assemble unit = .ok tree) ↔ ∀ name ∈ d.names, identifierFlaw? name = none := by
  have marked := markAll_marked Item.mark_marked "items" 0 0 d.items
  rw [Draft.names, ← marked.succeeds_iff]
  constructor
  · intro given
    rcases given with ⟨tree, assembled⟩
    cases made : markAll Item.mark "items" 0 0 d.items with
    | ok result => exact ⟨result.1, result.2, rfl⟩
    | error bad =>
        rw [Draft.assemble, made] at assembled
        cases assembled
  · intro given
    rcases given with ⟨items, last, made⟩
    refine ⟨⟨unit, items⟩, ?_⟩
    rw [Draft.assemble, made]
    rfl

/-- Its tree is the draft with marks. -/
theorem assemble_bare {d : Draft} {unit : String} {tree : Tree}
    (assembled : d.assemble unit = .ok tree) : tree.items.map Item.bare = d.items := by
  have marked := markAll_marked Item.mark_marked "items" 0 0 d.items
  cases made : markAll Item.mark "items" 0 0 d.items with
  | error bad =>
      rw [Draft.assemble, made] at assembled
      cases assembled
  | ok result =>
      rw [Draft.assemble, made] at assembled
      rw [made] at marked
      cases assembled
      cases marked with
      | ok same _ => exact same

end StagedCompiler.Source
