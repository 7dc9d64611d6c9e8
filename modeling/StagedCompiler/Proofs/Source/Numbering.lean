import Mathlib.Data.List.Nodup
import StagedCompiler.Source.Assembly

/-!
# Assembled trees are numbered in document order

Marking numbers constructs one after another.  `Consecutive next nodes after` says that nodes have the
numbers from `next` on and that `after` is the next one that is free; every marking function gives
such nodes, so in an assembled tree the numbers of all constructs are `0`, `1`, `2`, ...
(`assemble_numbers`).
-/

namespace StagedCompiler.Source

/-- Nodes that have the numbers from `next` up to `after`. -/
structure Consecutive (next : Nat) (nodes : List Node) (after : Nat) : Prop where
  numbers : nodes.map Node.id = List.range' next nodes.length
  after : after = next + nodes.length

namespace Consecutive

variable {next middle after : Nat} {xs ys : List Node} {n : Node}

theorem nil (next : Nat) : Consecutive next [] next := ⟨rfl, rfl⟩

/-- What is numbered behind consecutive numbers makes them go on. -/
theorem append (first : Consecutive next xs middle) (second : Consecutive middle ys after) :
    Consecutive next (xs ++ ys) after := by
  constructor
  · rw [List.map_append, first.numbers, second.numbers, first.after, List.length_append,
      List.range'_append_1]
  · rw [second.after, first.after, List.length_append, Nat.add_assoc]

/-- A construct with the next number and then consecutive ones are consecutive. -/
theorem cons (here : n.id = next) (rest : Consecutive (next + 1) xs after) :
    Consecutive next (n :: xs) after := by
  constructor
  · rw [List.map_cons, here, rest.numbers, List.length_cons, List.range'_succ]
  · rw [rest.after, List.length_cons]
    omega

theorem single (here : n.id = next) : Consecutive next [n] (next + 1) :=
  cons here (nil _)

end Consecutive

/-- What a computation that succeeds has computed on the way. -/
theorem bind_eq_ok {ε α β : Type} {x : Except ε α} {f : α → Except ε β} {b : β}
    (ok : (x >>= f) = .ok b) : ∃ a, x = .ok a ∧ f a = .ok b := by
  cases x with
  | error e => cases ok
  | ok a => exact ⟨a, rfl, ok⟩

/-- A computation whose result is there has succeeded. -/
theorem eq_ok_of_toOption {ε α : Type} {x : Except ε α} {a : α} (given : x.toOption = some a) :
    x = .ok a := by
  cases x with
  | error e => cases given
  | ok b => exact congrArg Except.ok (Option.some.inj given)

/-- Several constructs are numbered one after another if each of them is. -/
theorem markAll_consecutive {α β : Type} {mark : String → Nat → α → Except BadName (β × Nat)}
    {nodes : β → List Node}
    (each : ∀ {path next a b after}, mark path next a = .ok (b, after) →
      Consecutive next (nodes b) after)
    {path : String} {index next after : Nat} {as : List α} {bs : List β}
    (marked : markAll mark path index next as = .ok (bs, after)) :
    Consecutive next (bs.flatMap nodes) after := by
  induction as generalizing index next bs with
  | nil =>
      cases marked
      exact .nil _
  | cons a rest ih =>
      obtain ⟨⟨b, middle⟩, first, marked⟩ := bind_eq_ok marked
      obtain ⟨⟨more, last⟩, later, marked⟩ := bind_eq_ok marked
      cases marked
      exact (each first).append (ih later)

theorem markOption_consecutive {α β : Type} {mark : String → Nat → α → Except BadName (β × Nat)}
    (nodes : β → List Node)
    (each : ∀ {path next a b after}, mark path next a = .ok (b, after) →
      Consecutive next (nodes b) after)
    {path : String} {next after : Nat} {o : Option α} {b : Option β}
    (marked : markOption mark path next o = .ok (b, after)) :
    Consecutive next (b.toList.flatMap nodes) after := by
  cases o with
  | none =>
      cases marked
      exact .nil next
  | some a =>
      obtain ⟨⟨b, last⟩, first, marked⟩ := bind_eq_ok marked
      cases marked
      simpa using each first

/-- A reference to a type takes one number. -/
theorem TypeRef.mark_consecutive {path : String} {next after : Nat} {t : TypeRef Unit}
    {t' : TypeRef Site} (marked : t.mark path next = .ok (t', after)) :
    Consecutive next [.typeRef t'] after := by
  obtain ⟨_, _, marked⟩ := bind_eq_ok marked
  cases marked
  exact .single rfl

theorem markTypeRef_consecutive {path : String} {next after : Nat} {o : Option (TypeRef Unit)}
    {t : Option (TypeRef Site)} (marked : markOption TypeRef.mark path next o = .ok (t, after)) :
    Consecutive next (t.toList.map .typeRef) after := by
  have consecutive := markOption_consecutive (fun t => [.typeRef t])
    (fun m => TypeRef.mark_consecutive m) marked
  cases t with
  | none => exact consecutive
  | some t => exact consecutive

theorem Typed.mark_consecutive {path : String} {next after : Nat} {t : Typed Unit}
    {t' : Typed Site} (marked : t.mark path next = .ok (t', after)) (node : Typed Site → Node)
    (place : ∀ t, (node t).site = t.site) : Consecutive next [node t', .typeRef t'.type] after := by
  obtain ⟨_, _, marked⟩ := bind_eq_ok marked
  obtain ⟨⟨type, last⟩, typed, marked⟩ := bind_eq_ok marked
  cases marked
  refine .cons ?_ (TypeRef.mark_consecutive typed)
  rw [Node.id, place]

mutual

theorem Expr.mark_consecutive {path : String} {next after : Nat} : {e : Expr Unit} →
    {e' : Expr Site} → e.mark path next = .ok (e', after) → Consecutive next e'.nodes after
  | .int _ n, e', marked => by
      cases marked
      exact .single rfl
  | .bool _ b, e', marked => by
      cases marked
      exact .single rfl
  | .str _ s, e', marked => by
      cases marked
      exact .single rfl
  | .ref _ name, e', marked => by
      obtain ⟨_, _, marked⟩ := bind_eq_ok marked
      cases marked
      exact .single rfl
  | .call _ callee args, e', marked => by
      obtain ⟨_, _, marked⟩ := bind_eq_ok marked
      obtain ⟨⟨args', last⟩, below, marked⟩ := bind_eq_ok marked
      cases marked
      exact .cons rfl (markArgs_consecutive below)
  | .binary _ op lhs rhs, e', marked => by
      obtain ⟨⟨l, middle⟩, left, marked⟩ := bind_eq_ok marked
      obtain ⟨⟨r, last⟩, right, marked⟩ := bind_eq_ok marked
      cases marked
      exact .cons rfl ((Expr.mark_consecutive left).append (Expr.mark_consecutive right))

theorem markArgs_consecutive {path : String} {index next after : Nat} : {es : List (Expr Unit)} →
    {es' : List (Expr Site)} → markArgs path index next es = .ok (es', after) →
    Consecutive next (exprListNodes es') after
  | [], es', marked => by
      cases marked
      exact .nil next
  | e :: rest, es', marked => by
      obtain ⟨⟨e', middle⟩, first, marked⟩ := bind_eq_ok marked
      obtain ⟨⟨more, last⟩, later, marked⟩ := bind_eq_ok marked
      cases marked
      exact (Expr.mark_consecutive first).append (markArgs_consecutive later)

end

theorem Stmt.mark_consecutive {path : String} {next after : Nat} {s : Stmt Unit} {s' : Stmt Site}
    (marked : s.mark path next = .ok (s', after)) : Consecutive next s'.nodes after := by
  cases s with
  | letBind site name type value =>
      obtain ⟨_, _, marked⟩ := bind_eq_ok marked
      obtain ⟨⟨type', middle⟩, typed, marked⟩ := bind_eq_ok marked
      obtain ⟨⟨value', last⟩, valued, marked⟩ := bind_eq_ok marked
      cases marked
      exact .cons rfl ((markTypeRef_consecutive typed).append (Expr.mark_consecutive valued))
  | ret site value =>
      obtain ⟨⟨value', last⟩, valued, marked⟩ := bind_eq_ok marked
      cases marked
      exact .cons rfl (markOption_consecutive Expr.nodes (fun m => Expr.mark_consecutive m) valued)
  | eval site value =>
      obtain ⟨⟨value', last⟩, valued, marked⟩ := bind_eq_ok marked
      cases marked
      exact .cons rfl (Expr.mark_consecutive valued)

theorem Item.mark_consecutive {path : String} {next after : Nat} {i : Item Unit} {i' : Item Site}
    (marked : i.mark path next = .ok (i', after)) : Consecutive next i'.nodes after := by
  cases i with
  | function site name typeParams params returns body =>
      obtain ⟨_, _, marked⟩ := bind_eq_ok marked
      obtain ⟨_, _, marked⟩ := bind_eq_ok marked
      obtain ⟨⟨params', first⟩, membered, marked⟩ := bind_eq_ok marked
      obtain ⟨⟨returns', second⟩, returned, marked⟩ := bind_eq_ok marked
      obtain ⟨⟨body', last⟩, bodied, marked⟩ := bind_eq_ok marked
      cases marked
      have members := markAll_consecutive
        (fun m => Typed.mark_consecutive m Node.param fun _ => rfl) membered
      have stmts := markAll_consecutive (fun m => Stmt.mark_consecutive m) bodied
      exact .cons rfl ((members.append (markTypeRef_consecutive returned)).append stmts)
  | cls site name fields =>
      obtain ⟨_, _, marked⟩ := bind_eq_ok marked
      obtain ⟨⟨fields', last⟩, membered, marked⟩ := bind_eq_ok marked
      cases marked
      exact .cons rfl
        (markAll_consecutive (fun m => Typed.mark_consecutive m Node.field fun _ => rfl) membered)

/-- The constructs of an assembled tree are numbered from zero in document order. -/
theorem assemble_numbers {d : Draft} {unit : String} {tree : Tree}
    (assembled : d.assemble unit = .ok tree) :
    tree.nodes.map Node.id = List.range tree.size := by
  obtain ⟨⟨items, last⟩, marked, assembled⟩ := bind_eq_ok assembled
  cases assembled
  have consecutive := markAll_consecutive (fun m => Item.mark_consecutive m) marked
  rw [List.range_eq_range']
  exact consecutive.numbers

end StagedCompiler.Source
