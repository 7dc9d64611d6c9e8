import StagedCompiler.Proofs.Artifact.JsonText
import StagedCompiler.Proofs.Source.DocumentOrder
import StagedCompiler.Proofs.Source.Identifiers

/-!
# Paths are addresses

The path of a construct is a text.  `stepsOf?` reads it, `Construct.part?` takes one step from a construct
to a part of it, and `follow?` goes the whole way from the items of a unit, marked or not.

* `Reaches` says of a construct and a path that a node below it has a longer path, and that the steps in
  between lead to it.  Every marking function keeps this for all that it marks.
* So following the path of a node leads to the node (`follow?_path`), and the path leads to the same place
  in the draft, since marks do not show the way (`follow?_bare`).
* `assemble_addressed` puts together what the numbers and the paths of a tree are good for.
-/

namespace StagedCompiler.Source

open Json (readNat readNat_toDigits stops_nil)

/-! ## Constructs of a draft and of a tree -/

/-- Any construct, with or without marks. -/
inductive Construct (α : Type) : Type where
  | item (i : Item α)
  | param (p : Typed α)
  | field (f : Typed α)
  | typeRef (t : TypeRef α)
  | stmt (s : Stmt α)
  | expr (e : Expr α)

/-- What a construct has under a name: one part, which may be missing, or a list. -/
inductive Slot (α : Type) : Type where
  | one (part : Option (Construct α))
  | many (parts : List (Construct α))

/-- The parts of a construct, by the names that they have in a document. -/
def Construct.slots {α : Type} : Construct α → List (String × Slot α)
  | .item (.function _ _ _ params returns body) =>
    [("params", .many (params.map .param)), ("returns", .one (returns.map .typeRef)),
      ("body", .many (body.map .stmt))]
  | .item (.cls _ _ fields) => [("fields", .many (fields.map .field))]
  | .param m | .field m => [("type", .one (some (.typeRef m.type)))]
  | .typeRef _ => []
  | .stmt (.letBind _ _ type value) =>
    [("type", .one (type.map .typeRef)), ("value", .one (some (.expr value)))]
  | .stmt (.ret _ value) => [("value", .one (value.map .expr))]
  | .stmt (.eval _ value) => [("value", .one (some (.expr value)))]
  | .expr (.call _ _ args) => [("args", .many (args.map .expr))]
  | .expr (.binary _ _ lhs rhs) =>
    [("lhs", .one (some (.expr lhs))), ("rhs", .one (some (.expr rhs)))]
  | .expr (.int _ _) | .expr (.bool _ _) | .expr (.str _ _) | .expr (.ref _ _) => []

/-- A construct without its marks. -/
def Construct.bare {α : Type} : Construct α → Construct Unit
  | .item i => .item i.bare
  | .param p => .param p.bare
  | .field f => .field f.bare
  | .typeRef t => .typeRef t.bare
  | .stmt s => .stmt s.bare
  | .expr e => .expr e.bare

/-- Parts without their marks. -/
def Slot.bare {α : Type} : Slot α → Slot Unit
  | .one part => .one (part.map Construct.bare)
  | .many parts => .many (parts.map Construct.bare)

theorem bareArgs_eq {α : Type} (es : List (Expr α)) : bareArgs es = es.map Expr.bare := by
  induction es with
  | nil => rfl
  | cons e rest ih => rw [bareArgs, ih, List.map_cons]

theorem Construct.slots_bare {α : Type} (c : Construct α) :
    c.bare.slots = c.slots.map fun slot => (slot.1, slot.2.bare) := by
  rcases c with (_ | _) | _ | _ | _ | (_ | _ | _) | (_ | _ | _ | _ | _ | _) <;>
    simp [Construct.slots, Construct.bare, Slot.bare, Item.bare, Typed.bare, Stmt.bare, Expr.bare,
      bareArgs_eq, Function.comp_def]

/-- A node of a tree as a construct. -/
def Node.construct : Node → Construct Site
  | .item i => .item i
  | .param p => .param p
  | .field f => .field f
  | .typeRef t => .typeRef t
  | .stmt s => .stmt s
  | .expr e => .expr e

/-- Two nodes with the same construct are the same. -/
theorem Node.construct_injective {n n' : Node} (same : n.construct = n'.construct) : n = n' := by
  cases n <;> cases n' <;> cases same <;> rfl

/-! ## Steps -/

/-- A step from a construct to a part: the name of the slot and, if that is a list, a place in it. -/
structure Step : Type where
  slot : String
  index : Option Nat
  deriving DecidableEq, Repr

/-- What stands in a slot at a place. -/
def Slot.part? {α : Type} : Slot α → Option Nat → Option (Construct α)
  | .one part, none => part
  | .many parts, some i => parts[i]?
  | .one _, some _ | .many _, none => none

/-- The part of a construct that a step leads to. -/
def Construct.part? {α : Type} (c : Construct α) (s : Step) : Option (Construct α) :=
  (c.slots.find? (·.1 == s.slot)).bind (·.2.part? s.index)

/-- The construct that steps lead to. -/
def Construct.descend? {α : Type} (c : Construct α) : List Step → Option (Construct α)
  | [] => some c
  | s :: rest => (c.part? s).bind fun part => part.descend? rest

/-- The parts of a construct without marks are its parts without marks. -/
theorem Construct.part?_bare {α : Type} (c : Construct α) (s : Step) :
    c.bare.part? s = (c.part? s).map Construct.bare := by
  rw [Construct.part?, Construct.part?, Construct.slots_bare, List.find?_map]
  change ((c.slots.find? (·.1 == s.slot)).map _).bind _ = _
  cases c.slots.find? (·.1 == s.slot) with
  | none => rfl
  | some slot =>
      rcases slot with ⟨_, part | parts⟩ <;> rcases s with ⟨_, _ | i⟩ <;>
        simp [Slot.bare, Slot.part?]

/-- So what lies at the end of a way is the same with and without marks. -/
theorem Construct.descend?_bare {α : Type} (c : Construct α) (steps : List Step) :
    c.bare.descend? steps = (c.descend? steps).map Construct.bare := by
  induction steps generalizing c with
  | nil => rfl
  | cons s rest ih =>
      rw [Construct.descend?, Construct.descend?, Construct.part?_bare]
      cases c.part? s with
      | none => rfl
      | some part => exact ih part

/-! ## Paths -/

/-- How a path writes a step. -/
def Step.text (s : Step) : String :=
  match s.index with
  | none => s.slot
  | some i => indexed s.slot i

/-- The step that a segment of a path is. -/
def Step.read? (segment : List Char) : Option Step :=
  match segment.dropWhile (· != '[') with
  | [] => some ⟨String.ofList segment, none⟩
  | _ :: digits =>
    match readNat digits with
    | some (i, [']']) => some ⟨String.ofList (segment.takeWhile (· != '[')), some i⟩
    | _ => none

/-- The steps of a path. -/
def stepsOf? (path : String) : Option (List Step) :=
  (path.toList.splitOn '.').mapM Step.read?

/-- The construct that a path leads to from the items of a unit. -/
def follow? {α : Type} (items : List (Item α)) (path : String) : Option (Construct α) :=
  match stepsOf? path with
  | some (⟨"items", some i⟩ :: steps) =>
    items[i]?.bind fun item => (Construct.item item).descend? steps
  | _ => none

/-- Marks do not show the way. -/
theorem follow?_bare {α : Type} (items : List (Item α)) (path : String) :
    follow? (items.map Item.bare) path = (follow? items path).map Construct.bare := by
  unfold follow?
  split
  · rename_i i steps _
    rw [List.getElem?_map]
    cases items[i]? with
    | none => rfl
    | some item => exact (Construct.item item).descend?_bare steps
  · rfl

/-- The name of a slot has no character that a path uses for itself. -/
def Step.IsPlain (s : Step) : Prop := '.' ∉ s.slot.toList ∧ '[' ∉ s.slot.toList

/-- Steps that lead somewhere are plain. -/
theorem Construct.isPlain_of_part? {α : Type} {c d : Construct α} {s : Step}
    (there : c.part? s = some d) : s.IsPlain := by
  have names : ∀ slot ∈ c.slots, '.' ∉ slot.1.toList ∧ '[' ∉ slot.1.toList := by
    rcases c with (_ | _) | _ | _ | _ | (_ | _ | _) | (_ | _ | _ | _ | _ | _) <;>
      simp [Construct.slots]
  obtain ⟨slot, found, -⟩ := Option.bind_eq_some_iff.mp there
  have same : slot.1 = s.slot := by simpa using List.find?_some found
  rw [Step.IsPlain, ← same]
  exact names slot (List.mem_of_find?_eq_some found)

namespace Step

variable {s : Step}

theorem toList_indexed (path : String) (i : Nat) :
    (indexed path i).toList = path.toList ++ '[' :: (Nat.toDigits 10 i ++ [']']) := by
  simp [indexed]

/-- The text of a step has no dot, so dots separate the steps of a path. -/
theorem dot_notMem_text (plain : s.IsPlain) : '.' ∉ s.text.toList := by
  rcases s with ⟨slot, _ | i⟩
  · exact plain.1
  · rw [text, toList_indexed]
    intro member
    rcases List.mem_append.mp member with inSlot | behind
    · exact plain.1 inSlot
    · have digit : '.' ∈ Nat.toDigits 10 i := by simpa using behind
      exact absurd (Nat.isDigit_of_mem_toDigits (by decide) (by decide) digit) (by decide)

/-- What is written is read back. -/
theorem read?_text (plain : s.IsPlain) : read? s.text.toList = some s := by
  rcases s with ⟨slot, index⟩
  have before : ∀ c ∈ slot.toList, (c != '[') = true := fun c member =>
    bne_iff_ne.mpr fun same => plain.2 (same ▸ member)
  cases index with
  | none =>
      have none : slot.toList.dropWhile (· != '[') = [] := by
        rw [← List.append_nil slot.toList, List.dropWhile_append_of_pos before, List.dropWhile_nil]
      rw [read?, text, none, String.ofList_toList]
  | some i =>
      have number : readNat (Nat.toDigits 10 i ++ [']']) = some (i, [']']) :=
        readNat_toDigits i (by simp [Json.Stops])
      rw [read?, text, toList_indexed, List.dropWhile_append_of_pos before,
        List.takeWhile_append_of_pos before]
      simp [number]

end Step

/-- How a path goes on behind a construct. -/
def suffix : List Step → String
  | [] => ""
  | s :: rest => "." ++ s.text ++ suffix rest

theorem splitOn_dot (front rest : List Char) :
    (front ++ '.' :: rest).splitOn '.' = front.splitOn '.' ++ rest.splitOn '.' :=
  List.splitOnP_append_cons front rest (beq_self_eq_true '.')

/-- A path is split into its first segment and the texts of its steps. -/
theorem splitOn_suffix {segment : List Char} (plain : '.' ∉ segment) {steps : List Step}
    (allPlain : ∀ s ∈ steps, s.IsPlain) :
    (segment ++ (suffix steps).toList).splitOn '.' = segment :: steps.map (·.text.toList) := by
  induction steps generalizing segment with
  | nil =>
      rw [suffix, String.toList_empty, List.append_nil, List.splitOn_eq_singleton plain]
      rfl
  | cons s rest ih =>
      rw [List.forall_mem_cons] at allPlain
      have split : segment ++ (suffix (s :: rest)).toList =
          segment ++ '.' :: (s.text.toList ++ (suffix rest).toList) := by
        simp [suffix]
      rw [split, splitOn_dot, List.splitOn_eq_singleton plain,
        ih (Step.dot_notMem_text allPlain.1) allPlain.2]
      rfl

/-- The texts of steps are read back. -/
theorem mapM_read?_text {steps : List Step} (allPlain : ∀ s ∈ steps, s.IsPlain) :
    (steps.map (·.text.toList)).mapM Step.read? = some steps := by
  induction steps with
  | nil => rfl
  | cons s rest ih =>
      rw [List.forall_mem_cons] at allPlain
      rw [List.map_cons, List.mapM_cons, Step.read?_text allPlain.1, ih allPlain.2]
      rfl

/-- The steps of a path are read back. -/
theorem stepsOf?_suffix {s : Step} (plain : s.IsPlain) {steps : List Step}
    (allPlain : ∀ s ∈ steps, s.IsPlain) :
    stepsOf? (s.text ++ suffix steps) = some (s :: steps) := by
  rw [stepsOf?, String.toList_append, splitOn_suffix (Step.dot_notMem_text plain) allPlain]
  exact mapM_read?_text (List.forall_mem_cons.mpr ⟨plain, allPlain⟩)

/-! ## Marking gives addresses -/

/-- From the construct at a path, steps lead to a node, and the path of the node goes on with them. -/
def Reaches (c : Construct Site) (path : String) (n : Node) : Prop :=
  ∃ steps, (∀ s ∈ steps, s.IsPlain) ∧ c.descend? steps = some n.construct ∧
    n.site.path = path ++ suffix steps

namespace Reaches

variable {c d : Construct Site} {path : String} {n : Node}

theorem here (n : Node) : Reaches n.construct n.site.path n :=
  ⟨[], by simp, rfl, by rw [suffix, String.append_empty]⟩

/-- What is reached from a part is reached from the whole by one more step. -/
theorem step (s : Step) (there : c.part? s = some d) (reaches : Reaches d (part path s.text) n) :
    Reaches c path n := by
  obtain ⟨steps, allPlain, leads, text⟩ := reaches
  have plain := Construct.isPlain_of_part? there
  refine ⟨s :: steps, List.forall_mem_cons.mpr ⟨plain, allPlain⟩, ?_, ?_⟩
  · rw [Construct.descend?, there]
    exact leads
  · rw [text, suffix, part]
    simp only [String.append_assoc]

/-- A part that has a name. -/
theorem named (slot : String) (there : c.part? ⟨slot, none⟩ = some d)
    (reaches : Reaches d (part path slot) n) : Reaches c path n :=
  reaches.step ⟨slot, none⟩ there

/-- A part that has a place in a list. -/
theorem placed {α : Type} {construct : α → Construct Site} {as : List α} (slot : String)
    (there : ∀ i, c.part? ⟨slot, some i⟩ = as[i]?.map construct)
    (reached : ∃ i a, as[i]? = some a ∧ Reaches (construct a) (indexed (part path slot) (0 + i)) n) :
    Reaches c path n := by
  obtain ⟨i, a, found, reaches⟩ := reached
  have text : part path (Step.text ⟨slot, some i⟩) = indexed (part path slot) (0 + i) := by
    simp only [part, Step.text, indexed, String.append_assoc, Nat.zero_add]
  rw [← text] at reaches
  exact reaches.step ⟨slot, some i⟩ (by rw [there, found, Option.map_some])

end Reaches

section Parts

variable {α β : Type} {mark : String → Nat → α → Except BadName (β × Nat)} {nodes : β → List Node}
  {construct : β → Construct Site}

/-- Each node of a list belongs to the member at some place. -/
theorem markAll_reaches
    (each : ∀ {path next a b after}, mark path next a = .ok (b, after) →
      ∀ n ∈ nodes b, Reaches (construct b) path n)
    {path : String} {index next after : Nat} {as : List α} {bs : List β}
    (marked : markAll mark path index next as = .ok (bs, after)) :
    ∀ n ∈ bs.flatMap nodes,
      ∃ i b, bs[i]? = some b ∧ Reaches (construct b) (indexed path (index + i)) n := by
  induction as generalizing index next bs with
  | nil =>
      cases marked
      simp
  | cons a rest ih =>
      obtain ⟨⟨b, middle⟩, first, marked⟩ := bind_eq_ok marked
      obtain ⟨⟨more, last⟩, later, marked⟩ := bind_eq_ok marked
      cases marked
      rw [List.flatMap_cons, List.forall_mem_append]
      refine ⟨fun n member => ⟨0, b, rfl, each first n member⟩, fun n member => ?_⟩
      -- The rest counts its places from `index + 1` on.
      obtain ⟨i, b', there, reaches⟩ := ih later n member
      refine ⟨i + 1, b', there, ?_⟩
      rwa [Nat.add_right_comm, Nat.add_assoc] at reaches

theorem markOption_reaches
    (each : ∀ {path next a b after}, mark path next a = .ok (b, after) →
      ∀ n ∈ nodes b, Reaches (construct b) path n)
    {path : String} {next after : Nat} {o : Option α} {o' : Option β}
    (marked : markOption mark path next o = .ok (o', after)) :
    ∀ n ∈ o'.toList.flatMap nodes, ∃ b, o' = some b ∧ Reaches (construct b) path n := by
  cases o with
  | none =>
      cases marked
      simp
  | some a =>
      obtain ⟨⟨b, last⟩, first, marked⟩ := bind_eq_ok marked
      cases marked
      intro n member
      exact ⟨b, rfl, each first n (by simpa using member)⟩

end Parts

theorem TypeRef.mark_reaches {path : String} {next after : Nat} {t : TypeRef Unit}
    {t' : TypeRef Site} (marked : t.mark path next = .ok (t', after)) :
    ∀ n ∈ [Node.typeRef t'], Reaches (.typeRef t') path n := by
  obtain ⟨_, _, marked⟩ := bind_eq_ok marked
  cases marked
  rw [List.forall_mem_singleton]
  exact .here (.typeRef _)

/-- A parameter or a field. -/
theorem Typed.mark_reaches {path : String} {next after : Nat} {m : Typed Unit} {m' : Typed Site}
    (node : Typed Site → Node) (place : ∀ m, (node m).site = m.site)
    (type : ∀ m, (node m).construct.part? ⟨"type", none⟩ = some (.typeRef m.type))
    (marked : m.mark path next = .ok (m', after)) :
    ∀ n ∈ [node m', .typeRef m'.type], Reaches (node m').construct path n := by
  obtain ⟨_, _, marked⟩ := bind_eq_ok marked
  obtain ⟨⟨type', last⟩, typed, marked⟩ := bind_eq_ok marked
  cases marked
  rw [List.forall_mem_cons]
  refine ⟨?_, fun n member => ?_⟩
  · have self := Reaches.here (node ⟨⟨next, path⟩, m.name, type'⟩)
    rwa [place] at self
  · exact (TypeRef.mark_reaches typed n member).named "type" (type _)

mutual

/-- Everything in an expression is reached from it by the path that it was marked with, by recursion on
it. -/
theorem Expr.mark_reaches {path : String} {next after : Nat} : {e : Expr Unit} → {e' : Expr Site} →
    e.mark path next = .ok (e', after) → ∀ n ∈ e'.nodes, Reaches (.expr e') path n
  | .int _ n, e', marked => by
      cases marked
      rw [Expr.nodes, List.forall_mem_singleton]
      exact .here (.expr _)
  | .bool _ b, e', marked => by
      cases marked
      rw [Expr.nodes, List.forall_mem_singleton]
      exact .here (.expr _)
  | .str _ s, e', marked => by
      cases marked
      rw [Expr.nodes, List.forall_mem_singleton]
      exact .here (.expr _)
  | .ref _ name, e', marked => by
      obtain ⟨_, _, marked⟩ := bind_eq_ok marked
      cases marked
      rw [Expr.nodes, List.forall_mem_singleton]
      exact .here (.expr _)
  | .call _ callee args, e', marked => by
      obtain ⟨_, _, marked⟩ := bind_eq_ok marked
      obtain ⟨⟨args', last⟩, below, marked⟩ := bind_eq_ok marked
      cases marked
      rw [Expr.nodes, List.forall_mem_cons]
      refine ⟨.here (.expr _), fun n member => ?_⟩
      exact .placed "args" (fun _ => List.getElem?_map) (markArgs_reaches below n member)
  | .binary _ op lhs rhs, e', marked => by
      obtain ⟨⟨l, middle⟩, left, marked⟩ := bind_eq_ok marked
      obtain ⟨⟨r, last⟩, right, marked⟩ := bind_eq_ok marked
      cases marked
      rw [Expr.nodes, List.forall_mem_cons, List.forall_mem_append]
      refine ⟨.here (.expr _), fun n member => ?_, fun n member => ?_⟩
      · exact (Expr.mark_reaches left n member).named "lhs" rfl
      · exact (Expr.mark_reaches right n member).named "rhs" rfl

theorem markArgs_reaches {path : String} {index next after : Nat} : {es : List (Expr Unit)} →
    {es' : List (Expr Site)} → markArgs path index next es = .ok (es', after) →
    ∀ n ∈ exprListNodes es',
      ∃ i e, es'[i]? = some e ∧ Reaches (.expr e) (indexed path (index + i)) n
  | [], es', marked => by
      cases marked
      simp [exprListNodes]
  | e :: rest, es', marked => by
      obtain ⟨⟨e', middle⟩, first, marked⟩ := bind_eq_ok marked
      obtain ⟨⟨more, last⟩, later, marked⟩ := bind_eq_ok marked
      cases marked
      rw [exprListNodes, List.forall_mem_append]
      refine ⟨fun n member => ⟨0, e', rfl, Expr.mark_reaches first n member⟩, fun n member => ?_⟩
      obtain ⟨i, found, there, reaches⟩ := markArgs_reaches later n member
      refine ⟨i + 1, found, there, ?_⟩
      rwa [Nat.add_right_comm, Nat.add_assoc] at reaches

end

/-- The same for statements. -/
theorem Stmt.mark_reaches {path : String} {next after : Nat} {s : Stmt Unit} {s' : Stmt Site}
    (marked : s.mark path next = .ok (s', after)) : ∀ n ∈ s'.nodes, Reaches (.stmt s') path n := by
  cases s with
  | letBind site name type value =>
      obtain ⟨_, _, marked⟩ := bind_eq_ok marked
      obtain ⟨⟨type', middle⟩, typed, marked⟩ := bind_eq_ok marked
      obtain ⟨⟨value', last⟩, valued, marked⟩ := bind_eq_ok marked
      cases marked
      refine List.forall_mem_cons.mpr ⟨.here (.stmt _), List.forall_mem_append.mpr
        ⟨fun n member => ?_, fun n member => ?_⟩⟩
      · rw [List.map_eq_flatMap] at member
        obtain ⟨t, rfl, reaches⟩ :=
          markOption_reaches (fun m => TypeRef.mark_reaches m) typed n member
        exact reaches.named "type" rfl
      · exact (Expr.mark_reaches valued n member).named "value" rfl
  | ret site value =>
      obtain ⟨⟨value', last⟩, valued, marked⟩ := bind_eq_ok marked
      cases marked
      refine List.forall_mem_cons.mpr ⟨.here (.stmt _), fun n member => ?_⟩
      obtain ⟨e, rfl, reaches⟩ := markOption_reaches (fun m => Expr.mark_reaches m) valued n member
      exact reaches.named "value" rfl
  | eval site value =>
      obtain ⟨⟨value', last⟩, valued, marked⟩ := bind_eq_ok marked
      cases marked
      refine List.forall_mem_cons.mpr ⟨.here (.stmt _), fun n member => ?_⟩
      exact (Expr.mark_reaches valued n member).named "value" rfl

/-- The same for items. -/
theorem Item.mark_reaches {path : String} {next after : Nat} {i : Item Unit} {i' : Item Site}
    (marked : i.mark path next = .ok (i', after)) : ∀ n ∈ i'.nodes, Reaches (.item i') path n := by
  cases i with
  | function site name typeParams params returns body =>
      obtain ⟨_, _, marked⟩ := bind_eq_ok marked
      obtain ⟨_, _, marked⟩ := bind_eq_ok marked
      obtain ⟨⟨params', first⟩, membered, marked⟩ := bind_eq_ok marked
      obtain ⟨⟨returns', second⟩, returned, marked⟩ := bind_eq_ok marked
      obtain ⟨⟨body', last⟩, bodied, marked⟩ := bind_eq_ok marked
      cases marked
      refine List.forall_mem_cons.mpr ⟨.here (.item _), List.forall_mem_append.mpr
        ⟨List.forall_mem_append.mpr ⟨fun n member => ?_, fun n member => ?_⟩, fun n member => ?_⟩⟩
      · exact .placed "params" (fun _ => List.getElem?_map) (markAll_reaches
          (fun m => Typed.mark_reaches Node.param (fun _ => rfl) (fun _ => rfl) m) membered n member)
      · rw [List.map_eq_flatMap] at member
        obtain ⟨t, rfl, reaches⟩ :=
          markOption_reaches (fun m => TypeRef.mark_reaches m) returned n member
        exact reaches.named "returns" rfl
      · exact .placed "body" (fun _ => List.getElem?_map)
          (markAll_reaches (fun m => Stmt.mark_reaches m) bodied n member)
  | cls site name fields =>
      obtain ⟨_, _, marked⟩ := bind_eq_ok marked
      obtain ⟨⟨fields', last⟩, membered, marked⟩ := bind_eq_ok marked
      cases marked
      refine List.forall_mem_cons.mpr ⟨.here (.item _), fun n member => ?_⟩
      exact .placed "fields" (fun _ => List.getElem?_map) (markAll_reaches
        (fun m => Typed.mark_reaches Node.field (fun _ => rfl) (fun _ => rfl) m) membered n member)

/-- The path of a node leads to the node. -/
theorem follow?_path {d : Draft} {unit : String} {tree : Tree}
    (assembled : d.assemble unit = .ok tree) {n : Node} (member : n ∈ tree.nodes) :
    follow? tree.items n.site.path = some n.construct := by
  obtain ⟨⟨items, last⟩, marked, assembled⟩ := bind_eq_ok assembled
  cases assembled
  obtain ⟨i, item, there, steps, plain, leads, text⟩ :=
    markAll_reaches (fun m => Item.mark_reaches m) marked n member
  rw [Nat.zero_add] at text
  have read : stepsOf? n.site.path = some (⟨"items", some i⟩ :: steps) := by
    rw [text]
    exact stepsOf?_suffix (s := ⟨"items", some i⟩) (by simp [Step.IsPlain]) plain
  simp [follow?, read, there, leads]

/-! ## Trees as arenas -/

/-- What numbers and paths are good for in the tree of a draft. -/
structure Addressed (d : Draft) (tree : Tree) : Prop where
  /-- The numbers are those from zero on, without gaps. -/
  numbers : tree.nodes.map Node.id = List.range tree.size
  /-- A walk from the items meets them in their order, and every walk from there does. -/
  walks : ∀ ids, tree.Walks (tree.items.map fun i => i.site.id) ids ↔ ids = List.range tree.size
  /-- The items are found under their numbers. -/
  items : ∀ i ∈ tree.items, tree.nodes[i.site.id]? = some (.item i)
  /-- The parts of a construct are found under their numbers and are what they have to be. -/
  parts : ∀ n ∈ tree.nodes, ∀ part ∈ n.parts, ∃ c, tree.nodes[part.2]? = some c ∧ c.role = part.1
  /-- No two constructs have one path. -/
  paths : (tree.nodes.map fun n => n.site.path).Nodup
  /-- A path leads to the construct that has it. -/
  found : ∀ n ∈ tree.nodes, follow? tree.items n.site.path = some n.construct
  /-- It leads to what the construct was made of in the draft. -/
  origin : ∀ n ∈ tree.nodes, follow? d.items n.site.path = some n.construct.bare

/-- An assembled tree has its constructs numbered without gaps in document order, each in a position that
allows it, under paths that lead to them and to what they were made of. -/
theorem assemble_addressed {d : Draft} {unit : String} {tree : Tree}
    (assembled : d.assemble unit = .ok tree) : Addressed d tree where
  numbers := assemble_numbers assembled
  walks := by
    have numbers := assemble_numbers assembled
    have walk := tree.spans.walks (Tree.has_of_numbers numbers)
    rw [numbers, List.map_map] at walk
    refine fun ids => ⟨fun other => other.unique walk, ?_⟩
    rintro rfl
    exact walk
  items := by
    have has := Tree.has_of_numbers (assemble_numbers assembled)
    exact fun i member => has _ (tree.spans.closed.1 (List.mem_map_of_mem member))
  parts := by
    have has := Tree.has_of_numbers (assemble_numbers assembled)
    exact fun n member part listed => Tree.role_of_mem_parts has member listed
  paths := by
    have numbers := assemble_numbers assembled
    have distinct : (tree.nodes.map Node.id).Nodup := numbers ▸ List.nodup_range
    refine distinct.of_map.map_on fun n member n' member' same => ?_
    -- One path leads to one construct, and that is both of them.
    have leads := follow?_path assembled member
    rw [same, follow?_path assembled member'] at leads
    exact (Node.construct_injective (Option.some.inj leads)).symm
  found := fun n member => follow?_path assembled member
  origin := fun n member => by
    rw [← assemble_bare assembled, follow?_bare, follow?_path assembled member, Option.map_some]

/-- A class, and a function that uses every sort of statement. -/
def pointReader : Draft where
  items := [.cls () "Point" [⟨(), "x", ⟨(), "int"⟩⟩, ⟨(), "y", ⟨(), "int"⟩⟩],
    .function () "next" [] [⟨(), "p", ⟨(), "Point"⟩⟩] (some ⟨(), "int"⟩)
      [.letBind () "n" (some ⟨(), "int"⟩)
        (.binary () .add (.call () "get_x" [.ref () "p"]) (.int () 1)),
       .eval () (.call () "print" [.str () "next"]), .ret () (some (.ref () "n"))]]

/-- A unit with a class, a function and twenty constructs. -/
theorem assemble_addressed_pointReader : ∃ tree, pointReader.assemble "unit" = .ok tree ∧
    tree.size = 20 ∧ Addressed pointReader tree :=
  ⟨_, rfl, rfl, assemble_addressed rfl⟩

example : follow? pointReader.items "items[1].body[0].value.lhs.args[0]" =
    some (.expr (.ref () "p")) := by
  cbv

end StagedCompiler.Source
