import StagedCompiler.Proofs.Source.Numbering

/-!
# Walks through an assembled tree

A construct knows its parts by their numbers, and a tree is asked for the construct with a number.

* `Node.Spans` says that constructs and everything below them make up a list, each construct in front of
  what is below it.  The items of a tree span its constructs (`Tree.spans`).
* `Tree.Walks` goes through a tree by numbers: a construct, then everything below it, then what is left.
  If the tree has its constructs under their own numbers, the walk from the items meets all of them in
  document order (`Node.Spans.walks`), and no walk from there does anything else (`Tree.Walks.unique`).
* Constructs are stored when they are finished, so behind what they consist of (`Node.Stores`).  Sorted
  by their numbers they are the constructs in document order (`assemble_sorts`).
* `Node.parts` says what the parts of a construct have to be, and that is what they are
  (`Tree.role_of_mem_parts`).
-/

namespace StagedCompiler

open Source (Item Expr Stmt TypeRef Typed Site SiteId Node exprListNodes)

/-! ## Constructs and what is below them -/

namespace Source.Node

/-- Nodes, each followed by everything below it, make up a list. -/
inductive Spans : List Node → List Node → Prop
  | nil : Spans [] []
  | cons {n : Node} {rest below later : List Node} : Spans n.children below → Spans rest later →
    Spans (n :: rest) (n :: (below ++ later))

namespace Spans

variable {xs ys us vs : List Node}

theorem append (first : Spans xs us) (second : Spans ys vs) : Spans (xs ++ ys) (us ++ vs) := by
  induction first with
  | nil => exact second
  | cons below _ _ ih =>
      rw [List.cons_append, List.cons_append, List.append_assoc]
      exact .cons below ih

theorem single {n : Node} (below : Spans n.children us) : Spans [n] (n :: us) := by
  rw [← List.append_nil us]
  exact .cons below .nil

/-- Lists whose members come one after another. -/
theorem flatMap {α : Type} {node : α → Node} {nodes : α → List Node} (as : List α)
    (each : ∀ a, Spans [node a] (nodes a)) : Spans (as.map node) (as.flatMap nodes) := by
  induction as with
  | nil => exact .nil
  | cons a rest ih =>
      rw [List.map_cons, List.flatMap_cons]
      exact (each a).append ih

/-- What is spanned has the nodes it starts from in it, and with a node its children. -/
theorem closed (spans : Spans xs us) : xs ⊆ us ∧ ∀ n ∈ us, n.children ⊆ us := by
  induction spans with
  | nil => exact ⟨List.nil_subset _, by simp⟩
  | @cons n rest below later _ _ ihBelow ihLater =>
      have inner : below ⊆ n :: (below ++ later) := fun _ member =>
        List.mem_cons_of_mem _ (List.mem_append_left _ member)
      have outer : later ⊆ n :: (below ++ later) := fun _ member =>
        List.mem_cons_of_mem _ (List.mem_append_right _ member)
      have roots : rest ⊆ below ++ later := fun _ member =>
        List.mem_append_right _ (ihLater.1 member)
      refine ⟨List.cons_subset_cons _ roots, ?_⟩
      rw [List.forall_mem_cons, List.forall_mem_append]
      exact ⟨fun _ member => inner (ihBelow.1 member),
        fun c inside _ member => inner (ihBelow.2 c inside member),
        fun c inside _ member => outer (ihLater.2 c inside member)⟩

end Spans

theorem spans_typeRefs (types : List (TypeRef Site)) :
    Spans (types.map .typeRef) (types.map .typeRef) := by
  induction types with
  | nil => exact .nil
  | cons type rest ih =>
      have childless : Spans (Node.typeRef type).children [] := .nil
      exact .cons childless ih

/-- Parameters and fields. -/
theorem spans_members {node : Typed Site → Node}
    (children : ∀ m, (node m).children = [.typeRef m.type]) (members : List (Typed Site)) :
    Spans (members.map node) (members.flatMap fun m => [node m, .typeRef m.type]) := by
  refine .flatMap members fun m => .single ?_
  rw [children]
  exact spans_typeRefs [m.type]

mutual

theorem spans_expr : ∀ e : Expr Site, Spans [.expr e] e.nodes
  | .int _ _ | .bool _ _ | .str _ _ | .ref _ _ => .single .nil
  | .call _ _ args => .single (spans_exprs args)
  | .binary _ _ lhs rhs => .single ((spans_expr lhs).append (spans_expr rhs))

theorem spans_exprs : ∀ es : List (Expr Site), Spans (es.map .expr) (exprListNodes es)
  | [] => .nil
  | e :: rest => (spans_expr e).append (spans_exprs rest)

end

theorem spans_stmt (s : Stmt Site) : Spans [.stmt s] s.nodes := by
  refine .single ?_
  cases s with
  | letBind site name type value => exact (spans_typeRefs _).append (spans_expr value)
  | ret site value => exact .flatMap _ spans_expr
  | eval site value => exact spans_expr value

theorem spans_item (i : Item Site) : Spans [.item i] i.nodes := by
  refine .single ?_
  cases i with
  | function site name typeParams params returns body =>
      exact ((spans_members (fun _ => rfl) params).append (spans_typeRefs _)).append
        (.flatMap body spans_stmt)
  | cls site name fields => exact spans_members (fun _ => rfl) fields

end Source.Node

namespace Tree

/-- The items of a tree and everything below them are its constructs. -/
theorem spans (t : Tree) : Node.Spans (t.items.map .item) t.nodes :=
  .flatMap t.items Node.spans_item

/-! ## Walks by numbers -/

/-- From a list of numbers the tree is walked through: a construct, then its children and everything
below them, and then the rest of the list. -/
inductive Walks (t : Tree) : List SiteId → List SiteId → Prop
  | nil : Walks t [] []
  | cons {id : SiteId} {n : Node} {rest below later : List SiteId} : t.nodes[id]? = some n →
    Walks t (n.children.map Node.id) below → Walks t rest later →
    Walks t (id :: rest) (id :: (below ++ later))

/-- Where a walk leads is settled by where it starts. -/
theorem Walks.unique {t : Tree} {ids us vs : List SiteId} (first : t.Walks ids us)
    (second : t.Walks ids vs) : us = vs := by
  induction first generalizing vs with
  | nil =>
      cases second
      rfl
  | cons found _ _ ihBelow ihLater =>
      cases second with
      | cons found' below' later' =>
          obtain rfl := Option.some.inj (found.symm.trans found')
          rw [ihBelow below', ihLater later']

/-- A tree has constructs under their own numbers. -/
def Has (t : Tree) (nodes : List Node) : Prop := ∀ n ∈ nodes, t.nodes[n.id]? = some n

theorem has_of_numbers {t : Tree} (numbers : t.nodes.map Node.id = List.range t.size) :
    t.Has t.nodes := by
  intro n member
  obtain ⟨i, there⟩ := List.getElem?_of_mem member
  have number : (t.nodes.map Node.id)[i]? = some n.id := by
    rw [List.getElem?_map, there]
    rfl
  rw [numbers] at number
  obtain ⟨_, same⟩ := List.getElem?_eq_some_iff.mp number
  rw [List.getElem_range] at same
  rwa [← same]

end Tree

/-- What is spanned is walked through in its order. -/
theorem Source.Node.Spans.walks {t : Tree} {roots all : List Node} (spans : Node.Spans roots all)
    (has : t.Has all) : t.Walks (roots.map Node.id) (all.map Node.id) := by
  induction spans with
  | nil => exact .nil
  | cons _ _ ihBelow ihLater =>
      rw [Tree.Has, List.forall_mem_cons, List.forall_mem_append] at has
      rw [List.map_cons, List.map_cons, List.map_append]
      exact .cons has.1 (ihBelow has.2.1) (ihLater has.2.2)

/-! ## The order of storage -/

namespace Source.Node

/-- Nodes are stored one after another, each when it is finished: behind everything below it. -/
inductive Stores : List Node → List Node → Prop
  | nil : Stores [] []
  | cons {n : Node} {rest below later : List Node} : Stores n.children below → Stores rest later →
    Stores (n :: rest) (below ++ n :: later)

/-- What is stored is settled by the nodes. -/
theorem Stores.unique {roots us vs : List Node} (first : Stores roots us)
    (second : Stores roots vs) : us = vs := by
  induction first generalizing vs with
  | nil =>
      cases second
      rfl
  | cons _ _ ihBelow ihLater =>
      cases second with
      | cons below' later' => rw [ihBelow below', ihLater later']

/-- Storage keeps all that the nodes span, in another order. -/
theorem Spans.stores {roots all : List Node} (spans : Spans roots all) :
    ∃ stored, Stores roots stored ∧ stored.Perm all := by
  induction spans with
  | nil => exact ⟨[], .nil, .nil⟩
  | @cons n rest below later _ _ ihBelow ihLater =>
      obtain ⟨us, storedBelow, below⟩ := ihBelow
      obtain ⟨vs, storedLater, later⟩ := ihLater
      exact ⟨us ++ n :: vs, .cons storedBelow storedLater,
        List.perm_middle.trans ((below.append later).cons n)⟩

end Source.Node

/-- Constructs that are numbered in document order are put into it by sorting. -/
theorem Tree.mergeSort_eq_nodes {t : Tree} {stored : List Node}
    (numbers : t.nodes.map Node.id = List.range t.size) (perm : stored.Perm t.nodes) :
    stored.mergeSort (fun a b => a.id ≤ b.id) = t.nodes := by
  have has := has_of_numbers numbers
  have ascending : t.nodes.Pairwise fun a b => decide (a.id ≤ b.id) = true := by
    have ids : (t.nodes.map Node.id).Pairwise (· ≤ ·) := by
      rw [numbers]
      exact List.pairwise_lt_range.imp Nat.le_of_lt
    exact (List.pairwise_map.mp ids).imp fun le => decide_eq_true le
  have sorted : (stored.mergeSort fun a b => a.id ≤ b.id).Pairwise fun a b =>
      decide (a.id ≤ b.id) = true :=
    List.pairwise_mergeSort (fun a b c => by simpa using Nat.le_trans)
      (fun a b => by simpa using Nat.le_total a.id b.id) stored
  have both := (List.mergeSort_perm stored fun a b => decide (a.id ≤ b.id)).trans perm
  refine List.Perm.eq_of_pairwise (fun a b member member' le le' => ?_) sorted ascending both
  -- two constructs with one number stand at one place
  have same : a.id = b.id := Nat.le_antisymm (of_decide_eq_true le) (of_decide_eq_true le')
  have here := has a (both.mem_iff.mp member)
  rw [same, has b member'] at here
  exact (Option.some.inj here).symm

/-- An assembled tree stores its constructs in the order in which they are finished, and sorting by
number puts them into document order: the construct with a number is the one that stands at this place. -/
theorem Source.assemble_sorts {d : Source.Draft} {unit : String} {t : Tree}
    (assembled : d.assemble unit = .ok t) :
    ∃ stored, (∀ other, Node.Stores (t.items.map .item) other ↔ other = stored) ∧
      stored.mergeSort (fun a b => a.id ≤ b.id) = t.nodes := by
  obtain ⟨stored, stores, perm⟩ := t.spans.stores
  refine ⟨stored, fun other => ?_, Tree.mergeSort_eq_nodes (assemble_numbers assembled) perm⟩
  constructor
  · intro walked
    exact walked.unique stores
  · intro same
    rw [same]
    exact stores

/-! ## What stands where -/

namespace Source

/-- What a construct can be to the one that it stands in. -/
inductive Role : Type where
  | item
  | param
  | field
  | typeRef
  | stmt
  | expr
  deriving DecidableEq, Repr

/-- What a construct can be. -/
def Node.role : Node → Role
  | .item _ => .item
  | .param _ => .param
  | .field _ => .field
  | .typeRef _ => .typeRef
  | .stmt _ => .stmt
  | .expr _ => .expr

/-- The parts of a construct by their numbers, each with what it has to be. -/
def Node.parts : Node → List (Role × SiteId)
  | .item (.function _ _ _ params returns body) =>
    params.map (fun p => (.param, p.site.id)) ++ returns.toList.map (fun t => (.typeRef, t.site.id)) ++
      body.map fun s => (.stmt, s.site.id)
  | .item (.cls _ _ fields) => fields.map fun f => (.field, f.site.id)
  | .field f => [(.typeRef, f.type.site.id)]
  | .param p => [(.typeRef, p.type.site.id)]
  | .typeRef _ => []
  | .stmt (.letBind _ _ type value) =>
    type.toList.map (fun t => (.typeRef, t.site.id)) ++ [(.expr, value.site.id)]
  | .stmt (.ret _ value) => value.toList.map fun e => (.expr, e.site.id)
  | .stmt (.eval _ value) => [(.expr, value.site.id)]
  | .expr (.call _ _ args) => args.map fun e => (.expr, e.site.id)
  | .expr (.binary _ _ lhs rhs) => [(.expr, lhs.site.id), (.expr, rhs.site.id)]
  | .expr (.int _ _) | .expr (.bool _ _) | .expr (.str _ _) | .expr (.ref _ _) => []

/-- The parts are the children, in the same order. -/
theorem Node.parts_eq (n : Node) : n.parts = n.children.map fun c => (c.role, c.id) := by
  rcases n with (_ | _) | _ | _ | _ | (_ | _ | _) | (_ | _ | _ | _ | _ | _) <;>
    simp [Node.parts, Node.children, Node.role, Node.id, Node.site, Function.comp_def]

end Source

/-- A part is what it has to be. -/
theorem Tree.role_of_mem_parts {t : Tree} (has : t.Has t.nodes) {n : Node} (member : n ∈ t.nodes)
    {part : Source.Role × SiteId} (listed : part ∈ n.parts) :
    ∃ c, t.nodes[part.2]? = some c ∧ c.role = part.1 := by
  rw [Node.parts_eq] at listed
  obtain ⟨c, child, rfl⟩ := List.mem_map.mp listed
  exact ⟨c, has c (t.spans.closed.2 n member child), rfl⟩

end StagedCompiler
