import Mathlib.Data.List.Nodup
import Mathlib.Data.List.Pairwise
import Mathlib.Data.List.Perm.Subperm
import StagedCompiler.Proofs.Module.Verification

/-!
# What verification decides

An arena may have cycles, shared nodes and children that do not exist.  `WellFormed` says, node by
node over what the root reaches, what a module is asked to be, and `Violation.Occurs` says what each
report claims about the arena.  Verification is a walk over `Walks`: the nodes it has looked at, the
nodes it has marked and its stack.

* `Trail` is the invariant of the walk.  The marked nodes are the root and the children of the nodes
  looked at, each once, and they are the nodes looked at and those on the stack (`Trail.step`).
* A walk that ends has looked at everything that the root reaches (`Trail.wellFormed`); a walk that
  stops has met what it reports (`verifyFrom_sound`).
* No violation occurs in a well-formed module (`WellFormed.not_occurs`), so verification accepts
  exactly the well-formed ones.
-/

namespace StagedCompiler.Module

open Outline (DescriptorFits ChildrenFit)

/-! ## Well-formed modules -/

/-- The nodes that the root reaches through lists of children. -/
inductive Reachable (m : Module) : NodeId → Prop
  | root : Reachable m m.root
  | child {parent child : NodeId} :
    Reachable m parent → child ∈ m.childrenOf parent → Reachable m child

/-- A node stands at a place of the children of another. -/
def ChildAt (m : Module) (parent : NodeId) (place : Nat) (child : NodeId) : Prop :=
  (m.childrenOf parent)[place]? = some child

/-- The children of a node exist and have the given kinds. -/
def HasKinds (m : Module) (n : Node) (kinds : List Kind) : Prop :=
  n.children.map m.kind? = kinds.map some

/-- What a module is asked to be: the root is a module node, and everything that it reaches exists,
has one place and has the descriptor and the children that its kind asks for. -/
structure WellFormed (m : Module) (descriptors : Descriptor.Table) : Prop where
  isModule : ∃ name, m.kind? m.root = some (.module name)
  inRange : ∀ p, m.Reachable p → ∀ c ∈ m.childrenOf p, c < m.size
  rootFree : ∀ p, m.Reachable p → m.root ∉ m.childrenOf p
  onePlace : ∀ p q i j c, m.Reachable p → m.Reachable q → m.ChildAt p i c → m.ChildAt q j c →
    p = q ∧ i = j
  described : ∀ p n, m.Reachable p → m.get? p = some n →
    DescriptorFits descriptors n.kind n.descriptor
  shaped : ∀ p n, m.Reachable p → m.get? p = some n →
    ∃ kinds, m.HasKinds n kinds ∧ ChildrenFit n.kind kinds

namespace Kind

/-- The number of children that a kind asks for, in words. -/
def countText : Kind → String
  | .field _ | .param _ | .localRef | .constant _ => "0"
  | .function _ => "params and a trailing block"
  | .letBind _ | .eval | .fieldGet => "1"
  | .ret => "at most 1"
  | .binary _ => "2"
  | .module _ | .file _ | .cls _ | .block | .call => "any number"

/-- Children are as many as a kind asks for, and those of a function end in a block. -/
def countFits : Kind → List Kind → Bool
  | .field _, below | .param _, below | .localRef, below | .constant _, below => below.isEmpty
  | .function _, below => below.getLast? == some .block
  | .letBind _, below | .eval, below | .fieldGet, below => below.length == 1
  | .ret, below => below.length ≤ 1
  | .binary _, below => below.length == 2
  | .module _, _ | .file _, _ | .cls _, _ | .block, _ | .call, _ => true

/-- The kinds that may stand below a kind; for a function those in front of its body. -/
def admits : Kind → Kind → Bool
  | .module _ => isFile
  | .file _ => isItem
  | .cls _ => isField
  | .function _ => isParam
  | .block => isStatement
  | .field _ | .param _ | .localRef | .constant _ => fun _ => false
  | .letBind _ | .eval | .fieldGet | .ret | .binary _ | .call => isExpression

/-- All children, less the body of a function. -/
def ahead {α : Type} : Kind → List α → List α
  | .function _, below => below.dropLast
  | _, below => below

end Kind

/-- A report is true of a module. -/
def Violation.Occurs (m : Module) (descriptors : Descriptor.Table) : Violation → Prop
  | .rootNotModule node found =>
    node = m.root ∧ ∃ kind, m.kind? node = some kind ∧ found = kind.text ∧
      ∀ name, kind ≠ .module name
  | .danglingChild parent child =>
    m.size ≤ child ∧
      (m.Reachable parent ∧ child ∈ m.childrenOf parent ∨ parent = m.root ∧ child = m.root)
  | .sharedNode node =>
    (node = m.root ∧ ∃ p, m.Reachable p ∧ node ∈ m.childrenOf p) ∨
      ∃ p q i j, m.Reachable p ∧ m.Reachable q ∧ m.ChildAt p i node ∧ m.ChildAt q j node ∧
        ¬ (p = q ∧ i = j)
  | .missingDescriptor node kind =>
    ∃ n, m.Reachable node ∧ m.get? node = some n ∧ kind = n.kind.text ∧
      (n.kind.isDeclaration || n.kind.isReference) = true ∧ n.descriptor = none
  | .unknownDescriptor node descriptor =>
    ∃ n, m.Reachable node ∧ m.get? node = some n ∧
      (n.kind.isDeclaration || n.kind.isReference) = true ∧ n.descriptor = some descriptor ∧
      descriptors.contains descriptor = false
  | .arity node kind expected found =>
    ∃ n kinds, m.Reachable node ∧ m.get? node = some n ∧ m.HasKinds n kinds ∧
      kind = n.kind.text ∧ expected = n.kind.countText ∧ found = kinds.length ∧
      n.kind.countFits kinds = false
  | .badChild node parent child =>
    ∃ n kinds k, m.Reachable node ∧ m.get? node = some n ∧ m.HasKinds n kinds ∧
      parent = n.kind.text ∧ child = k.text ∧ k ∈ n.kind.ahead kinds ∧ n.kind.admits k = false

/-- A kind fits its children if their number and their kinds do. -/
theorem childrenFit_iff {kind : Kind} {kinds : List Kind} :
    ChildrenFit kind kinds ↔
      kind.countFits kinds = true ∧ ∀ k ∈ kind.ahead kinds, kind.admits k = true := by
  cases kind with
  | function name =>
      simp only [ChildrenFit, Kind.countFits, Kind.ahead, Kind.admits]
      constructor
      · intro given
        rcases given with ⟨params, rfl, allowed⟩
        rw [List.getLast?_concat, List.dropLast_concat]
        exact ⟨beq_self_eq_true _, allowed⟩
      · intro given
        rcases given with ⟨last, allowed⟩
        obtain ⟨params, rfl⟩ := List.getLast?_eq_some_iff.mp (beq_iff_eq.mp last)
        rw [List.dropLast_concat] at allowed
        exact ⟨params, rfl, allowed⟩
  | field name | param name | localRef | constant value =>
      simp only [ChildrenFit, Kind.countFits, Kind.ahead, Kind.admits, List.isEmpty_iff]
      constructor
      · intro none
        exact ⟨none, by simp [none]⟩
      · exact And.left
  | module name | file name | cls name | block | call =>
      simp [ChildrenFit, Kind.countFits, Kind.ahead, Kind.admits]
  | letBind name | eval | fieldGet | ret | binary op =>
      simp [ChildrenFit, Kind.countFits, Kind.ahead, Kind.admits]

/-- Nothing that a report can say is true of a well-formed module. -/
theorem WellFormed.not_occurs {m : Module} {descriptors : Descriptor.Table}
    (formed : m.WellFormed descriptors) (violation : Violation) :
    ¬ violation.Occurs m descriptors := by
  have sameKinds : ∀ {n : Node} {kinds kinds' : List Kind}, m.HasKinds n kinds →
      m.HasKinds n kinds' → kinds = kinds' := by
    intro n kinds kinds' one other
    exact List.map_injective_iff.mpr (fun _ _ => Option.some.inj) (one.symm.trans other)
  cases violation with
  | rootNotModule node found =>
      rintro ⟨rfl, kind, here, -, other⟩
      obtain ⟨name, isModule⟩ := formed.isModule
      exact other name (Option.some.inj (here.symm.trans isModule))
  | danglingChild parent child =>
      rintro ⟨missing, ⟨reached, member⟩ | ⟨rfl, rfl⟩⟩
      · exact absurd (formed.inRange parent reached child member) (Nat.not_lt.mpr missing)
      · obtain ⟨name, isModule⟩ := formed.isModule
        rw [kind?, Option.map_eq_some_iff] at isModule
        obtain ⟨n, here, -⟩ := isModule
        exact absurd (Array.getElem?_eq_some_iff.mp here).1 (Nat.not_lt.mpr missing)
  | sharedNode node =>
      rintro (⟨rfl, p, reached, member⟩ | ⟨p, q, i, j, atP, atQ, one, other, apart⟩)
      · exact formed.rootFree p reached member
      · exact apart (formed.onePlace p q i j node atP atQ one other)
  | missingDescriptor node kind =>
      rintro ⟨n, reached, here, -, needed, missing⟩
      obtain ⟨d, stated, -⟩ := formed.described node n reached here needed
      rw [missing] at stated
      cases stated
  | unknownDescriptor node descriptor =>
      rintro ⟨n, reached, here, needed, stated, unknown⟩
      obtain ⟨d, stated', known⟩ := formed.described node n reached here needed
      obtain rfl := Option.some.inj (stated.symm.trans stated')
      rw [unknown] at known
      cases known
  | arity node kind expected found =>
      rintro ⟨n, kinds, reached, here, has, -, -, -, miscounted⟩
      obtain ⟨kinds', has', fits⟩ := formed.shaped node n reached here
      obtain rfl := sameKinds has has'
      have counted := (childrenFit_iff.mp fits).1
      rw [miscounted] at counted
      cases counted
  | badChild node parent child =>
      rintro ⟨n, kinds, k, reached, here, has, -, -, member, refused⟩
      obtain ⟨kinds', has', fits⟩ := formed.shaped node n reached here
      obtain rfl := sameKinds has has'
      have admitted := (childrenFit_iff.mp fits).2 k member
      rw [refused] at admitted
      cases admitted

/-! ## Checks of one node -/

section NodeChecks

variable {m : Module} {descriptors : Descriptor.Table} {id : NodeId} {n : Node}
  {kinds : List Kind} {violation : Violation}

theorem lt_size_of_isSome (found : (m.get? id).isSome) : id < m.size := by
  obtain ⟨n, here⟩ := Option.isSome_iff_exists.mp found
  exact (Array.getElem?_eq_some_iff.mp here).1

/-- The children of a node that exist have kinds. -/
theorem exists_hasKinds (exist : ∀ c ∈ n.children, (m.get? c).isSome) :
    ∃ kinds, m.HasKinds n kinds := by
  refine ⟨n.children.filterMap m.kind?, ?_⟩
  unfold HasKinds
  generalize n.children = cs at exist
  induction cs with
  | nil => rfl
  | cons c rest ih =>
      obtain ⟨here, later⟩ := List.forall_mem_cons.mp exist
      obtain ⟨child, found⟩ := Option.isSome_iff_exists.mp here
      have kind : m.kind? c = some child.kind := by rw [kind?, found, Option.map_some]
      rw [List.map_cons, List.filterMap_cons_some kind, List.map_cons, kind, ih later]

/-- Of children that exist, the first whose kind is not allowed is reported. -/
theorem expectChildren_eq {kind : Kind} {allowed : Kind → Bool} {cs : List NodeId}
    (looked : cs.map m.kind? = kinds.map some) :
    m.expectChildren id kind allowed cs =
      match kinds.find? (fun k => !allowed k) with
      | none => .ok ()
      | some k => .error (.badChild id kind.text k.text) := by
  induction cs generalizing kinds with
  | nil =>
      obtain rfl := List.map_eq_nil_iff.mp looked.symm
      rfl
  | cons c rest ih =>
      obtain ⟨k, later, rfl, first, others⟩ := List.map_eq_cons_iff.mp looked.symm
      rw [expectChildren, ← first, List.find?_cons]
      cases fits : allowed k with
      | true => simpa only [fits, if_true, Bool.not_true] using ih others.symm
      | false => simp [fits]

theorem map_ahead {α β : Type} (kind : Kind) (f : α → β) (below : List α) :
    (kind.ahead below).map f = kind.ahead (below.map f) := by
  cases kind with
  | function name => exact List.map_dropLast
  | _ => rfl

/-- The end of the children is looked up like every other kind. -/
theorem endsInBlock_iff (has : m.HasKinds n kinds) :
    m.endsInBlock n = true ↔ kinds.getLast? = some .block := by
  have last := congrArg List.getLast? has
  rw [List.getLast?_map, List.getLast?_map] at last
  unfold endsInBlock
  cases ending : n.children.getLast? with
  | none =>
      rw [ending] at last
      cases other : kinds.getLast? with
      | none => simp
      | some k => simp [other] at last
  | some c =>
      rw [ending] at last
      cases other : kinds.getLast? with
      | none => simp [other] at last
      | some k =>
          have kind : m.kind? c = some k := by simpa [other] using last
          simp [kind]

/-- A wrong number of children is a violation, and else the check goes on. -/
theorem expectArity_bind {expected : String} {ok : Bool} {rest : Except Violation Unit} :
    (do expectArity id n expected ok; rest) =
      if ok then rest else .error (.arity id n.kind.text expected n.children.length) := by
  cases ok <;> rfl

/-- The shape of a node is the count of its children and then their kinds. -/
theorem checkShape_eq (has : m.HasKinds n kinds) :
    m.checkShape id n =
      if n.kind.countFits kinds then
        m.expectChildren id n.kind n.kind.admits (n.kind.ahead n.children)
      else .error (.arity id n.kind.text n.kind.countText kinds.length) := by
  have count : n.children.length = kinds.length := by
    simpa only [List.length_map] using congrArg List.length has
  rcases n with ⟨kind, children, descriptor, ty⟩
  cases kind with
  | module name | file name | cls name | block | call => rfl
  | field name | param name | localRef | constant value =>
      cases children with
      | nil =>
          obtain rfl := List.length_eq_zero_iff.mp count.symm
          rfl
      | cons c rest =>
          obtain ⟨k, later, rfl⟩ := List.exists_cons_of_length_eq_add_one count.symm
          rw [← count]
          rfl
  | function name =>
      have ends : m.endsInBlock ⟨.function name, children, descriptor, ty⟩ =
          (kinds.getLast? == some .block) := by
        rw [Bool.eq_iff_iff, endsInBlock_iff has, beq_iff_eq]
      simp only [checkShape, expectArity_bind, ends, count]
      rfl
  | letBind name | eval | fieldGet | ret | binary op =>
      simp only [checkShape, expectArity_bind, count]
      rfl

/-- A node of the wrong shape has the wrong number of children or one that may not stand there. -/
theorem checkShape_eq_error (has : m.HasKinds n kinds)
    (refused : m.checkShape id n = .error violation) :
    (n.kind.countFits kinds = false ∧
      violation = .arity id n.kind.text n.kind.countText kinds.length) ∨
    ∃ k ∈ n.kind.ahead kinds, n.kind.admits k = false ∧
      violation = .badChild id n.kind.text k.text := by
  have looked : (n.kind.ahead n.children).map m.kind? = (n.kind.ahead kinds).map some := by
    rw [map_ahead, map_ahead, has]
  rw [checkShape_eq has, expectChildren_eq looked] at refused
  cases counted : n.kind.countFits kinds with
  | false =>
      rw [counted] at refused
      exact Or.inl ⟨rfl, (Except.error.inj refused).symm⟩
  | true =>
      rw [counted, if_pos rfl] at refused
      cases found : (n.kind.ahead kinds).find? (fun k => !n.kind.admits k) with
      | none =>
          rw [found] at refused
          cases refused
      | some k =>
          rw [found] at refused
          have excluded := List.find?_some found
          exact Or.inr ⟨k, List.mem_of_find?_eq_some found, by simpa using excluded,
            (Except.error.inj refused).symm⟩

/-- A node whose shape is accepted has children of the kinds that it may have. -/
theorem childrenFit_of_checkShape (has : m.HasKinds n kinds)
    (accepted : m.checkShape id n = .ok ()) : ChildrenFit n.kind kinds := by
  have looked : (n.kind.ahead n.children).map m.kind? = (n.kind.ahead kinds).map some := by
    rw [map_ahead, map_ahead, has]
  rw [checkShape_eq has, expectChildren_eq looked] at accepted
  rw [childrenFit_iff]
  cases counted : n.kind.countFits kinds with
  | false =>
      rw [counted] at accepted
      cases accepted
  | true =>
      rw [counted, if_pos rfl] at accepted
      refine ⟨rfl, fun k member => ?_⟩
      cases found : (n.kind.ahead kinds).find? (fun k => !n.kind.admits k) with
      | none => simpa using List.find?_eq_none.mp found k member
      | some k =>
          rw [found] at accepted
          cases accepted

/-- A refused descriptor is missing where there has to be one, or it is not of the table. -/
theorem checkDescriptor_eq_error (refused : checkDescriptor descriptors id n = .error violation) :
    (n.kind.isDeclaration || n.kind.isReference) = true ∧
      ((n.descriptor = none ∧ violation = .missingDescriptor id n.kind.text) ∨
        ∃ d, n.descriptor = some d ∧ descriptors.contains d = false ∧
          violation = .unknownDescriptor id d) := by
  unfold checkDescriptor at refused
  split at refused
  · rename_i needed
    refine ⟨needed, ?_⟩
    cases stated : n.descriptor with
    | none =>
        rw [stated] at refused
        exact Or.inl ⟨rfl, (Except.error.inj refused).symm⟩
    | some d =>
        rw [stated] at refused
        cases known : descriptors.contains d with
        | true => simp [known] at refused
        | false =>
            simp only [known, Bool.false_eq_true, if_false] at refused
            exact Or.inr ⟨d, rfl, known, (Except.error.inj refused).symm⟩
  · cases refused

/-- Children are refused because one is missing, was marked before or stands there twice. -/
theorem enter_eq_error {cs seen stack : List NodeId}
    (refused : m.enter id cs seen stack = .error violation) :
    (∃ c ∈ cs, m.get? c = none ∧ violation = .danglingChild id c) ∨
    ∃ before c after, cs = before ++ c :: after ∧ (c ∈ before ∨ c ∈ seen) ∧
      violation = .sharedNode c := by
  induction cs generalizing seen stack with
  | nil => cases refused
  | cons c rest ih =>
      rw [enter] at refused
      split at refused
      · rename_i missing
        exact Or.inl ⟨c, List.mem_cons_self, Option.isNone_iff_eq_none.mp missing,
          (Except.error.inj refused).symm⟩
      · split at refused
        · rename_i marked
          exact Or.inr ⟨[], c, rest, rfl, Or.inr (by simpa using marked),
            (Except.error.inj refused).symm⟩
        · rcases ih refused with ⟨d, member, missing, same⟩ | ⟨before, d, after, rfl, old, same⟩
          · exact Or.inl ⟨d, List.mem_cons_of_mem _ member, missing, same⟩
          · refine Or.inr ⟨c :: before, d, after, rfl, ?_, same⟩
            rcases old with earlier | marked
            · exact Or.inl (List.mem_cons_of_mem _ earlier)
            · rcases List.mem_cons.mp marked with rfl | marked
              · exact Or.inl List.mem_cons_self
              · exact Or.inr marked

end NodeChecks

/-! ## The walk -/

/-- Where the walk of verification can stand: the nodes it has looked at, the nodes it has marked and
its stack. -/
inductive Walks (m : Module) (descriptors : Descriptor.Table) :
    List NodeId → List NodeId → List NodeId → Prop
  | start {name : String} : m.kind? m.root = some (.module name) →
    Walks m descriptors [] [m.root] [m.root]
  | step {looked seen stack seen' stack' : List NodeId} {id : NodeId} {n : Node} :
    Walks m descriptors looked seen (id :: stack) → m.get? id = some n →
    m.enter id n.children seen stack = .ok (seen', stack') →
    checkDescriptor descriptors id n = .ok () → m.checkShape id n = .ok () →
    Walks m descriptors (id :: looked) seen' stack'

/-- The invariant of the walk. -/
structure Trail (m : Module) (descriptors : Descriptor.Table) (looked seen stack : List NodeId) :
    Prop where
  nodup : seen.Nodup
  exist : ∀ i ∈ seen, (m.get? i).isSome
  pending : seen.Perm (looked ++ stack)
  origin : seen.Perm (m.root :: looked.flatMap m.childrenOf)
  reached : ∀ i ∈ seen, m.Reachable i
  passed : ∀ i ∈ looked, ∀ n, m.get? i = some n →
    DescriptorFits descriptors n.kind n.descriptor ∧
      ∃ kinds, m.HasKinds n kinds ∧ ChildrenFit n.kind kinds

section Walk

variable {m : Module} {descriptors : Descriptor.Table} {looked seen stack seen' stack' : List NodeId}
  {id : NodeId} {n : Node}

theorem childrenOf_eq (here : m.get? id = some n) : m.childrenOf id = n.children := by
  rw [childrenOf, here]
  rfl

/-- Before the first step only the root is known. -/
theorem Trail.start {name : String} (isModule : m.kind? m.root = some (.module name)) :
    Trail m descriptors [] [m.root] [m.root] := by
  have here : (m.get? m.root).isSome := by
    rw [kind?, Option.map_eq_some_iff] at isModule
    obtain ⟨n, here, -⟩ := isModule
    rw [here]
    rfl
  refine ⟨List.nodup_singleton _, ?_, .refl _, .refl _, ?_, ?_⟩
  · intro i member
    rwa [List.mem_singleton.mp member]
  · intro i member
    rw [List.mem_singleton.mp member]
    exact .root
  · intro i member
    cases member

/-- Looking at a node keeps the invariant. -/
theorem Trail.step (trail : Trail m descriptors looked seen (id :: stack)) (here : m.get? id = some n)
    (entered : m.enter id n.children seen stack = .ok (seen', stack'))
    (described : checkDescriptor descriptors id n = .ok ()) (shape : m.checkShape id n = .ok ()) :
    Trail m descriptors (id :: looked) seen' stack' := by
  obtain ⟨exist, distinct, fresh, rfl, rfl⟩ := enter_eq_ok_iff.mp entered
  have children := childrenOf_eq here
  -- What is on the stack has been marked, so it can be reached and no child is among it.
  have top : id ∈ seen := trail.pending.mem_iff.mpr (by simp)
  refine ⟨?_, ?_, ?_, ?_, ?_, ?_⟩
  · refine List.nodup_append.mpr ⟨List.nodup_reverse.mpr distinct, trail.nodup, ?_⟩
    intro i new j old same
    exact fresh i (List.mem_reverse.mp new) (same ▸ old)
  · intro i member
    rcases List.mem_append.mp member with new | old
    · exact exist i (List.mem_reverse.mp new)
    · exact trail.exist i old
  · calc n.children.reverse ++ seen
        |>.Perm (n.children.reverse ++ (looked ++ id :: stack)) := trail.pending.append_left _
      _ |>.Perm (n.children.reverse ++ (id :: looked ++ stack)) :=
          List.perm_middle.append_left _
      _ |>.Perm (id :: looked ++ (n.children.reverse ++ stack)) := by
          rw [← List.append_assoc, ← List.append_assoc]
          exact List.perm_append_comm.append_right _
  · rw [List.flatMap_cons, children]
    calc n.children.reverse ++ seen
        |>.Perm (n.children ++ (m.root :: looked.flatMap m.childrenOf)) :=
          n.children.reverse_perm.append trail.origin
      _ |>.Perm (m.root :: (n.children ++ looked.flatMap m.childrenOf)) := List.perm_middle
  · intro i member
    rcases List.mem_append.mp member with new | old
    · refine .child (trail.reached id top) ?_
      rw [children]
      exact List.mem_reverse.mp new
    · exact trail.reached i old
  · intro i member n' there
    rcases List.mem_cons.mp member with rfl | old
    · obtain rfl := Option.some.inj (here.symm.trans there)
      obtain ⟨kinds, has⟩ := exists_hasKinds exist
      exact ⟨checkDescriptor_eq_ok_iff.mp described, kinds, has,
        childrenFit_of_checkShape has shape⟩
    · exact trail.passed i old n' there

theorem Walks.trail (walks : Walks m descriptors looked seen stack) :
    Trail m descriptors looked seen stack := by
  induction walks with
  | start isModule => exact .start isModule
  | step _ here entered described shape ih => exact ih.step here entered described shape

/-- There is room for what was looked at and for what is on the stack. -/
theorem Trail.length_le (trail : Trail m descriptors looked seen stack) :
    looked.length + stack.length ≤ m.size := by
  have bounded : seen ⊆ List.range m.size := by
    intro i member
    exact List.mem_range.mpr (lt_size_of_isSome (trail.exist i member))
  have short := (List.subperm_of_subset trail.nodup bounded).length_le
  have parts := trail.pending.length_eq
  rw [List.length_range] at short
  rw [List.length_append] at parts
  omega

/-- When the stack is empty the walk has looked at everything that the root reaches. -/
theorem Trail.looked_of_reachable (trail : Trail m descriptors looked seen []) {p : NodeId}
    (reached : m.Reachable p) : p ∈ looked := by
  have all : ∀ i, i ∈ seen ↔ i ∈ looked := by
    intro i
    rw [trail.pending.mem_iff, List.append_nil]
  induction reached with
  | root =>
      rw [← all, trail.origin.mem_iff]
      exact List.mem_cons_self
  | @child parent c _ member ih =>
      rw [← all, trail.origin.mem_iff]
      exact List.mem_cons_of_mem _ (List.mem_flatMap.mpr ⟨parent, ih, member⟩)

/-- A child that stands in two lists stands in the same list at the same place. -/
theorem Trail.onePlace (trail : Trail m descriptors looked seen stack) {p q c : NodeId} {i j : Nat}
    (atP : p ∈ looked) (atQ : q ∈ looked) (one : m.ChildAt p i c) (other : m.ChildAt q j c) :
    p = q ∧ i = j := by
  have distinct := (List.nodup_cons.mp (trail.origin.nodup_iff.mp trail.nodup)).2
  obtain ⟨each, apart⟩ := List.nodup_flatMap.mp distinct
  have inP : c ∈ m.childrenOf p := List.mem_of_getElem? one
  have inQ : c ∈ m.childrenOf q := List.mem_of_getElem? other
  have symmetric : Std.Symm (Function.onFun List.Disjoint m.childrenOf) :=
    ⟨fun _ _ disjoint _ one other => disjoint other one⟩
  have same : p = q := by
    by_contra differ
    exact apart.forall atP atQ differ inP inQ
  subst same
  obtain ⟨inside, here⟩ := List.getElem?_eq_some_iff.mp one
  obtain ⟨inside', here'⟩ := List.getElem?_eq_some_iff.mp other
  exact ⟨rfl, (List.Nodup.getElem_inj_iff (each p atP)).mp (here.trans here'.symm)⟩

/-- If nothing is left to be looked at, all that can be reached was accepted. -/
theorem Trail.wellFormed {name : String} (isModule : m.kind? m.root = some (.module name))
    (trail : Trail m descriptors looked seen []) : m.WellFormed descriptors := by
  have marked : ∀ p, m.Reachable p → ∀ c ∈ m.childrenOf p, c ∈ seen := by
    intro p reached c member
    rw [trail.origin.mem_iff]
    exact List.mem_cons_of_mem _
      (List.mem_flatMap.mpr ⟨p, trail.looked_of_reachable reached, member⟩)
  refine ⟨⟨name, isModule⟩, ?_, ?_, ?_, ?_, ?_⟩
  · intro p reached c member
    exact lt_size_of_isSome (trail.exist c (marked p reached c member))
  · intro p reached member
    have unique := (List.nodup_cons.mp (trail.origin.nodup_iff.mp trail.nodup)).1
    exact unique (List.mem_flatMap.mpr ⟨p, trail.looked_of_reachable reached, member⟩)
  · intro p q i j c reachedP reachedQ one other
    exact trail.onePlace (trail.looked_of_reachable reachedP) (trail.looked_of_reachable reachedQ)
      one other
  · intro p n reached here
    exact (trail.passed p (trail.looked_of_reachable reached) n here).1
  · intro p n reached here
    exact (trail.passed p (trail.looked_of_reachable reached) n here).2

/-! ## Reports -/

section Reports

variable {violation : Violation} (trail : Trail m descriptors looked seen (id :: stack))
  (here : m.get? id = some n)

include trail

theorem Trail.top_reachable : m.Reachable id :=
  trail.reached id (trail.pending.mem_iff.mpr (by simp))

/-- What is looked at has not been looked at before. -/
theorem Trail.top_fresh : id ∉ looked := by
  have distinct := trail.pending.nodup_iff.mp trail.nodup
  intro old
  exact (List.nodup_append.mp distinct).2.2 id old id List.mem_cons_self rfl

include here

/-- Children that cannot be entered are missing, or have another place already. -/
theorem Trail.occurs_enter (refused : m.enter id n.children seen stack = .error violation) :
    violation.Occurs m descriptors := by
  have reached := trail.top_reachable
  have children := childrenOf_eq here
  rcases enter_eq_error refused with ⟨c, member, missing, rfl⟩ | ⟨before, c, after, split, old, rfl⟩
  · refine ⟨Array.getElem?_eq_none_iff.mp missing, Or.inl ⟨reached, ?_⟩⟩
    rwa [children]
  · have place : m.ChildAt id before.length c := by
      rw [ChildAt, children, split]
      simp
    have member : c ∈ m.childrenOf id := List.mem_of_getElem? place
    rcases old with earlier | marked
    · obtain ⟨i, inside, at'⟩ := List.mem_iff_getElem.mp earlier
      have first : m.ChildAt id i c := by
        rw [ChildAt, children, split, List.getElem?_append_left inside,
          List.getElem?_eq_getElem inside, at']
      exact Or.inr ⟨id, id, i, before.length, reached, reached, first, place,
        fun same => absurd same.2 (Nat.ne_of_lt inside)⟩
    · rw [trail.origin.mem_iff, List.mem_cons, List.mem_flatMap] at marked
      rcases marked with rfl | ⟨p, done, below⟩
      · exact Or.inl ⟨rfl, id, reached, member⟩
      · obtain ⟨j, other⟩ := List.mem_iff_getElem?.mp below
        have earlier : m.Reachable p :=
          trail.reached p (trail.pending.mem_iff.mpr (List.mem_append_left _ done))
        refine Or.inr ⟨p, id, j, before.length, earlier, reached, other, place, ?_⟩
        rintro ⟨rfl, -⟩
        exact trail.top_fresh done

/-- A refused descriptor is a violation that occurs. -/
theorem Trail.occurs_descriptor (refused : checkDescriptor descriptors id n = .error violation) :
    violation.Occurs m descriptors := by
  have reached := trail.top_reachable
  obtain ⟨needed, ⟨missing, rfl⟩ | ⟨d, stated, unknown, rfl⟩⟩ := checkDescriptor_eq_error refused
  · exact ⟨n, reached, here, rfl, needed, missing⟩
  · exact ⟨n, reached, here, needed, stated, unknown⟩

/-- A refused shape is a violation that occurs. -/
theorem Trail.occurs_shape (exist : ∀ c ∈ n.children, (m.get? c).isSome)
    (refused : m.checkShape id n = .error violation) : violation.Occurs m descriptors := by
  have reached := trail.top_reachable
  obtain ⟨kinds, has⟩ := exists_hasKinds exist
  rcases checkShape_eq_error has refused with ⟨miscounted, rfl⟩ | ⟨k, member, excluded, rfl⟩
  · exact ⟨n, kinds, reached, here, has, rfl, rfl, rfl, miscounted⟩
  · exact ⟨n, kinds, k, reached, here, has, rfl, rfl, member, excluded⟩

end Reports

/-- A step of the walk that finds nothing wrong goes on with the rest. -/
theorem verifyFrom_step {fuel : Nat} (here : m.get? id = some n)
    (entered : m.enter id n.children seen stack = .ok (seen', stack'))
    (described : checkDescriptor descriptors id n = .ok ()) (shape : m.checkShape id n = .ok ()) :
    m.verifyFrom descriptors (fuel + 1) seen (id :: stack) =
      m.verifyFrom descriptors fuel seen' stack' := by
  rw [verifyFrom, here]
  simp only [entered, described, shape, bind, Except.bind]

/-- What the answer of a walk says about the module. -/
def Answers (m : Module) (descriptors : Descriptor.Table) : Except Violation Unit → Prop
  | .ok _ => m.WellFormed descriptors
  | .error violation => violation.Occurs m descriptors

/-- A walk with room for every node answers what is true of the module. -/
theorem verifyFrom_sound {name : String} (isModule : m.kind? m.root = some (.module name))
    {fuel : Nat} (trail : Trail m descriptors looked seen stack)
    (enough : m.size ≤ looked.length + fuel) :
    m.Answers descriptors (m.verifyFrom descriptors fuel seen stack) := by
  induction fuel generalizing looked seen stack with
  | zero =>
      have room := trail.length_le
      obtain rfl : stack = [] := List.length_eq_zero_iff.mp (by omega)
      exact trail.wellFormed isModule
  | succ fuel ih =>
      cases stack with
      | nil => exact trail.wellFormed isModule
      | cons id stack =>
          obtain ⟨n, here⟩ := Option.isSome_iff_exists.mp
            (trail.exist id (trail.pending.mem_iff.mpr (by simp)))
          have room : m.size ≤ (id :: looked).length + fuel := by
            rw [List.length_cons]
            omega
          rw [verifyFrom, here]
          simp only [bind, Except.bind]
          cases entered : m.enter id n.children seen stack with
          | error violation => exact trail.occurs_enter here entered
          | ok pair =>
              have exist := (enter_eq_ok_iff.mp entered).1
              cases described : checkDescriptor descriptors id n with
              | error violation => exact trail.occurs_descriptor here described
              | ok _ =>
                  cases shape : m.checkShape id n with
                  | error violation => exact trail.occurs_shape here exist shape
                  | ok _ => exact ih (trail.step here entered described shape) room

end Walk

section Verify

variable {m : Module} {descriptors : Descriptor.Table}

/-- Below a root of the right kind verification is the walk. -/
theorem verify_of_isModule {name : String} (isModule : m.kind? m.root = some (.module name)) :
    m.verify descriptors = m.verifyFrom descriptors m.size [m.root] [m.root] := by
  rw [kind?, Option.map_eq_some_iff] at isModule
  obtain ⟨n, here, kind⟩ := isModule
  unfold verify
  rw [here]
  simp only [kind]

/-- What verification answers is true of the module. -/
theorem verify_answers : m.Answers descriptors (m.verify descriptors) := by
  cases here : m.get? m.root with
  | none =>
      have answer : m.verify descriptors = .error (.danglingChild m.root m.root) := by
        rw [verify, here]
      rw [answer]
      exact ⟨Array.getElem?_eq_none_iff.mp here, Or.inr ⟨rfl, rfl⟩⟩
  | some n =>
      have kind : m.kind? m.root = some n.kind := by rw [kind?, here, Option.map_some]
      by_cases isModule : ∃ name, n.kind = .module name
      · obtain ⟨name, isModule⟩ := isModule
        rw [isModule] at kind
        rw [verify_of_isModule kind]
        exact verifyFrom_sound kind (.start kind) (Nat.le_add_left _ _)
      · have other : ∀ name, n.kind ≠ .module name := fun name same => isModule ⟨name, same⟩
        have answer : m.verify descriptors = .error (.rootNotModule m.root n.kind.text) := by
          unfold verify
          rw [here]
          cases same : n.kind with
          | module name => exact absurd same (other name)
          | _ => simp only [same]
        rw [answer]
        exact ⟨rfl, n.kind, kind, rfl, other⟩

/-- What holds wherever the walk stands: the answer of verification is the answer from there, there
are steps left for what is on the stack, and every number that is used as an index is in range. -/
structure InBounds (m : Module) (descriptors : Descriptor.Table) (looked seen stack : List NodeId) :
    Prop where
  resumes : m.verify descriptors = m.verifyFrom descriptors (m.size - looked.length) seen stack
  room : looked.length + stack.length ≤ m.size
  marked : ∀ i ∈ seen, i < m.size
  stacked : ∀ i ∈ stack, i ∈ seen
  shapeInRange : ∀ id rest n entered, stack = id :: rest → m.get? id = some n →
    m.enter id n.children seen rest = .ok entered → ∀ c ∈ n.children, c < m.size

/-- The walk has fuel for all that is left, and everything on its stack is in the arena. -/
theorem Walks.inBounds {looked seen stack : List NodeId}
    (walks : Walks m descriptors looked seen stack) : m.InBounds descriptors looked seen stack := by
  have trail := walks.trail
  refine ⟨?_, trail.length_le, fun i member => lt_size_of_isSome (trail.exist i member), ?_, ?_⟩
  · induction walks with
    | start isModule => exact verify_of_isModule isModule
    | @step looked seen stack seen' stack' id n before here entered described shape ih =>
        have room := before.trail.length_le
        rw [List.length_cons] at room
        have fuel : m.size - looked.length = m.size - (looked.length + 1) + 1 := by omega
        rw [ih before.trail, fuel, verifyFrom_step here entered described shape]
        rfl
  · intro i member
    exact trail.pending.mem_iff.mpr (List.mem_append_right _ member)
  · rintro id rest n ⟨seen', stack'⟩ rfl _ entered c member
    exact lt_size_of_isSome ((enter_eq_ok_iff.mp entered).1 c member)

end Verify

/-- Verification decides well-formedness: it accepts exactly the well-formed modules, what it reports
occurs, and its walk ends within the size of the arena and uses no number that is out of range. -/
theorem verify_decides_wellFormed (m : Module) (descriptors : Descriptor.Table) :
    (m.verify descriptors = .ok () ↔ m.WellFormed descriptors) ∧
      (∀ violation, m.verify descriptors = .error violation → violation.Occurs m descriptors) ∧
      ∀ looked seen stack, m.Walks descriptors looked seen stack →
        m.InBounds descriptors looked seen stack := by
  have answers : m.Answers descriptors (m.verify descriptors) := verify_answers
  refine ⟨⟨?_, ?_⟩, ?_, fun _ _ _ walks => walks.inBounds⟩
  · intro accepted
    rwa [accepted] at answers
  · intro formed
    cases answer : m.verify descriptors with
    | ok _ => rfl
    | error violation =>
        rw [answer] at answers
        exact absurd answers (formed.not_occurs violation)
  · intro violation refused
    rwa [refused] at answers

/-- The body of `f` is the body of `g` too. -/
def sharedBody : Module :=
  ⟨#[{ kind := .module "main", children := [1] }, { kind := .file "main", children := [2, 3] },
    { kind := .function "f", children := [4], descriptor := some 0 },
    { kind := .function "g", children := [4], descriptor := some 1 }, { kind := .block }], 0⟩

/-- Two functions that share one body: each node on its own is accepted, the module is not. -/
theorem verify_decides_wellFormed_sharedBody :
    let table : Descriptor.Table :=
      ⟨#[{ name := "f", kind := .function, origin := .builtin },
        { name := "g", kind := .function, origin := .builtin }]⟩
    sharedBody.verify table = .error (.sharedNode 4) ∧
      Violation.Occurs sharedBody table (.sharedNode 4) ∧ ¬ sharedBody.WellFormed table := by
  intro table
  have refused : sharedBody.verify table = .error (.sharedNode 4) := by rfl
  obtain ⟨accepts, occurs, -⟩ := verify_decides_wellFormed sharedBody table
  refine ⟨refused, occurs _ refused, fun formed => ?_⟩
  rw [accepts.mpr formed] at refused
  cases refused

end StagedCompiler.Module
