import Mathlib.Data.List.Nodup
import Mathlib.Data.List.Perm.Basic
import StagedCompiler.Module.Verify
import StagedCompiler.Proofs.Module.Numbered

/-!
# Verified modules

Verification walks the arena with a stack; what it decides is a property of a tree.  `WellShaped`
states the shape of outlines without the walk, and `verify_eq_ok_iff` says that verification accepts
a module exactly if its root holds an outline of that shape with distinct numbers.

The walk is related to trees by `Covers`: the nodes on the stack are the tops of held outlines, and
nothing below them has been marked.  `verifyFrom_covers` reads such outlines off an accepting walk,
and `verifyFrom_eq_ok` shows that a walk over such outlines accepts.
-/

namespace StagedCompiler.Module

namespace Outline

/-- The kind of the topmost node. -/
def kind : Outline → Kind
  | .node kind _ _ _ => kind

/-- What is below the topmost node. -/
def children : Outline → List Outline
  | .node _ _ _ children => children

@[simp] theorem kind_node {k : Kind} {d : Option DescriptorId} {ty : Ty} {cs : List Outline} :
    (node k d ty cs).kind = k := rfl

@[simp] theorem children_node {k : Kind} {d : Option DescriptorId} {ty : Ty} {cs : List Outline} :
    (node k d ty cs).children = cs := rfl

/-- A declaration or a reference has a descriptor of the table. -/
def DescriptorFits (descriptors : Descriptor.Table) (kind : Kind)
    (descriptor : Option DescriptorId) : Prop :=
  kind.isDeclaration || kind.isReference →
    ∃ d, descriptor = some d ∧ descriptors.contains d = true

/-- The number and the kinds of children that a node of a kind has. -/
def ChildrenFit : Kind → List Kind → Prop
  | .module _, below => ∀ k ∈ below, k.isFile
  | .file _, below => ∀ k ∈ below, k.isItem
  | .cls _, below => ∀ k ∈ below, k.isField
  | .field _, below | .param _, below | .localRef, below | .constant _, below => below = []
  | .function _, below => ∃ params, below = params ++ [.block] ∧ ∀ k ∈ params, k.isParam
  | .block, below => ∀ k ∈ below, k.isStatement
  | .letBind _, below | .eval, below | .fieldGet, below =>
    below.length = 1 ∧ ∀ k ∈ below, k.isExpression
  | .ret, below => below.length ≤ 1 ∧ ∀ k ∈ below, k.isExpression
  | .binary _, below => below.length = 2 ∧ ∀ k ∈ below, k.isExpression
  | .call, below => ∀ k ∈ below, k.isExpression

/-- Every node has the descriptor and the children that its kind asks for. -/
inductive WellShaped (descriptors : Descriptor.Table) : Outline → Prop
  | node {kind : Kind} {descriptor : Option DescriptorId} {ty : Ty} {children : List Outline} :
    DescriptorFits descriptors kind descriptor →
    ChildrenFit kind (children.map Outline.kind) →
    (∀ c ∈ children, WellShaped descriptors c) →
    WellShaped descriptors (.node kind descriptor ty children)

end Outline

open Outline (DescriptorFits ChildrenFit WellShaped)

@[simp] theorem Numbered.kind_outline (t : Numbered) : t.outline.kind = t.kind := by
  cases t with
  | node i k d ty cs => rw [outline_node]; rfl

@[simp] theorem Numbered.children_outline (t : Numbered) :
    t.outline.children = t.children.map outline := by
  cases t with
  | node i k d ty cs => rw [outline_node]; rfl

/-- A module and the numbered outline that its verification finds. -/
structure Verified (m : Module) (descriptors : Descriptor.Table) (t : Numbered) : Prop where
  held : Holds m t
  root : t.id = m.root
  nodup : t.ids.Nodup
  shaped : t.outline.WellShaped descriptors
  isModule : ∃ name, t.kind = .module name

/-! ## Checks of one node -/

section NodeChecks

variable {m : Module} {descriptors : Descriptor.Table} {id : NodeId} {n : Node}

/-- A descriptor is accepted exactly if it fits the kind of the node. -/
theorem checkDescriptor_eq_ok_iff :
    checkDescriptor descriptors id n = .ok () ↔
      DescriptorFits descriptors n.kind n.descriptor := by
  unfold checkDescriptor DescriptorFits
  split
  · rename_i needed
    cases stated : n.descriptor with
    | none => simp [needed]
    | some d => by_cases known : descriptors.contains d <;> simp [needed, known]
  · rename_i free
    simp [free]

theorem expectArity_eq_ok_iff {expected : String} {ok : Bool} :
    expectArity id n expected ok = .ok () ↔ ok = true := by
  unfold expectArity
  cases ok <;> simp

/-- The children of a node that are held have the kinds that are looked up. -/
theorem expectChildren_eq_ok_iff {kind : Kind} {allowed : Kind → Bool} {cs : List Numbered}
    (held : ∀ c ∈ cs, m.kind? c.id = some c.kind) :
    m.expectChildren id kind allowed (cs.map Numbered.id) = .ok () ↔
      ∀ k ∈ cs.map Numbered.kind, allowed k = true := by
  induction cs with
  | nil => simp [expectChildren]
  | cons c rest ih =>
      rw [List.map_cons, expectChildren, held c List.mem_cons_self]
      by_cases fits : allowed c.kind
      · simp only [fits, if_true, List.map_cons, List.forall_mem_cons, true_and]
        exact ih fun d member => held d (List.mem_cons_of_mem _ member)
      · simp [fits]

/-- The last of several children is a block exactly if they are others and a block. -/
theorem endsInBlock_eq_true_iff {kind : Kind} {descriptor : Option DescriptorId} {ty : Ty}
    {cs : List Numbered} (held : ∀ c ∈ cs, m.kind? c.id = some c.kind) :
    m.endsInBlock ⟨kind, cs.map Numbered.id, descriptor, ty⟩ = true ↔
      ∃ params last, cs = params ++ [last] ∧ last.kind = .block := by
  unfold endsInBlock
  rcases List.eq_nil_or_concat cs with rfl | ⟨params, last, rfl⟩
  · simp
  · have here := held last (by simp)
    simp [here]

theorem bind_eq_ok_iff {x : Except Violation Unit} {y : Except Violation Unit} :
    (do x; y) = .ok () ↔ x = .ok () ∧ y = .ok () := by
  cases x with
  | error e => simp [bind, Except.bind]
  | ok u => simp [bind, Except.bind]

/-- A shape is accepted exactly if the children fit the kind of the node, by cases on the kind. -/
theorem checkShape_eq_ok_iff {kind : Kind} {descriptor : Option DescriptorId} {ty : Ty}
    {cs : List Numbered} (held : ∀ c ∈ cs, m.kind? c.id = some c.kind) :
    m.checkShape id ⟨kind, cs.map Numbered.id, descriptor, ty⟩ = .ok () ↔
      ChildrenFit kind (cs.map Numbered.kind) := by
  unfold checkShape ChildrenFit
  cases kind with
  | function name =>
      simp only [bind_eq_ok_iff, expectArity_eq_ok_iff, endsInBlock_eq_true_iff held]
      constructor
      · intro given
        rcases given with ⟨⟨params, last, rfl, block⟩, allowed⟩
        have below : ∀ c ∈ params, m.kind? c.id = some c.kind :=
          fun c member => held c (List.mem_append_left _ member)
        rw [List.map_append, List.map_singleton, List.dropLast_concat,
          expectChildren_eq_ok_iff below] at allowed
        exact ⟨params.map Numbered.kind, by simp [block], allowed⟩
      · intro given
        rcases given with ⟨kinds, split, allowed⟩
        obtain ⟨params, tail, rfl, rfl, single⟩ := List.map_eq_append_iff.mp split
        obtain ⟨last, rfl, block⟩ := List.map_eq_singleton_iff.mp single
        have below : ∀ c ∈ params, m.kind? c.id = some c.kind :=
          fun c member => held c (List.mem_append_left _ member)
        refine ⟨⟨params, last, rfl, block⟩, ?_⟩
        rw [List.map_append, List.map_singleton, List.dropLast_concat,
          expectChildren_eq_ok_iff below]
        exact allowed
  | module name => exact expectChildren_eq_ok_iff held
  | file name => exact expectChildren_eq_ok_iff held
  | cls name => exact expectChildren_eq_ok_iff held
  | block => exact expectChildren_eq_ok_iff held
  | call => exact expectChildren_eq_ok_iff held
  | field name | param name | localRef | constant value =>
      simp [expectArity_eq_ok_iff]
  | letBind name | eval | fieldGet | ret | binary op =>
      simp only [bind_eq_ok_iff, expectArity_eq_ok_iff, expectChildren_eq_ok_iff held]
      simp

end NodeChecks

/-! ## The walk -/

namespace Numbered

/-- The numbers below the topmost node. -/
def lower (t : Numbered) : List NodeId := t.children.flatMap ids

theorem ids_eq_cons (t : Numbered) : t.ids = t.id :: t.lower := by
  cases t with
  | node i k d ty cs => exact ids_node

/-- The numbers of outlines are those of their tops and those below them. -/
theorem flatMap_ids_perm (ts : List Numbered) :
    (ts.flatMap ids).Perm (ts.map id ++ ts.flatMap lower) := by
  have split : ts.flatMap ids = ts.flatMap fun t => [t.id] ++ t.lower :=
    List.flatMap_congr fun t _ => t.ids_eq_cons
  rw [split, List.map_eq_flatMap]
  exact (List.flatMap_append_perm ts _ _).symm

end Numbered

/-- The nodes on a stack are the tops of well-shaped outlines, below which nothing is marked. -/
structure Covers (m : Module) (descriptors : Descriptor.Table) (seen stack : List NodeId)
    (ts : List Numbered) : Prop where
  tops : ts.map Numbered.id = stack
  held : ∀ t ∈ ts, Holds m t
  shaped : ∀ t ∈ ts, t.outline.WellShaped descriptors
  nodup : (ts.flatMap Numbered.lower).Nodup
  unseen : ∀ i ∈ ts.flatMap Numbered.lower, i ∉ seen

section Walk

variable {m : Module} {descriptors : Descriptor.Table}

/-- Children are put on the stack if they exist, are distinct and are not marked. -/
theorem enter_eq_ok_iff {parent : NodeId} {cs seen stack seen' stack' : List NodeId} :
    m.enter parent cs seen stack = .ok (seen', stack') ↔
      (∀ c ∈ cs, (m.get? c).isSome) ∧ cs.Nodup ∧ (∀ c ∈ cs, c ∉ seen) ∧
        seen' = cs.reverse ++ seen ∧ stack' = cs.reverse ++ stack := by
  induction cs generalizing seen stack with
  | nil =>
      simp only [enter, Except.ok.injEq, Prod.mk.injEq, List.reverse_nil, List.nil_append]
      exact ⟨fun ⟨same, same'⟩ => ⟨by simp, List.nodup_nil, by simp, same.symm, same'.symm⟩,
        fun ⟨_, _, _, same, same'⟩ => ⟨same.symm, same'.symm⟩⟩
  | cons c rest ih =>
      rw [enter]
      cases found : m.get? c with
      | none => simp [found]
      | some n =>
          by_cases marked : c ∈ seen
          · simp [marked]
          · rw [if_neg (by simp), if_neg (by simpa using marked), ih, List.nodup_cons,
              List.reverse_cons, List.append_assoc, List.append_assoc]
            constructor
            · intro given
              rcases given with ⟨exist, nodup, fresh, rfl, rfl⟩
              exact ⟨List.forall_mem_cons.mpr ⟨by simp [found], exist⟩,
                ⟨fun member => fresh c member List.mem_cons_self, nodup⟩,
                List.forall_mem_cons.mpr
                  ⟨marked, fun d member old => fresh d member (List.mem_cons_of_mem _ old)⟩,
                rfl, rfl⟩
            · intro given
              rcases given with ⟨exist, ⟨new, nodup⟩, fresh, rfl, rfl⟩
              refine ⟨(List.forall_mem_cons.mp exist).2, nodup, fun d member old => ?_, rfl, rfl⟩
              rcases List.mem_cons.mp old with rfl | old
              · exact new member
              · exact (List.forall_mem_cons.mp fresh).2 d member old

theorem Numbered.kinds_outlines (kids : List Numbered) :
    (kids.map Numbered.outline).map Outline.kind = kids.map Numbered.kind := by
  rw [List.map_map]
  exact List.map_congr_left fun c _ => c.kind_outline

/-- The numbers below a node and below the rest of a stack: those of the children come first. -/
theorem Numbered.lower_cons_perm {id : NodeId} {kind : Kind} {descriptor : Option DescriptorId}
    {ty : Ty} (kids rest : List Numbered) :
    ((Numbered.node id kind descriptor ty kids :: rest).flatMap Numbered.lower).Perm
      (kids.map Numbered.id ++ (kids.reverse ++ rest).flatMap Numbered.lower) := by
  show (kids.flatMap Numbered.ids ++ rest.flatMap Numbered.lower).Perm _
  rw [List.flatMap_append, ← List.append_assoc]
  refine List.Perm.append_right _ ((Numbered.flatMap_ids_perm kids).trans ?_)
  exact List.Perm.append_left _ (kids.reverse_perm.symm.flatMap_right _)

section Cover

variable {id : NodeId} {kind : Kind} {descriptor : Option DescriptorId} {ty : Ty}
  {seen stack : List NodeId} {kids rest : List Numbered}

/-- Taking a node off the stack and putting its children there covers the same outlines. -/
theorem Covers.enter
    (covers : Covers m descriptors seen (id :: stack) (.node id kind descriptor ty kids :: rest)) :
    DescriptorFits descriptors kind descriptor ∧ ChildrenFit kind (kids.map Numbered.kind) ∧
      (kids.map Numbered.id).Nodup ∧ (∀ c ∈ kids.map Numbered.id, c ∉ seen) ∧
      Covers m descriptors ((kids.map Numbered.id).reverse ++ seen)
        ((kids.map Numbered.id).reverse ++ stack) (kids.reverse ++ rest) := by
  have shape := covers.shaped _ List.mem_cons_self
  rw [Numbered.outline_node] at shape
  cases shape with
  | node described fits deeper =>
      have nodup := (Numbered.lower_cons_perm kids rest).nodup_iff.mp covers.nodup
      rw [List.nodup_append] at nodup
      obtain ⟨distinct, deep, apart⟩ := nodup
      have unseen : ∀ i ∈ kids.map Numbered.id ++ (kids.reverse ++ rest).flatMap Numbered.lower,
          i ∉ seen := fun i member =>
        covers.unseen i ((Numbered.lower_cons_perm kids rest).mem_iff.mpr member)
      refine ⟨described, Numbered.kinds_outlines kids ▸ fits, distinct,
        fun c member => unseen c (List.mem_append_left _ member), ?_, ?_, ?_, deep, ?_⟩
      · rw [List.map_append, List.map_reverse]
        exact congrArg _ (List.cons.inj covers.tops).2
      · intro t member
        rcases List.mem_append.mp member with kid | later
        · exact (covers.held _ List.mem_cons_self).child (List.mem_reverse.mp kid)
        · exact covers.held t (List.mem_cons_of_mem _ later)
      · intro t member
        rcases List.mem_append.mp member with kid | later
        · exact deeper _ (List.mem_map_of_mem (List.mem_reverse.mp kid))
        · exact covers.shaped t (List.mem_cons_of_mem _ later)
      · intro i member marked
        rcases List.mem_append.mp marked with kid | old
        · exact apart i (List.mem_reverse.mp kid) i member rfl
        · exact unseen i (List.mem_append_right _ member) old

/-- The other way round: a node covers what it and its children cover. -/
theorem Covers.enclose (here : m.get? id = some ⟨kind, kids.map Numbered.id, descriptor, ty⟩)
    (described : DescriptorFits descriptors kind descriptor)
    (fits : ChildrenFit kind (kids.map Numbered.kind)) (distinct : (kids.map Numbered.id).Nodup)
    (fresh : ∀ c ∈ kids.map Numbered.id, c ∉ seen)
    (covers : Covers m descriptors ((kids.map Numbered.id).reverse ++ seen)
      ((kids.map Numbered.id).reverse ++ stack) (kids.reverse ++ rest)) :
    Covers m descriptors seen (id :: stack) (.node id kind descriptor ty kids :: rest) := by
  have kidHeld : ∀ c ∈ kids, Holds m c := fun c member =>
    covers.held c (List.mem_append_left _ (List.mem_reverse.mpr member))
  have kidShaped : ∀ c ∈ kids, c.outline.WellShaped descriptors := fun c member =>
    covers.shaped c (List.mem_append_left _ (List.mem_reverse.mpr member))
  refine ⟨?_, ?_, ?_, ?_, ?_⟩
  · have tops := covers.tops
    rw [List.map_append, List.map_reverse] at tops
    rw [List.map_cons, List.append_cancel_left tops]
    rfl
  · intro t member
    rcases List.mem_cons.mp member with rfl | later
    · exact .node here kidHeld
    · exact covers.held t (List.mem_append_right _ later)
  · intro t member
    rcases List.mem_cons.mp member with rfl | later
    · rw [Numbered.outline_node]
      refine .node described ((Numbered.kinds_outlines kids).symm ▸ fits) fun c inside => ?_
      obtain ⟨kid, kidMember, rfl⟩ := List.mem_map.mp inside
      exact kidShaped kid kidMember
    · exact covers.shaped t (List.mem_append_right _ later)
  · rw [(Numbered.lower_cons_perm kids rest).nodup_iff, List.nodup_append]
    refine ⟨distinct, covers.nodup, fun i kid j lower same => ?_⟩
    subst same
    exact covers.unseen i lower (List.mem_append_left _ (List.mem_reverse.mpr kid))
  · intro i member
    rw [(Numbered.lower_cons_perm kids rest).mem_iff] at member
    rcases List.mem_append.mp member with kid | lower
    · exact fresh i kid
    · exact fun old => covers.unseen i lower (List.mem_append_right _ old)

/-- What is to be looked at covers a node if it is accepted, its children are new, and the rest is
covered. -/
theorem Covers.cons_iff (here : m.get? id = some ⟨kind, kids.map Numbered.id, descriptor, ty⟩) :
    Covers m descriptors seen (id :: stack) (.node id kind descriptor ty kids :: rest) ↔
      DescriptorFits descriptors kind descriptor ∧ ChildrenFit kind (kids.map Numbered.kind) ∧
      (kids.map Numbered.id).Nodup ∧ (∀ c ∈ kids.map Numbered.id, c ∉ seen) ∧
      Covers m descriptors ((kids.map Numbered.id).reverse ++ seen)
        ((kids.map Numbered.id).reverse ++ stack) (kids.reverse ++ rest) := by
  constructor
  · exact Covers.enter
  · intro given
    rcases given with ⟨described, fits, distinct, fresh, covers⟩
    exact .enclose here described fits distinct fresh covers

end Cover

/-- One step of the walk succeeds exactly if the node and its children pass and the rest does. -/
theorem verifyFrom_cons_eq_ok_iff {fuel : Nat} {id : NodeId} {n : Node} {seen stack : List NodeId}
    (here : m.get? id = some n) :
    m.verifyFrom descriptors (fuel + 1) seen (id :: stack) = .ok () ↔
      ((∀ c ∈ n.children, (m.get? c).isSome) ∧ n.children.Nodup ∧ (∀ c ∈ n.children, c ∉ seen)) ∧
      checkDescriptor descriptors id n = .ok () ∧ m.checkShape id n = .ok () ∧
      m.verifyFrom descriptors fuel (n.children.reverse ++ seen) (n.children.reverse ++ stack) =
        .ok () := by
  rw [verifyFrom, here]
  simp only [bind, Except.bind]
  cases entered : m.enter id n.children seen stack with
  | error violation =>
      have refused : ¬ ((∀ c ∈ n.children, (m.get? c).isSome) ∧ n.children.Nodup ∧
          ∀ c ∈ n.children, c ∉ seen) := by
        intro given
        rcases given with ⟨exist, nodup, fresh⟩
        have ok : m.enter id n.children seen stack = .ok (_, _) :=
          enter_eq_ok_iff.mpr ⟨exist, nodup, fresh, rfl, rfl⟩
        rw [entered] at ok
        cases ok
      exact ⟨fun wrong => (by cases wrong), fun right => absurd right.1 refused⟩
  | ok pair =>
      obtain ⟨seen', stack'⟩ := pair
      obtain ⟨exist, nodup, fresh, rfl, rfl⟩ := enter_eq_ok_iff.mp entered
      cases checkDescriptor descriptors id n with
      | error violation => simp
      | ok _ =>
          cases m.checkShape id n with
          | error violation => simp
          | ok _ => exact ⟨fun rest => ⟨⟨exist, nodup, fresh⟩, rfl, rfl, rest⟩,
              fun right => right.2.2.2⟩

/-- A walk that ends well has covered trees, by induction on the fuel. -/
theorem verifyFrom_covers {fuel : Nat} {seen stack : List NodeId}
    (accepted : m.verifyFrom descriptors fuel seen stack = .ok ()) :
    ∃ ts, Covers m descriptors seen stack ts := by
  induction fuel generalizing seen stack with
  | zero =>
      cases stack with
      | nil => exact ⟨[], rfl, by simp, by simp, List.nodup_nil, by simp⟩
      | cons id stack => cases accepted
  | succ fuel ih =>
      cases stack with
      | nil => exact ⟨[], rfl, by simp, by simp, List.nodup_nil, by simp⟩
      | cons id stack =>
          cases here : m.get? id with
          | none => simp [verifyFrom, here] at accepted
          | some n =>
              obtain ⟨entered, described, fits, rest⟩ :=
                (verifyFrom_cons_eq_ok_iff here).mp accepted
              obtain ⟨ts, covers⟩ := ih rest
              -- The outlines of the children come off the stack in reverse.
              obtain ⟨kids', later, rfl, kidTops, laterTops⟩ :=
                List.map_eq_append_iff.mp covers.tops
              have kids : (kids'.reverse).map Numbered.id = n.children := by
                rw [List.map_reverse, kidTops, List.reverse_reverse]
              have held : ∀ c ∈ kids'.reverse, m.kind? c.id = some c.kind := fun c member =>
                (covers.held c (List.mem_append_left _ (List.mem_reverse.mp member))).kind?_id
              rcases n with ⟨kind, children, descriptor, ty⟩
              subst kids
              refine ⟨.node id kind descriptor ty kids'.reverse :: later,
                (Covers.cons_iff here).mpr ⟨checkDescriptor_eq_ok_iff.mp described,
                  (checkShape_eq_ok_iff held).mp fits, entered.2.1, entered.2.2, ?_⟩⟩
              rw [List.reverse_reverse]
              exact covers

/-- A walk over trees that are covered ends well, if the fuel is enough for their nodes. -/
theorem verifyFrom_eq_ok {fuel : Nat} {seen stack : List NodeId} {ts : List Numbered}
    (covers : Covers m descriptors seen stack ts)
    (enough : (ts.flatMap Numbered.ids).length ≤ fuel) :
    m.verifyFrom descriptors fuel seen stack = .ok () := by
  induction fuel generalizing seen stack ts with
  | zero =>
      obtain rfl := Numbered.eq_nil_of_length_flatMap_ids ts enough
      obtain rfl := covers.tops
      rfl
  | succ fuel ih =>
      cases ts with
      | nil =>
          obtain rfl := covers.tops
          rfl
      | cons t rest =>
          obtain rfl := covers.tops
          rcases t with ⟨id, kind, descriptor, ty, kids⟩
          have here := (covers.held _ List.mem_cons_self).get?_id
          obtain ⟨described, fits, distinct, fresh, deeper⟩ := (Covers.cons_iff here).mp covers
          have held : ∀ c ∈ kids, Holds m c := fun c member =>
            deeper.held c (List.mem_append_left _ (List.mem_reverse.mpr member))
          refine (verifyFrom_cons_eq_ok_iff here).mpr
            ⟨⟨?_, distinct, fresh⟩, checkDescriptor_eq_ok_iff.mpr described,
              (checkShape_eq_ok_iff fun c member => (held c member).kind?_id).mpr fits, ih deeper ?_⟩
          · intro i member
            obtain ⟨c, inside, rfl⟩ := List.mem_map.mp member
            rw [(held c inside).get?_id]
            rfl
          · have same := (kids.reverse_perm.flatMap_right Numbered.ids).length_eq
            simp only [List.flatMap_cons, Numbered.ids_node, List.length_append, List.length_cons,
              List.flatMap_append] at enough ⊢
            omega

end Walk

/-- What the verifier accepts holds a tree from the root on, and this is verified. -/
theorem exists_verified_of_verify {m : Module} {descriptors : Descriptor.Table}
    (accepted : m.verify descriptors = .ok ()) : ∃ t, m.Verified descriptors t := by
  unfold verify at accepted
  cases here : m.get? m.root with
  | none => simp [here] at accepted
  | some n =>
      rw [here] at accepted
      cases kind : n.kind with
      | module name =>
          simp only [kind] at accepted
          -- The walk starts with the root alone, so it covers one tree.
          obtain ⟨ts, covers⟩ := verifyFrom_covers accepted
          obtain ⟨t, rfl, root⟩ := List.map_eq_singleton_iff.mp covers.tops
          have held := covers.held t List.mem_cons_self
          have top : t.top = n := Option.some.inj ((root ▸ held.get?_id).symm.trans here)
          refine ⟨t, held, root, ?_, covers.shaped t List.mem_cons_self, name, ?_⟩
          · have unseen := covers.unseen
            rw [List.flatMap_singleton] at unseen
            rw [t.ids_eq_cons, List.nodup_cons]
            refine ⟨fun again => unseen _ again (by simp [root]), ?_⟩
            simpa only [List.flatMap_singleton] using covers.nodup
          · rcases t with ⟨id, k, d, ty, cs⟩
            rw [← kind, ← top]
            rfl
      | _ => simp [kind] at accepted

/-- The verifier accepts a verified tree. -/
theorem Verified.verify_eq_ok {m : Module} {descriptors : Descriptor.Table} {t : Numbered}
    (verified : m.Verified descriptors t) : m.verify descriptors = .ok () := by
  obtain ⟨held, root, nodup, shaped, name, kind⟩ := verified
  have here := held.get?_id
  rw [root] at here
  have isModule : t.top.kind = .module name := by
    rcases t with ⟨id, k, d, ty, cs⟩
    exact kind
  unfold verify
  rw [here]
  simp only [isModule]
  rw [t.ids_eq_cons, List.nodup_cons, root] at nodup
  have covers : Covers m descriptors [m.root] [m.root] [t] := by
    refine ⟨by simp [root], by simpa using held, by simpa using shaped, ?_, ?_⟩
    · simpa only [List.flatMap_singleton] using nodup.2
    · intro i member marked
      rw [List.flatMap_singleton] at member
      rw [List.mem_singleton] at marked
      exact nodup.1 (marked ▸ member)
  refine verifyFrom_eq_ok covers ?_
  rw [List.flatMap_singleton]
  refine held.length_ids_le ?_
  rw [t.ids_eq_cons, List.nodup_cons, root]
  exact nodup

/-- Verification accepts a module exactly if its root holds a well-shaped outline with distinct
numbers whose topmost node is a module. -/
theorem verify_eq_ok_iff {m : Module} {descriptors : Descriptor.Table} :
    m.verify descriptors = .ok () ↔ ∃ t, m.Verified descriptors t := by
  constructor
  · exact exists_verified_of_verify
  · intro post
    obtain ⟨t, verified⟩ := post
    exact verified.verify_eq_ok

end StagedCompiler.Module
