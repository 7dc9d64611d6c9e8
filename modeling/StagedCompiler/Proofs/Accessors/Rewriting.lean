import StagedCompiler.Catalog.Accessors
import StagedCompiler.Proofs.Module.Shape

/-!
# What the accessor pass makes of an outline

The pass looks at every node of the module as it was when the pass began.  A call of an accessor is
replaced by a new field read that takes over the argument, and if the argument is such a call too its
replacement goes to the old call, which nothing reaches any more.  So an argument of an accessor is
sheltered: `rewritten` says what becomes of an outline, sheltered or not.

* What becomes of an outline has no accessor call as the argument of another one
  (`flat_rewritten`).
* It has no accessor call at all exactly if the outline had none as the argument of another one
  (`lowered_rewritten_iff`).
-/

namespace StagedCompiler.Accessors

open StagedCompiler.Module
open Outline (Everywhere everywhere_node_iff DescriptorFits ChildrenFit WellShaped)

/-- The field that a node reads if it calls an accessor with one argument. -/
def subjectOf? (descriptors : Descriptor.Table) (kind : Module.Kind)
    (descriptor : Option DescriptorId) (arguments : Nat) : Option DescriptorId :=
  subject? descriptors ⟨kind, List.replicate arguments 0, descriptor, .unit⟩

/-- What an accessor reads is settled by a node's kind and descriptor and by how many children it has.
-/
theorem subject?_eq (descriptors : Descriptor.Table) (n : Module.Node) :
    subject? descriptors n = subjectOf? descriptors n.kind n.descriptor n.children.length := by
  rcases n with ⟨kind, children, descriptor, ty⟩
  rw [subjectOf?, subject?, subject?]
  match children with
  | [] => cases kind <;> rfl
  | [c] => cases kind <;> cases descriptor.bind descriptors.get? <;> rfl
  | c :: c' :: rest => cases kind <;> rfl

/-- The field that the topmost node of an outline reads if it calls an accessor. -/
def reads? (descriptors : Descriptor.Table) : Outline → Option DescriptorId
  | .node kind descriptor _ children => subjectOf? descriptors kind descriptor children.length

theorem subject?_top (descriptors : Descriptor.Table) (t : Numbered) :
    subject? descriptors t.top = reads? descriptors t.outline := by
  rcases t with ⟨i, k, d, ty, cs⟩
  rw [subject?_eq, Numbered.outline_node, reads?, Numbered.top_node, List.length_map,
    List.length_map]

/-- Only calls with one argument call accessors, and the table knows why. -/
theorem subjectOf?_eq_some {descriptors : Descriptor.Table} {k : Module.Kind}
    {d : Option DescriptorId} {n : Nat} {field : DescriptorId}
    (reads : subjectOf? descriptors k d n = some field) :
    k = .call ∧ n = 1 ∧ ∃ i entry, d = some i ∧ descriptors.get? i = some entry ∧
      entry.origin = .synthetic extensionId (some field) := by
  unfold subjectOf? subject? at reads
  split at reads
  · rename_i c entry kind children found
    have single : n = 1 := by
      have length := congrArg List.length children
      simpa using length
    obtain ⟨i, rfl, known⟩ := Option.bind_eq_some_iff.mp found
    split at reads
    · rename_i extension subject origin
      split at reads
      · rename_i same
        cases reads
        exact ⟨kind, single, i, entry, rfl, known, by rw [origin, same]⟩
      · cases reads
    · cases reads
  · cases reads

mutual

/-- What the pass makes of an outline; it leaves the topmost node alone if that is sheltered, that is,
if it is the argument of an accessor. -/
def rewritten (descriptors : Descriptor.Table) (sheltered : Bool) : Outline → Outline
  | .node kind descriptor ty children =>
    match if sheltered then none else reads? descriptors (.node kind descriptor ty children) with
    | some field => .node .fieldGet (some field) ty (rewrittenAll descriptors true children)
    | none => .node kind descriptor ty (rewrittenAll descriptors false children)

/-- What the pass makes of outlines. -/
def rewrittenAll (descriptors : Descriptor.Table) (sheltered : Bool) :
    List Outline → List Outline
  | [] => []
  | o :: rest => rewritten descriptors sheltered o :: rewrittenAll descriptors sheltered rest

end

section Equations

variable {descriptors : Descriptor.Table} {k : Module.Kind} {d : Option DescriptorId} {ty : Ty}
  {cs : List Outline} {sheltered : Bool}

theorem rewrittenAll_eq_map (os : List Outline) :
    rewrittenAll descriptors sheltered os = os.map (rewritten descriptors sheltered) := by
  induction os with
  | nil => rfl
  | cons o rest ih => rw [rewrittenAll, ih, List.map_cons]

/-- A call of an accessor becomes a read of its field, and its argument stays a call if it is one. -/
theorem rewritten_of_reads {field : DescriptorId}
    (reads : reads? descriptors (.node k d ty cs) = some field) :
    rewritten descriptors false (.node k d ty cs) =
      .node .fieldGet (some field) ty (cs.map (rewritten descriptors true)) := by
  rw [rewritten, ← rewrittenAll_eq_map]
  simp only [Bool.false_eq_true, if_false, reads]

/-- Everything else stays, and so does a call of an accessor right below another one. -/
theorem rewritten_of_stays
    (stays : sheltered = true ∨ reads? descriptors (.node k d ty cs) = none) :
    rewritten descriptors sheltered (.node k d ty cs) =
      .node k d ty (cs.map (rewritten descriptors false)) := by
  rw [rewritten, ← rewrittenAll_eq_map]
  rcases stays with rfl | stays
  · simp only [if_true]
  · simp only [stays, ite_self]

end Equations

/-- A node stays as it is, or it is not sheltered and calls an accessor. -/
theorem stays_or_reads (descriptors : Descriptor.Table) (sheltered : Bool) (o : Outline) :
    (sheltered = true ∨ reads? descriptors o = none) ∨
      sheltered = false ∧ ∃ field, reads? descriptors o = some field := by
  cases sheltered with
  | true => exact Or.inl (Or.inl rfl)
  | false =>
      cases reads : reads? descriptors o with
      | none => exact Or.inl (Or.inr rfl)
      | some field => exact Or.inr ⟨rfl, field, rfl⟩

/-! ## Accessor calls that are left -/

/-- Nothing in an outline calls an accessor. -/
def Lowered (descriptors : Descriptor.Table) (o : Outline) : Prop :=
  o.Everywhere fun o => reads? descriptors o = none

/-- No argument of an accessor calls an accessor. -/
def Flat (descriptors : Descriptor.Table) (o : Outline) : Prop :=
  o.Everywhere fun o => (reads? descriptors o).isSome = true →
    ∀ c ∈ o.children, reads? descriptors c = none

section Left

variable {descriptors : Descriptor.Table} {k : Module.Kind} {d : Option DescriptorId} {ty : Ty}
  {cs : List Outline}

theorem lowered_node_iff : Lowered descriptors (.node k d ty cs) ↔
    reads? descriptors (.node k d ty cs) = none ∧ ∀ c ∈ cs, Lowered descriptors c :=
  everywhere_node_iff

theorem flat_node_iff : Flat descriptors (.node k d ty cs) ↔
    ((reads? descriptors (.node k d ty cs)).isSome = true → ∀ c ∈ cs, reads? descriptors c = none) ∧
      ∀ c ∈ cs, Flat descriptors c :=
  everywhere_node_iff

end Left

variable {descriptors : Descriptor.Table}

theorem reads?_fieldGet (d : Option DescriptorId) (ty : Ty) (cs : List Outline) :
    reads? descriptors (.node .fieldGet d ty cs) = none := rfl

theorem reads?_map (k : Module.Kind) (d : Option DescriptorId) (ty : Ty) (cs : List Outline)
    (f : Outline → Outline) :
    reads? descriptors (.node k d ty (cs.map f)) = reads? descriptors (.node k d ty cs) := by
  rw [reads?, reads?, List.length_map]

/-- What is not sheltered does not call an accessor any more. -/
theorem reads?_rewritten (o : Outline) (sheltered : Bool) :
    reads? descriptors (rewritten descriptors sheltered o) =
      if sheltered then reads? descriptors o else none := by
  rcases o with ⟨k, d, ty, cs⟩
  cases sheltered with
  | true => rw [rewritten_of_stays (Or.inl rfl), reads?_map, if_pos rfl]
  | false =>
      cases reads : reads? descriptors (.node k d ty cs) with
      | some field => rw [rewritten_of_reads reads, reads?_fieldGet]; rfl
      | none => rw [rewritten_of_stays (Or.inr reads), reads?_map, reads]; rfl

/-- The pass leaves no accessor call as the argument of another one. -/
theorem flat_rewritten (o : Outline) (sheltered : Bool) :
    Flat descriptors (rewritten descriptors sheltered o) := by
  induction o generalizing sheltered with
  | node k d ty cs ih =>
      rcases stays_or_reads descriptors sheltered (.node k d ty cs) with stays | ⟨rfl, field, reads⟩
      · rw [rewritten_of_stays stays]
        refine flat_node_iff.mpr ⟨fun _ => ?_, ?_⟩
        · rw [List.forall_mem_map]
          exact fun c _ => reads?_rewritten c false
        · rw [List.forall_mem_map]
          exact fun c member => ih c member false
      · rw [rewritten_of_reads reads]
        refine flat_node_iff.mpr ⟨fun reads => (by cases reads), ?_⟩
        rw [List.forall_mem_map]
        exact fun c member => ih c member true

/-- The pass leaves no accessor call exactly if none was the argument of another one. -/
theorem lowered_rewritten_iff (o : Outline) (sheltered : Bool) :
    Lowered descriptors (rewritten descriptors sheltered o) ↔
      Flat descriptors o ∧ (sheltered = true → reads? descriptors o = none) := by
  induction o generalizing sheltered with
  | node k d ty cs ih =>
      rw [flat_node_iff]
      rcases stays_or_reads descriptors sheltered (.node k d ty cs) with stays | ⟨rfl, field, reads⟩
      · have each : (∀ c ∈ cs, Lowered descriptors (rewritten descriptors false c)) ↔
            ∀ c ∈ cs, Flat descriptors c :=
          forall₂_congr fun c member => by simpa using ih c member false
        rw [rewritten_of_stays stays, lowered_node_iff, reads?_map, List.forall_mem_map, each]
        constructor
        · intro given
          rcases given with ⟨none, flat⟩
          exact ⟨⟨fun some => (by rw [none] at some; cases some), flat⟩, fun _ => none⟩
        · intro given
          rcases given with ⟨⟨_, flat⟩, none⟩
          exact ⟨stays.elim none id, flat⟩
      · have each : (∀ c ∈ cs, Lowered descriptors (rewritten descriptors true c)) ↔
            ∀ c ∈ cs, Flat descriptors c ∧ reads? descriptors c = none :=
          forall₂_congr fun c member => by simpa using ih c member true
        rw [rewritten_of_reads reads, lowered_node_iff, List.forall_mem_map, reads, each]
        constructor
        · intro given
          rcases given with ⟨_, both⟩
          exact ⟨⟨fun _ c member => (both c member).2, fun c member => (both c member).1⟩,
            fun sheltered => (by cases sheltered)⟩
        · intro given
          rcases given with ⟨⟨none, flat⟩, _⟩
          exact ⟨rfl, fun c member => ⟨flat c member, none rfl c member⟩⟩

/-! ## Shape -/

/-- The table has the fields that its accessors read. -/
def SubjectsKnown (descriptors : Descriptor.Table) : Prop :=
  ∀ i entry field, descriptors.get? i = some entry →
    entry.origin = .synthetic extensionId (some field) → descriptors.contains field = true

/-- A rewritten node stands where the node stood. -/
theorem kind_rewritten (o : Outline) (sheltered : Bool) :
    Module.Kind.StandsFor o.kind (rewritten descriptors sheltered o).kind := by
  rcases o with ⟨k, d, ty, cs⟩
  rcases stays_or_reads descriptors sheltered (.node k d ty cs) with stays | ⟨rfl, field, reads⟩
  · rw [rewritten_of_stays stays]
    exact .refl k
  · rw [rewritten_of_reads reads]
    obtain ⟨rfl, _⟩ := subjectOf?_eq_some reads
    exact Or.inr ⟨rfl, rfl⟩

/-- What is well shaped stays so, by recursion on it. -/
theorem wellShaped_rewritten (known : SubjectsKnown descriptors) {o : Outline}
    (shaped : o.WellShaped descriptors) (sheltered : Bool) :
    (rewritten descriptors sheltered o).WellShaped descriptors := by
  induction o generalizing sheltered with
  | node k d ty cs ih =>
      cases shaped with
      | node described fits below =>
          have kinds : ∀ b, List.Forall₂ Module.Kind.StandsFor (cs.map Outline.kind)
              ((cs.map (rewritten descriptors b)).map Outline.kind) := by
            intro b
            rw [List.map_map, List.forall₂_map_left_iff, List.forall₂_map_right_iff,
              List.forall₂_same]
            exact fun c _ => kind_rewritten c b
          have parts : ∀ b, ∀ c ∈ cs.map (rewritten descriptors b), c.WellShaped descriptors := by
            intro b
            rw [List.forall_mem_map]
            exact fun c member => ih c member (below c member) b
          rcases stays_or_reads descriptors sheltered (.node k d ty cs) with stays | ⟨rfl, field, reads⟩
          · rw [rewritten_of_stays stays]
            exact .node described (fits.of_standsFor (kinds false)) (parts false)
          · obtain ⟨rfl, single, i, entry, rfl, found, origin⟩ := subjectOf?_eq_some reads
            rw [rewritten_of_reads reads]
            refine .node (fun _ => ⟨field, rfl, known i entry field found origin⟩) ⟨?_, ?_⟩
              (parts true)
            · simpa using single
            · exact fits.of_standsFor (kinds true)

end StagedCompiler.Accessors
