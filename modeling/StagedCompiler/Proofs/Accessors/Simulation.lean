import StagedCompiler.Proofs.Accessors.Rewriting
import StagedCompiler.Proofs.Lowering.Sweep

/-!
# The accessor pass follows the rewriting of outlines

The pass goes over pairs of a node and its parent that it lists before it changes anything.  For a
part of the module, `sweep_links` says what the arena has after the pairs of that part: it holds what
becomes of the part in two forms, the one that the parent now refers to and the one that still goes
by the old number, where an accessor call above the part would look for its argument.

New nodes get numbers that no node had, so the two forms of different parts have no number in common
and later steps leave them alone (`Grown`).
-/

namespace StagedCompiler.Accessors

open StagedCompiler.Module StagedCompiler.Lowering

/-! ## Replacing one call -/

/-- The module with a new node in the place of a child of `parent`. -/
def withRead (m : Module) (parent old : NodeId) (read : Node) : Module :=
  (m.push read).update parent fun n => { n with children := replaceFirst old m.size n.children }

section WithRead

variable {m : Module} {parent : NodeId} {n : Node}

theorem size_withRead (m : Module) (parent old : NodeId) (read : Node) :
    (withRead m parent old read).size = m.size + 1 := by
  rw [withRead, (update_editedAt (m.push read) parent _).size]
  exact size_push m read

/-- To put a read in the place of a call changes the parent and adds the read. -/
theorem withRead_grown (m : Module) (parent old : NodeId) (read : Node) :
    Grown [parent] m (withRead m parent old read) := by
  refine ⟨rfl, by rw [size_withRead]; exact Nat.le_succ _, fun i bound outside => ?_⟩
  rw [withRead, get?_update, if_neg fun same => outside (List.mem_singleton.mpr same), get?_push,
    if_neg (Nat.ne_of_lt bound)]

theorem withRead_parent (here : m.get? parent = some n) (old : NodeId) (read : Node) :
    (withRead m parent old read).get? parent =
      some { n with children := replaceFirst old m.size n.children } := by
  have bound : parent < m.size := (Array.getElem?_eq_some_iff.mp here).1
  rw [withRead, get?_update, if_pos rfl, get?_push, if_neg (Nat.ne_of_lt bound), here]
  rfl

theorem withRead_read (here : m.get? parent = some n) (old : NodeId) (read : Node) :
    (withRead m parent old read).get? m.size = some read := by
  have bound : parent < m.size := (Array.getElem?_eq_some_iff.mp here).1
  rw [withRead, get?_update, if_neg (Nat.ne_of_gt bound), get?_push, if_pos rfl]

end WithRead

section Step

variable {descriptors : Descriptor.Table} {m : Module} {t : Numbered} {parent : NodeId}

/-- A node that is no call of an accessor is left alone. -/
theorem lowerCall_of_stays (held : Holds m t) (stays : reads? descriptors t.outline = none) :
    lowerCall descriptors m (t.id, some parent) = .ok m := by
  rw [← subject?_top] at stays
  rw [lowerCall, held.node_id]
  simp only [bind, Except.bind, stays]
  rfl

/-- A call of an accessor is replaced, below its parent, by a read at the end of the arena. -/
theorem lowerCall_of_reads {n : Node} {field : DescriptorId} (held : Holds m t)
    (reads : reads? descriptors t.outline = some field) (here : m.get? parent = some n) :
    lowerCall descriptors m (t.id, some parent) =
      .ok (withRead m parent t.id { t.top with kind := .fieldGet, descriptor := some field }) := by
  have bound : parent < m.size := (Array.getElem?_eq_some_iff.mp here).1
  have there : ∀ read, (m.push read).node parent = .ok n := by
    intro read
    rw [Module.node, get?_push, if_neg (Nat.ne_of_lt bound), here]
  rw [← subject?_top] at reads
  rw [lowerCall, held.node_id]
  simp only [bind, Except.bind, reads, replaceChild, there]
  rfl

end Step

/-! ## Replacing children one after another -/

theorem replaceFirst_self (i : NodeId) (is : List NodeId) : replaceFirst i i is = is := by
  induction is with
  | nil => rfl
  | cons j rest ih =>
      rw [replaceFirst, ih]
      split
      · rename_i same
        rw [same]
      · rfl

/-- The child that is replaced is the first one of that number. -/
theorem replaceFirst_append {old new : NodeId} {front : List NodeId} (absent : old ∉ front)
    (rest : List NodeId) :
    replaceFirst old new (front ++ old :: rest) = front ++ new :: rest := by
  induction front with
  | nil => rw [List.nil_append, replaceFirst, if_pos rfl, List.nil_append]
  | cons i front ih =>
      rw [List.mem_cons, not_or] at absent
      rw [List.cons_append, replaceFirst, if_neg (Ne.symm absent.1), ih absent.2, List.cons_append]

/-- All numbers of trees that are held are in the arena. -/
theorem lt_size_of_held {m : Module} {ts : List Numbered} (held : ∀ t ∈ ts, Holds m t) :
    ∀ i ∈ ts.flatMap Numbered.ids, i < m.size := by
  intro i member
  obtain ⟨t, among, inside⟩ := List.mem_flatMap.mp member
  exact (held t among).lt_size inside

/-- The arena `m'`, grown from `m`, holds what becomes of some outlines, under their old numbers and
new ones. -/
structure Made (descriptors : Descriptor.Table) (sheltered : Bool) (ts : List Numbered)
    (m m' : Module) (ss : List Numbered) : Prop where
  held : ∀ s ∈ ss, Holds m' s
  outlines : ss.map Numbered.outline =
    ts.map fun t => rewritten descriptors sheltered t.outline
  numbers : ∀ i ∈ ss.flatMap Numbered.ids,
    i ∈ ts.flatMap Numbered.ids ∨ m.size ≤ i ∧ i < m'.size
  nodup : (ss.flatMap Numbered.ids).Nodup

namespace Made

variable {descriptors : Descriptor.Table} {sheltered : Bool} {t s : Numbered}
  {ts ss : List Numbered} {m m₁ m' : Module} {parent : NodeId}

theorem nil (m : Module) : Made descriptors sheltered [] m m [] :=
  ⟨by simp, rfl, by simp, List.nodup_nil⟩

/-- The numbers of what is made of one part are its own or new ones. -/
theorem numbers_single (made : Made descriptors sheltered [t] m m' [s]) :
    ∀ i ∈ s.ids, i ∈ t.ids ∨ m.size ≤ i ∧ i < m'.size := by
  intro i member
  have numbers := made.numbers i
  rw [List.flatMap_singleton, List.flatMap_singleton] at numbers
  exact numbers member

/-- What is made of one part has no number of other parts. -/
theorem apart (made : Made descriptors sheltered [t] m m' [s]) {others : List NodeId}
    (disjoint : ∀ i ∈ t.ids, i ∉ others) (below : ∀ i ∈ others, i < m.size) :
    ∀ i ∈ s.ids, i ∉ others := by
  intro i member inside
  rcases made.numbers_single i member with old | new
  · exact disjoint i old inside
  · exact Nat.not_le_of_lt (below i inside) new.1

/-- What is made of a part stays when further parts are worked on. -/
theorem cons (first : Made descriptors sheltered [t] m m₁ [s])
    (rest : Made descriptors sheltered ts m₁ m' ss)
    (grown₁ : Grown (parent :: t.ids) m m₁)
    (grown : Grown (parent :: ts.flatMap Numbered.ids) m₁ m')
    (held : ∀ u ∈ t :: ts, Holds m u) (nodup : ((t :: ts).flatMap Numbered.ids).Nodup)
    (fresh : parent ∉ (t :: ts).flatMap Numbered.ids) (bound : parent < m.size) :
    Made descriptors sheltered (t :: ts) m m' (s :: ss) := by
  have below : ∀ i ∈ (t :: ts).flatMap Numbered.ids, i < m.size := lt_size_of_held held
  rw [List.flatMap_cons] at fresh below nodup
  obtain ⟨_, _, disjoint⟩ := List.nodup_append.mp nodup
  rw [List.mem_append, not_or] at fresh
  have apart : ∀ i ∈ s.ids, i ∉ parent :: ts.flatMap Numbered.ids := by
    refine first.apart ?_ ?_
    · intro i mine inside
      rcases List.mem_cons.mp inside with rfl | later
      · exact fresh.1 mine
      · exact disjoint i mine i later rfl
    · rw [List.forall_mem_cons]
      exact ⟨bound, fun i later => below i (List.mem_append_right _ later)⟩
  refine ⟨?_, ?_, ?_, ?_⟩
  · rw [List.forall_mem_cons]
    exact ⟨grown.holds (first.held s List.mem_cons_self) apart, rest.held⟩
  · have head := first.outlines
    rw [List.map_singleton, List.map_singleton] at head
    rw [List.map_cons, List.map_cons, rest.outlines, List.cons.inj head |>.1]
  · intro i member
    rw [List.flatMap_cons, List.mem_append] at member ⊢
    rcases member with early | later
    · rcases first.numbers_single i early with old | new
      · exact Or.inl (Or.inl old)
      · exact Or.inr ⟨new.1, Nat.lt_of_lt_of_le new.2 grown.size⟩
    · rcases rest.numbers i later with old | new
      · exact Or.inl (Or.inr old)
      · exact Or.inr ⟨Nat.le_trans grown₁.size new.1, new.2⟩
  · rw [List.flatMap_cons, List.nodup_append]
    refine ⟨?_, rest.nodup, ?_⟩
    · have single := first.nodup
      rw [List.flatMap_singleton] at single
      exact single
    · intro i early j later same
      subst same
      -- what is made of the others is theirs or newer than all that is made of the first part
      rcases rest.numbers i later with old | new
      · exact apart i early (List.mem_cons_of_mem _ old)
      · have older : i < m₁.size := (first.held s List.mem_cons_self).lt_size early
        exact Nat.not_le_of_lt older new.1

/-- A node over what has been made of the children. -/
theorem wrap {below : Bool} {i r : NodeId} {k k' : Module.Kind} {d d' : Option DescriptorId} {ty : Ty}
    {cs : List Numbered} (made : Made descriptors below cs m₁ m' ss)
    (top : m'.get? r = some ⟨k', ss.map Numbered.id, d', ty⟩)
    (rule : rewritten descriptors sheltered (Numbered.node i k d ty cs).outline =
      .node k' d' ty ((cs.map Numbered.outline).map (rewritten descriptors below)))
    (size : m.size ≤ m₁.size) (number : r = i ∨ m.size ≤ r ∧ r < m'.size)
    (fresh : r ∉ ss.flatMap Numbered.ids) :
    Made descriptors sheltered [.node i k d ty cs] m m' [.node r k' d' ty ss] := by
  refine ⟨?_, ?_, ?_, ?_⟩
  · intro s member
    obtain rfl := List.mem_singleton.mp member
    exact .node top made.held
  · rw [List.map_singleton, List.map_singleton, rule, Numbered.outline_node, made.outlines,
      List.map_map]
    rfl
  · intro j member
    rw [List.flatMap_singleton, Numbered.ids_node, List.mem_cons] at member ⊢
    rcases member with rfl | inside
    · exact number.imp_left Or.inl
    · rcases made.numbers j inside with old | new
      · exact Or.inl (Or.inr old)
      · exact Or.inr ⟨Nat.le_trans size new.1, new.2⟩
  · rw [List.flatMap_singleton, Numbered.ids_node, List.nodup_cons]
    exact ⟨fresh, made.nodup⟩

/-- A number that existed and is not part of some outlines is not part of what becomes of them. -/
theorem not_mem {i : NodeId} (made : Made descriptors sheltered ts m m' ss) (bound : i < m.size)
    (outside : i ∉ ts.flatMap Numbered.ids) : i ∉ ss.flatMap Numbered.ids := by
  intro member
  rcases made.numbers i member with old | new
  · exact outside old
  · exact Nat.not_le_of_lt bound new.1

end Made

/-! ## Sweeping over a part -/

/-- What the pass leaves behind after the pairs of a part `t` below a parent that was `n`: what becomes
of the part is now the child of the parent in its place, and the sheltered form has its number. -/
structure Outcome (descriptors : Descriptor.Table) (t : Numbered) (parent : NodeId) (n : Node)
    (m m' : Module) (new old : Numbered) : Prop where
  grown : Grown (parent :: t.ids) m m'
  parent : m'.get? parent = some { n with children := replaceFirst t.id new.id n.children }
  made : Made descriptors false [t] m m' [new]
  kept : Made descriptors true [t] m m' [old]
  id : old.id = t.id

/-- The pairs of a part are swept over with an outcome. -/
def Sweeps (descriptors : Descriptor.Table) (t : Numbered) : Prop :=
  ∀ {m : Module} {parent : NodeId} {n : Node}, Holds m t → t.ids.Nodup → parent ∉ t.ids →
    m.get? parent = some n → ∃ m' new old,
      sweep (lowerCall descriptors) (t.links (some parent)) m = { module := m' } ∧
        Outcome descriptors t parent n m m' new old

variable {descriptors : Descriptor.Table}

/-- While one part is worked on the others stay as they are. -/
theorem Outcome.held {t new old : Numbered} {ts : List Numbered} {parent : NodeId} {n : Node}
    {m m' : Module} (outcome : Outcome descriptors t parent n m m' new old)
    (held : ∀ u ∈ ts, Holds m u) (outside : parent ∉ ts.flatMap Numbered.ids)
    (disjoint : ∀ i ∈ t.ids, i ∉ ts.flatMap Numbered.ids) : ∀ u ∈ ts, Holds m' u := by
  intro u member
  refine outcome.grown.holds (held u member) fun i inside => ?_
  have among : i ∈ ts.flatMap Numbered.ids := List.mem_flatMap.mpr ⟨u, member, inside⟩
  rw [List.mem_cons, not_or]
  exact ⟨fun same => outside (same ▸ among), fun shared => disjoint i shared among⟩

/-- The children of one parent are swept over from left to right; `front` are those that have been
replaced already. -/
theorem sweep_children {cs : List Numbered} (each : ∀ c ∈ cs, Sweeps descriptors c) {m : Module}
    {parent : NodeId} {n : Node} (held : ∀ c ∈ cs, Holds m c)
    (nodup : (cs.flatMap Numbered.ids).Nodup) (fresh : parent ∉ cs.flatMap Numbered.ids)
    (here : m.get? parent = some n) (front : List NodeId)
    (children : n.children = front ++ cs.map Numbered.id)
    (apart : ∀ i ∈ front, i ∉ cs.flatMap Numbered.ids) :
    ∃ m' news olds,
      sweep (lowerCall descriptors) (cs.flatMap (Numbered.links (some parent))) m =
        { module := m' } ∧
      Grown (parent :: cs.flatMap Numbered.ids) m m' ∧
      m'.get? parent = some { n with children := front ++ news.map Numbered.id } ∧
      Made descriptors false cs m m' news ∧ Made descriptors true cs m m' olds ∧
      olds.map Numbered.id = cs.map Numbered.id := by
  induction cs generalizing m n front with
  | nil =>
      refine ⟨m, [], [], rfl, .refl _ m, ?_, .nil m, .nil m, rfl⟩
      rw [List.map_nil, ← List.map_nil (f := Numbered.id), ← children, here]
  | cons c rest ih =>
      have bound : parent < m.size := (Array.getElem?_eq_some_iff.mp here).1
      rw [List.forall_mem_cons] at each
      obtain ⟨first, others⟩ := List.forall_mem_cons.mp held
      have parts := nodup
      have outside := fresh
      rw [List.flatMap_cons] at parts outside apart
      rw [List.mem_append, not_or] at outside
      obtain ⟨mine, theirs, differ⟩ := List.nodup_append.mp parts
      have disjoint : ∀ i ∈ c.ids, i ∉ rest.flatMap Numbered.ids := fun i one two =>
        differ i one i two rfl
      -- one step for the first child, in the form that the hypothesis takes over from there
      obtain ⟨m₁, new, old, swept₁, outcome⟩ := each.1 first mine outside.1 here
      have replaced : replaceFirst c.id new.id n.children =
          (front ++ [new.id]) ++ rest.map Numbered.id := by
        have absent : c.id ∉ front := fun member =>
          apart _ member (List.mem_append_left _ c.id_mem_ids)
        rw [children, List.map_cons, replaceFirst_append absent, List.append_assoc,
          List.singleton_append]
      have apart' : ∀ i ∈ front ++ [new.id], i ∉ rest.flatMap Numbered.ids := by
        rw [List.forall_mem_append, List.forall_mem_singleton]
        refine ⟨fun i early inside => apart i early (List.mem_append_right _ inside), ?_⟩
        exact outcome.made.apart disjoint (lt_size_of_held others) _ new.id_mem_ids
      obtain ⟨m', news, olds, swept, grown, parent', made, kept, ids⟩ :=
        ih each.2 (outcome.held others outside.2 disjoint) theirs outside.2 outcome.parent _ replaced
          apart'
      refine ⟨m', new :: news, old :: olds, ?_, ?_, ?_, ?_, ?_, ?_⟩
      · rw [List.flatMap_cons, sweep_append swept₁, swept]
      · refine (outcome.grown.mono ?_).trans (grown.mono ?_)
        · exact List.cons_subset_cons _ (List.flatMap_cons ▸ List.subset_append_left _ _)
        · exact List.cons_subset_cons _ (List.flatMap_cons ▸ List.subset_append_right _ _)
      · rw [parent', List.map_cons, List.append_assoc, List.singleton_append]
      · exact outcome.made.cons made outcome.grown grown held nodup fresh bound
      · exact outcome.kept.cons kept outcome.grown grown held nodup fresh bound
      · rw [List.map_cons, List.map_cons, outcome.id, ids]

section Node

variable {i parent : NodeId} {k : Module.Kind} {d : Option DescriptorId} {ty : Ty}
  {cs : List Numbered} {m : Module} {n : Node} (each : ∀ c ∈ cs, Sweeps descriptors c)
  (held : Holds m (.node i k d ty cs)) (nodup : (Numbered.node i k d ty cs).ids.Nodup)
  (fresh : parent ∉ (Numbered.node i k d ty cs).ids) (here : m.get? parent = some n)
include each held nodup fresh here

/-- A node that calls no accessor keeps its number, over what becomes of its children. -/
theorem sweep_node_of_stays
    (stays : reads? descriptors (Numbered.node i k d ty cs).outline = none) :
    ∃ m' new old, sweep (lowerCall descriptors) ((Numbered.node i k d ty cs).links (some parent)) m =
      { module := m' } ∧ Outcome descriptors (.node i k d ty cs) parent n m m' new old := by
  rw [Numbered.ids_node, List.nodup_cons] at nodup
  rw [Numbered.ids_node] at fresh
  have top : m.get? i = some ⟨k, cs.map Numbered.id, d, ty⟩ := held.get?_id
  have bound : i < m.size := held.lt_size (Numbered.id_mem_ids _)
  obtain ⟨m', news, olds, swept, grown, top', made, _, _⟩ :=
    sweep_children each (fun c member => held.child member) nodup.2 nodup.1 top [] rfl (by simp)
  have both : ∀ b, Made descriptors b [.node i k d ty cs] m m' [.node i k d ty news] := by
    intro b
    refine made.wrap top' ?_ (Nat.le_refl _) (Or.inl rfl) (made.not_mem bound nodup.1)
    rw [Numbered.outline_node] at stays ⊢
    exact rewritten_of_stays (Or.inr stays)
  refine ⟨m', .node i k d ty news, .node i k d ty news, ?_, ?_, ?_, both false, both true, rfl⟩
  · have step : lowerCall descriptors m (i, some parent) = .ok m := lowerCall_of_stays held stays
    rw [Numbered.links_node, ← List.singleton_append, sweep_append (sweep_singleton step), swept]
  · rw [Numbered.ids_node]
    exact grown.mono (List.subset_cons_self _ _)
  · rw [Numbered.id_node, Numbered.id_node, replaceFirst_self]
    exact grown.get?_eq here fresh

/-- A node that calls an accessor is replaced by a field read over the sheltered form of its
argument; the old node stays behind, over the other form. -/
theorem sweep_node_of_reads {field : DescriptorId}
    (reads : reads? descriptors (Numbered.node i k d ty cs).outline = some field) :
    ∃ m' new old, sweep (lowerCall descriptors) ((Numbered.node i k d ty cs).links (some parent)) m =
      { module := m' } ∧ Outcome descriptors (.node i k d ty cs) parent n m m' new old := by
  rw [Numbered.ids_node, List.nodup_cons] at nodup
  rw [Numbered.ids_node] at fresh
  obtain ⟨other, outside⟩ := not_or.mp (List.mem_cons.not.mp fresh)
  have bound : i < m.size := held.lt_size (Numbered.id_mem_ids _)
  -- the step that puts the field read behind all other nodes
  have step := lowerCall_of_reads held reads here
  rw [Numbered.top_node, Numbered.id_node] at step
  have grown₁ := withRead_grown m parent i ⟨.fieldGet, cs.map Numbered.id, some field, ty⟩
  have read₁ := withRead_read here i ⟨.fieldGet, cs.map Numbered.id, some field, ty⟩
  have parent₁ := withRead_parent here i ⟨.fieldGet, cs.map Numbered.id, some field, ty⟩
  have size₁ := size_withRead m parent i ⟨.fieldGet, cs.map Numbered.id, some field, ty⟩
  generalize withRead m parent i ⟨.fieldGet, cs.map Numbered.id, some field, ty⟩ = m₁ at *
  have increased : m.size < m₁.size := size₁ ▸ Nat.lt_succ_self _
  have top₁ : m₁.get? i = some ⟨k, cs.map Numbered.id, d, ty⟩ :=
    grown₁.get?_eq held.get?_id fun same => other (List.mem_singleton.mp same).symm
  have below₁ : ∀ c ∈ cs, Holds m₁ c := by
    intro c member
    refine grown₁.holds (held.child member) fun j inside same => outside ?_
    rw [← List.mem_singleton.mp same]
    exact List.mem_flatMap.mpr ⟨c, member, inside⟩
  -- the steps below the old node
  obtain ⟨m', news, olds, swept, grown, top', made, kept, ids⟩ :=
    sweep_children each below₁ nodup.2 nodup.1 top₁ [] rfl (by simp)
  have new : m.size ∉ cs.flatMap Numbered.ids := fun member =>
    Nat.lt_irrefl _ (lt_size_of_held (fun c among => held.child among) _ member)
  have read' : m'.get? m.size = some ⟨.fieldGet, olds.map Numbered.id, some field, ty⟩ := by
    rw [ids]
    refine grown.get?_eq read₁ (List.mem_cons.not.mpr (not_or.mpr ⟨?_, new⟩))
    exact Nat.ne_of_gt bound
  refine ⟨m', .node m.size .fieldGet (some field) ty olds, .node i k d ty news, ?_, ?_, ?_, ?_, ?_,
    rfl⟩
  · rw [Numbered.links_node, ← List.singleton_append, sweep_append (sweep_singleton step), swept]
  · rw [Numbered.ids_node]
    refine (grown₁.mono ?_).trans (grown.mono (List.subset_cons_self _ _))
    exact List.cons_subset_cons _ (List.nil_subset _)
  · exact grown.get?_eq parent₁ fresh
  · refine kept.wrap read' ?_ (Nat.le_of_lt increased)
      (Or.inr ⟨Nat.le_refl _, Nat.lt_of_lt_of_le increased grown.size⟩)
      (kept.not_mem increased new)
    rw [Numbered.outline_node] at reads ⊢
    exact rewritten_of_reads reads
  · refine made.wrap top' ?_ (Nat.le_of_lt increased) (Or.inl rfl)
      (made.not_mem (Nat.lt_trans bound increased) nodup.1)
    rw [Numbered.outline_node]
    exact rewritten_of_stays (Or.inl rfl)

end Node

/-- Every part is swept over with an outcome. -/
theorem sweep_links (t : Numbered) : Sweeps descriptors t := by
  induction t with
  | node i k d ty cs ih =>
      intro m parent n held nodup fresh here
      cases reads : reads? descriptors (Numbered.node i k d ty cs).outline with
      | none => exact sweep_node_of_stays ih held nodup fresh here reads
      | some field => exact sweep_node_of_reads ih held nodup fresh here reads

end StagedCompiler.Accessors
