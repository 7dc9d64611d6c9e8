import Mathlib.Data.List.Basic
import Mathlib.Data.List.Nodup
import StagedCompiler.Lowering.Plan

/-!
# Plans as merges

A plan is put together in two rounds.  The first goes over the passes of plugins in registry order and
sorts them by their places; it ends at the first pass that is placed next to a pass that the target does
not have.  The second goes over the host passes and empties the places.  `merged` says in one line what
comes of it.

* `Slots.Hold` is the invariant of the first round: every place has the passes that are meant for it, in
  the order in which they came (`Hold.add`, `Hold.fill`).
* The second round takes out of each side what stands next to one host pass.  The names of the host
  passes are distinct, so the others still find what stands next to them (`merge_eq`).
* Every pass stands in one place of the merge (`merged_cons_perm`), so nothing is lost and nothing comes
  twice (`merged_perm`).
-/

namespace StagedCompiler

namespace Assoc

theorem lookup_put {α : Type} (key other : String) (a : α) (entries : List (String × α)) :
    (put key a entries).lookup other =
      if other = key then some a else entries.lookup other := by
  induction entries with
  | nil =>
      rw [put, List.lookup_cons, List.lookup_nil]
      cases same : other == key with
      | true => rw [if_pos (beq_iff_eq.mp same)]
      | false => rw [if_neg (beq_eq_false_iff_ne.mp same)]
  | cons entry rest ih =>
      rcases entry with ⟨k, b⟩
      rw [put]
      by_cases here : k = key
      · subst here
        rw [if_pos rfl, List.lookup_cons, List.lookup_cons]
        cases same : other == k with
        | true => rw [if_pos (beq_iff_eq.mp same)]
        | false => rw [if_neg (beq_eq_false_iff_ne.mp same)]
      · rw [if_neg here, List.lookup_cons, List.lookup_cons, ih]
        cases same : other == k with
        | true =>
            have apart : other ≠ key := by
              intro eq
              exact here ((beq_iff_eq.mp same).symm.trans eq)
            rw [if_neg apart, if_neg apart]
        | false => rfl

end Assoc

namespace Lowering.Plan

/-! ## The merge -/

/-- What stands in a plan: a pass of the host or a pass of a plugin. -/
inductive Entry : Type where
  | host (pass : Extension.Pass)
  | plugin (p : Placed)

namespace Entry

/-- The step of the plan. -/
def step : Entry → Step
  | .host pass => hostStep pass
  | .plugin p => p.step

/-- The pass of the host, if it is one. -/
def host? : Entry → Option Extension.Pass
  | .host pass => some pass
  | .plugin _ => none

end Entry

/-- The passes of plugins that stand in a place, in registry order. -/
def slot (placed : List Placed) (placement : Placement) : List Placed :=
  placed.filter fun p => p.placement = placement

/-- A host pass with the passes of plugins in front of it and behind it. -/
def around (placed : List Placed) (pass : Extension.Pass) : List Entry :=
  (slot placed (.before pass.name)).map .plugin ++
    .host pass :: (slot placed (.after pass.name)).map .plugin

/-- The passes placed first, the host passes in order with what is placed next to them, and the passes
placed last. -/
def merged (target : Target) (placed : List Placed) : List Entry :=
  (slot placed .first).map .plugin ++
    ((hostPasses target).flatMap (around placed) ++ (slot placed .last).map .plugin)

/-- A pass is placed next to a pass of this name, and the target has no such pass. -/
def Placed.StraysTo (target : Target) (p : Placed) (anchor : String) : Prop :=
  p.placement.anchor? = some anchor ∧ anchor ∉ hostNames target

/-- A pass is placed next to a pass that the target does not have. -/
def Placed.Strays (target : Target) (p : Placed) : Prop := ∃ anchor, p.StraysTo target anchor

theorem hostNames_nodup (target : Target) : (hostNames target).Nodup := by
  cases target <;> decide

theorem slot_cons (p : Placed) (placed : List Placed) (placement : Placement) :
    slot (p :: placed) placement =
      if p.placement = placement then p :: slot placed placement else slot placed placement := by
  simp only [slot, List.filter_cons, decide_eq_true_eq]

theorem slot_concat (p : Placed) (placed : List Placed) (placement : Placement) :
    slot (placed ++ [p]) placement =
      slot placed placement ++ if p.placement = placement then [p] else [] := by
  simp only [slot, List.filter_append, List.filter_cons, List.filter_nil, decide_eq_true_eq]

/-! ## Sides -/

namespace Side

theorem of_join (side : Side) (host other : String) (step : Step) :
    (side.join host step).of other = side.of other ++ if other = host then [step] else [] := by
  unfold join of
  rw [Assoc.lookup_put]
  by_cases same : other = host
  · rw [if_pos same, if_pos same, same]
    rfl
  · rw [if_neg same, if_neg same, List.append_nil]

theorem of_clear_of_ne (side : Side) {host other : String} (apart : other ≠ host) :
    (side.clear host).of other = side.of other := by
  unfold clear of
  apply congrArg fun found => Option.getD found []
  induction side with
  | nil => rfl
  | cons entry rest ih =>
      rcases entry with ⟨k, steps⟩
      by_cases here : k = host
      · have other' : (other == k) = false := by
          rw [here]
          exact beq_eq_false_iff_ne.mpr apart
        rw [List.filter_cons, if_neg (by simpa using here), ih, List.lookup_cons, other']
      · rw [List.filter_cons, if_pos (by simpa using here), List.lookup_cons, List.lookup_cons, ih]

end Side

/-! ## The first round -/

/-- Every place has the passes that are meant for it, in the order in which they came. -/
structure Slots.Hold (slots : Slots) (placed : List Placed) : Prop where
  first : slots.first = (slot placed .first).map (·.step)
  last : slots.last = (slot placed .last).map (·.step)
  before : ∀ host, slots.before.of host = (slot placed (.before host)).map (·.step)
  after : ∀ host, slots.after.of host = (slot placed (.after host)).map (·.step)

namespace Slots

variable {target : Target} {slots : Slots} {placed : List Placed} {p : Placed}

theorem hold_nil : Hold {} [] := ⟨rfl, rfl, fun _ => rfl, fun _ => rfl⟩

/-- A pass that is placed next to a pass that the target does not have is refused. -/
theorem add_of_straysTo {anchor : String} (strays : p.StraysTo target anchor) :
    add target slots p = .error (strayError target p.step anchor) := by
  rcases p with ⟨placement, step⟩
  obtain ⟨named, missing⟩ := strays
  have refused : (hostNames target).contains anchor = false := by simpa using missing
  cases placement with
  | first => cases named
  | last => cases named
  | before name =>
      obtain rfl := Option.some.inj named
      simp only [add, refused, Bool.false_eq_true, if_false]
  | after name =>
      obtain rfl := Option.some.inj named
      simp only [add, refused, Bool.false_eq_true, if_false]

/-- A pass joins the ones that are meant for its place. -/
theorem map_slot_concat_self (placed : List Placed) (place : Placement) (step : Step) :
    (slot (placed ++ [⟨place, step⟩]) place).map (·.step) =
      (slot placed place).map (·.step) ++ [step] := by
  rw [slot_concat, if_pos rfl, List.map_append]
  rfl

/-- The other places have what they had. -/
theorem slot_concat_of_ne (placed : List Placed) {place : Placement} (apart : p.placement ≠ place) :
    slot (placed ++ [p]) place = slot placed place := by
  rw [slot_concat, if_neg apart, List.append_nil]

/-- A side that has the passes placed next to each host pass has them still when one more comes. -/
theorem of_join_slot {side : Side} {next : String → Placement} (distinct : Function.Injective next)
    (holds : ∀ host, side.of host = (slot placed (next host)).map (·.step)) (anchor : String)
    (step : Step) (host : String) :
    (side.join anchor step).of host =
      (slot (placed ++ [⟨next anchor, step⟩]) (next host)).map (·.step) := by
  rw [Side.of_join, holds]
  by_cases same : host = anchor
  · subst same
    rw [if_pos rfl, map_slot_concat_self]
  · rw [if_neg same, List.append_nil, slot_concat_of_ne placed fun is => same (distinct is).symm]

/-- Any other pass joins those that are meant for its place. -/
theorem Hold.add (hold : slots.Hold placed) (anchored : ¬ p.Strays target) :
    ∃ slots', Slots.add target slots p = .ok slots' ∧ slots'.Hold (placed ++ [p]) := by
  rcases p with ⟨placement, step⟩
  have known : ∀ anchor, placement.anchor? = some anchor →
      (hostNames target).contains anchor = true := by
    intro anchor named
    rw [List.contains_iff_mem]
    by_contra missing
    exact anchored ⟨anchor, named, missing⟩
  have others : ∀ place, placement ≠ place →
      slot (placed ++ [⟨placement, step⟩]) place = slot placed place :=
    fun _ apart => slot_concat_of_ne placed apart
  obtain ⟨first, last, before, after⟩ := hold
  cases placement with
  | first =>
      refine ⟨_, rfl, ?_, others .last nofun ▸ last,
        fun host => others (.before host) nofun ▸ before host,
        fun host => others (.after host) nofun ▸ after host⟩
      rw [map_slot_concat_self, ← first]
  | last =>
      refine ⟨_, rfl, others .first nofun ▸ first, ?_,
        fun host => others (.before host) nofun ▸ before host,
        fun host => others (.after host) nofun ▸ after host⟩
      rw [map_slot_concat_self, ← last]
  | before anchor =>
      have added : Slots.add target slots ⟨.before anchor, step⟩ =
          .ok { slots with before := slots.before.join anchor step } := by
        simp only [Slots.add, known anchor rfl, if_true]
      exact ⟨_, added, others .first nofun ▸ first, others .last nofun ▸ last,
        of_join_slot (fun _ _ => Placement.before.inj) before anchor step,
        fun host => others (.after host) nofun ▸ after host⟩
  | after anchor =>
      have added : Slots.add target slots ⟨.after anchor, step⟩ =
          .ok { slots with after := slots.after.join anchor step } := by
        simp only [Slots.add, known anchor rfl, if_true]
      exact ⟨_, added, others .first nofun ▸ first, others .last nofun ▸ last,
        fun host => others (.before host) nofun ▸ before host,
        of_join_slot (fun _ _ => Placement.after.inj) after anchor step⟩

/-- The whole first round, if no pass is refused. -/
theorem Hold.fill (hold : slots.Hold placed) {more : List Placed}
    (anchored : ∀ p ∈ more, ¬ p.Strays target) :
    ∃ slots', more.foldlM (Slots.add target) slots = .ok slots' ∧ slots'.Hold (placed ++ more) := by
  induction more generalizing slots placed with
  | nil =>
      refine ⟨slots, rfl, ?_⟩
      rwa [List.append_nil]
  | cons p rest ih =>
      rw [List.forall_mem_cons] at anchored
      obtain ⟨next, added, hold'⟩ := hold.add anchored.1
      obtain ⟨slots', filled, hold''⟩ := ih hold' anchored.2
      refine ⟨slots', ?_, ?_⟩
      · rw [List.foldlM_cons, added]
        exact filled
      · rwa [List.append_assoc] at hold''

/-- The first round ends at the first pass that is refused. -/
theorem Hold.fill_of_straysTo (hold : slots.Hold placed) {front back : List Placed} {anchor : String}
    (anchored : ∀ q ∈ front, ¬ q.Strays target) (strays : p.StraysTo target anchor) :
    (front ++ p :: back).foldlM (Slots.add target) slots =
      .error (strayError target p.step anchor) := by
  obtain ⟨slots', filled, -⟩ := hold.fill anchored
  rw [List.foldlM_append, filled]
  show (p :: back).foldlM (Slots.add target) slots' = _
  rw [List.foldlM_cons, add_of_straysTo strays]
  rfl

/-! ## The second round -/

/-- The round over the host passes finds, next to those that are still to come, all that is meant to
stand there. -/
theorem merge_eq {hosts : List Extension.Pass} (distinct : (hosts.map (·.name)).Nodup)
    (last : slots.last = (slot placed .last).map (·.step))
    (before : ∀ pass ∈ hosts,
      slots.before.of pass.name = (slot placed (.before pass.name)).map (·.step))
    (after : ∀ pass ∈ hosts,
      slots.after.of pass.name = (slot placed (.after pass.name)).map (·.step)) :
    slots.merge hosts =
      (hosts.flatMap (around placed) ++ (slot placed .last).map Entry.plugin).map Entry.step := by
  have plugins : ∀ some : List Placed,
      (some.map Entry.plugin).map Entry.step = some.map (·.step) := by
    intro some
    rw [List.map_map]
    rfl
  induction hosts generalizing slots with
  | nil => rw [merge, last, List.flatMap_nil, List.nil_append, plugins]
  | cons pass rest ih =>
      rw [List.map_cons, List.nodup_cons] at distinct
      have apart : ∀ host ∈ rest, host.name ≠ pass.name := by
        intro host member same
        exact distinct.1 (same ▸ List.mem_map_of_mem member)
      have before' : ∀ host ∈ rest, (slots.before.clear pass.name).of host.name =
          (slot placed (.before host.name)).map (·.step) := by
        intro host member
        rw [Side.of_clear_of_ne _ (apart host member)]
        exact before host (List.mem_cons_of_mem _ member)
      have after' : ∀ host ∈ rest, (slots.after.clear pass.name).of host.name =
          (slot placed (.after host.name)).map (·.step) := by
        intro host member
        rw [Side.of_clear_of_ne _ (apart host member)]
        exact after host (List.mem_cons_of_mem _ member)
      have more : merge rest { slots with
          before := slots.before.clear pass.name, after := slots.after.clear pass.name } =
          (rest.flatMap (around placed) ++ (slot placed .last).map Entry.plugin).map Entry.step :=
        ih distinct.2 last before' after'
      rw [merge, more, before pass List.mem_cons_self, after pass List.mem_cons_self,
        List.flatMap_cons, around]
      simp only [List.map_append, List.map_cons, plugins, List.append_assoc, List.cons_append]
      rfl

end Slots

/-! ## Plans -/

section Build

variable {target : Target} {registry : Registry}

/-- The plan of a registry whose passes are placed next to host passes only. -/
theorem build_of_anchored (anchored : ∀ p ∈ placedPasses registry, ¬ p.Strays target) :
    build target registry = .ok ⟨target, (merged target (placedPasses registry)).map Entry.step⟩ := by
  obtain ⟨slots, filled, hold⟩ := Slots.hold_nil.fill anchored
  rw [List.nil_append] at hold
  have rest := Slots.merge_eq (hostNames_nodup target) hold.last (fun pass _ => hold.before pass.name)
    fun pass _ => hold.after pass.name
  rw [build, filled, merged, List.map_append, ← rest, List.map_map]
  show Except.ok (Plan.mk target (slots.first ++ _)) = _
  rw [hold.first]
  rfl

/-- The mistake of a registry is that of the first pass that is placed next to none of the host. -/
theorem build_of_straysTo {front back : List Placed} {p : Placed} {anchor : String}
    (split : placedPasses registry = front ++ p :: back) (anchored : ∀ q ∈ front, ¬ q.Strays target)
    (strays : p.StraysTo target anchor) :
    build target registry = .error (Slots.strayError target p.step anchor) := by
  rw [build, split, Slots.hold_nil.fill_of_straysTo anchored strays]
  rfl

/-- No pass strays, or there is a first one that does. -/
theorem anchored_or_strays (target : Target) (placed : List Placed) :
    (∀ p ∈ placed, ¬ p.Strays target) ∨
      ∃ front p back anchor, placed = front ++ p :: back ∧ (∀ q ∈ front, ¬ q.Strays target) ∧
        p.StraysTo target anchor := by
  induction placed with
  | nil => exact Or.inl fun _ member => absurd member List.not_mem_nil
  | cons p rest ih =>
      by_cases strays : p.Strays target
      · obtain ⟨anchor, strays⟩ := strays
        exact Or.inr ⟨[], p, rest, anchor, rfl, fun _ member => absurd member List.not_mem_nil, strays⟩
      · rcases ih with anchored | ⟨front, q, back, anchor, split, anchored, first⟩
        · exact Or.inl (List.forall_mem_cons.mpr ⟨strays, anchored⟩)
        · refine Or.inr ⟨p :: front, q, back, anchor, ?_, ?_, first⟩
          · rw [split, List.cons_append]
          · exact List.forall_mem_cons.mpr ⟨strays, anchored⟩

/-- There is a plan exactly if no pass strays, and it is the merge. -/
theorem build_eq_ok_iff {plan : Plan} : build target registry = .ok plan ↔
    (∀ p ∈ placedPasses registry, ¬ p.Strays target) ∧
      plan = ⟨target, (merged target (placedPasses registry)).map Entry.step⟩ := by
  constructor
  · intro built
    rcases anchored_or_strays target (placedPasses registry) with anchored | found
    · rw [build_of_anchored anchored] at built
      exact ⟨anchored, (Except.ok.inj built).symm⟩
    · obtain ⟨front, p, back, anchor, split, anchored, strays⟩ := found
      rw [build_of_straysTo split anchored strays] at built
      cases built
  · intro given
    obtain ⟨anchored, rfl⟩ := given
    exact build_of_anchored anchored

/-- There is none exactly if a pass strays, and the mistake is that of the first one. -/
theorem build_eq_error_iff {e : ConfigError} : build target registry = .error e ↔
    ∃ front p back anchor, placedPasses registry = front ++ p :: back ∧
      (∀ q ∈ front, ¬ q.Strays target) ∧ p.StraysTo target anchor ∧
      e = .unknownAnchor p.step.id anchor target (hostNames target) := by
  constructor
  · intro failed
    rcases anchored_or_strays target (placedPasses registry) with anchored | found
    · rw [build_of_anchored anchored] at failed
      cases failed
    · obtain ⟨front, p, back, anchor, split, anchored, strays⟩ := found
      rw [build_of_straysTo split anchored strays] at failed
      exact ⟨front, p, back, anchor, split, anchored, strays, (Except.error.inj failed).symm⟩
  · intro found
    obtain ⟨front, p, back, anchor, split, anchored, strays, rfl⟩ := found
    exact build_of_straysTo split anchored strays

end Build

/-! ## Nothing is lost and nothing comes twice -/

section Counting

variable {p : Placed}

/-- A pass that is not placed next to a host pass does not stand around it. -/
theorem around_cons_of_ne {pass : Extension.Pass} (apart : p.placement.anchor? ≠ some pass.name)
    (placed : List Placed) : around (p :: placed) pass = around placed pass := by
  have before : p.placement ≠ .before pass.name := by
    intro same
    rw [same] at apart
    exact apart rfl
  have after : p.placement ≠ .after pass.name := by
    intro same
    rw [same] at apart
    exact apart rfl
  rw [around, around, slot_cons, slot_cons, if_neg before, if_neg after]

/-- A pass that is placed next to a host pass stands around it. -/
theorem around_cons_perm {pass : Extension.Pass} (near : p.placement.anchor? = some pass.name)
    (placed : List Placed) : (around (p :: placed) pass).Perm (.plugin p :: around placed pass) := by
  unfold around
  rw [slot_cons, slot_cons]
  cases place : p.placement with
  | first =>
      rw [place] at near
      cases near
  | last =>
      rw [place] at near
      cases near
  | before name =>
      rw [place] at near
      obtain rfl := Option.some.inj near
      rw [if_pos rfl, if_neg (by simp)]
      exact List.Perm.refl _
  | after name =>
      rw [place] at near
      obtain rfl := Option.some.inj near
      rw [if_neg (by simp), if_pos rfl, List.map_cons]
      apply List.Perm.trans _ List.perm_middle
      apply List.Perm.append_left
      exact List.Perm.swap _ _ _

/-- Among passes with distinct names a pass stands around one. -/
theorem flatMap_around_cons_perm {hosts : List Extension.Pass} {anchor : String}
    (distinct : (hosts.map (·.name)).Nodup) (near : p.placement.anchor? = some anchor)
    (known : anchor ∈ hosts.map (·.name)) (placed : List Placed) :
    (hosts.flatMap (around (p :: placed))).Perm (.plugin p :: hosts.flatMap (around placed)) := by
  obtain ⟨pass, member, rfl⟩ := List.mem_map.mp known
  obtain ⟨front, back, rfl⟩ := List.append_of_mem member
  rw [List.map_append, List.map_cons, List.nodup_middle, List.nodup_cons, ← List.map_append] at distinct
  have others : ∀ host ∈ front ++ back, around (p :: placed) host = around placed host := by
    intro host among
    apply around_cons_of_ne
    rw [near]
    intro same
    exact distinct.1 (Option.some.inj same ▸ List.mem_map_of_mem among)
  have left : front.flatMap (around (p :: placed)) = front.flatMap (around placed) :=
    List.flatMap_congr fun host among => others host (List.mem_append_left _ among)
  have right : back.flatMap (around (p :: placed)) = back.flatMap (around placed) :=
    List.flatMap_congr fun host among => others host (List.mem_append_right _ among)
  rw [List.flatMap_append, List.flatMap_append, List.flatMap_cons, List.flatMap_cons, left, right]
  apply List.Perm.trans _ List.perm_middle
  apply List.Perm.append_left
  exact (around_cons_perm near placed).append_right _

/-- One more pass stands in one place of the merge. -/
theorem merged_cons_perm {target : Target} (anchored : ¬ p.Strays target) (placed : List Placed) :
    (merged target (p :: placed)).Perm (.plugin p :: merged target placed) := by
  cases near : p.placement.anchor? with
  | none =>
      have hosts : (hostPasses target).flatMap (around (p :: placed)) =
          (hostPasses target).flatMap (around placed) := by
        apply List.flatMap_congr
        intro pass _
        apply around_cons_of_ne
        rw [near]
        simp
      unfold merged
      rw [hosts, slot_cons, slot_cons]
      cases place : p.placement with
      | first => exact List.Perm.refl _
      | last =>
          rw [if_neg (by simp), if_pos rfl, List.map_cons, ← List.append_assoc]
          exact List.perm_middle.trans (List.Perm.cons _ (by rw [List.append_assoc]))
      | before name =>
          rw [place] at near
          cases near
      | after name =>
          rw [place] at near
          cases near
  | some anchor =>
      have known : anchor ∈ hostNames target := by
        by_contra missing
        exact anchored ⟨anchor, near, missing⟩
      have first : p.placement ≠ .first := by
        intro same
        rw [same] at near
        cases near
      have last : p.placement ≠ .last := by
        intro same
        rw [same] at near
        cases near
      unfold merged
      rw [slot_cons, slot_cons, if_neg first, if_neg last]
      apply List.Perm.trans _ List.perm_middle
      apply List.Perm.append_left
      exact (flatMap_around_cons_perm (hostNames_nodup target) near known placed).append_right _

/-- The merge has every pass of a plugin and every pass of the host once. -/
theorem merged_perm {target : Target} {placed : List Placed}
    (anchored : ∀ p ∈ placed, ¬ p.Strays target) :
    (merged target placed).Perm (placed.map .plugin ++ (hostPasses target).map .host) := by
  induction placed with
  | nil =>
      have alone : merged target [] = (hostPasses target).map .host := by
        show [] ++ ((hostPasses target).flatMap (fun pass => [Entry.host pass]) ++ []) = _
        rw [List.nil_append, List.append_nil, ← List.map_eq_flatMap]
      rw [alone]
      exact List.Perm.refl _
  | cons p rest ih =>
      rw [List.forall_mem_cons] at anchored
      exact (merged_cons_perm anchored.1 rest).trans ((ih anchored.2).cons _)

/-- Without the passes of plugins the merge is the sequence of the host. -/
theorem filterMap_host?_merged (target : Target) (placed : List Placed) :
    (merged target placed).filterMap Entry.host? = hostPasses target := by
  have plugins : ∀ some : List Placed, (some.map Entry.plugin).filterMap Entry.host? = [] := by
    intro some
    rw [List.filterMap_map, List.filterMap_eq_nil_iff]
    intro p _
    rfl
  have hosts : ∀ passes : List Extension.Pass,
      (passes.flatMap (around placed)).filterMap Entry.host? = passes := by
    intro passes
    induction passes with
    | nil => rfl
    | cons pass rest ih =>
        have here : (around placed pass).filterMap Entry.host? = [pass] := by
          rw [around, List.filterMap_append, List.filterMap_cons, plugins, plugins]
          rfl
        rw [List.flatMap_cons, List.filterMap_append, here, ih, List.singleton_append]
  rw [merged, List.filterMap_append, List.filterMap_append, plugins, plugins, hosts, List.append_nil,
    List.nil_append]

end Counting

/-- A registered lowering pass with its identity. -/
def passStep? (record : Registry.Record) : Option Step :=
  match record.extension with
  | .lowering pass => some ⟨record.id.text, pass⟩
  | _ => none

/-- The passes of plugins are those that are registered. -/
theorem placedPasses_perm (registry : Registry) :
    ((placedPasses registry).map (·.step)).Perm (registry.records.filterMap passStep?) := by
  have steps : (placedPasses registry).map (·.step) =
      (registry.extensionsFor .irLowering).filterMap passStep? := by
    unfold placedPasses Registry.loweringPasses
    rw [List.map_map, List.map_filterMap]
    apply List.filterMap_congr
    intro record _
    unfold passStep?
    cases record.extension <;> rfl
  have lowering : (registry.records.filter (·.point == .irLowering)).filterMap passStep? =
      registry.records.filterMap passStep? := by
    rw [List.filterMap_filter]
    apply List.filterMap_congr
    intro record _
    unfold passStep? Registry.Record.point
    cases record.extension <;> rfl
  rw [steps, ← lowering]
  exact (List.mergeSort_perm _ _).filterMap _

/-- A plan has every registered pass and every host pass once. -/
theorem steps_perm {target : Target} {registry : Registry} {plan : Plan}
    (built : build target registry = .ok plan) :
    plan.steps.Perm (registry.records.filterMap passStep? ++ (hostPasses target).map hostStep) := by
  obtain ⟨anchored, rfl⟩ := build_eq_ok_iff.mp built
  have once := (merged_perm anchored).map Entry.step
  rw [List.map_append, List.map_map, List.map_map] at once
  exact once.trans ((placedPasses_perm registry).append_right _)

/-- The plan of a registry for a target.  There is none exactly if a pass is placed next to a pass that
the target does not have, and the mistake is that of the first such pass.  Otherwise the plan is the
merge, which has every registered pass and every host pass once and the host passes in their order. -/
theorem build_merges (target : Target) (registry : Registry) :
    (∀ e, build target registry = .error e ↔
      ∃ front p back anchor, placedPasses registry = front ++ p :: back ∧
        (∀ q ∈ front, ¬ q.Strays target) ∧ p.StraysTo target anchor ∧
        e = .unknownAnchor p.step.id anchor target (hostNames target)) ∧
    (∀ plan, build target registry = .ok plan ↔
      (∀ p ∈ placedPasses registry, ¬ p.Strays target) ∧
        plan = ⟨target, (merged target (placedPasses registry)).map Entry.step⟩) ∧
    (∀ plan, build target registry = .ok plan →
      plan.steps.Perm (registry.records.filterMap passStep? ++ (hostPasses target).map hostStep)) ∧
    (merged target (placedPasses registry)).filterMap Entry.host? = hostPasses target := by
  exact ⟨fun _ => build_eq_error_iff, fun _ => build_eq_ok_iff, fun _ => steps_perm,
    filterMap_host?_merged target _⟩

/-- A pass that does nothing. -/
def restful (name : String) : Extension.Pass := { name, run := fun _ m => { module := m } }

/-- Passes of a plugin in all kinds of places, one of them with a later order key. -/
def scattered : Registry :=
  [("tail", .last, 0), ("head", .first, 0), ("late", .after "fold-constants", 5),
    ("post", .after "fold-constants", 0), ("pre", .before "eliminate-dead-code", 0)].foldl
    (fun r (name, placement, order) =>
      r.push ⟨"p", name⟩ (.lowering (restful name)) (some order) (some placement)) .empty

theorem placedPasses_scattered : placedPasses scattered =
    [⟨.last, ⟨"p/tail", restful "tail"⟩⟩, ⟨.first, ⟨"p/head", restful "head"⟩⟩,
      ⟨.after "fold-constants", ⟨"p/post", restful "post"⟩⟩,
      ⟨.before "eliminate-dead-code", ⟨"p/pre", restful "pre"⟩⟩,
      ⟨.after "fold-constants", ⟨"p/late", restful "late"⟩⟩] := by
  simp [placedPasses, Registry.loweringPasses, Registry.extensionsFor, scattered, Registry.push,
    Registry.empty, List.mergeSort, Registry.Record.le, Registry.Record.point, Extension.point,
    Extension.Id.text]

theorem build_merges_scattered :
    (∃ plan, build .native scattered = .ok plan ∧
      plan.names = ["p/head", "host/fold-constants", "p/post", "p/late", "p/pre",
        "host/eliminate-dead-code", "host/flatten-blocks", "p/tail"] ∧
      plan.steps.Perm (scattered.records.filterMap passStep? ++ (hostPasses .native).map hostStep)) ∧
    ∃ front p back, placedPasses scattered = front ++ p :: back ∧
      (∀ q ∈ front, ¬ q.Strays .bundle) ∧ p.StraysTo .bundle "eliminate-dead-code" ∧
      build .bundle scattered =
        .error (.unknownAnchor "p/pre" "eliminate-dead-code" .bundle ["fold-constants"]) := by
  have native : ((build .native scattered).map names) = .ok ["p/head", "host/fold-constants",
      "p/post", "p/late", "p/pre", "host/eliminate-dead-code", "host/flatten-blocks", "p/tail"] := by
    unfold build
    rw [placedPasses_scattered]
    decide +kernel
  have bundle : ((build .bundle scattered).map names) =
      .error (.unknownAnchor "p/pre" "eliminate-dead-code" .bundle ["fold-constants"]) := by
    unfold build
    rw [placedPasses_scattered]
    decide +kernel
  constructor
  · cases built : build .native scattered with
    | error e =>
        rw [built] at native
        cases native
    | ok plan =>
        rw [built] at native
        exact ⟨plan, rfl, Except.ok.inj native, (build_merges .native scattered).2.2.1 plan built⟩
  · cases failed : build .bundle scattered with
    | ok plan =>
        rw [failed] at bundle
        cases bundle
    | error e =>
        rw [failed] at bundle
        obtain rfl := Except.error.inj bundle
        obtain ⟨front, p, back, anchor, split, anchored, strays, same⟩ :=
          ((build_merges .bundle scattered).1 _).mp failed
        obtain ⟨-, rfl, -, -⟩ := ConfigError.unknownAnchor.inj same
        exact ⟨front, p, back, split, anchored, strays, rfl⟩

end Lowering.Plan

end StagedCompiler
