import StagedCompiler.Proofs.Registry.Insertion

/-!
# What a registry holds

A registry after any registrations, of which some may have been refused.

* A registration is refused if its extension is not one for its point, or else if its identity is taken
  there, and for no other reason (`refusals`).
* The records are those of the registrations that were accepted, numbered in the order in which they
  were, across all points (`Holds`); one registration keeps this (`Holds.attempt`), so any number of them
  does (`Holds.behind`).
* So a point lists its registrations in ascending order of order key and number (`Holds.lists`).
-/

namespace StagedCompiler.Registry

/-! ## Registrations that may be refused -/

/-- The registry behind a registration.  One that is refused leaves the registry as it is. -/
def attempt (r : Registry) (g : Registration) : Registry :=
  match r.enlist g with
  | .ok r' => r'
  | .error _ => r

/-- The registry behind registrations one after another. -/
def behind (r : Registry) (gs : List Registration) : Registry :=
  gs.foldl attempt r

/-- Which of some registrations one after another are accepted. -/
def accepted (r : Registry) : List Registration → List Registration
  | [] => []
  | g :: rest =>
    match r.enlist g with
    | .ok _ => g :: (r.attempt g).accepted rest
    | .error _ => (r.attempt g).accepted rest

/-- What a registry starts with: nothing, or the host's own extensions. -/
inductive Beginning : Type where
  | bare
  | withHost

/-- The registry that a beginning is. -/
def Beginning.registry : Beginning → Registry
  | .bare => .empty
  | .withHost => .host

/-- The registrations that a beginning consists of. -/
def Beginning.registrations : Beginning → List Registration
  | .bare => []
  | .withHost => [⟨hostPlugin, .syntheticDescriptors, .resolver Extension.builtins, none, none⟩]

/-! ## The invariant -/

/-- A registry holds the records of registrations: each has the number of its place among them, is made
for its point, and has an identity of its own there. -/
structure Holds (r : Registry) (gs : List Registration) : Prop where
  records : r.records = gs.zipIdx.map fun entry => entry.1.record entry.2
  own : ∀ g ∈ gs, g.extension.point = g.point
  distinct : gs.Pairwise fun g h => g.point = h.point → g.id ≠ h.id

/-- When a registration is refused, and why. -/
structure Refusals (r : Registry) (g : Registration) : Prop where
  mismatch : r.enlist g = .error (.pointMismatch g.id.text g.point g.extension.point) ↔
    g.extension.point ≠ g.point
  duplicate : r.enlist g = .error (.duplicateRegistration g.id.text g.point) ↔
    g.extension.point = g.point ∧ ∃ record ∈ r.records, record.point = g.point ∧ record.id = g.id
  only : ∀ e, r.enlist g = .error e → e = .pointMismatch g.id.text g.point g.extension.point ∨
    e = .duplicateRegistration g.id.text g.point
  unchanged : ∀ e, r.enlist g = .error e → r.attempt g = r

/-- What is listed for a point when registrations were accepted: theirs for that point, with pairwise
distinct identities and in ascending order of order key and number.  Lowering passes have a place. -/
structure Lists (gs : List Registration) (point : Extension.Point) (listed : List Record) : Prop where
  exactly : ∀ record, record ∈ listed ↔
    ∃ g, gs[record.sequence]? = some g ∧ g.point = point ∧ record = g.record record.sequence
  identities : (listed.map Record.id).Nodup
  ascending : listed.Pairwise fun a b =>
    a.order < b.order ∨ a.order = b.order ∧ a.sequence < b.sequence
  placed : ∀ record ∈ listed, record.placement.isSome = true ↔ point = .irLowering

theorem isTaken_iff (r : Registry) (point : Extension.Point) (id : Extension.Id) :
    r.isTaken point id = true ↔ ∃ record ∈ r.records, record.point = point ∧ record.id = id := by
  simp only [isTaken, List.any_eq_true, Bool.and_eq_true, beq_iff_eq]

theorem refusals (r : Registry) (g : Registration) : r.Refusals g := by
  have unchanged : ∀ e, r.enlist g = .error e → r.attempt g = r := by
    intro e refused
    rw [attempt, refused]
  by_cases own : g.extension.point = g.point
  · have rest := enlist_eq r g
    rw [if_neg (not_not.mpr own)] at rest
    by_cases taken : r.isTaken g.point g.id = true
    · rw [if_pos taken] at rest
      constructor
      · simp [rest, own]
      · exact iff_of_true rest ⟨own, (isTaken_iff _ _ _).mp taken⟩
      · rintro e refused
        exact Or.inr (Except.error.inj (refused.symm.trans rest))
      · exact unchanged
    · rw [if_neg taken] at rest
      constructor
      · simp [rest, own]
      · refine iff_of_false (by simp [rest]) fun both => ?_
        exact taken ((isTaken_iff _ _ _).mpr both.2)
      · intro e refused
        cases refused.symm.trans rest
      · exact unchanged
  · have refused := enlist_eq r g
    rw [if_pos own] at refused
    constructor
    · exact iff_of_true refused own
    · exact iff_of_false (by simp [refused]) fun both => own both.1
    · intro e other
      exact Or.inl (Except.error.inj (other.symm.trans refused))
    · exact unchanged

namespace Holds

variable {r : Registry} {gs : List Registration}

theorem mem_records (holds : r.Holds gs) {record : Record} :
    record ∈ r.records ↔
      ∃ (number : Nat) (g : Registration), gs[number]? = some g ∧ record = g.record number := by
  rw [holds.records, List.mem_map]
  constructor
  · rintro ⟨⟨g, number⟩, member, rfl⟩
    exact ⟨number, g, List.mem_zipIdx_iff_getElem?.mp member, rfl⟩
  · rintro ⟨number, g, found, rfl⟩
    exact ⟨(g, number), List.mem_zipIdx_iff_getElem?.mpr found, rfl⟩

theorem length_eq (holds : r.Holds gs) : r.records.length = gs.length := by
  rw [holds.records, List.length_map, List.length_zipIdx]

theorem sequences (holds : r.Holds gs) : (r.records.map Record.sequence).Nodup := by
  have numbers : r.records.map Record.sequence = List.range' 0 gs.length := by
    rw [holds.records, List.map_map]
    exact List.zipIdx_map_snd 0 gs
  rw [numbers]
  exact List.nodup_range'

theorem identities (holds : r.Holds gs) :
    r.records.Pairwise fun a b => a.point = b.point → a.id ≠ b.id := by
  have distinct := holds.distinct
  rw [← List.zipIdx_map_fst 0 gs, List.pairwise_map] at distinct
  rw [holds.records, List.pairwise_map]
  refine distinct.imp_of_mem ?_
  intro a b first second apart same
  have own := fun (entry : Registration × Nat) (member : entry ∈ gs.zipIdx) =>
    holds.own entry.1 (List.mem_of_getElem? (List.mem_zipIdx_iff_getElem?.mp member))
  exact apart (((own a first).symm.trans same).trans (own b second))

/-- An accepted registration is held behind the others. -/
theorem enlist (holds : r.Holds gs) {g : Registration} {r' : Registry}
    (enlisted : r.enlist g = .ok r') : r'.Holds (gs ++ [g]) := by
  rw [enlist_eq] at enlisted
  split at enlisted
  · cases enlisted
  rename_i own
  split at enlisted
  · cases enlisted
  rename_i free
  obtain rfl := Except.ok.inj enlisted
  refine ⟨?_, ?_, ?_⟩
  · rw [List.zipIdx_append, List.map_append, ← holds.records, Nat.zero_add, ← holds.length_eq]
    rfl
  · rw [List.forall_mem_append, List.forall_mem_singleton]
    exact ⟨holds.own, not_not.mp own⟩
  · rw [List.pairwise_append]
    refine ⟨holds.distinct, List.pairwise_singleton _ _, fun h member other there => ?_⟩
    obtain rfl := List.mem_singleton.mp there
    intro same id
    obtain ⟨number, found⟩ := List.mem_iff_getElem?.mp member
    have held : h.record number ∈ r.records := holds.mem_records.mpr ⟨number, h, found, rfl⟩
    exact free ((isTaken_iff _ _ _).mpr ⟨_, held, (holds.own h member).trans same, id⟩)

/-- One registration, accepted or refused. -/
theorem attempt (holds : r.Holds gs) (g : Registration) :
    (r.attempt g).Holds (gs ++ if (r.enlist g).isOk then [g] else []) := by
  cases enlisted : r.enlist g with
  | ok r' =>
      rw [Registry.attempt, enlisted]
      exact holds.enlist enlisted
  | error e =>
      rw [Registry.attempt, enlisted]
      simpa [Except.isOk, Except.toBool] using holds

/-- Any number of registrations. -/
theorem behind (holds : r.Holds gs) (more : List Registration) :
    (r.behind more).Holds (gs ++ r.accepted more) := by
  induction more generalizing r gs with
  | nil => rwa [accepted, List.append_nil]
  | cons g rest ih =>
      have first := holds.attempt g
      have later := ih first
      rw [accepted]
      cases enlisted : r.enlist g with
      | ok r' => rwa [enlisted, List.append_assoc] at later
      | error e => rwa [enlisted, List.append_assoc] at later

theorem beginning (b : Beginning) : b.registry.Holds b.registrations := by
  have bare : empty.Holds [] := ⟨rfl, fun _ member => (by cases member), .nil⟩
  cases b with
  | bare => exact bare
  | withHost => exact bare.enlist (g := ⟨hostPlugin, _, .resolver Extension.builtins, none, none⟩) rfl

/-- The records of a point in order. -/
theorem lists (holds : r.Holds gs) (point : Extension.Point) :
    Lists gs point (r.extensionsFor point) := by
  have mem_iff : ∀ record, record ∈ r.extensionsFor point ↔
      record ∈ r.records ∧ record.point = point := by
    intro record
    rw [extensionsFor, List.mem_mergeSort, List.mem_filter, beq_iff_eq]
  have perm : (r.extensionsFor point).Perm (r.records.filter (·.point == point)) :=
    List.mergeSort_perm _ _
  constructor
  · intro record
    rw [mem_iff, holds.mem_records]
    constructor
    · rintro ⟨⟨number, g, found, rfl⟩, there⟩
      exact ⟨g, found, (holds.own g (List.mem_of_getElem? found)).symm.trans there, rfl⟩
    · rintro ⟨g, found, there, same⟩
      refine ⟨⟨_, g, found, same⟩, ?_⟩
      rw [same]
      exact (holds.own g (List.mem_of_getElem? found)).trans there
  · have apart : (r.records.filter (·.point == point)).Pairwise fun a b => a.id ≠ b.id := by
      refine (holds.identities.filter (·.point == point)).imp_of_mem ?_
      intro a b first second apart
      exact apart ((beq_iff_eq.mp (List.mem_filter.mp first).2).trans
        (beq_iff_eq.mp (List.mem_filter.mp second).2).symm)
    rw [(perm.map Record.id).nodup_iff]
    exact List.pairwise_map.mpr apart
  · have sorted : (r.extensionsFor point).Pairwise fun a b => a.le b = true :=
      List.pairwise_mergeSort Record.le_trans Record.le_total _
    have apart : (r.extensionsFor point).Pairwise fun a b => a.sequence ≠ b.sequence := by
      rw [← List.pairwise_map (f := Record.sequence) (R := (· ≠ ·))]
      rw [← List.Nodup, (perm.map Record.sequence).nodup_iff]
      exact holds.sequences.sublist (List.filter_sublist.map _)
    refine (sorted.and apart).imp fun both => ?_
    have ordered := both.1
    simp only [Record.le, Bool.or_eq_true, decide_eq_true_eq, Bool.and_eq_true, beq_iff_eq] at ordered
    omega
  · intro record member
    obtain ⟨held, rfl⟩ := (mem_iff record).mp member
    obtain ⟨number, g, _, rfl⟩ := holds.mem_records.mp held
    rcases g with ⟨plugin, point, extension, order, placement⟩
    cases extension <;> simp [Registration.record, Registration.place?, Record.point, Extension.point]

end Holds

/-- Whatever is registered, in whatever order and with whatever success: a registration is refused for
the stated reasons alone, and every point lists what was accepted for it. -/
theorem registry_invariant (b : Beginning) (gs : List Registration) :
    (∀ r : Registry, ∀ plugin point extension order,
      r.register plugin point extension order = r.enlist ⟨plugin, point, extension, order, none⟩) ∧
    (∀ g, (b.registry.behind gs).Refusals g) ∧
    ∀ point, Lists (b.registrations ++ b.registry.accepted gs) point
      ((b.registry.behind gs).extensionsFor point) := by
  have holds := (Holds.beginning b).behind gs
  exact ⟨fun _ _ _ _ _ => rfl, refusals _, holds.lists⟩

end StagedCompiler.Registry
